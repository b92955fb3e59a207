import Mathlib.Tactic
import Aiokpl.Aggregation

/-!
# Reading back what the encoder writes, field by field

The varint reader inverts the varint writer on every `uint64`, and each field
written by `_encode_length_delimited` or `_encode_uint64_field` is one turn of
the message loop that reads it.  The loops move strictly forward, so the fuel of
`scan` never runs out before the buffer does.
-/

namespace Aiokpl.Aggregation

open Lib Lib.Cursor

/-! ## Varints -/

theorem encodeVarint_small {value : Nat} (h : value ≤ 0x7F) :
    encodeVarint value = [UInt8.ofNat (value &&& 0x7F)] := by
  rw [encodeVarint, if_neg (by omega)]

theorem encodeVarint_large {value : Nat} (h : 0x7F < value) :
    encodeVarint value =
      UInt8.ofNat ((value &&& 0x7F) ||| 0x80) :: encodeVarint (value >>> 7) := by
  rw [encodeVarint, if_pos h]

theorem encodeVarint_ne_nil (value : Nat) : encodeVarint value ≠ [] := by
  rw [encodeVarint]
  split <;> simp

theorem low_seven (value : Nat) : value &&& 0x7F = value % 128 :=
  Nat.and_two_pow_sub_one_eq_mod value 7

theorem toNat_last (value : Nat) : (UInt8.ofNat (value &&& 0x7F)).toNat = value % 128 := by
  rw [low_seven, UInt8.toNat_ofNat']
  omega

theorem toNat_continued (value : Nat) :
    (UInt8.ofNat ((value &&& 0x7F) ||| 0x80)).toNat = value % 128 + 128 := by
  rw [low_seven, Nat.or_two_pow_eq_add_of_lt (n := 7) (by omega), UInt8.toNat_ofNat']
  omega

theorem last_continues (value : Nat) : value % 128 &&& 0x80 = 0 := by
  refine Nat.eq_of_testBit_eq fun i => ?_
  rw [Nat.testBit_and, Nat.zero_testBit, Nat.testBit_two_pow (n := 7)]
  by_cases hi : 7 = i
  · subst hi
    have hlt : value % 128 < 2 ^ 7 := by omega
    simp [Nat.testBit_lt_two_pow hlt]
  · simp [hi]

theorem continued_continues (value : Nat) : (value % 128 + 128) &&& 0x80 ≠ 0 := by
  rw [← Nat.or_two_pow_eq_add_of_lt (n := 7) (by omega), Nat.and_or_distrib_right, last_continues]
  decide

/-- The low seven bits and the rest make up the value, at any shift. -/
theorem low_or_high (value shift : Nat) :
    ((value &&& 0x7F) <<< shift) ||| ((value >>> 7) <<< (shift + 7)) = value <<< shift := by
  rw [Nat.add_comm, Nat.shiftLeft_add, ← Nat.shiftLeft_or_distrib, low_seven, Nat.or_comm,
    Nat.shiftLeft_eq _ 7, Nat.shiftRight_eq_div_pow, Nat.mul_comm,
    ← Nat.two_pow_add_eq_or_of_lt (by omega)]
  congr 1
  omega

theorem item_eq_ok {α : Type} {xs : List α} {index : Nat} {x : α} (h : xs[index]? = some x) :
    item xs index = .ok x := by
  rw [item, h]

theorem decodeVarintLoop_nil {buf : Bytes} {pos : Nat} (h : buf.drop pos = [])
    (shift result : Nat) :
    decodeVarintLoop buf pos shift result = .error (.valueError "truncated varint") := by
  rw [decodeVarintLoop, if_pos (List.drop_eq_nil_iff.mp h)]

/-- One turn of the loop, in front of a byte. -/
theorem decodeVarintLoop_cons {buf rest : Bytes} {pos : Nat} {b : UInt8}
    (h : buf.drop pos = b :: rest) (shift result : Nat) :
    decodeVarintLoop buf pos shift result =
      if b.toNat &&& 0x80 = 0 then .ok (result ||| ((b.toNat &&& 0x7F) <<< shift), pos + 1)
      else if shift + 7 ≥ 64 then .error (.valueError "varint too long")
      else decodeVarintLoop buf (pos + 1) (shift + 7)
        (result ||| ((b.toNat &&& 0x7F) <<< shift)) := by
  have hbyte : buf[pos]? = some b := by
    rw [← Nat.add_zero pos, ← List.getElem?_drop, h]
    rfl
  have hlt : ¬ pos ≥ buf.length := not_le.mpr (List.getElem?_eq_some_iff.mp hbyte).1
  rw [decodeVarintLoop, if_neg hlt, item_eq_ok hbyte]
  rfl

theorem drop_succ {buf rest : Bytes} {pos : Nat} {b : UInt8} (h : buf.drop pos = b :: rest) :
    buf.drop (pos + 1) = rest := by
  rw [← List.drop_drop, h]
  rfl

/-- `_decode_varint` from `shift` on reads the remaining bits of a `uint64`. -/
theorem decodeVarintLoop_encodeVarint {buf : Bytes} (rest : Bytes) :
    ∀ (value pos shift result : Nat), shift < 64 → value < 2 ^ (64 - shift) →
      buf.drop pos = encodeVarint value ++ rest →
      decodeVarintLoop buf pos shift result =
        .ok (result ||| (value <<< shift), pos + (encodeVarint value).length) := by
  intro value
  induction value using Nat.strong_induction_on with
  | _ value ih =>
    intro pos shift result hshift hvalue hdrop
    by_cases hsmall : value ≤ 0x7F
    · rw [encodeVarint_small hsmall] at hdrop ⊢
      rw [decodeVarintLoop_cons hdrop]
      simp only [toNat_last, last_continues, if_true, List.length_singleton]
      rw [low_seven, Nat.mod_mod, Nat.mod_eq_of_lt (by omega)]
    · -- a further byte is written only while `shift + 7` still fits in 64 bits
      have hnext : shift + 7 < 64 := by
        by_contra hge
        have hpow : 2 ^ (64 - shift) ≤ 2 ^ 7 := Nat.pow_le_pow_right (by omega) (by omega)
        omega
      have hrest : value >>> 7 < 2 ^ (64 - (shift + 7)) := by
        rw [Nat.shiftRight_eq_div_pow, Nat.div_lt_iff_lt_mul (by positivity), ← pow_add]
        convert hvalue using 2
        omega
      have hless : value >>> 7 < value := by
        rw [Nat.shiftRight_eq_div_pow]
        omega
      have hlow : (value % 128 + 128) &&& 0x7F = value &&& 0x7F := by
        rw [low_seven, low_seven]
        omega
      rw [encodeVarint_large (by omega)] at hdrop ⊢
      rw [decodeVarintLoop_cons hdrop]
      simp only [toNat_continued, continued_continues, if_false, hlow]
      rw [if_neg (by omega), ih _ hless (pos + 1) (shift + 7) _ hnext hrest (drop_succ hdrop),
        Nat.or_assoc, low_or_high, List.length_cons]
      congr 2
      omega

/-- **Every `uint64` is read back from its varint.** -/
theorem decodeVarint_reads {value : Nat} (h : value < 2 ^ 64) :
    Reads decodeVarint (encodeVarint value) value := by
  intro pre post
  have hdrop :
      (pre ++ encodeVarint value ++ post).drop pre.length = encodeVarint value ++ post := by
    simp
  rw [decodeVarint, decodeVarintLoop_encodeVarint post value _ 0 0 (by omega) h hdrop]
  simp

theorem decodeVarintLoop_advances {buf : Bytes} :
    ∀ (bs : Bytes) (pos shift result value pos' : Nat), buf.drop pos = bs →
      decodeVarintLoop buf pos shift result = .ok (value, pos') → pos < pos'
  | [], _, _, _, _, _, hdrop, h => by
    rw [decodeVarintLoop_nil hdrop] at h
    cases h
  | b :: rest, pos, shift, result, value, pos', hdrop, h => by
    rw [decodeVarintLoop_cons hdrop] at h
    split at h
    · simp only [Except.ok.injEq, Prod.mk.injEq] at h
      omega
    · split at h
      · simp at h
      · have ih := decodeVarintLoop_advances rest _ _ _ _ _ (drop_succ hdrop) h
        omega

theorem decodeVarint_advances : Advances decodeVarint := by
  intro buf pos value pos' h
  exact decodeVarintLoop_advances _ _ _ _ _ _ rfl h

/-! ## Fields -/

/-- The slice a length-delimited field holds. -/
theorem readDelimited_reads (truncated : String) {payload : Bytes} (h : payload.length < 2 ^ 64) :
    Reads (readDelimited truncated) (encodeVarint payload.length ++ payload) payload := by
  refine (decodeVarint_reads h).andThen fun pre post => ?_
  have hfits : ¬ pre.length + payload.length > (pre ++ payload ++ post).length := by
    simp only [List.length_append]
    omega
  have hslice : ((pre ++ payload ++ post).drop pre.length).take payload.length = payload := by
    simp
  rw [if_neg hfits, hslice, List.length_append]

theorem delimitedField_reads {σ : Type} (truncated : String) {update : Bytes → Except Error σ}
    {payload : Bytes} {s : σ} (h : payload.length < 2 ^ 64) (hupdate : update payload = .ok s) :
    Reads (delimitedField truncated update) (encodeVarint payload.length ++ payload) s :=
  (readDelimited_reads truncated h).convert hupdate

theorem varintField_reads {σ : Type} (update : Nat → σ) {value : Nat} (h : value < 2 ^ 64) :
    Reads (varintField update) (encodeVarint value) (update value) :=
  (decodeVarint_reads h).convert rfl

/-- A field's tag is split back into its number and wire type. -/
theorem readField_reads {σ : Type} {field : Nat → Nat → Reader Error UInt8 σ}
    {fieldNumber wireType : Nat} {body : Bytes} {s : σ} (hnumber : fieldNumber < 2 ^ 61)
    (hwire : wireType < 8) (hbody : Reads (field fieldNumber wireType) body s) :
    Reads (readField field) (encodeTag fieldNumber wireType ++ body) s := by
  have hsum : (fieldNumber <<< 3) ||| wireType = 2 ^ 3 * fieldNumber + wireType := by
    rw [Nat.two_pow_add_eq_or_of_lt (by omega), Nat.shiftLeft_eq, Nat.mul_comm]
  refine (decodeVarint_reads (by omega)).andThen ?_
  have hlow : (2 ^ 3 * fieldNumber + wireType) &&& 0x07 = wireType := by
    rw [Nat.and_two_pow_sub_one_eq_mod _ 3]
    omega
  have hhigh : (2 ^ 3 * fieldNumber + wireType) >>> 3 = fieldNumber := by
    rw [Nat.shiftRight_eq_div_pow]
    omega
  rw [hsum, hlow, hhigh]
  exact hbody

theorem encodeTag_ne_nil (fieldNumber wireType : Nat) : encodeTag fieldNumber wireType ≠ [] :=
  encodeVarint_ne_nil _

/-- A length-delimited field is one turn of the loop that handles its number. -/
theorem scans_lengthDelimited {σ : Type} {field : σ → Nat → Nat → Reader Error UInt8 σ}
    {fieldNumber : Nat} {payload : Bytes} {s s' : σ} (hnumber : fieldNumber < 2 ^ 61)
    (hfield : Reads (field s fieldNumber wireLengthDelimited)
      (encodeVarint payload.length ++ payload) s') :
    Scans (fun s => readField (field s)) (encodeLengthDelimited fieldNumber payload) s s' := by
  refine Scans.single (by simp [encodeLengthDelimited, encodeTag_ne_nil]) ?_
  exact readField_reads hnumber (by decide) hfield

/-- A varint field is one turn of the loop that handles its number. -/
theorem scans_uint64Field {σ : Type} {field : σ → Nat → Nat → Reader Error UInt8 σ}
    {fieldNumber value : Nat} {s s' : σ} (hnumber : fieldNumber < 2 ^ 61)
    (hfield : Reads (field s fieldNumber wireVarint) (encodeVarint value) s') :
    Scans (fun s => readField (field s)) (encodeUint64Field fieldNumber value) s s' := by
  refine Scans.single (by simp [encodeUint64Field, encodeTag_ne_nil]) ?_
  exact readField_reads hnumber (by decide) hfield

/-! ## The loops move forward -/

theorem readDelimited_advances (truncated : String) : Advances (readDelimited truncated) := by
  intro buf pos chunk pos' h
  simp only [readDelimited, Reader.andThen, bind, Except.bind] at h
  split at h
  · simp at h
  · rename_i out hout
    have hvarint := decodeVarint_advances buf pos out.1 out.2 hout
    split at h
    · simp at h
    · simp only [Except.ok.injEq, Prod.mk.injEq] at h
      omega

theorem delimitedField_advances {σ : Type} (truncated : String) (update : Bytes → Except Error σ) :
    Advances (delimitedField truncated update) :=
  (readDelimited_advances truncated).convert update

theorem varintField_advances {σ : Type} (update : Nat → σ) : Advances (varintField update) :=
  decodeVarint_advances.convert _

theorem skipUnknown_advances {σ : Type} (wireType : Nat) (s : σ) :
    Advances (skipUnknown wireType s) := by
  unfold skipUnknown
  split
  · exact decodeVarint_advances.convert _
  · split
    · exact (readDelimited_advances _).convert _
    · intro buf pos a pos' h
      simp at h

theorem readField_advances {σ : Type} {field : Nat → Nat → Reader Error UInt8 σ}
    (h : ∀ fieldNumber wireType, Advances (field fieldNumber wireType)) :
    Advances (readField field) :=
  decodeVarint_advances.andThen fun _ => h _ _

theorem tagField_advances (s : TagFields) : Advances (tagField s) := by
  refine readField_advances fun fieldNumber wireType => ?_
  split
  · exact delimitedField_advances _ _
  · split
    · exact delimitedField_advances _ _
    · exact skipUnknown_advances _ s

theorem recordField_advances (s : RecordFields) : Advances (recordField s) := by
  refine readField_advances fun fieldNumber wireType => ?_
  split
  · exact varintField_advances _
  · split
    · exact varintField_advances _
    · split
      · exact delimitedField_advances _ _
      · split
        · exact delimitedField_advances _ _
        · exact skipUnknown_advances _ s

theorem envelopeField_advances (s : EnvelopeFields) : Advances (envelopeField s) := by
  refine readField_advances fun fieldNumber wireType => ?_
  split
  · exact delimitedField_advances _ _
  · split
    · exact delimitedField_advances _ _
    · split
      · exact delimitedField_advances _ _
      · exact skipUnknown_advances _ s

end Aiokpl.Aggregation
