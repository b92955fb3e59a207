import Aiokpl.AggregationRoundTrip
import Aiokpl.Lib.WireFormat

/-!
# What the decoder accepts

Each loop reads one tagged field a turn and folds what the field does into its local
variables: a field that is not of the schema, by its number or by its wire type, does
nothing.  So a message is accepted exactly if it is a sequence of complete fields whose
strings and nested messages are accepted, and means what its fields say.  A tenth byte of a
varint is read whatever it adds, so that not every number that is read is a `uint64`.
Every read stands behind a test of its index, so none is past the end of what it reads.
-/

namespace Aiokpl.Aggregation

open Lib Lib.Cursor Lib.WireFormat

/-! ## Varints -/

theorem continues_iff (b : UInt8) : b.toNat &&& 0x80 = 0 ↔ b.toNat < 128 := by
  have hbyte : b.toNat < 256 := b.toNat_lt
  constructor
  · intro h
    by_contra hge
    have hrest : b.toNat = b.toNat % 128 + 128 := by omega
    rw [hrest] at h
    exact continued_continues b.toNat h
  · intro h
    rw [← Nat.mod_eq_of_lt h]
    exact last_continues b.toNat

/-- The bytes behind the first hold the rest of the number, at any shift. -/
theorem digits_cons (b : UInt8) (rest : Bytes) (shift : Nat) :
    ((b.toNat &&& 0x7F) <<< shift) ||| (digits rest <<< (shift + 7)) =
      digits (b :: rest) <<< shift := by
  have hlow : digits (b :: rest) &&& 0x7F = b.toNat &&& 0x7F := by
    rw [low_seven, low_seven, digits]
    omega
  have hhigh : digits (b :: rest) >>> 7 = digits rest := by
    rw [Nat.shiftRight_eq_div_pow, digits]
    omega
  rw [← low_or_high (digits (b :: rest)) shift, hlow, hhigh]

/-- `_decode_varint` after `k` bytes. -/
theorem decodeVarintLoop_ok_iff {buf : Bytes} : ∀ (bytes : Bytes) (pos k result n pos' : Nat),
    buf.drop pos = bytes → k ≤ 9 → (decodeVarintLoop buf pos (7 * k) result = .ok (n, pos') ↔
      ∃ bs post, bytes = bs ++ post ∧ Terminated bs ∧ bs.length ≤ 10 - k ∧
        n = result ||| (digits bs <<< (7 * k)) ∧ pos' = pos + bs.length)
  | [], pos, k, result, n, pos', hdrop, _ => by
    rw [decodeVarintLoop_nil hdrop]
    constructor
    · intro h
      cases h
    · rintro ⟨bs, post, hbytes, hbs, _⟩
      exact absurd (List.append_eq_nil_iff.mp hbytes.symm).1 hbs.ne_nil
  | b :: rest, pos, k, result, n, pos', hdrop, hk => by
    rw [decodeVarintLoop_cons hdrop]
    simp only [continues_iff]
    by_cases hlast : b.toNat < 128
    · have hvalue : digits [b] = b.toNat &&& 0x7F := by
        rw [low_seven]
        rfl
      rw [if_pos hlast, Except.ok.injEq, Prod.mk.injEq]
      constructor
      · rintro ⟨rfl, rfl⟩
        exact ⟨[b], rest, rfl, .last hlast, by simp only [List.length_singleton]; omega,
          by rw [hvalue], rfl⟩
      · rintro ⟨bs, post, hbytes, hbs, _, rfl, rfl⟩
        obtain ⟨rfl, -⟩ := hbs.unique (.last hlast) hbytes.symm
        rw [hvalue]
        exact ⟨rfl, rfl⟩
    · rw [if_neg hlast]
      -- From here on the spelling is `b` and a spelling of the rest.
      have hspelled : ∀ bs post, b :: rest = bs ++ post → Terminated bs →
          ∃ bs', bs = b :: bs' ∧ rest = bs' ++ post ∧ Terminated bs' := by
        intro bs post hbytes hbs
        cases hbs with
        | last hsmall =>
          rw [List.singleton_append, List.cons.injEq] at hbytes
          exact absurd (hbytes.1 ▸ hsmall) hlast
        | more _ hrest =>
          rw [List.cons_append, List.cons.injEq] at hbytes
          exact ⟨_, by rw [hbytes.1], hbytes.2, hrest⟩
      by_cases hlong : 7 * k + 7 ≥ 64
      · rw [if_pos hlong]
        constructor
        · intro h
          cases h
        · rintro ⟨bs, post, hbytes, hbs, hlength, _⟩
          rcases hspelled bs post hbytes hbs with ⟨bs', rfl, -, hbs'⟩
          have hpos := List.length_pos_iff.mpr hbs'.ne_nil
          rw [List.length_cons] at hlength
          omega
      · rw [if_neg hlong, show 7 * k + 7 = 7 * (k + 1) by ring,
          decodeVarintLoop_ok_iff rest (pos + 1) (k + 1) _ n pos' (drop_succ hdrop) (by omega)]
        constructor
        · rintro ⟨bs, post, rfl, hbs, hlength, rfl, rfl⟩
          refine ⟨b :: bs, post, rfl, .more (not_lt.mp hlast) hbs, ?_, ?_, ?_⟩
          · rw [List.length_cons]
            omega
          · rw [Nat.or_assoc, show 7 * (k + 1) = 7 * k + 7 by ring, digits_cons]
          · rw [List.length_cons]
            omega
        · rintro ⟨bs, post, hbytes, hbs, hlength, rfl, rfl⟩
          rcases hspelled bs post hbytes hbs with ⟨bs', rfl, hrest, hbs'⟩
          rw [List.length_cons] at hlength
          refine ⟨bs', post, hrest, hbs', by omega, ?_, ?_⟩
          · rw [Nat.or_assoc, show 7 * (k + 1) = 7 * k + 7 by ring, digits_cons]
          · rw [List.length_cons]
            omega

/-- **`_decode_varint` reads exactly the varints.** -/
theorem decodeVarint_recognizes : Recognizes decodeVarint Varint := by
  intro buf pos n pos' _
  rw [decodeVarint, decodeVarintLoop_ok_iff (buf.drop pos) pos 0 0 n pos' rfl (by omega)]
  constructor
  · rintro ⟨bs, post, hdrop, hbs, hlength, hvalue, hend⟩
    rw [Nat.zero_or, Nat.mul_zero, Nat.shiftLeft_zero] at hvalue
    exact ⟨bs, post, hdrop, ⟨hbs, hlength, hvalue⟩, hend⟩
  · rintro ⟨bs, post, hdrop, hvarint, hend⟩
    refine ⟨bs, post, hdrop, hvarint.terminated, hvarint.length_le, ?_, hend⟩
    rw [Nat.zero_or, Nat.mul_zero, Nat.shiftLeft_zero, hvarint.value]

theorem decodeVarintLoop_error {buf : Bytes} :
    ∀ (bytes : Bytes) (pos shift result : Nat) {e : Error}, buf.drop pos = bytes →
      decodeVarintLoop buf pos shift result = .error e → ∃ message, e = .valueError message
  | [], _, shift, result, e, hdrop, h => by
    rw [decodeVarintLoop_nil hdrop] at h
    exact ⟨"truncated varint", (Except.error.inj h).symm⟩
  | b :: rest, pos, shift, result, e, hdrop, h => by
    rw [decodeVarintLoop_cons hdrop] at h
    split at h
    · cases h
    · split at h
      · exact ⟨"varint too long", (Except.error.inj h).symm⟩
      · exact decodeVarintLoop_error rest (pos + 1) (shift + 7) _ (drop_succ hdrop) h

/-- What `_decode_varint` promises: a `uint64` of at most ten bytes, or `ValueError`. -/
def ReadsUint64 (buf : Bytes) (pos : Nat) : Prop :=
  (∃ message, decodeVarint buf pos = .error (.valueError message)) ∨
    ∃ v pos', decodeVarint buf pos = .ok (v, pos') ∧ pos < pos' ∧ pos' ≤ buf.length ∧
      pos' - pos ≤ 10 ∧ v < 2 ^ 64

/-- A varint of ten bytes, the last of which holds more than bit 63. -/
def PastUint64 (bytes : Bytes) : Prop :=
  ∃ init last post, bytes = init ++ last :: post ∧ init.length = 9 ∧
    (∀ b ∈ init, 128 ≤ b.toNat) ∧ 2 ≤ last.toNat ∧ last.toNat < 128

theorem PastUint64.spelled {bytes : Bytes} (h : PastUint64 bytes) :
    ∃ n bs post, bytes = bs ++ post ∧ Varint n bs := by
  obtain ⟨init, last, post, rfl, hlength, hinit, _, hlast⟩ := h
  refine ⟨digits (init ++ [last]), init ++ [last], post, ?_, ?_⟩
  · rw [List.append_assoc, List.singleton_append]
  · exact ⟨(terminated_concat_iff init last).mpr ⟨hinit, hlast⟩, by simp [hlength], rfl⟩

/-- What is read is a `uint64`, unless it is a varint past it. -/
theorem lt_iff_not_past {n : Nat} {bs post : Bytes} (h : Varint n bs) :
    n < 2 ^ 64 ↔ ¬ PastUint64 (bs ++ post) := by
  obtain ⟨init, last, rfl⟩ : ∃ init last, bs = init ++ [last] :=
    ⟨_, _, (List.dropLast_append_getLast h.terminated.ne_nil).symm⟩
  obtain ⟨hinit, hlast⟩ := (terminated_concat_iff init last).mp h.terminated
  rw [h.lt_iff]
  constructor
  · rintro hnine ⟨init', last', post', hbytes, hlength, hinit', hpast, hlast'⟩
    have hterminated := (terminated_concat_iff init' last').mpr ⟨hinit', hlast'⟩
    have hwhole : init ++ [last] ++ post = init' ++ [last'] ++ post' := by
      rw [hbytes, List.append_assoc, List.singleton_append]
    obtain ⟨hsame, -⟩ := h.terminated.unique hterminated hwhole
    obtain ⟨rfl, hlasts⟩ := List.append_inj' hsame rfl
    obtain rfl := List.singleton_inj.mp hlasts
    have hsmall := hnine hlength
    omega
  · intro hnot hlength
    by_contra hpast
    exact hnot ⟨init, last, post, by simp, hlength, hinit, not_lt.mp hpast, hlast⟩

/-- **The range of the varint reader.**  It keeps its promise exactly where no ten-byte
    varint past `uint64` stands, and reads back every `uint64` that was written. -/
theorem decodeVarint_uint64_iff (buf : Bytes) (pos : Nat) (hpos : pos ≤ buf.length) :
    (ReadsUint64 buf pos ↔ ¬ PastUint64 (buf.drop pos)) ∧
      ∀ n < 2 ^ 64, ∀ post, buf.drop pos = encodeVarint n ++ post →
        decodeVarint buf pos = .ok (n, pos + (encodeVarint n).length) := by
  constructor
  · cases hread : decodeVarint buf pos with
    | error e =>
      obtain ⟨message, rfl⟩ := decodeVarintLoop_error _ _ _ _ rfl hread
      rw [iff_true_left (show ReadsUint64 buf pos from .inl ⟨message, hread⟩)]
      intro hpast
      obtain ⟨n, bs, post, hdrop, hvarint⟩ := hpast.spelled
      have hok := (decodeVarint_recognizes buf pos n _ hpos).mpr ⟨bs, post, hdrop, hvarint, rfl⟩
      rw [hread] at hok
      cases hok
    | ok out =>
      obtain ⟨bs, post, hdrop, hvarint, hend⟩ :=
        (decodeVarint_recognizes buf pos out.1 out.2 hpos).mp hread
      have hbehind := (drop_behind hpos hdrop).2
      have hmoves := List.length_pos_iff.mpr hvarint.terminated.ne_nil
      have hshort := hvarint.length_le
      rw [hdrop, ← lt_iff_not_past hvarint]
      constructor
      · rintro (⟨message, herror⟩ | ⟨v, pos', hok, _, _, _, hv⟩)
        · rw [hread] at herror
          cases herror
        · rw [hread, Except.ok.injEq] at hok
          rw [hok]
          exact hv
      · intro hv
        exact .inr ⟨out.1, out.2, hread, by omega, by omega, by omega, hv⟩
  · intro n hn post hdrop
    rw [decodeVarint, decodeVarintLoop_encodeVarint post n pos 0 0 (by omega) hn hdrop,
      Nat.zero_or, Nat.shiftLeft_zero]

/-- 300 behind a 7 and in front of a 9. -/
theorem decodeVarint_uint64_iff_inside :
    ReadsUint64 [7, 0xAC, 0x02, 9] 1 ∧
      decodeVarint [7, 0xAC, 0x02, 9] 1 = .ok (300, 1 + (encodeVarint 300).length) := by
  obtain ⟨hreads, hback⟩ := decodeVarint_uint64_iff [7, 0xAC, 0x02, 9] 1 (by decide)
  constructor
  · apply hreads.mpr
    rintro ⟨init, last, post, hbytes, hlength, _⟩
    have hlong := congrArg List.length hbytes
    simp [hlength] at hlong
    omega
  · apply hback 300 (by decide) [9]
    rw [encodeVarint_large (by decide), encodeVarint_small (by decide)]
    rfl

/-- Nine continued bytes and a 2 are `2 ^ 64`. -/
theorem decodeVarint_past_uint64 :
    ¬ ∀ (buf : Bytes) (pos : Nat), pos ≤ buf.length → ReadsUint64 buf pos := by
  intro h
  have hread : decodeVarint (List.replicate 9 0x80 ++ [0x02]) 0 = .ok (2 ^ 64, 10) := by
    decide +kernel
  rcases h (List.replicate 9 0x80 ++ [0x02]) 0 (by decide) with
    ⟨message, herror⟩ | ⟨v, pos', hok, _, _, _, hv⟩
  · rw [hread] at herror
    cases herror
  · rw [hread, Except.ok.injEq, Prod.mk.injEq] at hok
    omega

/-! ## Fields -/

theorem readDelimited_recognizes (truncated : String) :
    Recognizes (readDelimited truncated) fun chunk bs => (Payload.delimited chunk).Spelled bs := by
  have hslice : ∀ length : Nat, Recognizes
      (fun (buf : Bytes) pos =>
        if pos + length > buf.length then .error (Error.valueError truncated)
        else .ok ((buf.drop pos).take length, pos + length))
      fun chunk bs => chunk.length = length ∧ bs = chunk := by
    intro length buf pos chunk pos' hpos
    dsimp only
    split
    · rename_i htruncated
      constructor
      · intro h
        cases h
      · rintro ⟨_, post, hdrop, ⟨rfl, rfl⟩, -⟩
        have hlength := (drop_behind hpos hdrop).2
        omega
    · rename_i hfits
      rw [Except.ok.injEq, Prod.mk.injEq]
      constructor
      · rintro ⟨rfl, rfl⟩
        have hlength : ((buf.drop pos).take length).length = length := by
          rw [List.length_take, List.length_drop]
          omega
        exact ⟨_, (buf.drop pos).drop length, (List.take_append_drop _ _).symm, ⟨hlength, rfl⟩,
          by rw [hlength]⟩
      · rintro ⟨_, post, hdrop, ⟨rfl, rfl⟩, rfl⟩
        rw [hdrop, List.take_left]
        exact ⟨rfl, rfl⟩
  refine (decodeVarint_recognizes.andThen hslice).congr fun chunk bs => ?_
  constructor
  · rintro ⟨_, lengthBytes, _, rfl, hlength, rfl, rfl⟩
    exact ⟨lengthBytes, hlength, rfl⟩
  · rintro ⟨lengthBytes, hlength, rfl⟩
    exact ⟨_, lengthBytes, chunk, rfl, hlength, rfl, rfl⟩

theorem skipUnknown_varint {σ : Type} (s : σ) :
    Recognizes (skipUnknown wireVarint s) fun s' bs => ∃ value, Varint value bs ∧ Except.ok s =
      (.ok s' : Except Error σ) := by
  rw [skipUnknown, if_pos rfl]
  exact decodeVarint_recognizes.convert _

theorem skipUnknown_delimited {σ : Type} (s : σ) :
    Recognizes (skipUnknown wireLengthDelimited s) fun s' bs =>
      ∃ chunk, (Payload.delimited chunk).Spelled bs ∧ Except.ok s = (.ok s' : Except Error σ) := by
  rw [skipUnknown, if_neg (by decide), if_pos rfl]
  exact (readDelimited_recognizes _).convert _

theorem skipUnknown_other {σ : Type} {wireType : Nat} (hvarint : wireType ≠ wireVarint)
    (hdelimited : wireType ≠ wireLengthDelimited) (s : σ) :
    Recognizes (skipUnknown wireType s) fun _ _ => False := by
  rw [skipUnknown, if_neg hvarint, if_neg hdelimited]
  exact recognizes_error _

/-- **One turn of a message loop** reads one complete field, if it handles a varint and a
    delimited field as `update` says and refuses every other wire type. -/
theorem readField_recognizes {σ : Type} {field : Nat → Nat → Reader Error UInt8 σ}
    {update : Field → Except Error σ}
    (hvarint : ∀ number, Recognizes (field number wireVarint) fun s bs =>
      ∃ value, Varint value bs ∧ update ⟨number, .varint value⟩ = .ok s)
    (hdelimited : ∀ number, Recognizes (field number wireLengthDelimited) fun s bs =>
      ∃ chunk, (Payload.delimited chunk).Spelled bs ∧ update ⟨number, .delimited chunk⟩ = .ok s)
    (hother : ∀ number wireType, wireType ≠ wireVarint → wireType ≠ wireLengthDelimited →
      Recognizes (field number wireType) fun _ _ => False) :
    Recognizes (readField field) fun s bs => ∃ f : Field, f.Spelled bs ∧ update f = .ok s := by
  have hbody : ∀ tag : Nat, Recognizes (field (tag >>> 3) (tag &&& 0x07)) fun s bs =>
      ∃ f : Field, f.key = tag ∧ f.payload.Spelled bs ∧ update f = .ok s := by
    intro tag
    have hlow : tag &&& 0x07 = tag % 8 := Nat.and_two_pow_sub_one_eq_mod tag 3
    have hhigh : tag >>> 3 = tag / 8 := Nat.shiftRight_eq_div_pow tag 3
    rw [hlow, hhigh]
    by_cases hzero : tag % 8 = wireVarint
    · rw [hzero]
      refine (hvarint (tag / 8)).congr fun s bs => ?_
      constructor
      · rintro ⟨value, hvalue, hupdate⟩
        exact ⟨⟨tag / 8, .varint value⟩, by simp only [Field.key, wireVarint] at hzero ⊢; omega,
          hvalue, hupdate⟩
      · rintro ⟨⟨number, value | chunk⟩, rfl, hbytes, hupdate⟩
        · simp only [Field.key, Nat.mul_div_cancel_left number (show 0 < 8 by decide)]
          exact ⟨value, hbytes, hupdate⟩
        · simp only [Field.key, wireVarint] at hzero
          omega
    · by_cases htwo : tag % 8 = wireLengthDelimited
      · rw [htwo]
        refine (hdelimited (tag / 8)).congr fun s bs => ?_
        constructor
        · rintro ⟨chunk, hchunk, hupdate⟩
          exact ⟨⟨tag / 8, .delimited chunk⟩,
            by simp only [Field.key, wireLengthDelimited] at htwo ⊢; omega, hchunk, hupdate⟩
        · rintro ⟨⟨number, value | chunk⟩, rfl, hbytes, hupdate⟩
          · simp only [Field.key, wireLengthDelimited] at htwo
            omega
          · have hnumber : Field.key ⟨number, .delimited chunk⟩ / 8 = number := by
              simp only [Field.key]
              omega
            rw [hnumber]
            exact ⟨chunk, hbytes, hupdate⟩
      · refine (hother _ _ hzero htwo).congr fun s bs => ?_
        constructor
        · intro h
          exact h.elim
        · rintro ⟨⟨number, value | chunk⟩, rfl, _⟩
          · simp only [Field.key, wireVarint] at hzero
            omega
          · simp only [Field.key, wireLengthDelimited] at htwo
            omega
  refine (decodeVarint_recognizes.andThen hbody).congr fun s bs => ?_
  constructor
  · rintro ⟨_, key, body, rfl, hkey, f, rfl, hpayload, hupdate⟩
    exact ⟨f, ⟨key, body, rfl, hkey, hpayload⟩, hupdate⟩
  · rintro ⟨f, ⟨key, body, rfl, hkey, hpayload⟩, hupdate⟩
    exact ⟨_, key, body, rfl, hkey, f, rfl, hpayload, hupdate⟩

/-- A message loop accepts the sequences of complete fields, and folds their updates. -/
theorem scan_message {σ : Type} {step : σ → Reader Error UInt8 σ}
    {update : σ → Field → Except Error σ}
    (hstep : ∀ s, Recognizes (step s) fun s' bs => ∃ f : Field, f.Spelled bs ∧ update s f = .ok s')
    (buf : Bytes) (s s' : σ) :
    scan step buf buf.length 0 s = .ok s' ↔
      ∃ fields, Message fields buf ∧ fields.foldlM update s = .ok s' := by
  have h := scan_ok_iff (fun _ _ => Field.Spelled.ne_nil) hstep buf buf.length 0 s s' (by omega)
  rwa [List.drop_zero] at h

/-! ## What a field does -/

/-- `chunk` is the UTF-8 of `s`. -/
def Utf8 (chunk : Bytes) (s : String) : Prop := encodeUtf8 s = chunk

theorem decodeUtf8_ok_iff (chunk : Bytes) (s : String) :
    decodeUtf8 chunk = .ok s ↔ Utf8 chunk s := by
  constructor
  · intro h
    simp only [decodeUtf8, String.fromUTF8?] at h
    split at h
    · rename_i s' hs'
      split at hs'
      · obtain rfl := Option.some.inj hs'
        obtain rfl := Except.ok.inj h
        rfl
      · cases hs'
    · cases h
  · rintro rfl
    exact decodeUtf8_encodeUtf8 s

/-- What a field does in `_decode_tag_msg`. -/
def TagFields.update (s : TagFields) : Field → Except Error TagFields
  | ⟨_, .varint _⟩ => .ok s
  | ⟨number, .delimited chunk⟩ =>
    if number = 1 then do
      let key ← decodeUtf8 chunk
      return { s with key := some key }
    else if number = 2 then do
      let value ← decodeUtf8 chunk
      return { s with value := some value }
    else .ok s

/-- What a field does in `_decode_record_msg`. -/
def RecordFields.update (s : RecordFields) : Field → Except Error RecordFields
  | ⟨number, .varint value⟩ =>
    if number = 1 then .ok { s with pkIndex := some value }
    else if number = 2 then .ok { s with ehkIndex := some value }
    else .ok s
  | ⟨number, .delimited chunk⟩ =>
    if number = 3 then .ok { s with data := some chunk }
    else if number = 4 then do
      let tag ← decodeTagMsg chunk
      return { s with tags := s.tags ++ [tag] }
    else .ok s

/-- What a field does in `decode_aggregated`. -/
def EnvelopeFields.update (s : EnvelopeFields) : Field → Except Error EnvelopeFields
  | ⟨_, .varint _⟩ => .ok s
  | ⟨number, .delimited chunk⟩ =>
    if number = 1 then do
      let pk ← decodeUtf8 chunk
      return { s with pkTable := s.pkTable ++ [pk] }
    else if number = 2 then do
      let ehk ← decodeUtf8 chunk
      return { s with ehkTable := s.ehkTable ++ [ehk] }
    else if number = 3 then .ok { s with recordBlobs := s.recordBlobs ++ [chunk] }
    else .ok s

theorem wireVarint_ne : ¬ wireVarint = wireLengthDelimited := by decide

theorem wireLengthDelimited_ne : ¬ wireLengthDelimited = wireVarint := by decide

theorem tagField_recognizes (s : TagFields) :
    Recognizes (tagField s) fun s' bs => ∃ f : Field, f.Spelled bs ∧ s.update f = .ok s' := by
  refine readField_recognizes (fun number => ?_) (fun number => ?_) fun number wireType hv hd => ?_
  · simp only [wireVarint_ne, and_false, if_false]
    exact skipUnknown_varint s
  · simp only [and_true, TagFields.update]
    split
    · exact (readDelimited_recognizes _).convert _
    · split
      · exact (readDelimited_recognizes _).convert _
      · exact skipUnknown_delimited s
  · simp only [hd, and_false, if_false]
    exact skipUnknown_other hv hd s

theorem recordField_recognizes (s : RecordFields) :
    Recognizes (recordField s) fun s' bs => ∃ f : Field, f.Spelled bs ∧ s.update f = .ok s' := by
  refine readField_recognizes (fun number => ?_) (fun number => ?_) fun number wireType hv hd => ?_
  · simp only [wireVarint_ne, and_true, and_false, if_false, RecordFields.update]
    split
    · exact decodeVarint_recognizes.convert _
    · split
      · exact decodeVarint_recognizes.convert _
      · exact skipUnknown_varint s
  · simp only [wireLengthDelimited_ne, and_true, and_false, if_false, RecordFields.update]
    split
    · exact (readDelimited_recognizes _).convert _
    · split
      · exact (readDelimited_recognizes _).convert _
      · exact skipUnknown_delimited s
  · simp only [hv, hd, and_false, if_false]
    exact skipUnknown_other hv hd s

theorem envelopeField_recognizes (s : EnvelopeFields) :
    Recognizes (envelopeField s) fun s' bs => ∃ f : Field, f.Spelled bs ∧ s.update f = .ok s' := by
  refine readField_recognizes (fun number => ?_) (fun number => ?_) fun number wireType hv hd => ?_
  · simp only [wireVarint_ne, and_false, if_false]
    exact skipUnknown_varint s
  · simp only [and_true, EnvelopeFields.update]
    split
    · exact (readDelimited_recognizes _).convert _
    · split
      · exact (readDelimited_recognizes _).convert _
      · split
        · exact (readDelimited_recognizes _).convert _
        · exact skipUnknown_delimited s
  · simp only [hd, and_false, if_false]
    exact skipUnknown_other hv hd s

/-! ## What a message means -/

/-- The strings of a repeated field. -/
abbrev Strings : List Bytes → List String → Prop := List.Forall₂ Utf8

/-- `chunk` is a tag message for `t`: complete fields, valid strings, the last key and the
    last value, if there is one. -/
def TagMessage (chunk : Bytes) (t : Tag) : Prop :=
  ∃ fields keys values, Message fields chunk ∧ Strings (chunks 1 fields) keys ∧
    Strings (chunks 2 fields) values ∧ keys.getLast? = some t.key ∧ values.getLast? = t.value

/-- `chunk` is a record message for `d` over the two tables: complete fields, tags that are
    tag messages, a key index in range, data, and a hash-key index in range, if there is one;
    of each the last. -/
def RecordMessage (pks ehks : List String) (chunk : Bytes) (d : DecodedRecord) : Prop :=
  ∃ fields pkIndex, Message fields chunk ∧ (varints 1 fields).getLast? = some pkIndex ∧
    pks[pkIndex]? = some d.partitionKey ∧
    (match (varints 2 fields).getLast? with
      | none => d.explicitHashKey = none
      | some ehkIndex => ∃ ehk, ehks[ehkIndex]? = some ehk ∧ d.explicitHashKey = some ehk) ∧
    (chunks 3 fields).getLast? = some d.data ∧ List.Forall₂ TagMessage (chunks 4 fields) d.tags

/-- `proto` is an `AggregatedRecord` message for `records`: complete fields, valid strings in
    the two tables, and a record message for each. -/
def EnvelopeMessage (proto : Bytes) (records : List DecodedRecord) : Prop :=
  ∃ fields pks ehks, Message fields proto ∧ Strings (chunks 1 fields) pks ∧
    Strings (chunks 2 fields) ehks ∧
    List.Forall₂ (RecordMessage pks ehks) (chunks 3 fields) records

/-- `payload` is an aggregated blob for `records`. -/
def Blob (md5 : Bytes → Digest) (payload : Bytes) (records : List DecodedRecord) : Prop :=
  ∃ proto, payload = magic ++ proto ++ (md5 proto).val ∧ EnvelopeMessage proto records

theorem getLast?_cons_or {α : Type} (x : α) (xs : List α) (o : Option α) :
    (x :: xs).getLast?.or o = xs.getLast?.or (some x) := by
  rw [List.getLast?_cons]
  cases xs.getLast? <;> rfl

/-- A chunk that has to be a string, before the rest. -/
theorem decodeUtf8_bind_iff {α : Type} {chunk : Bytes} {f : String → α} {a : α} :
    (decodeUtf8 chunk >>= fun s => (return f s : Except Error α)) = .ok a ↔
      ∃ s, Utf8 chunk s ∧ f s = a := by
  rw [bind_ok_iff]
  simp only [decodeUtf8_ok_iff, pure, Except.pure, Except.ok.injEq]

theorem foldlM_tagFields (fields : List Field) (s s' : TagFields) :
    fields.foldlM TagFields.update s = .ok s' ↔
      ∃ keys values, Strings (chunks 1 fields) keys ∧ Strings (chunks 2 fields) values ∧
        s' = { key := keys.getLast?.or s.key, value := values.getLast?.or s.value } := by
  induction fields generalizing s with
  | nil =>
    constructor
    · intro h
      exact ⟨[], [], .nil, .nil, (Except.ok.inj h).symm⟩
    · rintro ⟨keys, values, hkeys, hvalues, rfl⟩
      cases hkeys
      cases hvalues
      rfl
  | cons f fields ih =>
    rw [List.foldlM_cons, bind_ok_iff]
    simp only [ih]
    rcases f with ⟨number, value | chunk⟩
    · simp only [TagFields.update, Except.ok.injEq, exists_eq_left', chunks_varint]
    · simp only [TagFields.update, chunks_delimited]
      by_cases hone : number = 1
      · simp only [hone, if_true, decodeUtf8_bind_iff, Strings, List.forall₂_cons_left_iff]
        constructor
        · rintro ⟨_, ⟨key, hkey, rfl⟩, keys, values, hkeys, hvalues, rfl⟩
          exact ⟨key :: keys, values, ⟨key, keys, hkey, hkeys, rfl⟩, hvalues, by
            rw [getLast?_cons_or]⟩
        · rintro ⟨_, values, ⟨key, keys, hkey, hkeys, rfl⟩, hvalues, rfl⟩
          refine ⟨_, ⟨key, hkey, rfl⟩, keys, values, hkeys, hvalues, ?_⟩
          rw [getLast?_cons_or]
      · by_cases htwo : number = 2
        · simp only [htwo, OfNat.ofNat_ne_one, if_true, if_false, decodeUtf8_bind_iff, Strings,
            List.forall₂_cons_left_iff]
          constructor
          · rintro ⟨_, ⟨value, hvalue, rfl⟩, keys, values, hkeys, hvalues, rfl⟩
            exact ⟨keys, value :: values, hkeys, ⟨value, values, hvalue, hvalues, rfl⟩, by
              rw [getLast?_cons_or]⟩
          · rintro ⟨keys, _, hkeys, ⟨value, values, hvalue, hvalues, rfl⟩, rfl⟩
            refine ⟨_, ⟨value, hvalue, rfl⟩, keys, values, hkeys, hvalues, ?_⟩
            rw [getLast?_cons_or]
        · simp only [hone, htwo, if_false, Except.ok.injEq, exists_eq_left']

theorem foldlM_envelopeFields (fields : List Field) (s s' : EnvelopeFields) :
    fields.foldlM EnvelopeFields.update s = .ok s' ↔
      ∃ pks ehks, Strings (chunks 1 fields) pks ∧ Strings (chunks 2 fields) ehks ∧
        s' = { pkTable := s.pkTable ++ pks, ehkTable := s.ehkTable ++ ehks,
               recordBlobs := s.recordBlobs ++ chunks 3 fields } := by
  induction fields generalizing s with
  | nil =>
    constructor
    · intro h
      obtain rfl := Except.ok.inj h
      exact ⟨[], [], .nil, .nil, by simp [chunks]⟩
    · rintro ⟨pks, ehks, hpks, hehks, rfl⟩
      cases hpks
      cases hehks
      simp [chunks, pure, Except.pure]
  | cons f fields ih =>
    rw [List.foldlM_cons, bind_ok_iff]
    simp only [ih]
    rcases f with ⟨number, value | chunk⟩
    · simp only [EnvelopeFields.update, Except.ok.injEq, exists_eq_left', chunks_varint]
    · simp only [EnvelopeFields.update, chunks_delimited]
      by_cases hone : number = 1
      · simp only [hone, if_true, OfNat.one_ne_ofNat, if_false, decodeUtf8_bind_iff, Strings,
          List.forall₂_cons_left_iff]
        constructor
        · rintro ⟨_, ⟨pk, hpk, rfl⟩, pks, ehks, hpks, hehks, rfl⟩
          exact ⟨pk :: pks, ehks, ⟨pk, pks, hpk, hpks, rfl⟩, hehks, by simp⟩
        · rintro ⟨_, ehks, ⟨pk, pks, hpk, hpks, rfl⟩, hehks, rfl⟩
          exact ⟨_, ⟨pk, hpk, rfl⟩, pks, ehks, hpks, hehks, by simp⟩
      · by_cases htwo : number = 2
        · simp only [htwo, OfNat.ofNat_ne_one, Nat.reduceEqDiff, if_true, if_false,
            decodeUtf8_bind_iff, Strings, List.forall₂_cons_left_iff]
          constructor
          · rintro ⟨_, ⟨ehk, hehk, rfl⟩, pks, ehks, hpks, hehks, rfl⟩
            exact ⟨pks, ehk :: ehks, hpks, ⟨ehk, ehks, hehk, hehks, rfl⟩, by simp⟩
          · rintro ⟨pks, _, hpks, ⟨ehk, ehks, hehk, hehks, rfl⟩, rfl⟩
            exact ⟨_, ⟨ehk, hehk, rfl⟩, pks, ehks, hpks, hehks, by simp⟩
        · by_cases hthree : number = 3
          · simp only [hthree, OfNat.ofNat_ne_one, Nat.reduceEqDiff, if_true, if_false,
              Except.ok.injEq, exists_eq_left', List.append_assoc, List.singleton_append]
          · simp only [hone, htwo, hthree, if_false, Except.ok.injEq, exists_eq_left']

theorem foldlM_recordFields (fields : List Field) (s s' : RecordFields) :
    fields.foldlM RecordFields.update s = .ok s' ↔
      ∃ tags, List.Forall₂ (fun chunk t => decodeTagMsg chunk = .ok t) (chunks 4 fields) tags ∧
        s' = { pkIndex := (varints 1 fields).getLast?.or s.pkIndex,
               ehkIndex := (varints 2 fields).getLast?.or s.ehkIndex,
               data := (chunks 3 fields).getLast?.or s.data, tags := s.tags ++ tags } := by
  induction fields generalizing s with
  | nil =>
    constructor
    · intro h
      obtain rfl := Except.ok.inj h
      exact ⟨[], .nil, by simp [chunks, varints]⟩
    · rintro ⟨tags, htags, rfl⟩
      cases htags
      simp [chunks, varints, pure, Except.pure]
  | cons f fields ih =>
    rw [List.foldlM_cons, bind_ok_iff]
    simp only [ih]
    rcases f with ⟨number, value | chunk⟩
    · simp only [RecordFields.update, varints_varint, chunks_varint]
      by_cases hone : number = 1
      · simp only [hone, if_true, OfNat.one_ne_ofNat, if_false, Except.ok.injEq, exists_eq_left',
          getLast?_cons_or]
      · by_cases htwo : number = 2
        · simp only [htwo, OfNat.ofNat_ne_one, if_true, if_false, Except.ok.injEq,
            exists_eq_left', getLast?_cons_or]
        · simp only [hone, htwo, if_false, Except.ok.injEq, exists_eq_left']
    · simp only [RecordFields.update, varints_delimited, chunks_delimited]
      by_cases hthree : number = 3
      · simp only [hthree, if_true, Nat.reduceEqDiff, if_false, Except.ok.injEq, exists_eq_left',
          getLast?_cons_or]
      · by_cases hfour : number = 4
        · simp only [hfour, Nat.reduceEqDiff, if_true, if_false, bind_ok_iff,
            List.forall₂_cons_left_iff, pure, Except.pure, Except.ok.injEq]
          constructor
          · rintro ⟨_, ⟨t, ht, rfl⟩, tags, htags, rfl⟩
            exact ⟨t :: tags, ⟨t, tags, ht, htags, rfl⟩, by simp⟩
          · rintro ⟨_, ⟨t, tags, ht, htags, rfl⟩, rfl⟩
            exact ⟨_, ⟨t, ht, rfl⟩, tags, htags, by simp⟩
        · simp only [hthree, hfour, if_false, Except.ok.injEq, exists_eq_left']

/-! ## The three decoders -/

theorem mapM_ok_iff {α β : Type} {f : α → Except Error β} {xs : List α} {ys : List β} :
    xs.mapM f = .ok ys ↔ List.Forall₂ (fun x y => f x = .ok y) xs ys := by
  induction xs generalizing ys with
  | nil =>
    rw [List.mapM_nil, List.forall₂_nil_left_iff]
    exact ⟨fun h => (Except.ok.inj h).symm, fun h => h ▸ rfl⟩
  | cons x xs ih =>
    rw [List.mapM_cons, bind_ok_iff, List.forall₂_cons_left_iff]
    simp only [bind_ok_iff, ih, pure, Except.pure, Except.ok.injEq]
    constructor
    · rintro ⟨y, hy, ys, hys, rfl⟩
      exact ⟨y, ys, hy, hys, rfl⟩
    · rintro ⟨y, ys, hy, hys, rfl⟩
      exact ⟨y, hy, ys, hys, rfl⟩

theorem decodeTagMsg_ok_iff (chunk : Bytes) (t : Tag) :
    decodeTagMsg chunk = .ok t ↔ TagMessage chunk t := by
  rw [decodeTagMsg, bind_ok_iff]
  simp only [scan_message tagField_recognizes, foldlM_tagFields, Option.or_none]
  constructor
  · rintro ⟨_, ⟨fields, hfields, keys, values, hkeys, hvalues, rfl⟩, ht⟩
    cases hkey : keys.getLast? with
    | none =>
      rw [hkey] at ht
      cases ht
    | some key =>
      rw [hkey] at ht
      obtain rfl := Except.ok.inj ht
      exact ⟨fields, keys, values, hfields, hkeys, hvalues, hkey, rfl⟩
  · rintro ⟨fields, keys, values, hfields, hkeys, hvalues, hkey, hvalue⟩
    refine ⟨_, ⟨fields, hfields, keys, values, hkeys, hvalues, rfl⟩, ?_⟩
    rw [hkey, hvalue]
    rfl

theorem resolve_ok_iff (pks ehks : List String) (s : RecordFields) (d : DecodedRecord) :
    resolve pks ehks s = .ok d ↔
      ∃ pkIndex, s.pkIndex = some pkIndex ∧ pks[pkIndex]? = some d.partitionKey ∧
        (match s.ehkIndex with
          | none => d.explicitHashKey = none
          | some ehkIndex => ∃ ehk, ehks[ehkIndex]? = some ehk ∧ d.explicitHashKey = some ehk) ∧
        s.data = some d.data ∧ s.tags = d.tags := by
  rcases s with ⟨_ | pkIndex, ehkIndex, data, tags⟩
  · simp [resolve]
  · rcases data with _ | data
    · simp [resolve]
    · rcases d with ⟨pk, ehk, data', tags'⟩
      cases hpk : pks[pkIndex]? with
      | none => simp [resolve, hpk]
      | some partitionKey =>
        rcases ehkIndex with _ | ehkIndex
        · simp only [resolve, hpk, pure, Except.pure, Except.ok.injEq, DecodedRecord.mk.injEq,
            Option.some.injEq, exists_eq_left', eq_comm]
        · cases hehk : ehks[ehkIndex]? with
          | none => simp [resolve, hpk, hehk]
          | some ehk' =>
            simp only [resolve, hpk, hehk, pure, Except.pure, Except.ok.injEq,
              DecodedRecord.mk.injEq, Option.some.injEq, exists_eq_left', eq_comm]

theorem decodeRecordMsg_ok_iff (pks ehks : List String) (chunk : Bytes) (d : DecodedRecord) :
    decodeRecordMsg pks ehks chunk = .ok d ↔ RecordMessage pks ehks chunk d := by
  rw [decodeRecordMsg_eq, bind_ok_iff]
  simp only [scan_message recordField_recognizes, foldlM_recordFields, Option.or_none,
    List.nil_append, decodeTagMsg_ok_iff, resolve_ok_iff]
  constructor
  · rintro ⟨_, ⟨fields, hfields, tags, htags, rfl⟩, pkIndex, hpkIndex, hpk, hehk, hdata, rfl⟩
    exact ⟨fields, pkIndex, hfields, hpkIndex, hpk, hehk, hdata, htags⟩
  · rintro ⟨fields, pkIndex, hfields, hpkIndex, hpk, hehk, hdata, htags⟩
    exact ⟨_, ⟨fields, hfields, d.tags, htags, rfl⟩, pkIndex, hpkIndex, hpk, hehk, hdata, rfl⟩

/-- What is behind the magic and in front of the digest. -/
theorem decodeAggregated_proto (md5 : Bytes → Digest) (proto : Bytes)
    (records : List DecodedRecord) :
    decodeAggregated md5 (magic ++ proto ++ (md5 proto).val) = .ok records ↔
      EnvelopeMessage proto records := by
  rw [decodeAggregated_blob, bind_ok_iff]
  simp only [scan_message envelopeField_recognizes, foldlM_envelopeFields, List.nil_append,
    mapM_ok_iff, decodeRecordMsg_ok_iff]
  constructor
  · rintro ⟨_, ⟨fields, hfields, pks, ehks, hpks, hehks, rfl⟩, hrecords⟩
    exact ⟨fields, pks, ehks, hfields, hpks, hehks, hrecords⟩
  · rintro ⟨fields, pks, ehks, hfields, hpks, hehks, hrecords⟩
    exact ⟨_, ⟨fields, hfields, pks, ehks, hpks, hehks, rfl⟩, hrecords⟩

/-- A payload that passes the checks of length, magic and digest. -/
theorem framed_of_ok {md5 : Bytes → Digest} {payload : Bytes} {records : List DecodedRecord}
    (h : decodeAggregated md5 payload = .ok records) :
    ∃ proto, payload = magic ++ proto ++ (md5 proto).val := by
  unfold decodeAggregated at h
  split_ifs at h with hshort hmagic
  simp only at h
  split_ifs at h with hdigest
  rw [not_not] at hdigest
  rcases List.isPrefixOf_iff_prefix.mp hmagic with ⟨rest, rfl⟩
  rw [List.length_append, not_lt] at hshort
  refine ⟨((magic ++ rest).take ((magic ++ rest).length - md5Len)).drop magic.length, ?_⟩
  have hcut : (magic ++ rest).length - md5Len = magic.length + (rest.length - md5Len) := by
    rw [List.length_append]
    omega
  have hfront : magic ++ ((magic ++ rest).take ((magic ++ rest).length - md5Len)).drop
      magic.length = (magic ++ rest).take ((magic ++ rest).length - md5Len) := by
    rw [hcut, List.take_length_add_append, List.drop_left]
  rw [hdigest, hfront, List.take_append_drop]

/-! ## Reads past the end -/

theorem decodeVarint_never : Never .indexError decodeVarint := by
  intro buf pos h
  obtain ⟨message, hmessage⟩ := decodeVarintLoop_error _ _ _ _ rfl h
  cases hmessage

theorem readDelimited_never (truncated : String) : Never .indexError (readDelimited truncated) := by
  refine decodeVarint_never.andThen fun length buf pos => ?_
  split <;> exact fun h => by cases h

theorem decodeUtf8_never (bs : Bytes) : decodeUtf8 bs ≠ .error .indexError := by
  unfold decodeUtf8
  split <;> exact fun h => by cases h

theorem skipUnknown_never {σ : Type} (wireType : Nat) (s : σ) :
    Never .indexError (skipUnknown wireType s) := by
  unfold skipUnknown
  split
  · exact decodeVarint_never.convert fun _ h => by cases h
  · split
    · exact (readDelimited_never _).convert fun _ h => by cases h
    · exact fun _ _ h => by cases h

theorem tagField_never (s : TagFields) : Never .indexError (tagField s) := by
  rw [tagField, readField]
  refine decodeVarint_never.andThen fun tag => ?_
  split
  · exact (readDelimited_never _).convert fun chunk =>
      bind_ne_error (decodeUtf8_never chunk) fun _ h => by cases h
  · split
    · exact (readDelimited_never _).convert fun chunk =>
        bind_ne_error (decodeUtf8_never chunk) fun _ h => by cases h
    · exact skipUnknown_never _ _

theorem decodeTagMsg_never (buf : Bytes) : decodeTagMsg buf ≠ .error .indexError := by
  refine bind_ne_error (scan_ne_error tagField_never buf _ _ _) fun s => ?_
  split <;> exact fun h => by cases h

theorem recordField_never (s : RecordFields) : Never .indexError (recordField s) := by
  rw [recordField, readField]
  refine decodeVarint_never.andThen fun tag => ?_
  split
  · exact decodeVarint_never.convert fun _ h => by cases h
  · split
    · exact decodeVarint_never.convert fun _ h => by cases h
    · split
      · exact (readDelimited_never _).convert fun _ h => by cases h
      · split
        · exact (readDelimited_never _).convert fun chunk =>
            bind_ne_error (decodeTagMsg_never chunk) fun _ h => by cases h
        · exact skipUnknown_never _ _

/-- The reads of the tables are behind the tests of the indices. -/
theorem decodeRecordMsg_never (pks ehks : List String) (buf : Bytes) :
    decodeRecordMsg pks ehks buf ≠ .error .indexError := by
  rw [decodeRecordMsg_eq]
  refine bind_ne_error (scan_ne_error recordField_never buf _ _ _) fun s => ?_
  unfold resolve
  repeat' split
  all_goals exact fun h => by cases h

theorem envelopeField_never (s : EnvelopeFields) : Never .indexError (envelopeField s) := by
  rw [envelopeField, readField]
  refine decodeVarint_never.andThen fun tag => ?_
  split
  · exact (readDelimited_never _).convert fun chunk =>
      bind_ne_error (decodeUtf8_never chunk) fun _ h => by cases h
  · split
    · exact (readDelimited_never _).convert fun chunk =>
        bind_ne_error (decodeUtf8_never chunk) fun _ h => by cases h
    · split
      · exact (readDelimited_never _).convert fun _ h => by cases h
      · exact skipUnknown_never _ _

/-- **No read is past the end.** -/
theorem decodeAggregated_never (md5 : Bytes → Digest) (payload : Bytes) :
    decodeAggregated md5 payload ≠ .error .indexError := by
  unfold decodeAggregated
  dsimp only
  split
  · exact fun h => by cases h
  · split
    · exact fun h => by cases h
    · split
      · exact fun h => by cases h
      · exact bind_ne_error (scan_ne_error envelopeField_never _ _ _ _) fun s =>
          mapM_ne_error (decodeRecordMsg_never s.pkTable s.ehkTable) s.recordBlobs

/-! ## What is accepted -/

/-- **The grammar of `decode_aggregated`.**  Its three loops end on every buffer; it returns
    `records` exactly on the blobs for `records`, and elsewhere it raises `ValueError`. -/
theorem decodeAggregated_accepts_grammar (md5 : Bytes → Digest) (payload : Bytes) :
    (∀ buf, Loops tagField buf 0 {} (scan tagField buf buf.length 0 {}) ∧
      Loops recordField buf 0 {} (scan recordField buf buf.length 0 {}) ∧
      Loops envelopeField buf 0 {} (scan envelopeField buf buf.length 0 {})) ∧
    (∀ records, decodeAggregated md5 payload = .ok records ↔ Blob md5 payload records) ∧
    ((∀ records, ¬ Blob md5 payload records) →
      decodeAggregated md5 payload = .error .unicodeDecodeError ∨
        ∃ message, decodeAggregated md5 payload = .error (.valueError message)) := by
  have haccepts : ∀ records, decodeAggregated md5 payload = .ok records ↔
      Blob md5 payload records := by
    intro records
    constructor
    · intro h
      rcases framed_of_ok h with ⟨proto, rfl⟩
      exact ⟨proto, rfl, (decodeAggregated_proto md5 proto records).mp h⟩
    · rintro ⟨proto, rfl, henvelope⟩
      exact (decodeAggregated_proto md5 proto records).mpr henvelope
  refine ⟨fun buf => ⟨?_, ?_, ?_⟩, haccepts, fun hnone => ?_⟩
  · exact scan_loops tagField_advances buf 0 {}
  · exact scan_loops recordField_advances buf 0 {}
  · exact scan_loops envelopeField_advances buf 0 {}
  · cases hout : decodeAggregated md5 payload with
    | ok records => exact absurd ((haccepts records).mp hout) (hnone records)
    | error e =>
      cases e with
      | valueError message => exact .inr ⟨message, rfl⟩
      | unicodeDecodeError => exact .inl rfl
      | indexError => exact absurd hout (decodeAggregated_never md5 payload)

/-- A blob whose one record spells its index 0 in two bytes. -/
theorem decodeAggregated_accepts_grammar_long :
    Blob (fun _ => Digest.zero)
      (magic ++ [10, 1, 107, 26, 6, 8, 128, 0, 26, 1, 7] ++ List.replicate 16 0)
      [{ partitionKey := "k", explicitHashKey := none, data := [7], tags := [] }] := by
  rcases decodeAggregated_accepts_grammar (fun _ => Digest.zero)
    (magic ++ [10, 1, 107, 26, 6, 8, 128, 0, 26, 1, 7] ++ List.replicate 16 0) with
    ⟨-, haccepts, -⟩
  exact (haccepts _).mp (by decide +kernel)

end Aiokpl.Aggregation
