import Mathlib.Tactic
import Aiokpl.AggregationRoundTrip

/-!
# Deaggregation by content

A consumer takes a blob for an aggregated envelope when it begins with the magic and has
room for the digest.  Several records always come back.  A single record is sent raw, so it
comes back unless its data passes for an envelope; what then comes out of the envelope is
shorter than the data, whatever it is.
-/

namespace Aiokpl.Aggregation

open Lib Lib.Cursor

/-- The data of the records a consumer gets out of a blob. -/
def deaggregate (md5 : Bytes → Digest) (blob : Bytes) : Except Error (List Bytes) :=
  if isAggregated blob then do
    let decoded ← decodeAggregated md5 blob
    return decoded.map DecodedRecord.data
  else .ok [blob]

/-- `sys.maxsize`, the length of the longest `bytes` object. -/
def maxSize : Nat := 2 ^ 63 - 1

/-! ## What is decoded is shorter than the blob -/

theorem readDelimited_length {truncated : String} {buf chunk : Bytes} {pos pos' : Nat}
    (h : readDelimited truncated buf pos = .ok (chunk, pos')) : chunk.length ≤ buf.length := by
  simp only [readDelimited, Reader.andThen, bind, Except.bind] at h
  split at h
  · cases h
  · split at h
    · cases h
    · simp only [Except.ok.injEq, Prod.mk.injEq] at h
      rcases h with ⟨rfl, _⟩
      simp only [List.length_take, List.length_drop]
      omega

/-- A delimited field hands on a part of the buffer. -/
theorem delimitedField_ok {σ : Type} {truncated : String} {update : Bytes → Except Error σ}
    {buf : Bytes} {pos pos' : Nat} {s : σ}
    (h : delimitedField truncated update buf pos = .ok (s, pos')) :
    ∃ chunk, chunk.length ≤ buf.length ∧ update chunk = .ok s := by
  rcases Reader.convert_ok h with ⟨chunk, hchunk, hupdate⟩
  exact ⟨chunk, readDelimited_length hchunk, hupdate⟩

theorem varintField_ok {σ : Type} {update : Nat → σ} {buf : Bytes} {pos pos' : Nat} {s : σ}
    (h : varintField update buf pos = .ok (s, pos')) : ∃ value, update value = s := by
  rcases Reader.convert_ok h with ⟨value, _, hvalue⟩
  exact ⟨value, Except.ok.inj hvalue⟩

theorem skipUnknown_ok {σ : Type} {wireType : Nat} {s s' : σ} {buf : Bytes} {pos pos' : Nat}
    (h : skipUnknown wireType s buf pos = .ok (s', pos')) : s' = s := by
  rw [skipUnknown] at h
  split at h
  · rcases Reader.convert_ok h with ⟨_, _, hs⟩
    exact (Except.ok.inj hs).symm
  · split at h
    · rcases Reader.convert_ok h with ⟨_, _, hs⟩
      exact (Except.ok.inj hs).symm
    · cases h

theorem readField_ok {σ : Type} {field : Nat → Nat → Reader Error UInt8 σ} {buf : Bytes}
    {pos pos' : Nat} {s : σ} (h : readField field buf pos = .ok (s, pos')) :
    ∃ fieldNumber wireType at', field fieldNumber wireType buf at' = .ok (s, pos') := by
  cases htag : decodeVarint buf pos with
  | error e =>
    rw [readField, Reader.andThen, htag] at h
    cases h
  | ok tag =>
    rw [readField, Reader.andThen, htag] at h
    exact ⟨_, _, _, h⟩

/-- The data read so far is a part of the message. -/
def RecordFields.Within (buf : Bytes) (s : RecordFields) : Prop :=
  ∀ data, s.data = some data → data.length ≤ buf.length

theorem recordField_within {buf : Bytes} {pos pos' : Nat} {s s' : RecordFields}
    (hs : s.Within buf) (h : recordField s buf pos = .ok (s', pos')) : s'.Within buf := by
  rcases readField_ok h with ⟨fieldNumber, wireType, at', hfield⟩
  split at hfield
  · rcases varintField_ok hfield with ⟨_, rfl⟩
    exact hs
  · split at hfield
    · rcases varintField_ok hfield with ⟨_, rfl⟩
      exact hs
    · split at hfield
      · rcases delimitedField_ok hfield with ⟨chunk, hchunk, hupdate⟩
        obtain rfl := Except.ok.inj hupdate
        intro data hdata
        obtain rfl := Option.some.inj hdata
        exact hchunk
      · split at hfield
        · rcases delimitedField_ok hfield with ⟨chunk, _, hupdate⟩
          cases htag : decodeTagMsg chunk with
          | error e =>
            rw [htag] at hupdate
            cases hupdate
          | ok tag =>
            rw [htag] at hupdate
            obtain rfl := Except.ok.inj hupdate
            exact hs
        · rw [skipUnknown_ok hfield]
          exact hs

theorem decodeRecordMsg_length {pkTable ehkTable : List String} {buf : Bytes} {d : DecodedRecord}
    (h : decodeRecordMsg pkTable ehkTable buf = .ok d) : d.data.length ≤ buf.length := by
  simp only [decodeRecordMsg_eq, resolve, bind, Except.bind, pure, Except.pure] at h
  cases hscan : scan recordField buf buf.length 0 {} with
  | error e => simp [hscan] at h
  | ok s =>
    have hwithin : s.Within buf := by
      refine scan_invariant (RecordFields.Within buf) ?_ _ _ ?_ hscan
      · intro s pos s' pos' hs hstep
        exact recordField_within hs hstep
      · intro data hdata
        cases hdata
    simp only [hscan] at h
    split at h
    · cases h
    · split at h
      · cases h
      · rename_i data hdata
        have hlength := hwithin data hdata
        split at h
        · cases h
        · split at h
          · obtain rfl := Except.ok.inj h
            exact hlength
          · split at h
            · cases h
            · obtain rfl := Except.ok.inj h
              exact hlength

/-- The messages read so far are parts of the envelope. -/
def EnvelopeFields.Within (buf : Bytes) (s : EnvelopeFields) : Prop :=
  ∀ blob ∈ s.recordBlobs, blob.length ≤ buf.length

/-- A table entry leaves the messages alone. -/
theorem EnvelopeFields.Within.of_decodeUtf8 {buf chunk : Bytes} {s s' : EnvelopeFields}
    (entry : String → EnvelopeFields) (hs : s.Within buf)
    (hentry : ∀ key, (entry key).recordBlobs = s.recordBlobs)
    (h : (do let key ← decodeUtf8 chunk; return entry key) = .ok s') : s'.Within buf := by
  cases hkey : decodeUtf8 chunk with
  | error e =>
    rw [hkey] at h
    cases h
  | ok key =>
    rw [hkey] at h
    obtain rfl := Except.ok.inj h
    intro blob hblob
    rw [hentry] at hblob
    exact hs blob hblob

theorem envelopeField_within {buf : Bytes} {pos pos' : Nat} {s s' : EnvelopeFields}
    (hs : s.Within buf) (h : envelopeField s buf pos = .ok (s', pos')) : s'.Within buf := by
  rcases readField_ok h with ⟨fieldNumber, wireType, at', hfield⟩
  split at hfield
  · rcases delimitedField_ok hfield with ⟨chunk, _, hupdate⟩
    exact hs.of_decodeUtf8 (fun pk => { s with pkTable := s.pkTable ++ [pk] }) (fun _ => rfl)
      hupdate
  · split at hfield
    · rcases delimitedField_ok hfield with ⟨chunk, _, hupdate⟩
      exact hs.of_decodeUtf8 (fun ehk => { s with ehkTable := s.ehkTable ++ [ehk] }) (fun _ => rfl)
        hupdate
    · split at hfield
      · rcases delimitedField_ok hfield with ⟨chunk, hchunk, hupdate⟩
        obtain rfl := Except.ok.inj hupdate
        intro blob hblob
        rcases List.mem_append.mp hblob with hold | hnew
        · exact hs blob hold
        · rw [List.mem_singleton.mp hnew]
          exact hchunk
      · rw [skipUnknown_ok hfield]
        exact hs

/-- What a successful `mapM` answers, it answers for an element. -/
theorem exists_of_mem_mapM {α β ε : Type} {f : α → Except ε β} {y : β} :
    ∀ {xs : List α} {ys : List β}, xs.mapM f = .ok ys → y ∈ ys → ∃ x ∈ xs, f x = .ok y
  | [], ys, h, hy => by
    obtain rfl := Except.ok.inj h
    cases hy
  | x :: xs, ys, h, hy => by
    rw [List.mapM_cons] at h
    cases hx : f x with
    | error e =>
      rw [hx] at h
      cases h
    | ok y' =>
      cases hxs : xs.mapM f with
      | error e =>
        rw [hx, hxs] at h
        cases h
      | ok ys' =>
        rw [hx, hxs] at h
        obtain rfl := Except.ok.inj h
        rcases List.mem_cons.mp hy with rfl | hrest
        · exact ⟨x, List.mem_cons_self, hx⟩
        · rcases exists_of_mem_mapM hxs hrest with ⟨x', hx', hf⟩
          exact ⟨x', List.mem_cons_of_mem x hx', hf⟩

/-- **What comes out of an envelope is shorter than the envelope.** -/
theorem decodeAggregated_length {md5 : Bytes → Digest} {payload : Bytes}
    {decoded : List DecodedRecord} (h : decodeAggregated md5 payload = .ok decoded) :
    ∀ d ∈ decoded, d.data.length < payload.length := by
  have hmagic : magic.length = 4 := rfl
  rw [decodeAggregated] at h
  split at h
  · cases h
  · rename_i hlong
    split at h
    · cases h
    · dsimp only at h
      split at h
      · cases h
      · set proto := (payload.take (payload.length - md5Len)).drop magic.length with hproto
        have hshorter : proto.length < payload.length := by
          rw [hproto, List.length_drop, List.length_take]
          omega
        cases hscan : scan envelopeField proto proto.length 0 {} with
        | error e =>
          rw [hscan] at h
          cases h
        | ok s =>
          have hwithin : s.Within proto := by
            refine scan_invariant (EnvelopeFields.Within proto) ?_ _ _ ?_ hscan
            · intro s pos s' pos' hs hstep
              exact envelopeField_within hs hstep
            · intro blob hblob
              cases hblob
          rw [hscan] at h
          intro d hd
          rcases exists_of_mem_mapM h hd with ⟨blob, hblob, hrecord⟩
          have hdata := decodeRecordMsg_length hrecord
          have hpart := hwithin blob hblob
          omega

/-! ## Several records -/

/-- Entries that are not empty are at most as many as their bytes. -/
theorem length_le_flatMap_length {α : Type} {enc : α → Bytes} (hne : ∀ x, enc x ≠ []) :
    ∀ xs : List α, xs.length ≤ (xs.flatMap enc).length
  | [] => le_rfl
  | x :: xs => by
    have hrest := length_le_flatMap_length hne xs
    have hx := List.length_pos_of_ne_nil (hne x)
    rw [List.flatMap_cons, List.length_append, List.length_cons]
    omega

theorem encodeLengthDelimited_ne_nil (fieldNumber : Nat) (payload : Bytes) :
    encodeLengthDelimited fieldNumber payload ≠ [] := by
  simp [encodeLengthDelimited, encodeTag_ne_nil]

/-- An envelope that fits in memory has no length beyond a `uint64`. -/
theorem wireSized_of_length {records : List UserRecord}
    (h : (build records).serialize.length < 2 ^ 64) : WireSized records := by
  simp only [AggregatedBuilder.serialize, List.length_append] at h
  have hentry : ∀ {α : Type} (fieldNumber : Nat) (bytes : α → Bytes) (xs : List α), ∀ x ∈ xs,
      (bytes x).length ≤
        (xs.flatMap fun x => encodeLengthDelimited fieldNumber (bytes x)).length := by
    intro α fieldNumber bytes xs x hx
    exact (length_le_encodeLengthDelimited fieldNumber (bytes x)).trans
      (length_le_flatMap (fun x => encodeLengthDelimited fieldNumber (bytes x)) hx)
  refine ⟨?_, ?_, ?_, ?_, ?_⟩
  · intro pk hpk
    have hle := hentry 1 encodeUtf8 _ pk hpk
    omega
  · intro ehk hehk
    have hle := hentry 2 encodeUtf8 _ ehk hehk
    omega
  · intro blob hblob
    have hle : blob.length ≤
        ((build records).records.flatMap (encodeLengthDelimited 3)).length :=
      hentry 3 id _ blob hblob
    omega
  · have hle := length_le_flatMap_length
      (fun pk => encodeLengthDelimited_ne_nil 1 (encodeUtf8 pk)) (build records).partitionKeys
    omega
  · have hle := length_le_flatMap_length
      (fun ehk => encodeLengthDelimited_ne_nil 2 (encodeUtf8 ehk)) (build records).explicitHashKeys
    omega

theorem isAggregated_blob (md5 : Bytes → Digest) (payload : Bytes) :
    isAggregated (magic ++ payload ++ (md5 payload).val) = true := by
  have hdigest := (md5 payload).property
  rw [isAggregated, Bool.and_eq_true, decide_eq_true_eq, List.isPrefixOf_iff_prefix]
  constructor
  · simp only [List.length_append, hdigest, md5Len]
    omega
  · rw [List.append_assoc]
    exact List.prefix_append _ _

/-- Several records are recovered. -/
theorem deaggregate_many (md5 : Bytes → Digest) {records : List UserRecord}
    (hmany : 2 ≤ records.length)
    (hfits : ∀ blob, encodeAggregated md5 records = .ok blob → blob.length ≤ maxSize) :
    (encodeAggregated md5 records >>= deaggregate md5) =
      .ok (records.map UserRecord.data) := by
  have hblob := encodeAggregated_many md5 hmany
  have hlength := hfits _ hblob
  have hsized : WireSized records := by
    apply wireSized_of_length
    simp only [List.length_append, maxSize] at hlength
    omega
  rw [hblob]
  change deaggregate md5 _ = _
  rw [deaggregate, if_pos (isAggregated_blob md5 _), decodeAggregated_serialize md5 hsized]
  change Except.ok _ = _
  rw [List.map_map]
  rfl

/-! ## A single record -/

/-- The data of a single record is recovered unless it passes for an envelope. -/
theorem deaggregate_single_iff (md5 : Bytes → Digest) (data : Bytes) :
    deaggregate md5 data = .ok [data] ↔ isAggregated data = false := by
  constructor
  · intro hrecovered
    by_contra henvelope
    rw [Bool.not_eq_false] at henvelope
    rw [deaggregate, if_pos henvelope] at hrecovered
    cases hdecode : decodeAggregated md5 data with
    | error e =>
      rw [hdecode] at hrecovered
      cases hrecovered
    | ok decoded =>
      rw [hdecode] at hrecovered
      have hdata : decoded.map DecodedRecord.data = [data] := Except.ok.inj hrecovered
      have hmem : data ∈ decoded.map DecodedRecord.data := by
        rw [hdata]
        exact List.mem_singleton_self data
      rcases List.mem_map.mp hmem with ⟨d, hd, heq⟩
      have hshorter := decodeAggregated_length hdecode d hd
      rw [heq] at hshorter
      exact lt_irrefl _ hshorter
  · intro hraw
    rw [deaggregate, hraw]
    rfl

/-- **Deaggregation is transparent except for single records that look aggregated.** -/
theorem deaggregation_transparent_iff (md5 : Bytes → Digest) {records : List UserRecord}
    (hne : records ≠ [])
    (hfits : ∀ blob, encodeAggregated md5 records = .ok blob → blob.length ≤ maxSize) :
    (encodeAggregated md5 records >>= deaggregate md5) = .ok (records.map UserRecord.data) ↔
      ∀ r, records = [r] → isAggregated r.data = false := by
  rcases records with _ | ⟨r, _ | ⟨r', rest⟩⟩
  · exact absurd rfl hne
  · change deaggregate md5 r.data = .ok [r.data] ↔ _
    rw [deaggregate_single_iff]
    constructor
    · rintro hraw _ ⟨⟩
      exact hraw
    · intro hraw
      exact hraw r rfl
  · refine iff_of_true (deaggregate_many md5 (by simp) hfits) ?_
    rintro r'' ⟨⟩

theorem deaggregation_transparent_iff_magic :
    (encodeAggregated (fun _ => .zero) [{ partitionKey := "pk", data := magic }] >>=
      deaggregate fun _ => .zero) = .ok [magic] := by
  refine (deaggregation_transparent_iff _ (by simp) ?_).mpr ?_
  · rintro blob ⟨⟩
    decide
  · rintro r ⟨⟩
    decide

/-- Data that passes for an envelope. -/
def lookalike : Bytes := magic ++ List.replicate md5Len 0

/-- No digest makes up for the raw record: twenty bytes that begin with the magic are taken
    for an envelope. -/
theorem not_every_list_deaggregates :
    ¬ ∃ md5 : Bytes → Digest, ∀ records : List UserRecord, records ≠ [] →
      (encodeAggregated md5 records >>= deaggregate md5) = .ok (records.map UserRecord.data) := by
  rintro ⟨md5, hevery⟩
  have hlookalike : deaggregate md5 lookalike = .ok [lookalike] :=
    hevery [{ partitionKey := "pk", data := lookalike }] (by simp)
  rw [deaggregate_single_iff] at hlookalike
  revert hlookalike
  decide

end Aiokpl.Aggregation
