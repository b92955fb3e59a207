import Mathlib.Data.Nat.Log
import Aiokpl.AggregationTables
import Aiokpl.BatchSizes

/-!
# The size estimate and the encoded blob

What the encoder writes, in closed form: a varint takes a byte for every seven bits, and
every field a byte for its tag.  The estimate allows eight bytes for each record and three
for each table entry whatever the varints are, and nothing for tags or for the index of
an explicit hash key.
-/

namespace Aiokpl

open Lib Aggregation

namespace Aggregation

/-! ## What the encoders write -/

/-- The bytes of a varint. -/
def varintSize (value : Nat) : Nat := Nat.log 128 value + 1

/-- The bytes of a length-delimited field with a payload of so many bytes. -/
def fieldSize (length : Nat) : Nat := 1 + varintSize length + length

/-- The bytes of a tag message. -/
def tagSize (t : Tag) : Nat :=
  fieldSize (encodeUtf8 t.key).length +
    match t.value with
    | some value => fieldSize (encodeUtf8 value).length
    | none => 0

theorem encodeVarint_length (value : Nat) : (encodeVarint value).length = varintSize value := by
  induction value using Nat.strong_induction_on with
  | _ value ih =>
    by_cases hsmall : value ≤ 0x7F
    · have hlog : Nat.log 128 value = 0 := Nat.log_of_lt (by omega)
      rw [encodeVarint_small hsmall, varintSize, hlog]
      rfl
    · have hlog : Nat.log 128 value = Nat.log 128 (value / 128) + 1 :=
        Nat.log_of_one_lt_of_le (by omega) (by omega)
      have hshift : value >>> 7 = value / 128 := Nat.shiftRight_eq_div_pow value 7
      rw [encodeVarint_large (not_le.mp hsmall), List.length_cons, hshift,
        ih (value / 128) (by omega), varintSize, varintSize, hlog]

theorem encodeTag_length {fieldNumber wireType : Nat}
    (h : (fieldNumber <<< 3) ||| wireType ≤ 0x7F) :
    (encodeTag fieldNumber wireType).length = 1 := by
  rw [encodeTag, encodeVarint_small h]
  rfl

theorem encodeLengthDelimited_length {fieldNumber : Nat} (payload : Bytes)
    (h : (fieldNumber <<< 3) ||| wireLengthDelimited ≤ 0x7F) :
    (encodeLengthDelimited fieldNumber payload).length = fieldSize payload.length := by
  rw [encodeLengthDelimited, List.length_append, List.length_append, encodeTag_length h,
    encodeVarint_length, fieldSize, Nat.add_assoc]

theorem encodeUint64Field_length {fieldNumber : Nat} (value : Nat)
    (h : (fieldNumber <<< 3) ||| wireVarint ≤ 0x7F) :
    (encodeUint64Field fieldNumber value).length = 1 + varintSize value := by
  rw [encodeUint64Field, List.length_append, encodeTag_length h, encodeVarint_length]

theorem encodeTagMsg_length (t : Tag) : (encodeTagMsg t).length = tagSize t := by
  rw [encodeTagMsg, List.length_append, encodeLengthDelimited_length _ (by decide), tagSize]
  cases t.value with
  | none => rfl
  | some value =>
    dsimp only
    rw [encodeLengthDelimited_length _ (by decide)]

/-- What a record message holds beside its data, where the tables are given. -/
def framing (pkTable ehkTable : List String) (r : UserRecord) : Nat :=
  1 + varintSize (pkTable.idxOf r.partitionKey) +
    (match r.explicitHashKey with
      | some ehk => 1 + varintSize (ehkTable.idxOf ehk)
      | none => 0) +
    (1 + varintSize r.data.length) +
    (r.tags.map fun t => fieldSize (tagSize t)).sum

theorem idxOf_of_getElem? {keys : List String} {i : Nat} {key : String} (hnodup : keys.Nodup)
    (h : keys[i]? = some key) : keys.idxOf key = i := by
  rcases List.getElem?_eq_some_iff.mp h with ⟨hlt, rfl⟩
  exact hnodup.idxOf_getElem i hlt

/-- The message of a record. -/
theorem Holds.length_eq {pkTable ehkTable : List String} {record : UserRecord} {blob : Bytes}
    (h : Holds pkTable ehkTable record blob) (hpk : pkTable.Nodup) (hehk : ehkTable.Nodup) :
    blob.length = framing pkTable ehkTable record + record.data.length := by
  rcases h with ⟨pkIndex, ehkIndex, rfl, hpkIndex, hehkIndex⟩
  have htags : (record.tags.flatMap fun t => encodeLengthDelimited 4 (encodeTagMsg t)).length =
      (record.tags.map fun t => fieldSize (tagSize t)).sum := by
    rw [List.length_flatMap]
    congr 1
    apply List.map_congr_left
    intro t _
    rw [encodeLengthDelimited_length _ (by decide), encodeTagMsg_length]
  have hindex : (encodeUint64Field 1 pkIndex).length =
      1 + varintSize (pkTable.idxOf record.partitionKey) := by
    rw [encodeUint64Field_length _ (by decide), idxOf_of_getElem? hpk hpkIndex]
  have hdata : (encodeLengthDelimited 3 record.data).length = fieldSize record.data.length :=
    encodeLengthDelimited_length _ (by decide)
  cases ehkIndex with
  | none =>
    have hnone : record.explicitHashKey = none := by simpa using hehkIndex.symm
    simp only [encodeRecordMsg, List.length_append, List.length_nil, hindex, hdata, htags, framing,
      hnone, fieldSize]
    omega
  | some i =>
    cases hrecord : record.explicitHashKey with
    | none => simp [hrecord] at hehkIndex
    | some ehk =>
      simp only [hrecord, Option.map_some, Option.some.injEq] at hehkIndex
      have hehkLength : (encodeUint64Field 2 i).length = 1 + varintSize (ehkTable.idxOf ehk) := by
        rw [encodeUint64Field_length _ (by decide), idxOf_of_getElem? hehk hehkIndex]
      simp only [encodeRecordMsg, List.length_append, hindex, hdata, hehkLength, htags, framing,
        hrecord, fieldSize]
      omega

/-! ## The blob -/

/-- The partition keys of the envelope. -/
def pksOf (records : List UserRecord) : List String :=
  tableOf (records.map UserRecord.partitionKey)

/-- The explicit hash keys of the envelope. -/
def ehksOf (records : List UserRecord) : List String :=
  tableOf (records.filterMap UserRecord.explicitHashKey)

/-- A sum over the distinct keys is one over the table. -/
theorem sum_tableOf (f : String → Nat) (keys : List String) :
    ∑ key ∈ keys.toFinset, f key = ((tableOf keys).map f).sum := by
  rw [← List.sum_toFinset f (tableOf_nodup keys)]
  congr 1
  ext key
  rw [List.mem_toFinset, List.mem_toFinset, mem_tableOf]

/-- The bytes of a table in the envelope. -/
theorem tableEntries_length {fieldNumber : Nat} (keys : List String)
    (h : (fieldNumber <<< 3) ||| wireLengthDelimited ≤ 0x7F) :
    (keys.flatMap fun key => encodeLengthDelimited fieldNumber (encodeUtf8 key)).length =
      (keys.map fun key => fieldSize (encodeUtf8 key).length).sum := by
  rw [List.length_flatMap]
  congr 1
  apply List.map_congr_left
  intro key _
  exact encodeLengthDelimited_length _ h

theorem map_eq_of_forall₂ {α β γ : Type} {f : α → γ} {g : β → γ} {xs : List α} {ys : List β}
    (h : List.Forall₂ (fun x y => g y = f x) xs ys) : ys.map g = xs.map f := by
  induction h with
  | nil => rfl
  | cons hhead _ ih => rw [List.map_cons, List.map_cons, hhead, ih]

theorem messages_length (records : List UserRecord) :
    ((build records).records.flatMap (encodeLengthDelimited 3)).length =
      (records.map fun r => fieldSize (framing (pksOf records) (ehksOf records) r +
        r.data.length)).sum := by
  have htables := build_tabulates records
  have hlengths : List.Forall₂ (fun record blob => fieldSize (List.length blob) =
      fieldSize (framing (pksOf records) (ehksOf records) record + record.data.length))
      records (build records).records := by
    refine (build_stores records).messages.imp ?_
    intro record blob hholds
    rw [htables.partitionKeys, htables.explicitHashKeys] at hholds
    rw [hholds.length_eq (tableOf_nodup _) (tableOf_nodup _)]
    rfl
  rw [List.length_flatMap, ← map_eq_of_forall₂ hlengths]
  congr 1
  apply List.map_congr_left
  intro blob _
  exact encodeLengthDelimited_length _ (by decide)

theorem serialize_length (records : List UserRecord) :
    (build records).serialize.length =
      ((pksOf records).map fun key => fieldSize (encodeUtf8 key).length).sum +
      ((ehksOf records).map fun key => fieldSize (encodeUtf8 key).length).sum +
      (records.map fun r => fieldSize (framing (pksOf records) (ehksOf records) r +
        r.data.length)).sum := by
  have htables := build_tabulates records
  rw [AggregatedBuilder.serialize, List.length_append, List.length_append, messages_length,
    htables.partitionKeys, htables.explicitHashKeys, tableEntries_length _ (by decide),
    tableEntries_length _ (by decide), Nat.add_assoc]
  rfl

/-- **The blob of several records.** -/
theorem encodeAggregated_length (md5 : Bytes → Digest) {records : List UserRecord}
    (hmany : 2 ≤ records.length) :
    ∃ blob, encodeAggregated md5 records = .ok blob ∧
      blob.length = (build records).serialize.length + 20 := by
  have hmagic : magic.length = 4 := rfl
  have hdigest := (md5 (build records).serialize).property
  refine ⟨_, encodeAggregated_many md5 hmany, ?_⟩
  rw [List.length_append, List.length_append, hmagic, hdigest]
  omega

/-! ## The budget -/

/-- The framing of what the encoder writes is within what the estimate allows: eight bytes
    for each record and three for each table entry. -/
def WithinBudget (records : List UserRecord) : Prop :=
  ((pksOf records).map fun key => 1 + varintSize (encodeUtf8 key).length).sum +
    ((ehksOf records).map fun key => 1 + varintSize (encodeUtf8 key).length).sum +
    (records.map fun r => framing (pksOf records) (ehksOf records) r +
      (1 + varintSize (framing (pksOf records) (ehksOf records) r + r.data.length))).sum ≤
  8 * records.length + 3 * (pksOf records).length + 3 * (ehksOf records).length

/-- The payload of a field counts in full beside its framing. -/
theorem sum_fieldSize {α : Type} (length : α → Nat) (xs : List α) :
    (xs.map fun x => fieldSize (length x)).sum =
      (xs.map fun x => 1 + varintSize (length x)).sum + (xs.map length).sum :=
  List.sum_map_add

/-- A constant for each. -/
theorem sum_add_const {α : Type} (f : α → Nat) (c : Nat) (xs : List α) :
    (xs.map fun x => f x + c).sum = (xs.map f).sum + c * xs.length := by
  rw [List.sum_map_add, List.map_const', List.sum_replicate, smul_eq_mul, Nat.mul_comm]

end Aggregation

open Aggregation

/-- The estimate in terms of the tables of the encoder. -/
theorem size_eq_tables (b : AggregatedBatch) :
    let records := b.items.map BufferedRecord.userRecord
    b.size = (records.map fun r => r.data.length).sum + 8 * records.length +
      (((pksOf records).map fun key => (encodeUtf8 key).length).sum + 3 * (pksOf records).length) +
      (((ehksOf records).map fun key => (encodeUtf8 key).length).sum +
        3 * (ehksOf records).length) := by
  intro records
  have hkeys : ∀ keys : List String, (keys.map keyCost).sum =
      (keys.map fun key => (encodeUtf8 key).length).sum + 3 * keys.length :=
    fun keys => sum_add_const (fun key => (encodeUtf8 key).length) 3 keys
  have hcost : (fun it : BufferedRecord => recordCost it.userRecord) =
      fun it => it.userRecord.data.length + 8 := by
    funext it
    rw [recordCost, recordFraming, fieldFraming, indexReference]
    omega
  have hrecords : (b.items.map fun it => recordCost it.userRecord).sum =
      (b.items.map fun it => it.userRecord.data.length).sum + 8 * b.items.length := by
    rw [hcost]
    exact sum_add_const (fun it : BufferedRecord => it.userRecord.data.length) 8 b.items
  have hpks : tableOf (partitionKeysOf b.items) = pksOf records := by
    simp [pksOf, records, partitionKeysOf, Function.comp_def]
  have hehks : tableOf (hashKeysOf b.items) = ehksOf records := by
    simp [ehksOf, records, hashKeysOf, List.filterMap_map]
  rw [AggregatedBatch.size, b.totals_eq, Totals.sizeEstimate_of, sum_tableOf, sum_tableOf, hpks,
    hehks, hkeys, hkeys, hrecords, List.map_map, List.length_map]
  rfl

/-- The raw data of a single record is never longer than its estimate. -/
theorem single_within_estimate (md5 : Bytes → Digest) {b : AggregatedBatch}
    (hone : b.items.length = 1) : ∃ blob, b.toBlob md5 = .ok blob ∧ blob.length ≤ b.size + 20 := by
  rcases List.length_eq_one_iff.mp hone with ⟨it, hit⟩
  have hsize := size_eq_tables b
  refine ⟨it.userRecord.data, by rw [AggregatedBatch.toBlob, hit]; rfl, ?_⟩
  simp only [hit, List.map_cons, List.map_nil, List.sum_cons, List.sum_nil] at hsize
  omega

/-- Several records are within the estimate when their framing is within the budget. -/
theorem several_within_estimate_iff (md5 : Bytes → Digest) {b : AggregatedBatch}
    (hmany : 2 ≤ b.items.length) :
    (∃ blob, b.toBlob md5 = .ok blob ∧ blob.length ≤ b.size + 20) ↔
      WithinBudget (b.items.map BufferedRecord.userRecord) := by
  set records := b.items.map BufferedRecord.userRecord with hrecords
  have hlength : records.length = b.items.length := List.length_map _
  have hsize := size_eq_tables b
  dsimp only at hsize
  rw [← hrecords] at hsize
  rcases encodeAggregated_length md5 (hlength ▸ hmany) with ⟨blob, hblob, hbloblength⟩
  have hexact : (∃ blob, b.toBlob md5 = .ok blob ∧ blob.length ≤ b.size + 20) ↔
      (build records).serialize.length ≤ b.size := by
    rw [AggregatedBatch.toBlob, ← hrecords, hblob]
    constructor
    · rintro ⟨blob', hblob', hle⟩
      obtain rfl := Except.ok.inj hblob'
      omega
    · intro hle
      exact ⟨blob, rfl, by omega⟩
  have hmessages : (records.map fun r => framing (pksOf records) (ehksOf records) r +
      r.data.length).sum = (records.map fun r => framing (pksOf records) (ehksOf records) r).sum +
        (records.map fun r => r.data.length).sum := List.sum_map_add
  have hframing : (records.map fun r => framing (pksOf records) (ehksOf records) r +
      (1 + varintSize (framing (pksOf records) (ehksOf records) r + r.data.length))).sum =
      (records.map fun r => framing (pksOf records) (ehksOf records) r).sum +
        (records.map fun r => 1 + varintSize (framing (pksOf records) (ehksOf records) r +
          r.data.length)).sum := List.sum_map_add
  rw [hexact, serialize_length, sum_fieldSize, sum_fieldSize, sum_fieldSize, hsize, WithinBudget,
    hmessages, hframing]
  constructor
  · intro hle
    omega
  · intro hbudget
    omega

/-- **The size estimate.**  A batch's blob is at most 20 bytes longer than its size if and
    only if it is the raw data of a single record, or the framing of several is within the
    budget. -/
theorem blob_within_estimate_iff (md5 : Bytes → Digest) {b : AggregatedBatch}
    (hne : b.items ≠ []) :
    (∃ blob, b.toBlob md5 = .ok blob ∧ blob.length ≤ b.size + 20) ↔
      b.items.length = 1 ∨ WithinBudget (b.items.map BufferedRecord.userRecord) := by
  have hpos : 0 < b.items.length := List.length_pos_of_ne_nil hne
  by_cases hone : b.items.length = 1
  · exact iff_of_true (single_within_estimate md5 hone) (Or.inl hone)
  · rw [several_within_estimate_iff md5 (by omega)]
    constructor
    · exact Or.inr
    · rintro (hsingle | hbudget)
      · exact absurd hsingle hone
      · exact hbudget

/-! ## Batches within the budget and beyond -/

theorem varintSize_small {value : Nat} (h : value < 128) : varintSize value = 1 := by
  rw [varintSize, Nat.log_of_lt h]

theorem varintSize_le_two {value : Nat} (h : value < 16384) : varintSize value ≤ 2 := by
  have hlog : Nat.log 128 value < 2 := Nat.log_lt_of_lt_pow' (by omega) (by omega)
  rw [varintSize]
  omega

/-- A bound on each summand. -/
theorem sum_map_le_mul {α : Type} {f : α → Nat} {c : Nat} {xs : List α}
    (h : ∀ x ∈ xs, f x ≤ c) : (xs.map f).sum ≤ c * xs.length := by
  have hbound : (xs.map f).sum ≤ (xs.map f).length • c := by
    apply List.sum_le_card_nsmul
    intro n hn
    rcases List.mem_map.mp hn with ⟨x, hx, rfl⟩
    exact h x hx
  rwa [List.length_map, smul_eq_mul, Nat.mul_comm] at hbound

/-- A record without a tag and an explicit hash key takes eight bytes at most beside its
    data. -/
theorem framing_of_plain {pkTable ehkTable : List String} {r : UserRecord}
    (hindex : pkTable.idxOf r.partitionKey < 128) (htags : r.tags = [])
    (hehk : r.explicitHashKey = none) (hdata : r.data.length < 16376) :
    framing pkTable ehkTable r +
      (1 + varintSize (framing pkTable ehkTable r + r.data.length)) ≤ 8 := by
  have hdataVarint : varintSize r.data.length ≤ 2 := varintSize_le_two (by omega)
  have hframing : framing pkTable ehkTable r ≤ 5 := by
    simp only [framing, htags, hehk, varintSize_small hindex, List.map_nil, List.sum_nil]
    omega
  have hmessage : varintSize (framing pkTable ehkTable r + r.data.length) ≤ 2 :=
    varintSize_le_two (by omega)
  omega

/-- Records without tags and explicit hash keys are within the budget if each has less
    than 16376 bytes of data, each partition key less than 16 KiB, and there are at most
    128 partition keys among them.  From 16379 to 16383 bytes of data the message's own
    length prefix takes a third byte and two records already overrun it. -/
theorem withinBudget_of_plain {records : List UserRecord}
    (hplain : ∀ r ∈ records, r.tags = [] ∧ r.explicitHashKey = none ∧ r.data.length < 16376 ∧
      (encodeUtf8 r.partitionKey).length < 16384) (hkeys : (pksOf records).length ≤ 128) :
    WithinBudget records := by
  have hpks : ((pksOf records).map fun key => 1 + varintSize (encodeUtf8 key).length).sum ≤
      3 * (pksOf records).length := by
    apply sum_map_le_mul
    intro key hkey
    rcases List.mem_map.mp ((mem_tableOf _ key).mp hkey) with ⟨r, hr, rfl⟩
    have hvarint := varintSize_le_two (hplain r hr).2.2.2
    omega
  have hehks : ehksOf records = [] := by
    have hnone : records.filterMap UserRecord.explicitHashKey = [] :=
      List.filterMap_eq_nil_iff.mpr fun r hr => (hplain r hr).2.1
    rw [ehksOf, hnone]
    rfl
  have hrecords : (records.map fun r => framing (pksOf records) (ehksOf records) r +
      (1 + varintSize (framing (pksOf records) (ehksOf records) r + r.data.length))).sum ≤
      8 * records.length := by
    apply sum_map_le_mul
    intro r hr
    rcases hplain r hr with ⟨htags, hehk, hdata, _⟩
    have hmem : r.partitionKey ∈ pksOf records :=
      (mem_tableOf _ _).mpr (List.mem_map_of_mem hr)
    have hindex : (pksOf records).idxOf r.partitionKey < (pksOf records).length :=
      List.idxOf_lt_length_of_mem hmem
    exact framing_of_plain (by omega) htags hehk hdata
  rw [WithinBudget, hehks]
  rw [hehks] at hrecords
  simp only [List.map_nil, List.sum_nil, List.length_nil]
  omega

instance (records : List UserRecord) : Decidable (WithinBudget records) :=
  inferInstanceAs (Decidable (_ ≤ _))

/-- Two records under one key, of which the second may carry a tag. -/
def twoRecords (tags : List Tag) : AggregatedBatch :=
  [[], tags].foldl (fun batch tags => batch.add
    { ident := batch.count, userRecord := { partitionKey := "p", data := [], tags }, deadline := 0,
      hashKey := 0, arrivalTime := 0 }) { predictedShard := none }

theorem blob_within_estimate_iff_untagged :
    ∃ blob, (twoRecords []).toBlob (fun _ => .zero) = .ok blob ∧
      blob.length ≤ (twoRecords []).size + 20 := by
  refine (blob_within_estimate_iff _ (by decide)).mpr (Or.inr ?_)
  decide +kernel

/-- One tag is outside the estimate. -/
theorem not_every_blob_within_estimate :
    ¬ ∀ (md5 : Bytes → Digest) (b : AggregatedBatch), b.items ≠ [] →
      ∃ blob, b.toBlob md5 = .ok blob ∧ blob.length ≤ b.size + 20 := by
  intro hevery
  have hblob := hevery (fun _ => .zero) (twoRecords [{ key := "kk" }]) (by decide)
  rw [several_within_estimate_iff _ (by decide)] at hblob
  revert hblob
  decide +kernel

end Aiokpl
