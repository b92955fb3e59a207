import Mathlib.Tactic
import Aiokpl.AggregationFields

/-!
# Aggregated blobs decode to the records they were made of

Each of the four levels is read back by its own loop: a `Tag` message, a
`Record` message with its list of tags, the envelope with its three lists, and
the blob with magic and digest.  The builder keeps, for every record added so
far, a message whose indices find the record's keys in the tables; tables only
grow at the end, so the indices stay right.
-/

namespace Aiokpl.Aggregation

open Lib Lib.Cursor

/-- What a decoder gives back for a record. -/
def UserRecord.decoded (r : UserRecord) : DecodedRecord :=
  { partitionKey := r.partitionKey, explicitHashKey := r.explicitHashKey, data := r.data,
    tags := r.tags }

theorem decodeUtf8_encodeUtf8 (s : String) : decodeUtf8 (encodeUtf8 s) = .ok s := by
  have hbytes : (⟨(encodeUtf8 s).toArray⟩ : ByteArray) = s.toUTF8 := by simp [encodeUtf8]
  have hvalid : String.fromUTF8? s.toUTF8 = some s := by
    have h : s.toUTF8.IsValidUTF8 := s.isValidUTF8
    simp only [String.fromUTF8?, h, dif_pos]
    rfl
  rw [decodeUtf8, hbytes, hvalid]

theorem length_le_encodeLengthDelimited (fieldNumber : Nat) (payload : Bytes) :
    payload.length ≤ (encodeLengthDelimited fieldNumber payload).length := by
  simp only [encodeLengthDelimited, List.length_append]
  omega

/-! ## Tag messages -/

theorem scans_tagKey {key : String} (h : (encodeUtf8 key).length < 2 ^ 64) (s : TagFields) :
    Scans tagField (encodeLengthDelimited 1 (encodeUtf8 key)) s { s with key := some key } := by
  refine scans_lengthDelimited (by decide) ?_
  rw [if_pos ⟨rfl, rfl⟩]
  exact delimitedField_reads _ h (by rw [decodeUtf8_encodeUtf8]; rfl)

theorem scans_tagValue {value : String} (h : (encodeUtf8 value).length < 2 ^ 64) (s : TagFields) :
    Scans tagField (encodeLengthDelimited 2 (encodeUtf8 value)) s
      { s with value := some value } := by
  refine scans_lengthDelimited (by decide) ?_
  rw [if_neg (by decide), if_pos ⟨rfl, rfl⟩]
  exact delimitedField_reads _ h (by rw [decodeUtf8_encodeUtf8]; rfl)

theorem scans_tagMsg (t : Tag) (h : (encodeTagMsg t).length < 2 ^ 64) :
    Scans tagField (encodeTagMsg t) {} { key := some t.key, value := t.value } := by
  have hkey := length_le_encodeLengthDelimited 1 (encodeUtf8 t.key)
  simp only [encodeTagMsg, List.length_append] at h
  refine (scans_tagKey (by omega) {}).append ?_
  cases hvalue : t.value with
  | none => exact Scans.nil _ _
  | some value =>
    have hlength := length_le_encodeLengthDelimited 2 (encodeUtf8 value)
    simp only [hvalue] at h
    exact scans_tagValue (by omega) _

theorem decodeTagMsg_encodeTagMsg {t : Tag} (h : (encodeTagMsg t).length < 2 ^ 64) :
    decodeTagMsg (encodeTagMsg t) = .ok t := by
  rw [decodeTagMsg, (scans_tagMsg t h).run]
  rfl

/-! ## Record messages -/

theorem scans_pkIndex {pkIndex : Nat} (h : pkIndex < 2 ^ 64) (s : RecordFields) :
    Scans recordField (encodeUint64Field 1 pkIndex) s { s with pkIndex := some pkIndex } := by
  refine scans_uint64Field (by decide) ?_
  rw [if_pos ⟨rfl, rfl⟩]
  exact varintField_reads _ h

theorem scans_ehkIndex {ehkIndex : Nat} (h : ehkIndex < 2 ^ 64) (s : RecordFields) :
    Scans recordField (encodeUint64Field 2 ehkIndex) s { s with ehkIndex := some ehkIndex } := by
  refine scans_uint64Field (by decide) ?_
  rw [if_neg (by decide), if_pos ⟨rfl, rfl⟩]
  exact varintField_reads _ h

theorem scans_data {data : Bytes} (h : data.length < 2 ^ 64) (s : RecordFields) :
    Scans recordField (encodeLengthDelimited 3 data) s { s with data := some data } := by
  refine scans_lengthDelimited (by decide) ?_
  rw [if_neg (by decide), if_neg (by decide), if_pos ⟨rfl, rfl⟩]
  exact delimitedField_reads _ h rfl

theorem scans_tag {t : Tag} (h : (encodeTagMsg t).length < 2 ^ 64) (s : RecordFields) :
    Scans recordField (encodeLengthDelimited 4 (encodeTagMsg t)) s
      { s with tags := s.tags ++ [t] } := by
  refine scans_lengthDelimited (by decide) ?_
  rw [if_neg (by decide), if_neg (by decide), if_neg (by decide), if_pos ⟨rfl, rfl⟩]
  exact delimitedField_reads _ h (by rw [decodeTagMsg_encodeTagMsg h]; rfl)

/-- The tag list of a record message appends its tags in order. -/
theorem scans_tags : ∀ (tags : List Tag), (∀ t ∈ tags, (encodeTagMsg t).length < 2 ^ 64) →
    ∀ s : RecordFields, Scans recordField
      (tags.flatMap fun t => encodeLengthDelimited 4 (encodeTagMsg t)) s
      { s with tags := s.tags ++ tags }
  | [], _, s => by simpa using Scans.nil recordField s
  | t :: tags, h, s => by
    have hrest := scans_tags tags (fun t' ht' => h t' (by simp [ht']))
      { s with tags := s.tags ++ [t] }
    simp only [List.append_assoc, List.singleton_append] at hrest
    exact (scans_tag (h t (by simp)) s).append hrest

theorem length_le_flatMap {α : Type} (enc : α → Bytes) {xs : List α} {x : α} (h : x ∈ xs) :
    (enc x).length ≤ (xs.flatMap enc).length := by
  obtain ⟨before, after, rfl⟩ := List.append_of_mem h
  simp only [List.flatMap_append, List.flatMap_cons, List.length_append]
  omega

theorem scans_recordMsg {pkIndex : Nat} {ehkIndex : Option Nat} {data : Bytes} {tags : List Tag}
    (hpk : pkIndex < 2 ^ 64) (hehk : ∀ i, ehkIndex = some i → i < 2 ^ 64)
    (h : (encodeRecordMsg pkIndex ehkIndex data tags).length < 2 ^ 64) :
    Scans recordField (encodeRecordMsg pkIndex ehkIndex data tags) {}
      { pkIndex := some pkIndex, ehkIndex := ehkIndex, data := some data, tags := tags } := by
  have hdata := length_le_encodeLengthDelimited 3 data
  simp only [encodeRecordMsg, List.length_append] at h
  have htags : ∀ t ∈ tags, (encodeTagMsg t).length < 2 ^ 64 := by
    intro t ht
    have hmsg := length_le_encodeLengthDelimited 4 (encodeTagMsg t)
    have hfield := length_le_flatMap (fun t => encodeLengthDelimited 4 (encodeTagMsg t)) ht
    omega
  have hdataLt : data.length < 2 ^ 64 := by omega
  have hrest := (scans_data hdataLt { pkIndex := some pkIndex, ehkIndex }).append
    (scans_tags tags htags _)
  refine (scans_pkIndex hpk {}).append (Scans.append ?_ hrest)
  cases ehkIndex with
  | none => exact Scans.nil _ _
  | some i => exact scans_ehkIndex (hehk i rfl) _

/-- `blob` is the message of `record`, with indices that find its keys in the tables. -/
def Holds (pkTable ehkTable : List String) (record : UserRecord) (blob : Bytes) : Prop :=
  ∃ pkIndex ehkIndex, blob = encodeRecordMsg pkIndex ehkIndex record.data record.tags ∧
    pkTable[pkIndex]? = some record.partitionKey ∧
    ehkIndex.map (ehkTable[·]?) = record.explicitHashKey.map some

/-- The end of `_decode_record_msg`, behind its loop. -/
def resolve (pkTable ehkTable : List String) (s : RecordFields) : Except Error DecodedRecord :=
  match s.pkIndex with
  | none => .error (.valueError "Record.partition_key_index is required")
  | some pkIndex =>
    match s.data with
    | none => .error (.valueError "Record.data is required")
    | some data =>
      match pkTable[pkIndex]? with
      | none => .error (.valueError s!"partition_key_index {pkIndex} out of range")
      | some partitionKey =>
        match s.ehkIndex with
        | none => return { partitionKey, explicitHashKey := none, data, tags := s.tags }
        | some ehkIndex =>
          match ehkTable[ehkIndex]? with
          | none => .error (.valueError s!"explicit_hash_key_index {ehkIndex} out of range")
          | some ehk => return { partitionKey, explicitHashKey := some ehk, data, tags := s.tags }

/-- The tests that stand before the two reads leave out what they would raise. -/
theorem decodeRecordMsg_eq (pks ehks : List String) (chunk : Bytes) :
    decodeRecordMsg pks ehks chunk =
      scan recordField chunk chunk.length 0 {} >>= resolve pks ehks := by
  refine congrArg (scan recordField chunk chunk.length 0 {} >>= ·) (funext fun s => ?_)
  rcases s with ⟨_ | pkIndex, ehkIndex, data, tags⟩
  · rfl
  · rcases data with _ | data
    · rfl
    · cases hpk : pks[pkIndex]? with
      | none =>
        have hge := List.getElem?_eq_none_iff.mp hpk
        simp [resolve, hge]
      | some pk =>
        have hlt := not_le.mpr (List.getElem?_eq_some_iff.mp hpk).1
        rcases ehkIndex with _ | ehkIndex
        · simp [resolve, hpk, hlt, item, bind, Except.bind, pure, Except.pure]
        · cases hehk : ehks[ehkIndex]? with
          | none =>
            have hge := List.getElem?_eq_none_iff.mp hehk
            simp [resolve, hpk, hlt, hge, bind, Except.bind]
          | some ehk =>
            have hlt' := not_le.mpr (List.getElem?_eq_some_iff.mp hehk).1
            simp [resolve, hpk, hlt, hehk, hlt', item, bind, Except.bind, pure, Except.pure]

theorem decodeRecordMsg_of_holds {pkTable ehkTable : List String} {record : UserRecord}
    {blob : Bytes} (h : Holds pkTable ehkTable record blob) (hblob : blob.length < 2 ^ 64)
    (hpkTable : pkTable.length ≤ 2 ^ 64) (hehkTable : ehkTable.length ≤ 2 ^ 64) :
    decodeRecordMsg pkTable ehkTable blob = .ok record.decoded := by
  obtain ⟨pkIndex, ehkIndex, rfl, hpk, hehk⟩ := h
  have hpkLt : pkIndex < pkTable.length := (List.getElem?_eq_some_iff.mp hpk).1
  have hehkLt : ∀ i, ehkIndex = some i → i < 2 ^ 64 := by
    rintro i rfl
    cases hrecord : record.explicitHashKey with
    | none => simp [hrecord] at hehk
    | some ehk =>
      simp only [hrecord, Option.map_some, Option.some.injEq] at hehk
      have hlt := (List.getElem?_eq_some_iff.mp hehk).1
      omega
  rw [decodeRecordMsg_eq, (scans_recordMsg (by omega) hehkLt hblob).run]
  cases ehkIndex with
  | none =>
    have hnone : record.explicitHashKey = none := by simpa using hehk.symm
    simp [resolve, bind, Except.bind, pure, Except.pure, hpk, UserRecord.decoded, hnone]
  | some i =>
    cases hrecord : record.explicitHashKey with
    | none => simp [hrecord] at hehk
    | some ehk =>
      simp only [hrecord, Option.map_some, Option.some.injEq] at hehk
      simp [resolve, bind, Except.bind, pure, Except.pure, hpk, hehk, UserRecord.decoded, hrecord]

/-! ## The builder -/

/-- The index finds its keys in the table. -/
def Indexed (keys : List String) (index : Dict String Nat) : Prop :=
  ∀ key i, index.get? key = some i → keys[i]? = some key

theorem intern_spec (key : String) {keys : List String} {index : Dict String Nat}
    (h : Indexed keys index) :
    let (i, keys', index') := intern key keys index
    keys'[i]? = some key ∧ keys <+: keys' ∧ Indexed keys' index' := by
  cases hget : index.get? key with
  | some i =>
    simp only [intern, hget]
    exact ⟨h key i hget, List.prefix_rfl, h⟩
  | none =>
    simp only [intern, hget]
    refine ⟨by simp, List.prefix_append _ _, fun key' j hj => ?_⟩
    rw [Dict.get?_set] at hj
    split at hj
    · rename_i heq
      obtain rfl := Option.some.inj hj
      simp [heq]
    · have hold := h key' j hj
      rw [List.getElem?_append_left (List.getElem?_eq_some_iff.mp hold).1, hold]

theorem getElem?_of_prefix {keys keys' : List String} {i : Nat} {key : String}
    (h : keys <+: keys') (hi : keys[i]? = some key) : keys'[i]? = some key := by
  obtain ⟨more, rfl⟩ := h
  rw [List.getElem?_append_left (List.getElem?_eq_some_iff.mp hi).1, hi]

/-- Tables that grow at the end keep what they hold. -/
theorem Holds.grow {pkTable pkTable' ehkTable ehkTable' : List String} {record : UserRecord}
    {blob : Bytes} (h : Holds pkTable ehkTable record blob) (hpk : pkTable <+: pkTable')
    (hehk : ehkTable <+: ehkTable') : Holds pkTable' ehkTable' record blob := by
  obtain ⟨pkIndex, ehkIndex, hblob, hpkIndex, hehkIndex⟩ := h
  refine ⟨pkIndex, ehkIndex, hblob, getElem?_of_prefix hpk hpkIndex, ?_⟩
  cases ehkIndex with
  | none => simpa using hehkIndex
  | some i =>
    cases hrecord : record.explicitHashKey with
    | none => simp [hrecord] at hehkIndex
    | some ehk =>
      simp only [hrecord, Option.map_some, Option.some.injEq] at hehkIndex ⊢
      exact getElem?_of_prefix hehk hehkIndex

/-- What the builder holds after `records` have been added. -/
structure AggregatedBuilder.Stores (b : AggregatedBuilder) (records : List UserRecord) : Prop where
  partitionKeys : Indexed b.partitionKeys b.pkIndex
  explicitHashKeys : Indexed b.explicitHashKeys b.ehkIndex
  messages : List.Forall₂ (Holds b.partitionKeys b.explicitHashKeys) records b.records

theorem AggregatedBuilder.Stores.add {b : AggregatedBuilder} {records : List UserRecord}
    (h : b.Stores records) (record : UserRecord) : (b.add record).Stores (records ++ [record]) := by
  obtain ⟨hpkIndex, hpkGrow, hpkIndexed⟩ := intern_spec record.partitionKey h.partitionKeys
  cases hrecord : record.explicitHashKey with
  | none =>
    simp only [AggregatedBuilder.add, hrecord]
    refine ⟨hpkIndexed, h.explicitHashKeys, ?_⟩
    refine List.rel_append (h.messages.imp fun _ _ hold => hold.grow hpkGrow List.prefix_rfl) ?_
    exact List.Forall₂.cons ⟨_, none, rfl, hpkIndex, by rw [hrecord]; rfl⟩ List.Forall₂.nil
  | some ehk =>
    obtain ⟨hehkIndex, hehkGrow, hehkIndexed⟩ := intern_spec ehk h.explicitHashKeys
    simp only [AggregatedBuilder.add, hrecord]
    refine ⟨hpkIndexed, hehkIndexed, ?_⟩
    refine List.rel_append (h.messages.imp fun _ _ hold => hold.grow hpkGrow hehkGrow) ?_
    refine List.Forall₂.cons ⟨_, some _, rfl, hpkIndex, ?_⟩ List.Forall₂.nil
    rw [hrecord, Option.map_some, Option.map_some]
    exact congrArg some hehkIndex

theorem build_stores (records : List UserRecord) : (build records).Stores records := by
  induction records using List.reverseRecOn with
  | nil => exact ⟨by simp [Indexed, build], by simp [Indexed, build], List.Forall₂.nil⟩
  | append_singleton records record ih =>
    rw [build, List.foldl_append]
    exact ih.add record

/-! ## Envelope and blob -/

/-- Every length and table index the encoder writes for `records` fits in a
    `uint64`.  The lengths inside a record message are below its own. -/
structure WireSized (records : List UserRecord) : Prop where
  partitionKeys : ∀ pk ∈ (build records).partitionKeys, (encodeUtf8 pk).length < 2 ^ 64
  explicitHashKeys : ∀ ehk ∈ (build records).explicitHashKeys, (encodeUtf8 ehk).length < 2 ^ 64
  messages : ∀ blob ∈ (build records).records, blob.length < 2 ^ 64
  pkIndices : (build records).partitionKeys.length ≤ 2 ^ 64
  ehkIndices : (build records).explicitHashKeys.length ≤ 2 ^ 64

theorem scans_partitionKeys : ∀ (pks : List String),
    (∀ pk ∈ pks, (encodeUtf8 pk).length < 2 ^ 64) → ∀ s : EnvelopeFields, Scans envelopeField
      (pks.flatMap fun pk => encodeLengthDelimited 1 (encodeUtf8 pk)) s
      { s with pkTable := s.pkTable ++ pks }
  | [], _, s => by simpa using Scans.nil envelopeField s
  | pk :: pks, h, s => by
    have hrest := scans_partitionKeys pks (fun pk' h' => h pk' (by simp [h']))
      { s with pkTable := s.pkTable ++ [pk] }
    simp only [List.append_assoc, List.singleton_append] at hrest
    refine Scans.append (scans_lengthDelimited (by decide) ?_) hrest
    rw [if_pos ⟨rfl, rfl⟩]
    exact delimitedField_reads _ (h pk (by simp)) (by rw [decodeUtf8_encodeUtf8]; rfl)

theorem scans_explicitHashKeys : ∀ (ehks : List String),
    (∀ ehk ∈ ehks, (encodeUtf8 ehk).length < 2 ^ 64) → ∀ s : EnvelopeFields, Scans envelopeField
      (ehks.flatMap fun ehk => encodeLengthDelimited 2 (encodeUtf8 ehk)) s
      { s with ehkTable := s.ehkTable ++ ehks }
  | [], _, s => by simpa using Scans.nil envelopeField s
  | ehk :: ehks, h, s => by
    have hrest := scans_explicitHashKeys ehks (fun ehk' h' => h ehk' (by simp [h']))
      { s with ehkTable := s.ehkTable ++ [ehk] }
    simp only [List.append_assoc, List.singleton_append] at hrest
    refine Scans.append (scans_lengthDelimited (by decide) ?_) hrest
    rw [if_neg (by decide), if_pos ⟨rfl, rfl⟩]
    exact delimitedField_reads _ (h ehk (by simp)) (by rw [decodeUtf8_encodeUtf8]; rfl)

theorem scans_records : ∀ (blobs : List Bytes), (∀ blob ∈ blobs, blob.length < 2 ^ 64) →
    ∀ s : EnvelopeFields, Scans envelopeField (blobs.flatMap (encodeLengthDelimited 3)) s
      { s with recordBlobs := s.recordBlobs ++ blobs }
  | [], _, s => by simpa using Scans.nil envelopeField s
  | blob :: blobs, h, s => by
    have hrest := scans_records blobs (fun blob' h' => h blob' (by simp [h']))
      { s with recordBlobs := s.recordBlobs ++ [blob] }
    simp only [List.append_assoc, List.singleton_append] at hrest
    refine Scans.append (scans_lengthDelimited (by decide) ?_) hrest
    rw [if_neg (by decide), if_neg (by decide), if_pos ⟨rfl, rfl⟩]
    exact delimitedField_reads _ (h blob (by simp)) rfl

theorem scans_envelope {records : List UserRecord} (h : WireSized records) :
    Scans envelopeField (build records).serialize {}
      { pkTable := (build records).partitionKeys, ehkTable := (build records).explicitHashKeys,
        recordBlobs := (build records).records } :=
  (scans_partitionKeys _ h.partitionKeys {}).append
    ((scans_explicitHashKeys _ h.explicitHashKeys _).append (scans_records _ h.messages _))

theorem mapM_of_forall₂ {α β γ ε : Type} {f : β → Except ε γ} {g : α → γ} {R : α → β → Prop}
    (hf : ∀ a b, R a b → f b = .ok (g a)) {as : List α} {bs : List β} (h : List.Forall₂ R as bs) :
    bs.mapM f = .ok (as.map g) := by
  induction h with
  | nil => rfl
  | cons hab _ ih =>
    rw [List.mapM_cons, hf _ _ hab, ih]
    rfl

/-- Magic, payload and digest are taken apart again. -/
theorem decodeAggregated_blob (md5 : Bytes → Digest) (payload : Bytes) :
    decodeAggregated md5 (magic ++ payload ++ (md5 payload).val) = (do
      let s ← scan envelopeField payload payload.length 0 {}
      s.recordBlobs.mapM (decodeRecordMsg s.pkTable s.ehkTable)) := by
  have hdigest := (md5 payload).property
  have hmagic : magic.length = 4 := rfl
  have hlength : (magic ++ payload ++ (md5 payload).val).length - md5Len =
      (magic ++ payload).length := by
    simp only [List.length_append, hdigest, md5Len]
    omega
  have hlong : ¬ (magic ++ payload ++ (md5 payload).val).length < magic.length + md5Len := by
    simp only [List.length_append, hdigest, md5Len]
    omega
  have hprefix : magic.isPrefixOf (magic ++ payload ++ (md5 payload).val) = true := by
    rw [List.isPrefixOf_iff_prefix, List.append_assoc]
    exact List.prefix_append _ _
  have hproto : ((magic ++ payload ++ (md5 payload).val).take (magic ++ payload).length).drop
      magic.length = payload := by
    rw [List.take_left, List.drop_left]
  have hexpected : (magic ++ payload ++ (md5 payload).val).drop (magic ++ payload).length =
      (md5 payload).val := by
    rw [List.drop_left]
  rw [decodeAggregated, if_neg hlong, if_neg (not_not.mpr hprefix), hlength]
  simp only [hproto, hexpected, ne_eq, not_true_eq_false, if_false]

/-- What several records are encoded as. -/
theorem encodeAggregated_many (md5 : Bytes → Digest) {records : List UserRecord}
    (hmany : 2 ≤ records.length) :
    encodeAggregated md5 records =
      .ok (magic ++ (build records).serialize ++ (md5 (build records).serialize).val) := by
  rcases records with _ | ⟨r, _ | ⟨r', rest⟩⟩
  · simp at hmany
  · simp at hmany
  · rfl

/-- The envelope of any list of records is read back. -/
theorem decodeAggregated_serialize (md5 : Bytes → Digest) {records : List UserRecord}
    (hsized : WireSized records) :
    decodeAggregated md5
        (magic ++ (build records).serialize ++ (md5 (build records).serialize).val) =
      .ok (records.map UserRecord.decoded) := by
  have hmessages : List.Forall₂ (fun record blob =>
      decodeRecordMsg (build records).partitionKeys (build records).explicitHashKeys blob =
        .ok record.decoded) records (build records).records := by
    refine List.forall₂_iff_get.mpr ?_
    have hstores := List.forall₂_iff_get.mp (build_stores records).messages
    refine ⟨hstores.1, fun i hi hi' => ?_⟩
    exact decodeRecordMsg_of_holds (hstores.2 i hi hi')
      (hsized.messages _ (List.get_mem _ _)) hsized.pkIndices hsized.ehkIndices
  have hdecode := mapM_of_forall₂ (fun _ _ h => h) hmessages
  rw [decodeAggregated_blob, (scans_envelope hsized).run]
  exact hdecode

/-- **An aggregated blob decodes to exactly the records it was made of, in order.** -/
theorem decodeAggregated_encodeAggregated (md5 : Bytes → Digest) {records : List UserRecord}
    (hmany : 2 ≤ records.length) (hsized : WireSized records) :
    (encodeAggregated md5 records >>= decodeAggregated md5) =
      .ok (records.map UserRecord.decoded) := by
  rw [encodeAggregated_many md5 hmany]
  exact decodeAggregated_serialize md5 hsized

/-- Two records that share a partition key; the second has a hash key, a tag with
    an empty value and a tag with none. -/
def sharedKeyRecords : List UserRecord :=
  [{ partitionKey := "pk", data := [] },
   { partitionKey := "pk", data := [1, 2], explicitHashKey := some "0",
     tags := [{ key := "k", value := some "" }, { key := "k" }] }]

theorem sharedKeyRecords_sized : WireSized sharedKeyRecords := by
  have hbuild : build sharedKeyRecords =
      { partitionKeys := ["pk"], explicitHashKeys := ["0"], pkIndex := Dict.empty.set "pk" 0,
        ehkIndex := Dict.empty.set "0" 0,
        records := [encodeRecordMsg 0 none [] [],
          encodeRecordMsg 0 (some 0) [1, 2] [{ key := "k", value := some "" }, { key := "k" }]] } :=
    rfl
  have hpk : encodeUtf8 "pk" = [112, 107] := rfl
  have hzero : encodeUtf8 "0" = [48] := rfl
  have hk : encodeUtf8 "k" = [107] := rfl
  have hempty : encodeUtf8 "" = [] := rfl
  have hmessages : ∀ blob ∈ (build sharedKeyRecords).records, blob.length < 2 ^ 64 := by
    simp [hbuild, encodeRecordMsg, encodeUint64Field, encodeLengthDelimited, encodeTag,
      encodeTagMsg, encodeVarint_small, wireVarint, wireLengthDelimited, hk, hempty]
  exact ⟨by simp [hbuild, hpk], by simp [hbuild, hzero], hmessages, by simp [hbuild],
    by simp [hbuild]⟩

theorem decodeAggregated_encodeAggregated_sharedKey :
    (encodeAggregated (fun _ => ⟨List.replicate 16 0, rfl⟩) sharedKeyRecords >>=
        decodeAggregated (fun _ => ⟨List.replicate 16 0, rfl⟩)) =
      .ok (sharedKeyRecords.map UserRecord.decoded) :=
  decodeAggregated_encodeAggregated _ (by decide) sharedKeyRecords_sized

end Aiokpl.Aggregation
