import Aiokpl.AggregationRoundTrip
import Aiokpl.Lib.FirstAppearances

/-!
# The tables of the builder

The two tables have the distinct keys in the order of their first appearance, and the two
indices their positions.  A table only grows at its end, and only by a key that is new, so
the positions that stand in the messages already written stay right.
-/

namespace Aiokpl

open Lib

namespace Aggregation

/-! ## The tables -/

/-- The distinct keys in the order of their first occurrence. -/
def tableOf (keys : List String) : List String :=
  keys.foldl (fun table key => if key ∈ table then table else table ++ [key]) []

theorem tableOf_concat (keys : List String) (key : String) :
    tableOf (keys ++ [key]) =
      if key ∈ tableOf keys then tableOf keys else tableOf keys ++ [key] := by
  rw [tableOf, List.foldl_append]
  rfl

theorem tableOf_firstAppearances (keys : List String) : FirstAppearances keys (tableOf keys) := by
  induction keys using List.reverseRecOn with
  | nil => exact .nil
  | append_singleton keys key ih =>
    rw [tableOf_concat]
    exact ih.concat key

theorem tableOf_nodup (keys : List String) : (tableOf keys).Nodup :=
  (tableOf_firstAppearances keys).nodup

theorem mem_tableOf (keys : List String) (key : String) : key ∈ tableOf keys ↔ key ∈ keys :=
  (tableOf_firstAppearances keys).mem_iff key

/-- The index knows every key of the table. -/
def Complete (keys : List String) (index : Dict String Nat) : Prop :=
  ∀ key ∈ keys, ∃ i, index.get? key = some i

theorem intern_table (key : String) {keys : List String} {index : Dict String Nat}
    (hindexed : Indexed keys index) (hcomplete : Complete keys index) :
    (intern key keys index).2.1 = (if key ∈ keys then keys else keys ++ [key]) ∧
      Complete (intern key keys index).2.1 (intern key keys index).2.2 := by
  cases hget : index.get? key with
  | some i =>
    have hmem : key ∈ keys := List.mem_of_getElem? (hindexed key i hget)
    simp only [intern, hget, if_pos hmem]
    exact ⟨trivial, hcomplete⟩
  | none =>
    have hnew : key ∉ keys := by
      intro hmem
      rcases hcomplete key hmem with ⟨i, hi⟩
      rw [hget] at hi
      cases hi
    simp only [intern, hget, if_neg hnew]
    refine ⟨trivial, fun key' hkey' => ?_⟩
    rw [Dict.get?_set]
    split
    · exact ⟨_, rfl⟩
    · rename_i hne
      rcases List.mem_append.mp hkey' with hold | hsame
      · exact hcomplete key' hold
      · exact absurd (List.mem_singleton.mp hsame) hne

/-- The tables of a builder to which these records have been added. -/
structure AggregatedBuilder.Tabulates (b : AggregatedBuilder) (records : List UserRecord) :
    Prop where
  partitionKeys : b.partitionKeys = tableOf (records.map UserRecord.partitionKey)
  explicitHashKeys : b.explicitHashKeys = tableOf (records.filterMap UserRecord.explicitHashKey)
  pkComplete : Complete b.partitionKeys b.pkIndex
  ehkComplete : Complete b.explicitHashKeys b.ehkIndex

theorem AggregatedBuilder.Tabulates.add {b : AggregatedBuilder} {records : List UserRecord}
    (h : b.Tabulates records) (hstores : b.Stores records) (record : UserRecord) :
    (b.add record).Tabulates (records ++ [record]) := by
  rcases intern_table record.partitionKey hstores.partitionKeys h.pkComplete with
    ⟨hpkTable, hpkComplete⟩
  rw [h.partitionKeys, ← tableOf_concat] at hpkTable
  have hpks : (records ++ [record]).map UserRecord.partitionKey =
      records.map UserRecord.partitionKey ++ [record.partitionKey] := by simp
  cases hrecord : record.explicitHashKey with
  | none =>
    have hehks : (records ++ [record]).filterMap UserRecord.explicitHashKey =
        records.filterMap UserRecord.explicitHashKey := by simp [hrecord]
    simp only [AggregatedBuilder.add, hrecord]
    refine ⟨?_, ?_, hpkComplete, h.ehkComplete⟩
    · rw [hpks, ← hpkTable, ← h.partitionKeys]
    · rw [hehks]
      exact h.explicitHashKeys
  | some ehk =>
    rcases intern_table ehk hstores.explicitHashKeys h.ehkComplete with ⟨hehkTable, hehkComplete⟩
    rw [h.explicitHashKeys, ← tableOf_concat] at hehkTable
    have hehks : (records ++ [record]).filterMap UserRecord.explicitHashKey =
        records.filterMap UserRecord.explicitHashKey ++ [ehk] := by simp [hrecord]
    simp only [AggregatedBuilder.add, hrecord]
    refine ⟨?_, ?_, hpkComplete, hehkComplete⟩
    · rw [hpks, ← hpkTable, ← h.partitionKeys]
    · rw [hehks, ← hehkTable, ← h.explicitHashKeys]

theorem build_tabulates (records : List UserRecord) : (build records).Tabulates records := by
  induction records using List.reverseRecOn with
  | nil =>
    exact ⟨rfl, rfl, fun key hkey => absurd hkey List.not_mem_nil,
      fun key hkey => absurd hkey List.not_mem_nil⟩
  | append_singleton records record ih =>
    rw [build, List.foldl_append]
    exact ih.add (build_stores records) record

theorem build_partitionKeys (records : List UserRecord) :
    FirstAppearances (records.map UserRecord.partitionKey) (build records).partitionKeys := by
  rw [(build_tabulates records).partitionKeys]
  exact tableOf_firstAppearances _

theorem build_explicitHashKeys (records : List UserRecord) :
    FirstAppearances (records.filterMap UserRecord.explicitHashKey)
      (build records).explicitHashKeys := by
  rw [(build_tabulates records).explicitHashKeys]
  exact tableOf_firstAppearances _

/-- The tables, the indices and the messages of a builder agree with the records that have
    been added to it. -/
structure AggregatedBuilder.Deduplicates (b : AggregatedBuilder) (records : List UserRecord) :
    Prop where
  partitionKeys : FirstAppearances (records.map UserRecord.partitionKey) b.partitionKeys
  explicitHashKeys :
    FirstAppearances (records.filterMap UserRecord.explicitHashKey) b.explicitHashKeys
  pkNodup : b.partitionKeys.Nodup
  ehkNodup : b.explicitHashKeys.Nodup
  pkIndex : Positions b.partitionKeys b.pkIndex
  ehkIndex : Positions b.explicitHashKeys b.ehkIndex
  messages : List.Forall₂ (Holds b.partitionKeys b.explicitHashKeys) records b.records

theorem build_deduplicates (records : List UserRecord) :
    (build records).Deduplicates records := by
  have hstores := build_stores records
  have htables := build_tabulates records
  have hpks := build_partitionKeys records
  have hehks := build_explicitHashKeys records
  exact
    { partitionKeys := hpks
      explicitHashKeys := hehks
      pkNodup := hpks.nodup
      ehkNodup := hehks.nodup
      pkIndex := positions_of_entries hpks.nodup hstores.partitionKeys htables.pkComplete
      ehkIndex := positions_of_entries hehks.nodup hstores.explicitHashKeys htables.ehkComplete
      messages := hstores.messages }

/-! ## Growth -/

/-- A record adds its message behind those that are there. -/
theorem add_records (b : AggregatedBuilder) (record : UserRecord) :
    b.records <+: (b.add record).records := by
  rw [AggregatedBuilder.add]
  cases record.explicitHashKey <;> exact List.prefix_append _ _

theorem build_records_isPrefix (records more : List UserRecord) :
    (build records).records <+: (build (records ++ more)).records := by
  induction more using List.reverseRecOn with
  | nil => rw [List.append_nil]
  | append_singleton more record ih =>
    have hadd : build (records ++ (more ++ [record])) = (build (records ++ more)).add record := by
      rw [← List.append_assoc, build, List.foldl_append]
      rfl
    rw [hadd]
    exact ih.trans (add_records _ record)

/-- What is written stays, and stays right, as `more` records turn the builder into `b'`;
    and a table grows only by keys that are not in it. -/
structure AggregatedBuilder.Grows (b b' : AggregatedBuilder) (records more : List UserRecord) :
    Prop where
  partitionKeys : b.partitionKeys <+: b'.partitionKeys
  explicitHashKeys : b.explicitHashKeys <+: b'.explicitHashKeys
  written : b.records <+: b'.records
  messages : List.Forall₂ (Holds b'.partitionKeys b'.explicitHashKeys) records b.records
  knownPartitionKeys : (∀ r ∈ more, r.partitionKey ∈ b.partitionKeys) →
    b'.partitionKeys = b.partitionKeys
  knownExplicitHashKeys :
    (∀ r ∈ more, ∀ ehk, r.explicitHashKey = some ehk → ehk ∈ b.explicitHashKeys) →
      b'.explicitHashKeys = b.explicitHashKeys

theorem build_grows (records more : List UserRecord) :
    (build records).Grows (build (records ++ more)) records more := by
  have hpks := build_partitionKeys records
  have hehks := build_explicitHashKeys records
  have hpks' := build_partitionKeys (records ++ more)
  have hehks' := build_explicitHashKeys (records ++ more)
  rw [List.map_append] at hpks'
  rw [List.filterMap_append] at hehks'
  have hpkGrow := hpks.isPrefix hpks'
  have hehkGrow := hehks.isPrefix hehks'
  refine ⟨hpkGrow, hehkGrow, build_records_isPrefix records more, ?_, ?_, ?_⟩
  · exact (build_stores records).messages.imp fun _ _ hholds => hholds.grow hpkGrow hehkGrow
  · intro hknown
    apply hpks'.unique (hpks.append_seen _)
    intro pk hpk
    obtain ⟨r, hr, rfl⟩ := List.mem_map.mp hpk
    exact hknown r hr
  · intro hknown
    apply hehks'.unique (hehks.append_seen _)
    intro ehk hehk
    obtain ⟨r, hr, hrecord⟩ := List.mem_filterMap.mp hehk
    exact hknown r hr ehk hrecord

/-- **The builder's tables.**  After any records the tables, the indices and the messages
    agree, and any more records leave what is written as it is. -/
theorem tables_deduplicate (records more : List UserRecord) :
    (build records).Deduplicates records ∧
      (build records).Grows (build (records ++ more)) records more :=
  ⟨build_deduplicates records, build_grows records more⟩

example : (build (["a", "b", "a", "c", "b"].map fun pk =>
    { partitionKey := pk, data := [] })).partitionKeys = ["a", "b", "c"] := by
  decide

end Aggregation

end Aiokpl
