import Aiokpl.Batches
import Aiokpl.ReducerLimits

/-!
# What the sizes of batches add up to

The running totals of an `AggregatedBatch` in closed form: a cost for each record, and a
cost for each distinct key.  So the size depends on the items as a multiset, and grows
with it; the same holds of a `PutRecordsBatch`, whose size is a plain sum.
-/

namespace Aiokpl

open Lib Aggregation

/-- What `add` counts for a record whatever else is in the batch. -/
def recordCost (ur : UserRecord) : Nat :=
  recordFraming + ur.data.length + fieldFraming + indexReference

/-- What `add` counts for a key that is new to the batch. -/
def keyCost (key : String) : Nat := (encodeUtf8 key).length + fieldFraming

/-- The partition keys of the items. -/
def partitionKeysOf (items : List BufferedRecord) : List String :=
  items.map fun it => it.userRecord.partitionKey

/-- The explicit hash keys of the items that have one. -/
def hashKeysOf (items : List BufferedRecord) : List String :=
  items.filterMap fun it => it.userRecord.explicitHashKey

namespace Totals

theorem of_concat (items : List BufferedRecord) (it : BufferedRecord) :
    of (items ++ [it]) = (of items).count it.userRecord := by
  rw [of, List.foldl_append]
  rfl

theorem mem_pkSet_count (t : Totals) (ur : UserRecord) (pk : String) :
    pk ∈ (t.count ur).pkSet ↔ pk ∈ t.pkSet ∨ pk = ur.partitionKey := by
  simp only [count]
  split <;> split <;> (try split) <;> aesop

theorem mem_ehkSet_count (t : Totals) (ur : UserRecord) (ehk : String) :
    ehk ∈ (t.count ur).ehkSet ↔ ehk ∈ t.ehkSet ∨ ur.explicitHashKey = some ehk := by
  simp only [count]
  split <;> split <;> (try split) <;> aesop

/-- The sets hold the keys of the items. -/
theorem mem_pkSet_of (items : List BufferedRecord) (pk : String) :
    pk ∈ (of items).pkSet ↔ pk ∈ partitionKeysOf items := by
  induction items using List.reverseRecOn with
  | nil => simp [of, partitionKeysOf]
  | append_singleton items it ih =>
    rw [of_concat, mem_pkSet_count, ih]
    simp [partitionKeysOf]

theorem mem_ehkSet_of (items : List BufferedRecord) (ehk : String) :
    ehk ∈ (of items).ehkSet ↔ ehk ∈ hashKeysOf items := by
  induction items using List.reverseRecOn with
  | nil => simp [of, hashKeysOf]
  | append_singleton items it ih =>
    rw [of_concat, mem_ehkSet_count, ih]
    simp [hashKeysOf]

/-- One record more. -/
theorem sizeEstimate_count (t : Totals) (ur : UserRecord) :
    (t.count ur).sizeEstimate = t.sizeEstimate + recordCost ur +
      (if ur.partitionKey ∈ t.pkSet then 0 else keyCost ur.partitionKey) +
      (match ur.explicitHashKey with
        | none => 0
        | some ehk => if ehk ∈ t.ehkSet then 0 else keyCost ehk) := by
  simp only [count, recordCost, keyCost]
  split <;> split <;> (try split) <;> simp_all <;> omega

/-- A key more, counted if it is new. -/
theorem sum_insert_keyCost (key : String) (keys : Finset String) :
    ∑ k ∈ insert key keys, keyCost k =
      ∑ k ∈ keys, keyCost k + if key ∈ keys then 0 else keyCost key := by
  by_cases hkey : key ∈ keys
  · rw [Finset.insert_eq_of_mem hkey, if_pos hkey, add_zero]
  · rw [Finset.sum_insert hkey, if_neg hkey, add_comm]

/-- **The size estimate**: every record, and every distinct key once. -/
theorem sizeEstimate_of (items : List BufferedRecord) :
    (of items).sizeEstimate = (items.map fun it => recordCost it.userRecord).sum +
      ∑ pk ∈ (partitionKeysOf items).toFinset, keyCost pk +
      ∑ ehk ∈ (hashKeysOf items).toFinset, keyCost ehk := by
  induction items using List.reverseRecOn with
  | nil => simp [of, partitionKeysOf, hashKeysOf]
  | append_singleton items it ih =>
    have hpks : (partitionKeysOf (items ++ [it])).toFinset =
        insert it.userRecord.partitionKey (partitionKeysOf items).toFinset := by
      ext pk
      simp [partitionKeysOf]
    have hpk : it.userRecord.partitionKey ∈ (of items).pkSet ↔
        it.userRecord.partitionKey ∈ (partitionKeysOf items).toFinset := by
      rw [mem_pkSet_of, List.mem_toFinset]
    rw [of_concat, sizeEstimate_count, ih, hpks, sum_insert_keyCost, List.map_append,
      List.sum_append, if_congr hpk rfl rfl]
    cases hehk : it.userRecord.explicitHashKey with
    | none =>
      have hsame : hashKeysOf (items ++ [it]) = hashKeysOf items := by simp [hashKeysOf, hehk]
      rw [hsame]
      simp only [List.map_cons, List.map_nil, List.sum_cons, List.sum_nil]
      omega
    | some ehk =>
      have hehks : (hashKeysOf (items ++ [it])).toFinset =
          insert ehk (hashKeysOf items).toFinset := by
        ext key
        simp [hashKeysOf, hehk]
      have hmem : ehk ∈ (of items).ehkSet ↔ ehk ∈ (hashKeysOf items).toFinset := by
        rw [mem_ehkSet_of, List.mem_toFinset]
      rw [hehks, sum_insert_keyCost]
      simp only [List.map_cons, List.map_nil, List.sum_cons, List.sum_nil, if_congr hmem rfl rfl]
      omega

theorem sizeEstimate_mono {items items' : List BufferedRecord} (h : items.Subperm items') :
    (of items).sizeEstimate ≤ (of items').sizeEstimate := by
  have hpks : (partitionKeysOf items).toFinset ⊆ (partitionKeysOf items').toFinset := by
    intro pk hpk
    rw [List.mem_toFinset, partitionKeysOf, List.mem_map] at hpk ⊢
    rcases hpk with ⟨it, hit, hkey⟩
    exact ⟨it, h.subset hit, hkey⟩
  have hehks : (hashKeysOf items).toFinset ⊆ (hashKeysOf items').toFinset := by
    intro ehk hehk
    rw [List.mem_toFinset, hashKeysOf, List.mem_filterMap] at hehk ⊢
    rcases hehk with ⟨it, hit, hkey⟩
    exact ⟨it, h.subset hit, hkey⟩
  rw [sizeEstimate_of, sizeEstimate_of]
  have hrecords := sum_map_le_of_subperm (fun it => recordCost it.userRecord) h
  have hpk := Finset.sum_le_sum_of_subset (f := keyCost) hpks
  have hehk := Finset.sum_le_sum_of_subset (f := keyCost) hehks
  omega

end Totals

instance : SizeLaws BufferedRecord AggregatedBatch where
  size_mono b b' h := by
    change ((b.totals.sizeEstimate : Nat) : Int) ≤ b'.totals.sizeEstimate
    rw [b.totals_eq, b'.totals_eq]
    exact_mod_cast Totals.sizeEstimate_mono h
  size_empty b h := by
    have hitems : b.items = [] := h
    change ((b.totals.sizeEstimate : Nat) : Int) = 0
    rw [b.totals_eq, hitems]
    rfl

instance : SizeLaws AggregatedBatch PutRecordsBatch where
  size_mono p p' h := by
    change ((p.sizeBytes : Nat) : Int) ≤ p'.sizeBytes
    rw [p.sizeBytes_eq, p'.sizeBytes_eq]
    exact_mod_cast sum_map_le_of_subperm AggregatedBatch.size h
  size_empty p h := by
    have hitems : p.items = [] := h
    change ((p.sizeBytes : Nat) : Int) = 0
    rw [p.sizeBytes_eq, hitems]
    rfl

end Aiokpl
