import Mathlib.Tactic
import Aiokpl.Aggregation
import Aiokpl.ReducerTimers

/-!
# Records and batches (`aiokpl/result.py`, `aggregator.py`, `collector.py`)

The buffered record with its attempt history, and the two containers that
Reducers manage.  A container carries, next to its items, the running totals
the source keeps; the proof that they are the totals of the items is a field.
-/

namespace Aiokpl

open Lib Aggregation

/-- The integer in `shardId-<n>`. -/
abbrev ShardId := Nat

/-! ## Results -/

structure Attempt where
  startedAt : Time
  endedAt : Time
  success : Bool
  shardId : Option String := none
  sequenceNumber : Option String := none
  errorCode : Option String := none
  errorMessage : Option String := none
  deriving DecidableEq, Repr

structure RecordResult where
  success : Bool
  shardId : Option String
  sequenceNumber : Option String
  attempts : List Attempt
  deriving DecidableEq, Repr

/-- `_BufferedRecord`.  `ident` stands for the object's identity, `id(buffered)`. -/
structure BufferedRecord where
  ident : Nat
  userRecord : UserRecord
  deadline : Time
  hashKey : Nat
  arrivalTime : Time
  attempts : List Attempt := []
  deriving DecidableEq, Repr

instance : Batchable BufferedRecord := ⟨BufferedRecord.deadline⟩

/-! ## `AggregatedBatch` -/

def recordFraming : Nat := 3
def fieldFraming : Nat := 3
def indexReference : Nat := 2

/-- The running totals of an `AggregatedBatch`: `_size_estimate`, `_pk_set`, `_ehk_set`. -/
structure Totals where
  sizeEstimate : Nat := 0
  pkSet : List String := []
  ehkSet : List String := []
  deriving DecidableEq, Repr

/-- What `add` counts for a record, given what is already in the batch. -/
def Totals.count (t : Totals) (ur : UserRecord) : Totals :=
  let delta := recordFraming + ur.data.length + fieldFraming + indexReference
  let (pkSet, delta) :=
    if ur.partitionKey ∈ t.pkSet then (t.pkSet, delta)
    else (ur.partitionKey :: t.pkSet, delta + (encodeUtf8 ur.partitionKey).length + fieldFraming)
  match ur.explicitHashKey with
  | none => { t with sizeEstimate := t.sizeEstimate + delta, pkSet }
  | some ehk =>
    if ehk ∈ t.ehkSet then { t with sizeEstimate := t.sizeEstimate + delta, pkSet }
    else
      { sizeEstimate := t.sizeEstimate + (delta + (encodeUtf8 ehk).length + fieldFraming)
        pkSet
        ehkSet := ehk :: t.ehkSet }

/-- The totals of a list of records added one after the other. -/
def Totals.of (items : List BufferedRecord) : Totals :=
  items.foldl (fun t it => t.count it.userRecord) {}

theorem Totals.of_nil : {} = Totals.of [] := rfl

structure AggregatedBatch where
  predictedShard : Option ShardId
  items : List BufferedRecord := []
  totals : Totals := {}
  totals_eq : totals = .of items := by exact Totals.of_nil
  deriving DecidableEq, Repr

namespace AggregatedBatch

@[ext] theorem ext_items {b b' : AggregatedBatch} (hshard : b.predictedShard = b'.predictedShard)
    (hitems : b.items = b'.items) : b = b' := by
  obtain ⟨s, xs, t, ht⟩ := b
  obtain ⟨s', xs', t', ht'⟩ := b'
  dsimp only at hshard hitems
  subst hshard hitems ht ht'
  rfl

/-- `AggregatedBatch.add`. -/
def add (b : AggregatedBatch) (item : BufferedRecord) : AggregatedBatch :=
  { b with
    items := b.items ++ [item]
    totals := b.totals.count item.userRecord
    totals_eq := by rw [Totals.of, List.foldl_append, ← Totals.of, ← b.totals_eq]; rfl }

/-- `AggregatedBatch.remove_last`: clear everything and add the kept items again. -/
def removeLast (b : AggregatedBatch) : AggregatedBatch :=
  b.items.dropLast.foldl add { predictedShard := b.predictedShard }

/-- `AggregatedBatch.remove_last` with the item it returns; `none` is the `IndexError` of
    an empty batch. -/
def pop (b : AggregatedBatch) : Option (BufferedRecord × AggregatedBatch) :=
  b.items.getLast?.map fun item => (item, b.removeLast)

def count (b : AggregatedBatch) : Nat := b.items.length

def size (b : AggregatedBatch) : Nat := b.totals.sizeEstimate

/-- `AggregatedBatch.deadline`; `none` is the `float("inf")` of an empty batch. -/
def deadline (b : AggregatedBatch) : Option Time := (b.items.map BufferedRecord.deadline).min?

/-- `to_blob`. -/
def toBlob (md5 : Bytes → Digest) (b : AggregatedBatch) : Except Error Bytes :=
  encodeAggregated md5 (b.items.map BufferedRecord.userRecord)

/-- `routing_partition_key` of a non-empty batch. -/
def routingPartitionKey (b : AggregatedBatch) : Option String :=
  if b.items.length > 1 then some "a" else b.items.head?.map fun it => it.userRecord.partitionKey

/-- `routing_explicit_hash_key` of a non-empty batch. -/
def routingExplicitHashKey (b : AggregatedBatch) : Option String :=
  if b.items.length > 1 then b.items.head?.map fun it => toString it.hashKey
  else b.items.head?.bind fun it => it.userRecord.explicitHashKey

instance : Batch BufferedRecord AggregatedBatch where
  add := add
  removeLast := removeLast
  items := items
  count b := b.count
  size b := b.size
  deadline := deadline

@[simp] theorem items_add (b : AggregatedBatch) (x : BufferedRecord) :
    (b.add x).items = b.items ++ [x] := rfl

@[simp] theorem predictedShard_add (b : AggregatedBatch) (x : BufferedRecord) :
    (b.add x).predictedShard = b.predictedShard := rfl

theorem items_foldl_add (xs : List BufferedRecord) (b : AggregatedBatch) :
    (xs.foldl add b).items = b.items ++ xs := by
  induction xs generalizing b with
  | nil => simp
  | cons x xs ih => simp [ih]

theorem predictedShard_foldl_add (xs : List BufferedRecord) (b : AggregatedBatch) :
    (xs.foldl add b).predictedShard = b.predictedShard := by
  induction xs generalizing b with
  | nil => rfl
  | cons x xs ih => simp [ih]

@[simp] theorem items_removeLast (b : AggregatedBatch) : b.removeLast.items = b.items.dropLast := by
  simp [removeLast, items_foldl_add]

@[simp] theorem predictedShard_removeLast (b : AggregatedBatch) :
    b.removeLast.predictedShard = b.predictedShard := by
  simp [removeLast, predictedShard_foldl_add]

theorem size_le_add (b : AggregatedBatch) (x : BufferedRecord) : b.size ≤ (b.add x).size := by
  simp only [size, add, Totals.count]
  split <;> split <;> try split
  all_goals simp

instance : BatchLaws BufferedRecord AggregatedBatch where
  items_add := items_add
  items_removeLast_add b x := by
    change (b.add x).removeLast.items = b.items
    simp
  count_congr b b' h := by
    change ((b.items.length : Nat) : Int) = b'.items.length
    rw [show b.items = b'.items from h]
  size_congr b b' h := by
    change ((b.totals.sizeEstimate : Nat) : Int) = b'.totals.sizeEstimate
    rw [b.totals_eq, b'.totals_eq, show b.items = b'.items from h]
  count_add b x := by
    change ((b.items.length : Nat) : Int) ≤ (b.items ++ [x]).length
    simp
  size_add b x := by
    change ((b.size : Nat) : Int) ≤ (b.add x).size
    exact_mod_cast size_le_add b x

instance : CountsItems BufferedRecord AggregatedBatch := ⟨fun _ => rfl⟩

instance : ReportsEarliest BufferedRecord AggregatedBatch := ⟨fun _ => rfl⟩

end AggregatedBatch

/-! ## `PutRecordsBatch` -/

/-- A batch as an item of the Collector's Reducer.  A Reducer closes no empty batch,
    so the deadline is always that of an item. -/
instance : Batchable AggregatedBatch := ⟨fun b => b.deadline.getD 0⟩

/-- The total size of the batches of one shard. -/
def shardBytes (items : List AggregatedBatch) (shard : Option ShardId) : Nat :=
  ((items.filter fun b => b.predictedShard = shard).map AggregatedBatch.size).sum

theorem sizeBytes_nil : 0 = (([] : List AggregatedBatch).map AggregatedBatch.size).sum := rfl

theorem shardBytes_nil (shard : Option ShardId) :
    ((Dict.empty : Dict (Option ShardId) Nat).get? shard).getD 0 = shardBytes [] shard := rfl

structure PutRecordsBatch where
  items : List AggregatedBatch := []
  sizeBytes : Nat := 0
  perShard : Dict (Option ShardId) Nat := .empty
  sizeBytes_eq : sizeBytes = (items.map AggregatedBatch.size).sum := by exact sizeBytes_nil
  perShard_eq : ∀ shard, (perShard.get? shard).getD 0 = shardBytes items shard := by
    exact shardBytes_nil
  deriving DecidableEq

namespace PutRecordsBatch

theorem shardBytes_append (items : List AggregatedBatch) (b : AggregatedBatch)
    (shard : Option ShardId) :
    shardBytes (items ++ [b]) shard =
      shardBytes items shard + if b.predictedShard = shard then b.size else 0 := by
  by_cases h : b.predictedShard = shard <;> simp [shardBytes, h]

/-- `per_shard_bytes`. -/
def perShardBytes (p : PutRecordsBatch) (shard : Option ShardId) : Nat :=
  (p.perShard.get? shard).getD 0

/-- `PutRecordsBatch.add`. -/
def add (p : PutRecordsBatch) (item : AggregatedBatch) : PutRecordsBatch where
  items := p.items ++ [item]
  sizeBytes := p.sizeBytes + item.size
  perShard := p.perShard.set item.predictedShard (p.perShardBytes item.predictedShard + item.size)
  sizeBytes_eq := by simp [p.sizeBytes_eq]
  perShard_eq shard := by
    rw [shardBytes_append, Dict.get?_set, ← p.perShard_eq]
    by_cases h : shard = item.predictedShard
    · simp [h, perShardBytes]
    · simp [h, Ne.symm h]

/-- `PutRecordsBatch.remove_last`: the share of the popped batch's shard is deleted
    when nothing is left of it. -/
def removeLast (p : PutRecordsBatch) : PutRecordsBatch :=
  match h : p.items.getLast? with
  | none => p
  | some item =>
    have hitems : p.items = p.items.dropLast ++ [item] := by
      obtain ⟨front, hfront⟩ := List.getLast?_eq_some_iff.mp h
      simp [hfront]
    have hshare : shardBytes p.items item.predictedShard =
        shardBytes p.items.dropLast item.predictedShard + item.size := by
      conv_lhs => rw [hitems, shardBytes_append, if_pos rfl]
    { items := p.items.dropLast
      sizeBytes := p.sizeBytes - item.size
      perShard :=
        if p.perShardBytes item.predictedShard - item.size = 0 then
          p.perShard.erase item.predictedShard
        else
          p.perShard.set item.predictedShard (p.perShardBytes item.predictedShard - item.size)
      sizeBytes_eq := by
        rw [p.sizeBytes_eq]
        conv_lhs => rw [hitems]
        simp
      perShard_eq := by
        intro shard
        by_cases hshard : shard = item.predictedShard
        · subst hshard
          have htotal := p.perShard_eq item.predictedShard
          rw [hshare] at htotal
          split
          · rename_i hzero
            rw [perShardBytes, htotal] at hzero
            rw [Dict.get?_erase_self, Option.getD_none]
            omega
          · rw [Dict.get?_set_self, Option.getD_some, perShardBytes, htotal]
            omega
        · have hother : shardBytes p.items.dropLast shard = shardBytes p.items shard := by
            conv_rhs => rw [hitems, shardBytes_append, if_neg (Ne.symm hshard)]
            simp
          rw [hother, ← p.perShard_eq]
          split
          · rw [Dict.get?_erase, if_neg hshard]
          · rw [Dict.get?_set_ne _ _ hshard] }

/-- `PutRecordsBatch.remove_last` with the item it returns; `none` is the `IndexError` of
    an empty batch, or the `KeyError` of a shard without a share. -/
def pop (p : PutRecordsBatch) : Option (AggregatedBatch × PutRecordsBatch) := do
  let item ← p.items.getLast?
  let _ ← p.perShard.get? item.predictedShard
  return (item, p.removeLast)

def count (p : PutRecordsBatch) : Nat := p.items.length

def size (p : PutRecordsBatch) : Nat := p.sizeBytes

/-- `PutRecordsBatch.deadline`. -/
def deadline (p : PutRecordsBatch) : Option Time := (p.items.map Batchable.deadline).min?

instance : Batch AggregatedBatch PutRecordsBatch where
  add := add
  removeLast := removeLast
  items := items
  count p := p.count
  size p := p.size
  deadline := deadline

@[simp] theorem items_add (p : PutRecordsBatch) (x : AggregatedBatch) :
    (p.add x).items = p.items ++ [x] := rfl

@[simp] theorem items_removeLast (p : PutRecordsBatch) :
    p.removeLast.items = p.items.dropLast := by
  unfold removeLast
  split
  · rename_i h
    rw [List.getLast?_eq_none_iff.mp h]
    rfl
  · rfl

instance : BatchLaws AggregatedBatch PutRecordsBatch where
  items_add := items_add
  items_removeLast_add p x := by
    change (p.add x).removeLast.items = p.items
    simp
  count_congr p p' h := by
    change ((p.items.length : Nat) : Int) = p'.items.length
    rw [show p.items = p'.items from h]
  size_congr p p' h := by
    change ((p.sizeBytes : Nat) : Int) = p'.sizeBytes
    rw [p.sizeBytes_eq, p'.sizeBytes_eq, show p.items = p'.items from h]
  count_add p x := by
    change ((p.items.length : Nat) : Int) ≤ (p.items ++ [x]).length
    simp
  size_add p x := by
    change ((p.sizeBytes : Nat) : Int) ≤ ((p.sizeBytes + x.size : Nat) : Int)
    exact_mod_cast Nat.le_add_right _ _

instance : CountsItems AggregatedBatch PutRecordsBatch := ⟨fun _ => rfl⟩

instance : ReportsEarliest AggregatedBatch PutRecordsBatch := ⟨fun _ => rfl⟩

end PutRecordsBatch

end Aiokpl
