import Aiokpl.BatchSizes

/-!
# Batches after any history of `add` and `remove_last`

A container is a stack of items: `add` pushes, `remove_last` pops what was pushed last and
raises only when nothing is there.  Its totals are those of the items on the stack, for
the rebuilt sets of an `AggregatedBatch` as for the shares of a `PutRecordsBatch`.
-/

namespace Aiokpl

open Lib Aggregation

/-- A call on a container. -/
inductive BatchOp (I : Type)
  | add (item : I)
  | removeLast

namespace BatchOp

/-- What the call does to the stack of items; nothing is popped from an empty one. -/
def onStack {I : Type} (items : List I) : BatchOp I → Option (List I)
  | .add item => some (items ++ [item])
  | .removeLast => if items = [] then none else some items.dropLast

/-- What it does to the container; `none` where it raises. -/
def onBatch {I B : Type} [Batch I B] (pop : B → Option (I × B)) (b : B) : BatchOp I → Option B
  | .add item => some (Batch.add b item)
  | .removeLast => (pop b).map Prod.snd

variable {I B : Type} [Batch I B] [BatchLaws I B] {pop : B → Option (I × B)}

/-- One call, where `pop` finds the last item of every container that meets `inv`. -/
theorem onBatch_step {inv : B → Prop}
    (hpop : ∀ b front item, inv b → Batch.items b = front ++ [item] →
      ∃ b', pop b = some (item, b') ∧ Batch.items b' = front)
    {op : BatchOp I} {b : B} {items : List I} (hinv : inv b)
    (hstack : onStack (Batch.items b) op = some items) :
    ∃ b', onBatch pop b op = some b' ∧ Batch.items b' = items := by
  cases op with
  | add item =>
    refine ⟨Batch.add b item, rfl, ?_⟩
    rw [BatchLaws.items_add]
    exact Option.some.inj hstack
  | removeLast =>
    simp only [onStack, Option.ite_none_left_eq_some, Option.some.injEq] at hstack
    rcases hstack with ⟨hne, rfl⟩
    rcases hpop b _ _ hinv (List.dropLast_concat_getLast hne).symm with ⟨b', hb', hitems⟩
    refine ⟨b', ?_, hitems⟩
    rw [onBatch, hb']
    rfl

/-- **Histories.**  A history that pops no empty stack raises nothing, and the items of the
    container are the stack. -/
theorem onBatch_run (inv : B → Prop) (full : I → Prop)
    (hpop : ∀ b front item, inv b → Batch.items b = front ++ [item] →
      ∃ b', pop b = some (item, b') ∧ Batch.items b' = front)
    (hkeep : ∀ b b' op, inv b → (∀ x, op = .add x → full x) → onBatch pop b op = some b' → inv b')
    {ops : List (BatchOp I)} (hfull : ∀ x, .add x ∈ ops → full x) {b : B} (hinv : inv b)
    {items : List I} (hstack : ops.foldlM onStack (Batch.items b) = some items) :
    ∃ b', ops.foldlM (onBatch pop) b = some b' ∧ Batch.items b' = items ∧ inv b' := by
  induction ops generalizing b with
  | nil => exact ⟨b, rfl, Option.some.inj hstack, hinv⟩
  | cons op ops ih =>
    rw [List.foldlM_cons, Option.bind_eq_bind, Option.bind_eq_some_iff] at hstack
    rcases hstack with ⟨mid, hmid, hrest⟩
    rcases onBatch_step hpop hinv hmid with ⟨b', hb', rfl⟩
    have hinv' : inv b' :=
      hkeep b b' op hinv (fun x hx => hfull x (hx ▸ List.mem_cons_self)) hb'
    rcases ih (fun x hx => hfull x (List.mem_cons_of_mem _ hx)) hinv' hrest with
      ⟨b'', hrun, hitems, hinv''⟩
    refine ⟨b'', ?_, hitems, hinv''⟩
    rw [List.foldlM_cons, hb']
    exact hrun

end BatchOp

/-! ## `AggregatedBatch` -/

namespace AggregatedBatch

theorem pop_eq {b : AggregatedBatch} {front : List BufferedRecord} {item : BufferedRecord}
    (h : b.items = front ++ [item]) : b.pop = some (item, b.removeLast) := by
  rw [pop, h, List.getLast?_concat]
  rfl

theorem removeLast_add (b : AggregatedBatch) (x : BufferedRecord) : (b.add x).removeLast = b := by
  apply ext_items
  · rw [predictedShard_removeLast, predictedShard_add]
  · rw [items_removeLast, items_add, List.dropLast_concat]

/-- `remove_last` after `add` gives the record back, and the batch as it was. -/
theorem pop_add (b : AggregatedBatch) (x : BufferedRecord) : (b.add x).pop = some (x, b) := by
  rw [pop_eq (items_add b x), removeLast_add]

/-- The size in terms of the items. -/
theorem size_eq (b : AggregatedBatch) :
    b.size = (b.items.map fun it => it.userRecord.data.length + 8).sum +
      ∑ pk ∈ (partitionKeysOf b.items).toFinset, ((encodeUtf8 pk).length + 3) +
      ∑ ehk ∈ (hashKeysOf b.items).toFinset, ((encodeUtf8 ehk).length + 3) := by
  have hcost : ∀ it : BufferedRecord,
      recordCost it.userRecord = it.userRecord.data.length + 8 := by
    intro it
    simp only [recordCost, recordFraming, fieldFraming, indexReference]
    omega
  rw [size, b.totals_eq, Totals.sizeEstimate_of]
  simp only [hcost, keyCost, fieldFraming]

theorem size_perm {b b' : AggregatedBatch} (h : b.items.Perm b'.items) : b.size = b'.size := by
  rw [size, size, b.totals_eq, b'.totals_eq]
  exact le_antisymm (Totals.sizeEstimate_mono h.subperm) (Totals.sizeEstimate_mono h.symm.subperm)

/-- What the batch reports for the records `items`, and what is left of it when one more
    is added and removed. -/
structure AccountsFor (b : AggregatedBatch) (items : List BufferedRecord) : Prop where
  items_eq : b.items = items
  size_eq : b.size = (items.map fun it => it.userRecord.data.length + 8).sum +
    ∑ pk ∈ (partitionKeysOf items).toFinset, ((encodeUtf8 pk).length + 3) +
    ∑ ehk ∈ (hashKeysOf items).toFinset, ((encodeUtf8 ehk).length + 3)
  any_order : ∀ b' : AggregatedBatch, b'.items.Perm items → b'.size = b.size
  undo : ∀ x, ∃ b', (b.add x).pop = some (x, b') ∧ b'.size = b.size ∧ b'.count = b.count ∧
    b'.items = b.items ∧ b'.deadline = b.deadline

theorem accountsFor (b : AggregatedBatch) : b.AccountsFor b.items where
  items_eq := rfl
  size_eq := size_eq b
  any_order _ h := size_perm h
  undo x := ⟨b, pop_add b x, rfl, rfl, rfl, rfl⟩

theorem size_pos {b : AggregatedBatch} (h : b.items ≠ []) : 0 < b.size := by
  rcases List.exists_cons_of_ne_nil h with ⟨it, items, hitems⟩
  rw [size_eq, hitems, List.map_cons, List.sum_cons]
  omega

end AggregatedBatch

/-! ## `PutRecordsBatch` -/

namespace PutRecordsBatch

/-- Every item is non-empty, and no shard has a share of nothing. -/
structure Exact (p : PutRecordsBatch) : Prop where
  full : ∀ b ∈ p.items, b.items ≠ []
  shares : ∀ shard, p.perShard.get? shard ≠ some 0

theorem exact_empty : Exact {} := ⟨fun _ h => absurd h List.not_mem_nil, fun _ h => nomatch h⟩

theorem Exact.add {p : PutRecordsBatch} (h : p.Exact) {x : AggregatedBatch} (hx : x.items ≠ []) :
    (p.add x).Exact := by
  refine ⟨fun b hb => ?_, fun shard => ?_⟩
  · rw [items_add] at hb
    rcases List.mem_append.mp hb with hold | hnew
    · exact h.full b hold
    · exact List.mem_singleton.mp hnew ▸ hx
  · have hpos := x.size_pos hx
    change (p.perShard.set _ _).get? shard ≠ _
    rw [Dict.get?_set]
    split
    · rw [ne_eq, Option.some.injEq]
      omega
    · exact h.shares shard

theorem Exact.removeLast {p : PutRecordsBatch} (h : p.Exact) : p.removeLast.Exact := by
  refine ⟨fun b hb => ?_, fun shard => ?_⟩
  · rw [items_removeLast] at hb
    exact h.full b (List.dropLast_subset _ hb)
  · unfold PutRecordsBatch.removeLast
    split
    · exact h.shares shard
    · dsimp only
      split
      · rw [Dict.get?_erase]
        split
        · exact nofun
        · exact h.shares shard
      · rename_i hleft
        rw [Dict.get?_set]
        split
        · rwa [ne_eq, Option.some.injEq]
        · exact h.shares shard

theorem Exact.onBatch {p p' : PutRecordsBatch} {op : BatchOp AggregatedBatch} (h : p.Exact)
    (hfull : ∀ x, op = .add x → x.items ≠ []) (hop : op.onBatch pop p = some p') : p'.Exact := by
  cases op with
  | add x =>
    obtain rfl := Option.some.inj hop
    exact h.add (hfull x rfl)
  | removeLast =>
    rcases Option.map_eq_some_iff.mp hop with ⟨⟨item, rest⟩, hpop, rfl⟩
    simp only [pop, Option.bind_eq_bind, Option.bind_eq_some_iff, Option.pure_def,
      Option.some.injEq, Prod.mk.injEq] at hpop
    rcases hpop with ⟨_, _, _, _, _, rfl⟩
    exact h.removeLast

/-- The shards with an entry are those of the items. -/
theorem Exact.get?_eq {p : PutRecordsBatch} (h : p.Exact) (shard : Option ShardId) :
    p.perShard.get? shard =
      if shardBytes p.items shard = 0 then none else some (shardBytes p.items shard) := by
  have hshare := p.perShard_eq shard
  cases hget : p.perShard.get? shard with
  | none =>
    rw [hget, Option.getD_none] at hshare
    rw [if_pos hshare.symm]
  | some bytes =>
    rw [hget, Option.getD_some] at hshare
    have hne : bytes ≠ 0 := fun hzero => h.shares shard (hzero ▸ hget)
    rw [← hshare, if_neg hne]

theorem Exact.pop_eq {p : PutRecordsBatch} (h : p.Exact) {front : List AggregatedBatch}
    {item : AggregatedBatch} (hitems : p.items = front ++ [item]) :
    p.pop = some (item, p.removeLast) := by
  have hmem : item ∈ p.items := by
    rw [hitems]
    exact List.mem_append_right _ List.mem_cons_self
  have hpos := item.size_pos (h.full item hmem)
  have hget := h.get?_eq item.predictedShard
  rw [hitems, shardBytes_append, if_pos rfl, if_neg (by omega)] at hget
  simp only [pop, hitems, List.getLast?_concat, Option.bind_eq_bind, Option.bind_some, hget]
  rfl

/-- What the call reports for the batches `items`, and what is left of it when a non-empty
    one is added and removed. -/
structure AccountsFor (p : PutRecordsBatch) (items : List AggregatedBatch) : Prop where
  items_eq : p.items = items
  size_eq : p.size = (items.map AggregatedBatch.size).sum
  perShardBytes_eq : ∀ shard, p.perShardBytes shard =
    ((items.filter fun b => b.predictedShard = shard).map AggregatedBatch.size).sum
  undo : ∀ x, x.items ≠ [] → ∃ p', (p.add x).pop = some (x, p') ∧ p'.size = p.size ∧
    p'.count = p.count ∧ p'.items = p.items ∧ p'.deadline = p.deadline ∧
    ∀ shard, p'.perShardBytes shard = p.perShardBytes shard

theorem Exact.accountsFor {p : PutRecordsBatch} (h : p.Exact) : p.AccountsFor p.items where
  items_eq := rfl
  size_eq := p.sizeBytes_eq
  perShardBytes_eq := p.perShard_eq
  undo x hx := by
    have hitems : (p.add x).removeLast.items = p.items := by
      rw [items_removeLast, items_add, List.dropLast_concat]
    refine ⟨_, (h.add hx).pop_eq (items_add p x), ?_, ?_, hitems, ?_, fun shard => ?_⟩
    · rw [size, size, sizeBytes_eq, sizeBytes_eq, hitems]
    · rw [count, count, hitems]
    · rw [deadline, deadline, hitems]
    · rw [perShardBytes, perShardBytes, perShard_eq, perShard_eq, hitems]

end PutRecordsBatch

/-! ## Histories -/

/-- **The containers.**  After every history of `add` and `remove_last` that pops nothing
    from an empty container, nothing was raised and the container accounts for the items on
    its stack: an `AggregatedBatch` for each record and each distinct key, a
    `PutRecordsBatch` of non-empty batches for each batch and each shard; and `remove_last`
    after `add` undoes it. -/
theorem containers_account :
    (∀ (shard : Option ShardId) (ops : List (BatchOp BufferedRecord)) items,
      ops.foldlM BatchOp.onStack [] = some items →
      ∃ b : AggregatedBatch,
        ops.foldlM (BatchOp.onBatch AggregatedBatch.pop) { predictedShard := shard } = some b ∧
        b.AccountsFor items) ∧
    ∀ (ops : List (BatchOp AggregatedBatch)) items, (∀ x, .add x ∈ ops → x.items ≠ []) →
      ops.foldlM BatchOp.onStack [] = some items →
      ∃ p : PutRecordsBatch,
        ops.foldlM (BatchOp.onBatch PutRecordsBatch.pop) {} = some p ∧ p.AccountsFor items := by
  constructor
  · intro shard ops items hstack
    have hpop : ∀ (b : AggregatedBatch) front item, True → b.items = front ++ [item] →
        ∃ b', b.pop = some (item, b') ∧ b'.items = front := by
      intro b front item _ hitems
      refine ⟨_, AggregatedBatch.pop_eq hitems, ?_⟩
      rw [AggregatedBatch.items_removeLast, hitems, List.dropLast_concat]
    rcases BatchOp.onBatch_run (fun _ => True) (fun _ => True) hpop (fun _ _ _ _ _ _ => trivial)
      (fun _ _ => trivial) (b := { predictedShard := shard }) trivial hstack with
      ⟨b, hrun, rfl, _⟩
    exact ⟨b, hrun, b.accountsFor⟩
  · intro ops items hfull hstack
    have hpop : ∀ (p : PutRecordsBatch) front item, p.Exact → p.items = front ++ [item] →
        ∃ p', p.pop = some (item, p') ∧ p'.items = front := by
      intro p front item hexact hitems
      refine ⟨_, hexact.pop_eq hitems, ?_⟩
      rw [PutRecordsBatch.items_removeLast, hitems, List.dropLast_concat]
    rcases BatchOp.onBatch_run PutRecordsBatch.Exact (fun x => x.items ≠ []) hpop
      (fun _ _ _ => PutRecordsBatch.Exact.onBatch) hfull PutRecordsBatch.exact_empty hstack with
      ⟨p, hrun, rfl, hexact⟩
    exact ⟨p, hrun, hexact.accountsFor⟩

/-- A record of two bytes under the key `k`. -/
def twoBytes (ident : Nat) : BufferedRecord :=
  { ident, userRecord := { partitionKey := "k", data := [1, 2] }, deadline := 1, hashKey := 0,
    arrivalTime := 0 }

/-- Two records of one key, the second removed and added again, have the size of both and of
    one key; their batch added twice and removed once leaves one share. -/
theorem containers_account_undone :
    ∃ (b : AggregatedBatch) (p : PutRecordsBatch),
      b.AccountsFor [twoBytes 0, twoBytes 1] ∧ b.size = 24 ∧
      p.AccountsFor [({ predictedShard := some 7 } : AggregatedBatch).add (twoBytes 0)] ∧
      p.perShardBytes (some 7) = 14 := by
  rcases containers_account with ⟨hrecords, hbatches⟩
  rcases hrecords none [.add (twoBytes 0), .add (twoBytes 1), .removeLast, .add (twoBytes 1)]
    [twoBytes 0, twoBytes 1] rfl with ⟨b, _, hb⟩
  have hfull : ∀ x : AggregatedBatch,
      .add x ∈ ([.add (.add { predictedShard := some 7 } (twoBytes 0)),
        .add (.add { predictedShard := some 7 } (twoBytes 0)), .removeLast] :
          List (BatchOp AggregatedBatch)) → x.items ≠ [] := by
    intro x hx
    simp only [List.mem_cons, BatchOp.add.injEq, reduceCtorEq, List.not_mem_nil, or_false,
      or_self] at hx
    rw [hx]
    exact List.cons_ne_nil _ _
  rcases hbatches _ _ hfull rfl with ⟨p, _, hp⟩
  refine ⟨b, p, hb, ?_, hp, ?_⟩
  · rw [hb.size_eq]
    decide +kernel
  · rw [hp.perShardBytes_eq]
    decide +kernel

end Aiokpl
