import Aiokpl.BatchSizes
import Aiokpl.Collector

/-!
# The shares of the shards in a Collector's batches

The predicate closes a batch when the share of the shard just added to has reached the
threshold.  It is asked at a `put` only: what a global limit leaves over goes into the
next batch unseen, and may be saturated there from the start.  Which item arrived last is
not recorded in the source; here every item carries the number of its `put`.
-/

namespace Aiokpl

open Lib

namespace Reducer

variable {I B : Type} [Batch I B] [Batchable I]

/-! ## Behind the cut -/

/-- How many of the sorted items one call packs: as many as fit, and one at least. -/
def cutAt (cfg : Config I B) (sorted : List I) : Nat :=
  max 1 (Nat.findGreatest (fun k => Fits cfg (sorted.take k)) sorted.length)

/-- What is behind the cut when these items are packed. -/
def behindCut (cfg : Config I B) (items : List I) : List I :=
  (sortBy Batchable.deadline items).drop (cutAt cfg (sortBy Batchable.deadline items))

omit [Batchable I] in
theorem cutAt_of_longest {cfg : Config I B} {sorted front : List I} (hne : front ≠ [])
    (h : IsLongestPrefix (Fits cfg) sorted front) : cutAt cfg sorted = front.length := by
  have htake : front = sorted.take front.length := List.prefix_iff_eq_take.mp h.isPrefix
  have hgreatest : Nat.findGreatest (fun k => Fits cfg (sorted.take k)) sorted.length =
      front.length := by
    rw [Nat.findGreatest_eq_iff]
    refine ⟨h.isPrefix.length_le, fun _ => htake ▸ h.holds, ?_⟩
    intro k hlong hle hfits
    have hk := h.longest _ (List.take_prefix k sorted) hfits
    rw [List.length_take, min_eq_left hle] at hk
    exact absurd hlong (not_lt.mpr hk)
  have hpos := List.length_pos_of_ne_nil hne
  rw [cutAt, hgreatest]
  omega

/-- Items that fit together leave nothing behind. -/
theorem behindCut_of_fits {cfg : Config I B} {items : List I}
    (hfits : Fits cfg (sortBy Batchable.deadline items)) : behindCut cfg items = [] := by
  apply List.drop_eq_nil_of_le
  cases hsorted : sortBy Batchable.deadline items with
  | nil => exact Nat.zero_le _
  | cons x rest =>
    rw [hsorted] at hfits
    rw [cutAt_of_longest (by simp) (.self hfits)]

variable [BatchLaws I B]

omit [Batchable I] in
theorem cutAt_of_oversized {cfg : Config I B} {x : I} {rest : List I} (hbig : ¬ Fits cfg [x]) :
    cutAt cfg (x :: rest) = 1 := by
  have hgreatest : Nat.findGreatest (fun k => Fits cfg ((x :: rest).take k)) (x :: rest).length =
      0 := by
    rw [Nat.findGreatest_eq_zero_iff]
    intro k hpos _ hfits
    refine hbig (fits_prefixClosed cfg _ _ ?_ hfits)
    cases k with
    | zero => exact absurd hpos (lt_irrefl 0)
    | succ k => exact ⟨rest.take k, rfl⟩
  rw [cutAt, hgreatest]
  omega

/-- A call of `_pack_and_split` leaves what is behind the cut. -/
theorem WellPacked.left_eq {cfg : Config I B} {before left : List I} {closed : B}
    (h : WellPacked cfg before closed left) :
    (Batch.items closed).length = cutAt cfg (sortBy Batchable.deadline before) ∧
      left = behindCut cfg before := by
  have hlength : (Batch.items closed).length = cutAt cfg (sortBy Batchable.deadline before) := by
    rcases h.packed with hlong | ⟨x, hx, hbig⟩
    · exact (cutAt_of_longest h.nonempty hlong).symm
    · rw [← h.split, hx, List.singleton_append, cutAt_of_oversized hbig]
      rfl
  refine ⟨hlength, ?_⟩
  rw [behindCut, ← hlength, ← h.split, List.drop_left]

end Reducer

namespace CollectorShares

open Collector Reducer

/-! ## Arrivals -/

/-- An item of the Collector and the number of the `put` that brought it. -/
structure Arrival where
  batch : AggregatedBatch
  stamp : Nat
  deriving DecidableEq

/-- A batch the Collector emits, with the arrivals of its items. -/
structure Emission where
  closed : PutRecordsBatch
  arrivals : List Arrival

/-- A Collector's Reducer with the arrivals of its active items and what it emitted. -/
structure Run where
  reducer : Reducer.State PutRecordsBatch
  active : List Arrival := []
  next : Nat := 0
  emitted : List Emission := []

/-- The arrivals once the operation has made its own. -/
def Run.arrived (run : Run) (op : Op AggregatedBatch) : List Arrival :=
  run.active ++ op.adds.map fun batch => { batch, stamp := run.next }

/-- The arrivals that stay active when nothing is closed. -/
def Run.kept (run : Run) (op : Op AggregatedBatch) : List Arrival :=
  match op with
  | .aclose => []
  | _ => run.arrived op

/-- The arrivals in the order in which they are packed. -/
def sortArrivals (arrivals : List Arrival) : List Arrival :=
  sortBy (fun a => Batchable.deadline a.batch) arrivals

def Run.step (cfg : Config) (run : Run) (op : Op AggregatedBatch) : Option Run :=
  (Reducer.step cfg.reducer run.reducer op).map fun out =>
    match out.2 with
    | some closed =>
      { reducer := out.1
        active := (sortArrivals (run.arrived op)).drop closed.count
        next := run.next + 1
        emitted := run.emitted ++
          [{ closed, arrivals := (sortArrivals (run.arrived op)).take closed.count }] }
    | none =>
      { run with
        reducer := out.1
        active := run.kept op
        next := run.next + 1 }

def Run.start (cfg : Config) (run : Run) : Prop := run = { reducer := init cfg.reducer }

/-- The bytes of the arrivals of `a`'s shard that came before it. -/
def bytesBefore (arrivals : List Arrival) (a : Arrival) : Nat :=
  ((arrivals.filter fun b =>
    b.batch.predictedShard = a.batch.predictedShard ∧ b.stamp < a.stamp).map
      fun b => b.batch.size).sum

/-- What is behind the cut once `batch` is added does not saturate its shard. -/
def sparesShard (cfg : Config) (active : PutRecordsBatch) (batch : AggregatedBatch) : Prop :=
  (shardBytes (behindCut cfg.reducer (active.items ++ [batch])) batch.predictedShard : Int) <
    cfg.perShardShortCircuitBytes

/-- Every `put` spares its shard. -/
def sparesShards (cfg : Config) (run : Run) : Op AggregatedBatch → Prop
  | .add _ batch => sparesShard cfg run.reducer.active batch
  | _ => True

instance (cfg : Config) (run : Run) (op : Op AggregatedBatch) :
    Decidable (sparesShards cfg run op) := by
  cases op <;> unfold sparesShards <;> (try unfold sparesShard) <;> infer_instance

/-- No shard has reached the threshold. -/
def Spared (cfg : Config) (active : PutRecordsBatch) : Prop :=
  ∀ shard, (shardBytes active.items shard : Int) < cfg.perShardShortCircuitBytes

/-! ## Shares -/

theorem shardBytes_mono {items items' : List AggregatedBatch} (h : items.Subperm items')
    (shard : Option ShardId) : shardBytes items shard ≤ shardBytes items' shard := by
  have hfilter := h.filter fun b => b.predictedShard = shard
  exact sum_map_le_of_subperm AggregatedBatch.size hfilter

theorem shardBytes_concat_of_ne (items : List AggregatedBatch) {batch : AggregatedBatch}
    {shard : Option ShardId} (h : batch.predictedShard ≠ shard) :
    shardBytes (items ++ [batch]) shard = shardBytes items shard := by
  rw [PutRecordsBatch.shardBytes_append, if_neg h, add_zero]

/-- Fewer items saturate no shard. -/
theorem Spared.subperm {cfg : Config} {active active' : PutRecordsBatch} (h : Spared cfg active)
    (hsub : active'.items.Subperm active.items) : Spared cfg active' := by
  intro shard
  have hle := shardBytes_mono hsub shard
  have hlt := h shard
  omega

/-- A batch that need not be closed fits as a whole. -/
theorem fits_of_not_mustClose {cfg : Config} {active : PutRecordsBatch} {batch : AggregatedBatch}
    (h : ¬ mustClose cfg.reducer batch (Batch.add active batch) = true) :
    Fits cfg.reducer (sortBy Batchable.deadline (active.items ++ [batch])) := by
  simp only [mustClose, Bool.or_eq_true, not_or, decide_eq_true_eq, not_le, ge_iff_le] at h
  have hitems : Batch.items (Batch.add active batch) = active.items ++ [batch] := rfl
  rw [size_eq_weigh cfg.reducer, CountsItems.count_eq, hitems] at h
  rw [fits_iff, (sortBy_perm _ _).length_eq, weigh_perm cfg.reducer (sortBy_perm _ _)]
  exact ⟨h.1.2.le, h.2.le⟩

/-- The predicate reads the share of the shard just added to. -/
theorem share_of_not_mustClose {cfg : Config} {active : PutRecordsBatch} {batch : AggregatedBatch}
    (h : ¬ mustClose cfg.reducer batch (Batch.add active batch) = true) :
    (shardBytes (active.items ++ [batch]) batch.predictedShard : Int) <
      cfg.perShardShortCircuitBytes := by
  simp only [mustClose, Config.reducer, Collector.predicate, Bool.or_eq_true, not_or,
    decide_eq_true_eq, not_le, ge_iff_le] at h
  have hshare := (PutRecordsBatch.add active batch).perShard_eq batch.predictedShard
  rw [← PutRecordsBatch.items_add, ← hshare]
  exact h.1.1

/-- **One put** that finds no shard saturated leaves none saturated if and only if it
    spares its own. -/
theorem add_spared_iff {cfg : Config} (now : Time) {batch : AggregatedBatch}
    {r : Reducer.State PutRecordsBatch} (h : Spared cfg r.active) :
    Spared cfg (Reducer.add cfg.reducer now batch r).1.active ↔
      sparesShard cfg r.active batch := by
  have hpacks := add_packsOrKeeps cfg.reducer now batch r
  by_cases hclose : mustClose cfg.reducer batch (Batch.add r.active batch) = true
  · have hclosed : (Reducer.add cfg.reducer now batch r).2 = some (packAndSplit cfg.reducer now
        { r with active := Batch.add r.active batch }).2 := by
      simp [Reducer.add, hclose]
    rw [PacksOrKeeps, hclosed] at hpacks
    have hleft : (Reducer.add cfg.reducer now batch r).1.active.items =
        behindCut cfg.reducer (r.active.items ++ [batch]) := hpacks.left_eq.2
    constructor
    · intro hspared
      have hshard := hspared batch.predictedShard
      rwa [hleft] at hshard
    · intro hspares shard
      by_cases hshard : batch.predictedShard = shard
      · rw [hleft, ← hshard]
        exact hspares
      · have hsub : (Reducer.add cfg.reducer now batch r).1.active.items.Subperm
            (r.active.items ++ [batch]) :=
          (List.sublist_append_right _ _).subperm.trans hpacks.perm.subperm
        have hle := shardBytes_mono hsub shard
        rw [shardBytes_concat_of_ne _ hshard] at hle
        have hlt := h shard
        omega
  · have hactive : (Reducer.add cfg.reducer now batch r).1.active = Batch.add r.active batch := by
      simp [Reducer.add, hclose]
    rw [hactive]
    refine iff_of_true ?_ ?_
    · intro shard
      change (shardBytes (r.active.items ++ [batch]) shard : Int) < _
      by_cases hshard : batch.predictedShard = shard
      · rw [← hshard]
        exact share_of_not_mustClose hclose
      · rw [shardBytes_concat_of_ne _ hshard]
        exact h shard
    · rw [sparesShard, behindCut_of_fits (fits_of_not_mustClose hclose)]
      have hpositive := h batch.predictedShard
      have hnone : shardBytes [] batch.predictedShard = 0 := rfl
      omega

/-! ## What is emitted -/

/-- Every active item has its own stamp, older than the next. -/
structure Run.Tracks (run : Run) : Prop where
  items : run.active.map Arrival.batch = run.reducer.active.items
  fresh : ∀ a ∈ run.active, a.stamp < run.next
  distinct : (run.active.map Arrival.stamp).Nodup

/-- The arrivals of an emission are those of its items, and none found its shard
    saturated by those that came before it. -/
structure Emission.Lawful (cfg : Config) (e : Emission) : Prop where
  items : e.arrivals.map Arrival.batch = e.closed.items
  distinct : (e.arrivals.map Arrival.stamp).Nodup
  unsaturated : ∀ a ∈ e.arrivals, (bytesBefore e.arrivals a : Int) < cfg.perShardShortCircuitBytes

theorem Run.Tracks.arrived {run : Run} (h : run.Tracks) (op : Op AggregatedBatch) :
    (run.arrived op).map Arrival.batch = op.before run.reducer ∧
      (∀ a ∈ run.arrived op, a.stamp < run.next + 1) ∧
      ((run.arrived op).map Arrival.stamp).Nodup := by
  refine ⟨?_, ?_, ?_⟩
  · rw [Run.arrived, List.map_append, h.items, Op.items_before, List.map_map]
    exact congrArg _ (List.map_id' _)
  · intro a ha
    rcases List.mem_append.mp ha with ha | ha
    · exact (h.fresh a ha).trans (Nat.lt_succ_self _)
    · rcases List.mem_map.mp ha with ⟨batch, -, rfl⟩
      exact Nat.lt_succ_self _
  · cases op with
    | add now batch =>
      rw [Run.arrived, List.map_append]
      refine List.Nodup.append h.distinct (List.nodup_singleton _) ?_
      intro stamp hold hnew
      rcases List.mem_map.mp hold with ⟨a, ha, rfl⟩
      have hfresh := h.fresh a ha
      simp only [Op.adds, List.map_cons, List.map_nil, List.mem_singleton] at hnew
      omega
    | _ => simpa [Run.arrived, Op.adds] using h.distinct

/-- What came before an arrival and goes with it was active, with the shard unsaturated,
    when it came. -/
theorem bytesBefore_lt {cfg : Config} {run : Run} (htracks : run.Tracks)
    (hspared : Spared cfg run.reducer.active) (op : Op AggregatedBatch) {arrivals : List Arrival}
    (hsub : arrivals.Subperm (run.arrived op)) {a : Arrival} (ha : a ∈ arrivals) :
    (bytesBefore arrivals a : Int) < cfg.perShardShortCircuitBytes := by
  have hstamp : a.stamp < run.next + 1 := (htracks.arrived op).2.1 a (hsub.subset ha)
  have hnew : ((op.adds.map fun batch => ({ batch, stamp := run.next } : Arrival)).filter fun b =>
      b.batch.predictedShard = a.batch.predictedShard ∧ b.stamp < a.stamp) = [] := by
    rw [List.filter_eq_nil_iff]
    intro b hb
    rcases List.mem_map.mp hb with ⟨batch, -, rfl⟩
    have hlate : ¬ run.next < a.stamp := by omega
    simp [hlate]
  have hbefore := hsub.filter fun b =>
    decide (b.batch.predictedShard = a.batch.predictedShard ∧ b.stamp < a.stamp)
  rw [Run.arrived, List.filter_append, hnew, List.append_nil] at hbefore
  have hshard : (run.active.filter fun b => decide (b.batch.predictedShard =
      a.batch.predictedShard ∧ b.stamp < a.stamp)).Subperm
      (run.active.filter fun b => b.batch.predictedShard = a.batch.predictedShard) := by
    apply List.Sublist.subperm
    apply List.monotone_filter_right
    intro b hb
    simp only [Bool.decide_and, Bool.and_eq_true] at hb
    exact hb.1
  have hle := sum_map_le_of_subperm (fun b : Arrival => b.batch.size) (hbefore.trans hshard)
  have hshare : ((run.active.filter fun b =>
      b.batch.predictedShard = a.batch.predictedShard).map fun b => b.batch.size).sum =
        shardBytes run.reducer.active.items a.batch.predictedShard := by
    rw [shardBytes, ← htracks.items, List.filter_map, List.map_map]
    rfl
  have hlt := hspared a.batch.predictedShard
  rw [hshare] at hle
  rw [bytesBefore]
  omega

/-- The arrivals of what a closing packs and of what it leaves. -/
theorem Run.Tracks.closing {cfg : Config} {run : Run} (h : run.Tracks) (op : Op AggregatedBatch)
    {closed : PutRecordsBatch} {left : List AggregatedBatch}
    (hpacked : WellPacked cfg.reducer (op.before run.reducer) closed left) :
    ((sortArrivals (run.arrived op)).take closed.count).map Arrival.batch = closed.items ∧
      ((sortArrivals (run.arrived op)).drop closed.count).map Arrival.batch = left := by
  have hsorted : (sortArrivals (run.arrived op)).map Arrival.batch = closed.items ++ left := by
    rw [sortArrivals, ← sortBy_map Batchable.deadline Arrival.batch, (h.arrived op).1]
    exact hpacked.split.symm
  rw [List.map_take, List.map_drop, hsorted]
  exact ⟨List.take_left, List.drop_left⟩

theorem sortArrivals_perm (arrivals : List Arrival) : (sortArrivals arrivals).Perm arrivals :=
  sortBy_perm _ _

theorem step_spared {cfg : Config} {run : Run} {op : Op AggregatedBatch}
    {out : Reducer.State PutRecordsBatch × Option PutRecordsBatch}
    (hspared : Spared cfg run.reducer.active) (hop : sparesShards cfg run op)
    (hout : Reducer.step cfg.reducer run.reducer op = some out) : Spared cfg out.1.active := by
  cases op with
  | add now batch =>
    obtain rfl := Option.some.inj hout
    exact (add_spared_iff now hspared).mpr hop
  | flush => exact hspared.subperm (step_subperm rfl hout)
  | aclose => exact hspared.subperm (step_subperm rfl hout)
  | wake => exact hspared.subperm (step_subperm rfl hout)
  | fire => exact hspared.subperm (step_subperm rfl hout)
  | dispatched => exact hspared.subperm (step_subperm rfl hout)
  | cancelled => exact hspared.subperm (step_subperm rfl hout)

/-- What a run keeps: the stamps, and that no shard is saturated. -/
structure Run.Keeps (cfg : Config) (run : Run) : Prop where
  tracks : run.Tracks
  spared : Spared cfg run.reducer.active
  lawful : ∀ e ∈ run.emitted, e.Lawful cfg

theorem Run.step_keeps {cfg : Config} {run run' : Run} {op : Op AggregatedBatch}
    (hinv : run.Keeps cfg) (hop : sparesShards cfg run op) (h : run.step cfg op = some run') :
    run'.Keeps cfg := by
  rcases Option.map_eq_some_iff.mp h with ⟨⟨r', closed⟩, hout, rfl⟩
  have hspared : Spared cfg r'.active := step_spared hinv.spared hop hout
  rcases hinv.tracks.arrived op with ⟨hbefore, hfresh, hdistinct⟩
  by_cases haclose : op = .aclose
  · subst haclose
    obtain ⟨rfl, rfl⟩ := Prod.mk.inj (Option.some.inj hout)
    exact ⟨⟨rfl, by simp [Run.kept], by simp [Run.kept]⟩, hspared, hinv.lawful⟩
  have hpacks := step_packsOrKeeps haclose hout
  cases closed with
  | none =>
    have hkept : r'.active.items = op.before run.reducer := hpacks
    have hactive : run.kept op = run.arrived op := by
      cases op with
      | aclose => exact absurd rfl haclose
      | _ => rfl
    refine ⟨?_, hspared, hinv.lawful⟩
    dsimp only
    rw [hactive]
    exact ⟨hbefore.trans hkept.symm, hfresh, hdistinct⟩
  | some closed =>
    rcases hinv.tracks.closing op hpacks with ⟨hpacked, hleft⟩
    have hperm := sortArrivals_perm (run.arrived op)
    have hstamps : ((sortArrivals (run.arrived op)).map Arrival.stamp).Nodup :=
      (hperm.map Arrival.stamp).nodup_iff.mpr hdistinct
    refine ⟨⟨hleft, ?_, ?_⟩, hspared, ?_⟩
    · intro a ha
      exact hfresh a (hperm.subset (List.drop_subset _ _ ha))
    · exact hstamps.sublist ((List.drop_sublist _ _).map _)
    · intro e he
      rcases List.mem_append.mp he with he | he
      · exact hinv.lawful e he
      · obtain rfl := List.mem_singleton.mp he
        refine ⟨hpacked, hstamps.sublist ((List.take_sublist _ _).map _), fun a ha => ?_⟩
        exact bytesBefore_lt hinv.tracks hinv.spared op
          ((List.take_sublist _ _).subperm.trans hperm.subperm) ha

/-- **The per-shard short circuit.**  In every run whose `put`s all spare their shard, no
    item of an emitted batch found the share of its shard at the threshold: whatever of its
    shard came before it, so all the others where it came last, is below.  And in every
    state of such a run no shard of the open batch is saturated, which a further `put`
    preserves exactly when it spares its shard too. -/
theorem shares_below_threshold_iff {cfg : Config} (hthreshold : 0 < cfg.perShardShortCircuitBytes)
    {run : Run} (h : Reachable (Run.start cfg) (Run.step cfg) (sparesShards cfg) run) :
    (∀ e ∈ run.emitted, e.arrivals.map Arrival.batch = e.closed.items ∧
      (e.arrivals.map Arrival.stamp).Nodup ∧
      ∀ a ∈ e.arrivals, (bytesBefore e.arrivals a : Int) < cfg.perShardShortCircuitBytes) ∧
    (∀ shard, (shardBytes run.reducer.active.items shard : Int) < cfg.perShardShortCircuitBytes) ∧
    ∀ now batch,
      (∀ shard, (shardBytes (Reducer.add cfg.reducer now batch run.reducer).1.active.items shard :
        Int) < cfg.perShardShortCircuitBytes) ↔ sparesShard cfg run.reducer.active batch := by
  have hstart : ∀ run, Run.start cfg run → run.Keeps cfg := by
    rintro run rfl
    refine ⟨⟨rfl, by simp, by simp⟩, fun shard => ?_, by simp⟩
    exact_mod_cast hthreshold
  have hkeeps : run.Keeps cfg :=
    h.invariant hstart fun _ _ _ hinv hop hstep => Run.step_keeps hinv hop hstep
  refine ⟨fun e he => ?_, hkeeps.spared, fun now batch => add_spared_iff now hkeeps.spared⟩
  have hlawful := hkeeps.lawful e he
  exact ⟨hlawful.items, hlawful.distinct, hlawful.unsaturated⟩

/-! ## Left over by a global limit -/

/-- At most 40 bytes a batch, and 20 for each shard. -/
def tight : Config := { collectionMaxSize := 40, perShardShortCircuitBytes := 20 }

/-- A batch of one record, of `11 + length` bytes. -/
def ofLength (shard : ShardId) (deadline : Time) (length : Nat) : AggregatedBatch :=
  AggregatedBatch.add { predictedShard := some shard }
    { ident := 0, userRecord := { partitionKey := "", data := List.replicate length 0 }, deadline,
      hashKey := 0, arrivalTime := 0 }

/-- Two shards share a batch, and the third item closes it. -/
theorem shares_below_threshold_iff_two_shards :
    ∃ run, Reachable (Run.start tight) (Run.step tight) (sparesShards tight) run ∧
      run.emitted.map (fun e => e.arrivals.map fun a => (a.stamp, a.batch.size)) =
        [[(0, 12), (1, 13), (2, 13)]] ∧
      ∀ e ∈ run.emitted, ∀ a ∈ e.arrivals, (bytesBefore e.arrivals a : Int) < 20 := by
  obtain ⟨run, hexec, hemitted⟩ : ∃ run, exec (Run.step tight) (sparesShards tight)
      { reducer := init tight.reducer }
      [.add 0 (ofLength 1 10 1), .add 0 (ofLength 2 20 2), .add 0 (ofLength 1 30 2)] = some run ∧
      run.emitted.map (fun e => e.arrivals.map fun a => (a.stamp, a.batch.size)) =
        [[(0, 12), (1, 13), (2, 13)]] := ⟨_, rfl, by decide +kernel⟩
  have hrun : Reachable (Run.start tight) (Run.step tight) (sparesShards tight) run :=
    Reachable.exec (.start rfl) hexec
  refine ⟨run, hrun, hemitted, fun e he => ?_⟩
  exact ((shares_below_threshold_iff (by decide) hrun).1 e he).2.2

/-- An item that reaches the threshold by itself is left over when it exceeds the global
    limit together with an earlier one.  The next item of its shard finds it there, and
    both are emitted together. -/
theorem not_every_share_below_threshold :
    ¬ ∀ cfg : Config, 0 < cfg.perShardShortCircuitBytes → ∀ run,
      Reachable (Run.start cfg) (Run.step cfg) anyStep run → ∀ e ∈ run.emitted,
        ∀ a ∈ e.arrivals, (bytesBefore e.arrivals a : Int) < cfg.perShardShortCircuitBytes := by
  intro hshares
  obtain ⟨run, hexec, e, he, a, ha, hbytes⟩ : ∃ run, exec (Run.step tight) anyStep
      { reducer := init tight.reducer }
      [.add 0 (ofLength 1 10 8), .add 0 (ofLength 2 20 11), .add 0 (ofLength 2 30 1)] = some run ∧
      ∃ e ∈ run.emitted, ∃ a ∈ e.arrivals, bytesBefore e.arrivals a = 22 := by
    refine ⟨_, rfl, ?_⟩
    decide +kernel
  have hrun : Reachable (Run.start tight) (Run.step tight) anyStep run :=
    Reachable.exec (.start rfl) hexec
  have hbelow := hshares tight (by decide) run hrun e he a ha
  rw [hbytes] at hbelow
  exact absurd hbelow (by decide)

end CollectorShares

end Aiokpl
