import Aiokpl.ProducerStageLaws
import Aiokpl.ProducerPayloads

/-!
# The requests of a producer

Whatever the callers, the timers, the Limiter and the replies do, what a producer sends
is a non-empty request within the limits of the Collector, of non-empty batches within
those of the Aggregator; only something that is alone may be larger.
-/

namespace Aiokpl

open Lib Aggregation

namespace Reducer

variable {I B : Type} [Batch I B] [Batchable I]

/-- What a Reducer closes: items in the order of their deadlines, within the limits unless
    there is only one. -/
structure Sealed (cfg : Config I B) (b : B) : Prop where
  nonempty : Batch.items b ≠ []
  ordered : (Batch.items b).Pairwise fun x y => Batchable.deadline x ≤ Batchable.deadline y
  within : Fits cfg (Batch.items b) ∨ ∃ x, Batch.items b = [x]

theorem WellPacked.isSealed {cfg : Config I B} {before left : List I} {closed : B}
    (h : WellPacked cfg before closed left) : Sealed cfg closed :=
  ⟨h.nonempty, h.deadlines.1, h.within⟩

section Laws

variable [BatchLaws I B] [CountsItems I B] {cfg : Config I B}

theorem step_sealed {r r' : State B} {op : Op I} {closed : Option B} (hop : op ≠ .aclose)
    (hstep : step cfg r op = some (r', closed)) : ∀ b ∈ closed, Sealed cfg b := by
  rintro b rfl
  have hpacks : WellPacked cfg (op.before r) b (Batch.items r'.active) :=
    step_packsOrKeeps hop hstep
  exact hpacks.isSealed

/-- **The limits on a sealed batch.** -/
theorem Sealed.limits {b : B} (h : Sealed cfg b) :
    1 ≤ Batch.count b ∧ Batch.count b ≤ max 1 cfg.countLimit ∧
      (Batch.size b ≤ cfg.sizeLimit ∨ Batch.count b = 1) := by
  have hcount : Batch.count b = (Batch.items b).length := CountsItems.count_eq b
  have hpos : 0 < (Batch.items b).length := List.length_pos_of_ne_nil h.nonempty
  refine ⟨by omega, ?_⟩
  rcases h.within with hfits | ⟨x, hx⟩
  · have hexceeds := (exceeds_eq_false_iff cfg b).mpr hfits
    simp only [exceeds, Bool.or_eq_false_iff, decide_eq_false_iff_not, not_lt] at hexceeds
    exact ⟨le_max_of_le_right hexceeds.1, Or.inl hexceeds.2⟩
  · have hone : Batch.count b = 1 := by rw [hcount, hx]; rfl
    exact ⟨by rw [hone]; exact le_max_left _ _, Or.inr hone⟩

end Laws

end Reducer

namespace Limiter

/-! ## The queues of one shard each -/

/-- What is true of every batch that the Limiter has queued, under the key of its queue. -/
def Queued (Q : Option ShardId → AggregatedBatch → Prop)
    (shards : Dict (Option ShardId) ShardLimiter) : Prop :=
  ∀ key l, shards.get? key = some l → ∀ b ∈ l.batches, Q key b

variable {Q : Option ShardId → AggregatedBatch → Prop}
  {shards : Dict (Option ShardId) ShardLimiter}

theorem Queued.set (h : Queued Q shards) {key : Option ShardId} {l : ShardLimiter}
    (hl : ∀ b ∈ l.batches, Q key b) : Queued Q (shards.set key l) := by
  intro key' l' hget b hb
  rw [Dict.get?_set] at hget
  split at hget
  · rename_i hkey
    obtain rfl := Option.some.inj hget
    exact hkey ▸ hl b hb
  · exact h key' l' hget b hb

theorem put_queued (cfg : Config) (t : PutReadings) {batch : AggregatedBatch} {l : State}
    (h : Queued Q l.shards) (hbatch : Q batch.predictedShard batch) :
    Queued Q (put cfg t batch l).1.shards ∧
      ∀ b ∈ (put cfg t batch l).2.1.batches, Q batch.predictedShard b := by
  let limiter := (l.shards.get? batch.predictedShard).getD
    (.init cfg.recordsPerSecPerShard cfg.bytesPerSecPerShard t.created)
  have hold : ∀ b ∈ limiter.batches, Q batch.predictedShard b := by
    intro b hb
    cases hget : l.shards.get? batch.predictedShard with
    | none => simp [limiter, hget, ShardLimiter.init, ShardLimiter.batches] at hb
    | some l' =>
      simp only [limiter, hget, Option.getD_some] at hb
      exact h _ l' hget b hb
  have hdrain := ShardLimiter.drain_perm t.toReadings
    (limiter.enqueue batch (t.enqueued + cfg.expiration))
  have hall : ∀ b ∈ ((limiter.enqueue batch (t.enqueued + cfg.expiration)).drain
        t.toReadings).2.batches ++
      ((limiter.enqueue batch (t.enqueued + cfg.expiration)).drain t.toReadings).1.batches,
      Q batch.predictedShard b := by
    intro b hb
    rw [hdrain.mem_iff, (limiter.enqueue_perm _ _).mem_iff, List.mem_append] at hb
    rcases hb with hb | hb
    · exact hold b hb
    · rw [List.mem_singleton.mp hb]
      exact hbatch
  refine ⟨h.set fun b hb => ?_, fun b hb => ?_⟩
  · exact hall b (List.mem_append_right _ hb)
  · exact hall b (List.mem_append_left _ hb)

theorem drainEach_queued {drain : Option ShardId → ShardLimiter → ShardLimiter × Drained}
    (hdrain : ∀ key l, ((drain key l).2.batches ++ (drain key l).1.batches).Perm l.batches)
    (keys : List (Option ShardId)) (h : Queued Q shards) :
    Queued Q (drainEach drain keys shards).1 ∧
      ∀ d ∈ (drainEach drain keys shards).2, ∃ key, ∀ b ∈ d.batches, Q key b := by
  induction keys generalizing shards with
  | nil => exact ⟨h, by simp [drainEach]⟩
  | cons key keys ih =>
    simp only [drainEach]
    split
    · exact ih h
    · rename_i l hget
      have hall : ∀ b ∈ (drain key l).2.batches ++ (drain key l).1.batches, Q key b := by
        intro b hb
        rw [(hdrain key l).mem_iff] at hb
        exact h key l hget b hb
      obtain ⟨hkept, hdrained⟩ := ih (h.set fun b hb => hall b (List.mem_append_right _ hb))
      refine ⟨hkept, fun d hd => ?_⟩
      rcases List.mem_cons.mp hd with rfl | hd
      · exact ⟨key, fun b hb => hall b (List.mem_append_left _ hb)⟩
      · exact hdrained d hd

end Limiter

namespace Producer

/-! ## The law -/

section Law

variable (cfg : Config)

/-- A batch as a Reducer of its shard closes it. -/
def SealedBatch (b : AggregatedBatch) : Prop :=
  Reducer.Sealed (cfg.aggregator.reducer b.predictedShard) b

/-- A request as the Collector closes it. -/
def SealedRequest (p : PutRecordsBatch) : Prop :=
  Reducer.Sealed cfg.collector.reducer p ∧ ∀ b ∈ p.items, SealedBatch cfg b

/-- A sealed batch under the key of its own shard. -/
def InPlace (key : Option ShardId) (b : AggregatedBatch) : Prop :=
  b.predictedShard = key ∧ SealedBatch cfg b

/-- A Reducer of the Aggregator closes batches of its own shard. -/
theorem reducer_closes {key : Option ShardId} {r r' : Reducer.State AggregatedBatch}
    {op : Reducer.Op BufferedRecord} {closed : Option AggregatedBatch}
    (hkey : r.active.predictedShard = key) (hop : op ≠ .aclose)
    (hstep : Reducer.step (cfg.aggregator.reducer key) r op = some (r', closed)) :
    r'.active.predictedShard = key ∧ ∀ b ∈ closed, SealedBatch cfg b := by
  obtain ⟨hactive, hclosed⟩ := Reducer.step_tagged AggregatedBatch.predictedShard
    AggregatedBatch.predictedShard_add AggregatedBatch.predictedShard_removeLast hkey hstep
  refine ⟨hactive, fun b hb => ?_⟩
  have hshard : b.predictedShard = key := hclosed b hb
  rw [SealedBatch, hshard]
  exact Reducer.step_sealed hop hstep b hb

/-- The Collector closes what it has taken in. -/
theorem collector_closes {c c' : Reducer.State PutRecordsBatch} {op : Reducer.Op AggregatedBatch}
    {closed : Option PutRecordsBatch} (hc : ∀ b ∈ c.active.items, SealedBatch cfg b)
    (hop : op ≠ .aclose) (hadds : ∀ b ∈ op.adds, SealedBatch cfg b)
    (hstep : Reducer.step cfg.collector.reducer c op = some (c', closed)) :
    (∀ b ∈ c'.active.items, SealedBatch cfg b) ∧ ∀ p ∈ closed, SealedRequest cfg p := by
  have hmem : ∀ b, b ∈ c'.active.items ∨ b ∈ closed.toList.flatMap PutRecordsBatch.items →
      SealedBatch cfg b := by
    intro b hb
    rcases mem_collector hop hstep hb with hold | hnew
    · exact hc b hold
    · exact hadds b hnew
  refine ⟨fun b hb => hmem b (Or.inl hb), fun p hp => ⟨Reducer.step_sealed hop hstep p hp, ?_⟩⟩
  intro b hb
  exact hmem b (Or.inr (List.mem_flatMap.mpr ⟨p, Option.mem_toList.mpr hp, hb⟩))

/-- What leaves a stage is sealed, and what waits for its tokens waits in its own queue. -/
def sealing : StageLaw cfg where
  reducer key r := r.active.predictedShard = key
  limiter l := Limiter.Queued (InPlace cfg) l.shards
  collector c := ∀ b ∈ c.active.items, SealedBatch cfg b
  batch := SealedBatch cfg
  request := SealedRequest cfg
  closing := True
  reducer_init _ := rfl
  reducer_step := reducer_closes cfg
  forgotten now key buffered := (@reducer_closes cfg key _ _ (.add now buffered) _ rfl (by simp)
    rfl).2
  limiter_init key l hl := by cases hl
  limiter_put t b l hl hb := by
    obtain ⟨hkept, hgiven⟩ := Limiter.put_queued cfg.limiter t hl ⟨rfl, hb⟩
    exact ⟨hkept, fun b' hb' => (hgiven b' hb').2⟩
  limiter_drain t l hl := by
    obtain ⟨hkept, hgiven⟩ := Limiter.drainEach_queued
      (fun key s => Limiter.ShardLimiter.drain_perm (t key) s) l.shards.keys hl
    refine ⟨hkept, fun d hd b hb => ?_⟩
    obtain ⟨key, hin⟩ := hgiven d hd
    exact (hin b hb).2
  limiter_flush now l hl := by
    obtain ⟨hkept, hgiven⟩ := Limiter.drainEach_queued
      (fun key s => Limiter.ShardLimiter.drainForce_perm (now key) s) l.shards.keys hl
    refine ⟨hkept, fun d hd b hb => ?_⟩
    obtain ⟨key, hin⟩ := hgiven d hd
    exact (hin b hb).2
  limiter_close _ hl := hl
  collector_init b hb := by cases hb
  collector_step := collector_closes cfg
  collector_close _ _ b hb := by cases hb

end Law

/-! ## Requests -/

/-- What the source promises of a `PutRecords` request and of its batches. -/
structure WithinLimits (cfg : Config) (p : PutRecordsBatch) : Prop where
  nonempty : 1 ≤ p.count
  entries : (p.count : Int) ≤ max 1 cfg.collectionMaxCount
  bytes : (p.size : Int) ≤ cfg.collectionMaxSize ∨ p.count = 1
  ordered : p.items.Pairwise fun x y => Batchable.deadline x ≤ Batchable.deadline y
  batches : ∀ ar ∈ p.items, 1 ≤ ar.count ∧ (ar.count : Int) ≤ max 1 cfg.aggregator.maxCount ∧
    ((ar.size : Int) ≤ cfg.aggregationMaxSize ∨ ar.count = 1) ∧
    ar.items.Pairwise fun x y => x.deadline ≤ y.deadline

/-- A request that is about to be sent or under way. -/
def State.requests (s : State) (stream : String) (batch : PutRecordsBatch) : Prop :=
  ∃ id t, s.tasks.get? id = some t ∧ (.send stream batch ∈ t.work ∨
    ∃ startedAt, .inFlight stream startedAt batch ∈ t.work)

theorem SealedBatch.limits {cfg : Config} {ar : AggregatedBatch} (h : SealedBatch cfg ar) :
    1 ≤ ar.count ∧ (ar.count : Int) ≤ max 1 cfg.aggregator.maxCount ∧
      ((ar.size : Int) ≤ cfg.aggregationMaxSize ∨ ar.count = 1) ∧
      ar.items.Pairwise fun x y => x.deadline ≤ y.deadline := by
  obtain ⟨hpos, hcount, hsize⟩ := Reducer.Sealed.limits h
  exact ⟨Int.ofNat_le.mp hpos, hcount, hsize.imp_right Int.ofNat.inj, h.ordered⟩

theorem SealedRequest.withinLimits {cfg : Config} {p : PutRecordsBatch} (h : SealedRequest cfg p) :
    WithinLimits cfg p := by
  obtain ⟨hpos, hcount, hsize⟩ := h.1.limits
  exact ⟨Int.ofNat_le.mp hpos, hcount, hsize.imp_right Int.ofNat.inj, h.1.ordered,
    fun ar har => (h.2 ar har).limits⟩

theorem sealed_of_requests {sys : System} {ok : State → Op → Prop} {s : State}
    (h : Reachable (State.start sys) (State.step sys) ok s) {stream : String}
    {batch : PutRecordsBatch} (hrequest : s.requests stream batch) :
    SealedRequest sys.cfg batch := by
  obtain ⟨id, t, ht, hframe⟩ := hrequest
  have hobeys := ((sealing sys.cfg).reachable (fun _ _ => trivial) h).frames id t ht
  rcases hframe with hsend | ⟨startedAt, hflight⟩
  · exact hobeys _ hsend
  · exact hobeys _ hflight

end Producer

end Aiokpl
