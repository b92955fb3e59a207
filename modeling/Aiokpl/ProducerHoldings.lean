import Aiokpl.AggregatorFlush
import Aiokpl.ProducerRunning

/-!
# The records a producer has

Where `ProducerStages` weighs the stages and the frames by token, here they are
lists of the records themselves.  `exec_holdings` says once what a frame hands on:
the records it and the stages had, unless it is one of the four frames at which
something happens to a record.
-/

namespace Aiokpl

open Lib Aggregation

namespace Producer

/-! ## Holdings -/

/-- A record waits in a stage or a frame, is in a request under way, has come to its
    result, or is behind the slot of a reply at which the Retrier raises. -/
inductive Holding
  | waiting (buffered : BufferedRecord)
  | sent (buffered : BufferedRecord)
  | ended (buffered : BufferedRecord) (result : RecordResult)
  | unjudged (buffered : BufferedRecord)

def Holding.ident : Holding → Nat
  | .waiting buffered => buffered.ident
  | .sent buffered => buffered.ident
  | .ended buffered _ => buffered.ident
  | .unjudged buffered => buffered.ident

/-- What a producer has of a stream. -/
abbrev Held := String × Holding

def tokenOf (x : Held) : Token := (x.1, x.2.ident)

def waitingIn (stream : String) (records : List BufferedRecord) : List Held :=
  records.map fun b => (stream, .waiting b)

/-- What a callback of the Retrier has in hand. -/
def callHolding : Retrier.Call → Option Holding
  | .onFinish buffered result => some (.ended buffered result)
  | .onRetry buffered => some (.waiting buffered)
  | .invalidate _ _ => none

def Work.holdings : Work → List Held
  | .getReducer stream _ buffered => waitingIn stream [buffered]
  | .reducerAdd stream _ buffered => waitingIn stream [buffered]
  | .limiterPut stream batch => waitingIn stream batch.items
  | .limiterExpired stream batch => waitingIn stream batch.items
  | .limiterAdmit stream batch => waitingIn stream batch.items
  | .callback stream call => (callHolding call).toList.map fun h => (stream, h)
  | .send stream batch => waitingIn stream (Retrier.records batch)
  | .inFlight stream _ batch => (Retrier.records batch).map fun b => (stream, .sent b)
  | .handleRaises stream records => records.map fun b => (stream, .unjudged b)
  | _ => []

def holdingsOf (work : List Work) : List Held := work.flatMap Work.holdings

@[simp] theorem holdingsOf_nil : holdingsOf [] = [] := rfl

@[simp] theorem holdingsOf_cons (w : Work) (rest : List Work) :
    holdingsOf (w :: rest) = w.holdings ++ holdingsOf rest := rfl

@[simp] theorem holdingsOf_append (work work' : List Work) :
    holdingsOf (work ++ work') = holdingsOf work ++ holdingsOf work' :=
  List.flatMap_append

@[simp] theorem tokens_waitingIn (stream : String) (records : List BufferedRecord) :
    (waitingIn stream records).map tokenOf = tokensOf stream records := by
  simp only [waitingIn, tokensOf, List.map_map]
  rfl

/-- A frame has the records whose tokens it carries. -/
theorem Work.tokens_eq (w : Work) : w.tokens = w.holdings.map tokenOf := by
  cases w with
  | inFlight stream startedAt batch =>
    simp only [Work.tokens, Work.holdings, tokensOf, List.map_map]
    rfl
  | handleRaises stream records =>
    simp only [Work.tokens, Work.holdings, tokensOf, List.map_map]
    rfl
  | callback stream call => cases call <;> rfl
  | _ => simp [Work.tokens, Work.holdings]

theorem mem_tokens {w : Work} {x : Held} (h : x ∈ w.holdings) : tokenOf x ∈ w.tokens := by
  rw [w.tokens_eq]
  exact List.mem_map_of_mem h

/-- Frames of one kind have what their contents hold. -/
theorem holdingsOf_map {α : Type} {stream : String} {frame : α → Work}
    (contents : α → List BufferedRecord)
    (h : ∀ x, (frame x).holdings = waitingIn stream (contents x)) (xs : List α) :
    holdingsOf (xs.map frame) = waitingIn stream (xs.flatMap contents) := by
  rw [holdingsOf, List.flatMap_map, waitingIn, List.map_flatMap]
  simp only [h]
  rfl

theorem holdingsOf_toLimiter (stream : String) (closed : Option AggregatedBatch) :
    holdingsOf (toLimiter stream closed) =
      waitingIn stream (closed.toList.flatMap AggregatedBatch.items) :=
  holdingsOf_map _ (fun _ => rfl) closed.toList

theorem holdingsOf_dispatch (stream : String) (drained : Limiter.Drained) :
    holdingsOf (dispatch stream drained) =
      waitingIn stream (drained.batches.flatMap AggregatedBatch.items) := by
  rw [dispatch, holdingsOf_append, holdingsOf_map _ (fun _ => rfl), holdingsOf_map _ fun _ => rfl,
    Limiter.Drained.batches, List.flatMap_append, waitingIn, waitingIn, waitingIn, List.map_append]

theorem holdingsOf_dispatchAll (stream : String) (drained : List Limiter.Drained) :
    holdingsOf (drained.flatMap (dispatch stream)) = waitingIn stream
      ((drained.flatMap Limiter.Drained.batches).flatMap AggregatedBatch.items) := by
  induction drained with
  | nil => rfl
  | cons d drained ih =>
    rw [List.flatMap_cons, holdingsOf_append, holdingsOf_dispatch, ih, List.flatMap_cons,
      List.flatMap_append, waitingIn, waitingIn, waitingIn, List.map_append]

theorem mem_callbacks {stream : String} {calls : List Retrier.Call} {x : Held}
    (h : x ∈ holdingsOf (calls.map (.callback stream))) :
    ∃ call ∈ calls, ∃ held, callHolding call = some held ∧ x = (stream, held) := by
  rw [holdingsOf, List.flatMap_map, List.mem_flatMap] at h
  obtain ⟨call, hcall, hx⟩ := h
  simp only [Work.holdings, List.mem_map, Option.mem_toList] at hx
  obtain ⟨held, hheld, rfl⟩ := hx
  exact ⟨call, hcall, held, hheld, rfl⟩

/-- The Retrier has the records it judges, and those behind the slot at which it raises. -/
theorem mem_handling {stream : String} {batch : PutRecordsBatch} {handled : Retrier.Handled}
    {x : Held} (h : x ∈ holdingsOf (handling stream batch handled)) :
    (∃ call ∈ handled.calls, ∃ held, callHolding call = some held ∧ x = (stream, held)) ∨
      ∃ b ∈ unjudged batch handled.calls, x = (stream, .unjudged b) := by
  rw [handling, holdingsOf_append, List.mem_append] at h
  rcases h with h | h
  · exact Or.inl (mem_callbacks h)
  · obtain ⟨w, hw, hx⟩ := List.mem_flatMap.mp h
    obtain ⟨_, _, rfl⟩ := List.mem_map.mp hw
    obtain ⟨b, hb, rfl⟩ := List.mem_map.mp hx
    exact Or.inr ⟨b, hb, rfl⟩

theorem isCallback_of_holding {call : Retrier.Call} {held : Holding}
    (h : callHolding call = some held) : call.isCallback = true := by
  cases call <;> simp [callHolding, Retrier.Call.isCallback] at h ⊢

/-! ## Stages -/

/-- The batches in the queues of a Limiter. -/
def shardBatches (shards : Dict (Option ShardId) Limiter.ShardLimiter) : List AggregatedBatch :=
  shards.values.flatMap Limiter.ShardLimiter.batches

/-- The records in the stages of a pipeline. -/
def Pipeline.records (p : Pipeline) : List BufferedRecord :=
  p.aggregator.buffered ++ (shardBatches p.limiter.shards).flatMap AggregatedBatch.items ++
    p.collector.active.items.flatMap AggregatedBatch.items

theorem count_records (k : Token) (stream : String) (p : Pipeline) :
    (tokensOf stream p.records).count k = p.holds k stream := by
  simp only [Pipeline.records, Aggregator.State.buffered, shardBatches, tokensOf_append,
    tokensOf_flatMap, List.flatMap_assoc, List.count_append, List.count_flatMap, Dict.values,
    List.map_map, Function.comp_def, Pipeline.holds, inAggregator, inLimiter, inCollector,
    inBatches, Dict.total]

theorem records_newPipeline (cfg : Config) : (newPipeline cfg).records = [] := rfl

theorem mem_buffered {a : Aggregator.State} {b : BufferedRecord} :
    b ∈ a.buffered ↔ ∃ key r, a.reducers.get? key = some r ∧ b ∈ r.active.items := by
  simp only [Aggregator.State.buffered, List.mem_flatMap, Dict.mem_values]
  constructor
  · rintro ⟨r, ⟨key, hr⟩, hb⟩
    exact ⟨key, r, hr, hb⟩
  · rintro ⟨key, r, hr, hb⟩
    exact ⟨r, ⟨key, hr⟩, hb⟩

theorem mem_shardBatches {shards : Dict (Option ShardId) Limiter.ShardLimiter}
    {batch : AggregatedBatch} :
    batch ∈ shardBatches shards ↔ ∃ key l, shards.get? key = some l ∧ batch ∈ l.batches := by
  simp only [shardBatches, List.mem_flatMap, Dict.mem_values]
  constructor
  · rintro ⟨l, ⟨key, hl⟩, hb⟩
    exact ⟨key, l, hl, hb⟩
  · rintro ⟨key, l, hl, hb⟩
    exact ⟨l, ⟨key, hl⟩, hb⟩

/-- A new Reducer is empty. -/
theorem mem_getOrCreateReducer {cfg : Aggregator.Config} {shardKey : Option ShardId}
    {a a' : Aggregator.State} (h : Aggregator.getOrCreateReducer cfg shardKey a = some a')
    {b : BufferedRecord} (hb : b ∈ a'.buffered) : b ∈ a.buffered := by
  unfold Aggregator.getOrCreateReducer at h
  split at h
  · rwa [Option.some.inj h]
  · split at h
    · obtain rfl := Option.some.inj h
      obtain ⟨key, r, hr, hitems⟩ := mem_buffered.mp hb
      rw [Dict.get?_set] at hr
      split at hr
      · obtain rfl := Option.some.inj hr
        simp [Reducer.init, Aggregator.Config.reducer] at hitems
      · exact mem_buffered.mpr ⟨key, r, hr, hitems⟩
    · simp at h

/-- A Reducer of the Aggregator keeps or closes what it had and took in. -/
theorem mem_onReducer {cfg : Aggregator.Config} {shardKey : Option ShardId}
    {op : Reducer.Op BufferedRecord} {a a' : Aggregator.State} {closed : Option AggregatedBatch}
    (hop : op ≠ .aclose) (h : Aggregator.onReducer cfg shardKey op a = some (a', closed))
    {b : BufferedRecord}
    (hb : b ∈ a'.buffered ∨ b ∈ closed.toList.flatMap AggregatedBatch.items) :
    b ∈ a.buffered ∨ b ∈ op.adds := by
  have hmem := (Aggregator.onReducer_perm hop h).mem_iff (a := b)
  rw [List.mem_append, List.mem_append] at hmem
  exact hmem.mp hb.symm

/-- So does the Collector. -/
theorem mem_collector {cfg : Reducer.Config AggregatedBatch PutRecordsBatch}
    {op : Reducer.Op AggregatedBatch} {c c' : Reducer.State PutRecordsBatch}
    {closed : Option PutRecordsBatch} (hop : op ≠ .aclose)
    (h : Reducer.step cfg c op = some (c', closed)) {batch : AggregatedBatch}
    (hb : batch ∈ c'.active.items ∨ batch ∈ closed.toList.flatMap PutRecordsBatch.items) :
    batch ∈ c.active.items ∨ batch ∈ op.adds := by
  have hperm : (closed.toList.flatMap PutRecordsBatch.items ++ c'.active.items).Perm
      (c.active.items ++ op.adds) := Reducer.step_items_perm hop h
  have hmem := hperm.mem_iff (a := batch)
  rw [List.mem_append, List.mem_append] at hmem
  exact hmem.mp hb.symm

theorem mem_shardBatches_set {shards : Dict (Option ShardId) Limiter.ShardLimiter}
    {key : Option ShardId} {l : Limiter.ShardLimiter} {batch : AggregatedBatch}
    (h : batch ∈ shardBatches (shards.set key l)) :
    batch ∈ l.batches ∨ batch ∈ shardBatches shards := by
  obtain ⟨key', l', hl, hb⟩ := mem_shardBatches.mp h
  rw [Dict.get?_set] at hl
  split at hl
  · obtain rfl := Option.some.inj hl
    exact Or.inl hb
  · exact Or.inr (mem_shardBatches.mpr ⟨key', l', hl, hb⟩)

theorem mem_limiterPut {cfg : Limiter.Config} {t : Limiter.PutReadings}
    {batch batch' : AggregatedBatch} {l : Limiter.State}
    (h : batch' ∈ shardBatches (Limiter.put cfg t batch l).1.shards ∨
      batch' ∈ (Limiter.put cfg t batch l).2.1.batches) :
    batch' ∈ shardBatches l.shards ∨ batch' ∈ [batch] := by
  let limiter := (l.shards.get? batch.predictedShard).getD
    (.init cfg.recordsPerSecPerShard cfg.bytesPerSecPerShard t.created)
  have hshard : ∀ b, b ∈ limiter.batches → b ∈ shardBatches l.shards := by
    intro b hb
    cases hget : l.shards.get? batch.predictedShard with
    | none => simp [limiter, hget, Limiter.ShardLimiter.init, Limiter.ShardLimiter.batches] at hb
    | some l' =>
      simp only [limiter, hget, Option.getD_some] at hb
      exact mem_shardBatches.mpr ⟨_, l', hget, hb⟩
  have hdrained : ∀ b, b ∈ ((limiter.enqueue batch (t.enqueued + cfg.expiration)).drain
        t.toReadings).2.batches ∨ b ∈ ((limiter.enqueue batch (t.enqueued + cfg.expiration)).drain
        t.toReadings).1.batches → b ∈ shardBatches l.shards ∨ b ∈ [batch] := by
    intro b hb
    rw [← List.mem_append, (Limiter.ShardLimiter.drain_perm _ _).mem_iff,
      (limiter.enqueue_perm _ _).mem_iff, List.mem_append] at hb
    exact hb.imp_left (hshard b)
  rcases h with h | h
  · rcases mem_shardBatches_set h with hqueued | hold
    · exact hdrained batch' (Or.inr hqueued)
    · exact Or.inl hold
  · exact hdrained batch' (Or.inl h)

theorem mem_drainEach {drain : Option ShardId → Limiter.ShardLimiter →
      Limiter.ShardLimiter × Limiter.Drained}
    (hdrain : ∀ key limiter,
      ((drain key limiter).2.batches ++ (drain key limiter).1.batches).Perm limiter.batches)
    (batch : AggregatedBatch) :
    ∀ (keys : List (Option ShardId)) (shards : Dict (Option ShardId) Limiter.ShardLimiter),
      batch ∈ shardBatches (Limiter.drainEach drain keys shards).1 ∨
          batch ∈ (Limiter.drainEach drain keys shards).2.flatMap Limiter.Drained.batches →
        batch ∈ shardBatches shards
  | [], _, h => by simpa [Limiter.drainEach] using h
  | key :: keys, shards, h => by
    simp only [Limiter.drainEach] at h
    split at h
    · exact mem_drainEach hdrain batch keys shards h
    · rename_i limiter hget
      have hlimiter : ∀ b, b ∈ (drain key limiter).2.batches ∨ b ∈ (drain key limiter).1.batches →
          b ∈ shardBatches shards := by
        intro b hb
        rw [← List.mem_append, (hdrain key limiter).mem_iff] at hb
        exact mem_shardBatches.mpr ⟨key, limiter, hget, hb⟩
      have ih := mem_drainEach hdrain batch keys (shards.set key (drain key limiter).1)
      have hset : batch ∈ shardBatches (shards.set key (drain key limiter).1) →
          batch ∈ shardBatches shards := by
        intro hb
        rcases mem_shardBatches_set hb with hkept | hold
        · exact hlimiter batch (Or.inr hkept)
        · exact hold
      rw [List.flatMap_cons, List.mem_append] at h
      rcases h with h | h | h
      · exact hset (ih (Or.inl h))
      · exact hlimiter batch (Or.inl h)
      · exact hset (ih (Or.inr h))

/-! ## What a frame hands on -/

/-- The record waits in a stage. -/
def Shared.Has (s : Shared) (x : Held) : Prop :=
  ∃ p, s.pipelines.get? x.1 = some p ∧ x ∈ waitingIn x.1 p.records

/-- The frames at which something happens to a record. -/
def Work.settles : Work → Bool
  | .limiterExpired _ _ => true
  | .send _ _ => true
  | .inFlight _ _ _ => true
  | .callback _ (.onFinish _ _) => true
  | _ => false

/-- What a frame makes of the records it has. -/
inductive Handed (sys : System) (input : Input) : Work → Held → Prop
  | same {w : Work} {x : Held} : w.settles = false → x ∈ w.holdings → Handed sys input w x
  | registered {w : Work} {call : PutCall} {buffered : BufferedRecord} :
      w.call? = some call → buffered.ident = call.number → buffered.attempts = [] →
      Handed sys input w (call.stream, .waiting buffered)
  | sent {stream : String} {batch : PutRecordsBatch} {buffered : BufferedRecord} :
      buffered ∈ Retrier.records batch →
      Handed sys input (.send stream batch) (stream, .sent buffered)
  | expired {stream : String} {batch : AggregatedBatch} {buffered : BufferedRecord}
      {call : Retrier.Call} {held : Holding} : buffered ∈ batch.items →
      Retrier.Judged sys.cfg.retrier (expiredOutcome stream input.now batch) buffered
        (.refused Retrier.expiredErrorCode (Retrier.expiredErrorMessage ++ ": Expired")) call →
      callHolding call = some held → Handed sys input (.limiterExpired stream batch) (stream, held)
  | answered {stream : String} {startedAt : Time} {batch : PutRecordsBatch}
      {outcome : SendOutcome} {buffered : BufferedRecord} {verdict : Retrier.Verdict}
      {call : Retrier.Call} {held : Holding} :
      (buffered, verdict) ∈ Retrier.verdicts sys.u input.env batch input.reply →
      Retrier.Judged sys.cfg.retrier outcome buffered verdict call →
      callHolding call = some held →
        Handed sys input (.inFlight stream startedAt batch) (stream, held)
  | unjudged {stream : String} {startedAt : Time} {batch : PutRecordsBatch}
      {buffered : BufferedRecord} : buffered ∈ Retrier.records batch →
      Handed sys input (.inFlight stream startedAt batch) (stream, .unjudged buffered)

/-- What is in the stages once a frame has run, or goes on in the frames it pushes and
    in the task it starts. -/
def Leaves (s : Shared) (push : List Work) (spawn : Option Task) (x : Held) : Prop :=
  s.Has x ∨ x ∈ holdingsOf push ∨ x ∈ holdingsOf (spawn.toList.flatMap Task.work)

theorem has_setPipeline {s : Shared} {stream : String} {p : Pipeline} {x : Held}
    (h : (s.setPipeline stream p).Has x) : s.Has x ∨ x ∈ waitingIn stream p.records := by
  obtain ⟨p', hp', hx⟩ := h
  rw [Shared.setPipeline, Dict.get?_set] at hp'
  split at hp'
  · rename_i hstream
    obtain rfl := Option.some.inj hp'
    rw [hstream] at hx
    exact Or.inr hx
  · exact Or.inl ⟨p', hp', hx⟩

/-- A stage that exchanges records with the frames. -/
theorem has_stage {s : Shared} {stream : String} {p p' : Pipeline}
    {taken given : List BufferedRecord} (hp : s.pipelines.get? stream = some p)
    (hmoved : ∀ b, b ∈ p'.records ∨ b ∈ given → b ∈ p.records ∨ b ∈ taken) {x : Held}
    (hx : (s.setPipeline stream p').Has x ∨ x ∈ waitingIn stream given) :
    s.Has x ∨ x ∈ waitingIn stream taken := by
  have hmem : ∀ b, b ∈ p'.records ∨ b ∈ given → x = (stream, .waiting b) →
      s.Has x ∨ x ∈ waitingIn stream taken := by
    rintro b hb rfl
    rcases hmoved b hb with hold | htaken
    · exact Or.inl ⟨p, hp, List.mem_map_of_mem hold⟩
    · exact Or.inr (List.mem_map_of_mem htaken)
  rcases hx with hx | hx
  · rcases has_setPipeline hx with hold | hnew
    · exact Or.inl hold
    · obtain ⟨b, hb, rfl⟩ := List.mem_map.mp hnew
      exact hmem b (Or.inl hb) rfl
  · obtain ⟨b, hb, rfl⟩ := List.mem_map.mp hx
    exact hmem b (Or.inr hb) rfl

section Stages

variable {p : Pipeline} {b : BufferedRecord}

theorem mem_records : b ∈ p.records ↔ b ∈ p.aggregator.buffered ∨
    b ∈ (shardBatches p.limiter.shards).flatMap AggregatedBatch.items ∨
    b ∈ p.collector.active.items.flatMap AggregatedBatch.items := by
  rw [Pipeline.records, List.mem_append, List.mem_append, or_assoc]

theorem records_aggregator {a : Aggregator.State} {taken given : List BufferedRecord}
    (hmoved : b ∈ a.buffered ∨ b ∈ given → b ∈ p.aggregator.buffered ∨ b ∈ taken)
    (hb : b ∈ ({ p with aggregator := a } : Pipeline).records ∨ b ∈ given) :
    b ∈ p.records ∨ b ∈ taken := by
  rw [mem_records] at hb ⊢
  tauto

/-- Batches that move take their records along. -/
theorem items_moved {before taken after given : List AggregatedBatch}
    (hmoved : ∀ batch, batch ∈ after ∨ batch ∈ given → batch ∈ before ∨ batch ∈ taken)
    (hb : b ∈ after.flatMap AggregatedBatch.items ∨ b ∈ given.flatMap AggregatedBatch.items) :
    b ∈ before.flatMap AggregatedBatch.items ∨ b ∈ taken.flatMap AggregatedBatch.items := by
  have hbatch : ∃ batch, (batch ∈ after ∨ batch ∈ given) ∧ b ∈ batch.items := by
    rcases hb with hb | hb
    · obtain ⟨batch, hbatch, hin⟩ := List.mem_flatMap.mp hb
      exact ⟨batch, Or.inl hbatch, hin⟩
    · obtain ⟨batch, hbatch, hin⟩ := List.mem_flatMap.mp hb
      exact ⟨batch, Or.inr hbatch, hin⟩
  obtain ⟨batch, hbatch, hin⟩ := hbatch
  exact (hmoved batch hbatch).imp (fun h => List.mem_flatMap.mpr ⟨batch, h, hin⟩)
    fun h => List.mem_flatMap.mpr ⟨batch, h, hin⟩

theorem records_limiter {l : Limiter.State} {taken given : List AggregatedBatch}
    (hmoved : ∀ batch, batch ∈ shardBatches l.shards ∨ batch ∈ given →
      batch ∈ shardBatches p.limiter.shards ∨ batch ∈ taken)
    (hb : b ∈ ({ p with limiter := l } : Pipeline).records ∨
      b ∈ given.flatMap AggregatedBatch.items) :
    b ∈ p.records ∨ b ∈ taken.flatMap AggregatedBatch.items := by
  have hitems := items_moved (b := b) hmoved
  rw [mem_records] at hb ⊢
  tauto

theorem records_collector {c : Reducer.State PutRecordsBatch} {taken given : List AggregatedBatch}
    (hmoved : ∀ batch, batch ∈ c.active.items ∨ batch ∈ given →
      batch ∈ p.collector.active.items ∨ batch ∈ taken)
    (hb : b ∈ ({ p with collector := c } : Pipeline).records ∨
      b ∈ given.flatMap AggregatedBatch.items) :
    b ∈ p.records ∨ b ∈ taken.flatMap AggregatedBatch.items := by
  have hitems := items_moved (b := b) hmoved
  rw [mem_records] at hb ⊢
  tauto

end Stages

/-- What the Collector closed goes to the task that sends it. -/
theorem holdingsOf_collectorBatch {stream : String} {closed : Option PutRecordsBatch}
    {s s' : Shared} {push : List Work} {spawn : Option Task}
    (h : collectorBatch stream closed s = .next s' push spawn) :
    s' = s ∧ push = [] ∧ holdingsOf (spawn.toList.flatMap Task.work) = waitingIn stream
      ((closed.toList.flatMap PutRecordsBatch.items).flatMap AggregatedBatch.items) := by
  obtain ⟨rfl, rfl, _, _⟩ := collectorBatch_next h
  refine ⟨rfl, rfl, ?_⟩
  cases closed with
  | none =>
    simp only [collectorBatch, Ran.next.injEq] at h
    rw [← h.2.2]
    rfl
  | some batch =>
    simp only [collectorBatch] at h
    split at h
    · simp only [Ran.next.injEq] at h
      rw [← h.2.2]
      simp [Work.holdings, Retrier.records]
    · simp at h

theorem attempts_buildBuffered {md5 : Bytes → Digest} {u : DigitClasses} {cfg : Aggregator.Config}
    {now : Time} {ident : Nat} {userRecord : UserRecord} {buffered : BufferedRecord}
    (h : Aggregator.buildBuffered md5 u cfg now ident userRecord = .ok buffered) :
    buffered.attempts = [] := by
  obtain ⟨hashKey, _, rfl⟩ := Aggregator.buildBuffered_eq_ok h
  rfl

/-- A call registers its record in a pipeline that is there. -/
theorem has_submit {sys : System} {input : Input} {w : Work} {call : PutCall} {p : Pipeline}
    {s s' : Shared} {push : List Work} {spawn : Option Task} (hw : w.call? = some call)
    (hp : s.pipelines.get? call.stream = some p)
    (h : submit sys input call p s = .next s' push spawn) {x : Held}
    (hx : Leaves s' push spawn x) : s.Has x ∨ Handed sys input w x := by
  unfold submit at h
  split at h
  · simp at h
  · rename_i buffered hbuild
    obtain ⟨rfl, rfl, rfl⟩ := (Ran.next.injEq ..).mp h
    rcases hx with hx | hx | hx
    · have hrecords : ∀ b, b ∈ ({ p with pending := p.pending.set buffered.ident call.number } :
          Pipeline).records ∨ b ∈ ([] : List BufferedRecord) →
          b ∈ p.records ∨ b ∈ ([] : List BufferedRecord) := fun _ hb => hb
      exact Or.inl ((has_stage hp hrecords (Or.inl hx)).resolve_right (by simp [waitingIn]))
    · right
      simp only [holdingsOf_cons, holdingsOf_nil, List.append_nil, Work.holdings, waitingIn,
        List.map_cons, List.map_nil, List.mem_singleton] at hx
      rw [hx]
      exact .registered hw (ident_buildBuffered hbuild) (attempts_buildBuffered hbuild)
    · simp at hx

/-- A frame that exchanges records with a stage. -/
theorem leaves_stage {sys : System} {input : Input} {s : Shared} {w : Work} {stream : String}
    {p p' : Pipeline} {push : List Work} {spawn : Option Task} (taken given : List BufferedRecord)
    (hw : w.settles = false) (hholdings : w.holdings = waitingIn stream taken)
    (hp : s.pipelines.get? stream = some p)
    (hmoved : ∀ b, b ∈ p'.records ∨ b ∈ given → b ∈ p.records ∨ b ∈ taken)
    (hgiven : holdingsOf (push ++ spawn.toList.flatMap Task.work) = waitingIn stream given)
    {x : Held} (hx : Leaves (s.setPipeline stream p') push spawn x) :
    s.Has x ∨ Handed sys input w x := by
  have hout : (s.setPipeline stream p').Has x ∨ x ∈ waitingIn stream given := by
    rw [← hgiven, holdingsOf_append, List.mem_append]
    exact hx
  rcases has_stage hp hmoved hout with hold | htaken
  · exact Or.inl hold
  · exact Or.inr (.same hw (hholdings ▸ htaken))

/-- A frame that touches no stage and hands on what it has. -/
theorem leaves_same {sys : System} {input : Input} {s s' : Shared} {w : Work} {push : List Work}
    (hw : w.settles = false) (hs : s'.pipelines = s.pipelines)
    (hpush : ∀ x ∈ holdingsOf push, x ∈ w.holdings) {x : Held} (hx : Leaves s' push none x) :
    s.Has x ∨ Handed sys input w x := by
  rcases hx with hx | hx | hx
  · rw [Shared.Has, hs] at hx
    exact Or.inl hx
  · exact Or.inr (.same hw (hpush x hx))
  · simp at hx

/-- A forgotten Reducer closes no other record than the one it takes. -/
theorem mem_addToForgotten {cfg : Aggregator.Config} {now : Time} {shardKey : Option ShardId}
    {buffered b : BufferedRecord}
    (hb : b ∈ (addToForgotten cfg now shardKey buffered).2.toList.flatMap AggregatedBatch.items) :
    b = buffered := by
  have hperm : ((addToForgotten cfg now shardKey buffered).2.toList.flatMap AggregatedBatch.items ++
      (addToForgotten cfg now shardKey buffered).1.active.items).Perm ([] ++ [buffered]) :=
    Reducer.step_items_perm (show Reducer.Op.add now buffered ≠ .aclose by simp) rfl
  have hmem := hperm.mem_iff.mp (List.mem_append_left _ hb)
  simpa using hmem

/-- A pipeline that is entered has nothing in it. -/
theorem has_entering {sys : System} {s : Shared} {stream : String} {x : Held}
    (h : (entering sys s stream).Has x) : s.Has x := by
  rcases has_setPipeline h with hold | hnew
  · exact hold
  · rw [records_newPipeline] at hnew
    cases hnew

/-- **What a frame hands on** when it raises nothing. -/
theorem exec_leaves {sys : System} {input : Input} {id : Nat} {s s' : Shared} {w : Work}
    {push : List Work} {spawn : Option Task}
    (h : exec sys input id s w = some (.next s' push spawn)) {x : Held}
    (hx : Leaves s' push spawn x) : s.Has x ∨ Handed sys input w x := by
  cases exec_runs h with
  | acquire | resume | building | unwind | closeClient =>
    apply leaves_same rfl _ _ hx <;> simp [Work.holdings]
  | getPipeline _ hp hsubmit => exact has_submit rfl hp hsubmit hx
  | @buildPipeline call _ _ _ hsubmit =>
    exact (has_submit (w := .buildPipeline call) rfl (entering_stream sys s call.stream) hsubmit
      hx).imp_left has_entering
  | getReducer hp hfound =>
    exact leaves_stage _ _ rfl rfl hp (fun b => records_aggregator
      (Or.imp_left (mem_getOrCreateReducer hfound))) rfl hx
  | reducerAdd hp hadd =>
    exact leaves_stage _ _ rfl rfl hp (fun b => records_aggregator (mem_onReducer (by simp) hadd))
      (by simp [holdingsOf_toLimiter]) hx
  | reducerForgotten =>
    refine leaves_same rfl rfl (fun x hx => ?_) hx
    rw [holdingsOf_toLimiter] at hx
    obtain ⟨b, hb, rfl⟩ := List.mem_map.mp hx
    rw [mem_addToForgotten hb]
    exact List.mem_singleton.mpr rfl
  | @limiterPut stream batch p hp =>
    refine leaves_stage ([batch].flatMap AggregatedBatch.items) _ rfl (by simp [Work.holdings]) hp
      (fun b => records_limiter fun _ => mem_limiterPut) ?_ hx
    rw [holdingsOf_append, holdingsOf_dispatch]
    split <;> simp [Work.holdings]
  | limiterExpired stream batch =>
    rcases hx with hx | hx | hx
    · exact Or.inl hx
    · obtain ⟨call, hcall, held, hheld, rfl⟩ := mem_callbacks hx
      obtain ⟨⟨b, v⟩, hbv, hjudged⟩ := (expired_judges stream sys.u sys.cfg.retrier input.env
        input.now batch).judged hcall (isCallback_of_holding hheld)
      obtain ⟨b', hb, hbv⟩ := List.mem_map.mp hbv
      obtain ⟨rfl, rfl⟩ := Prod.mk.inj hbv
      exact Or.inr (.expired hb hjudged hheld)
    · simp at hx
  | @limiterAdmit stream batch p _ _ _ hp hbatch =>
    obtain ⟨rfl, rfl, hspawn⟩ := holdingsOf_collectorBatch hbatch
    exact leaves_stage ([batch].flatMap AggregatedBatch.items) _ rfl (by simp [Work.holdings]) hp
      (fun b => records_collector fun _ => mem_collector
        (show Reducer.Op.add input.now batch ≠ .aclose by simp) rfl) hspawn hx
  | onFinish stream buffered result =>
    rcases hx with hx | hx | hx
    · left
      cases hp : s.pipelines.get? stream with
      | none =>
        simp only [finish, hp] at hx
        exact hx
      | some p =>
        rw [finish_eq hp] at hx
        have hrecords : ∀ b, b ∈ ({ p with pending := p.pending.erase buffered.ident } :
            Pipeline).records ∨ b ∈ ([] : List BufferedRecord) →
            b ∈ p.records ∨ b ∈ ([] : List BufferedRecord) := fun _ hb => hb
        exact (has_stage hp hrecords (Or.inl hx)).resolve_right (by simp [waitingIn])
    · simp at hx
    · simp at hx
  | onRetry =>
    exact leaves_same rfl rfl
      (fun x hx => by simpa [Work.holdings, callHolding, waitingIn] using hx) hx
  | flushPipelines =>
    refine leaves_same rfl rfl (fun x hx => ?_) hx
    simp [holdingsOf, List.flatMap_assoc, Work.holdings] at hx
  | flushAggregator =>
    refine leaves_same rfl rfl (fun x hx => ?_) hx
    simp [holdingsOf, List.flatMap_map, Work.holdings] at hx
  | flushReducer hp hflush =>
    exact leaves_stage [] _ rfl rfl hp
      (fun b => records_aggregator (mem_onReducer (by simp) hflush))
      (by simp [holdingsOf_toLimiter]) hx
  | @flushLimiter stream p hp =>
    refine leaves_stage ([].flatMap AggregatedBatch.items) _ rfl rfl hp (fun b =>
      records_limiter fun batch hb => Or.inl (mem_drainEach
        (fun key limiter => limiter.drainForce_perm (input.drain key).now) batch _ _ hb)) ?_ hx
    simp only [Option.toList_none, List.flatMap_nil, List.append_nil]
    exact holdingsOf_dispatchAll stream _
  | flushCollector hp hbatch =>
    obtain ⟨rfl, rfl, hspawn⟩ := holdingsOf_collectorBatch hbatch
    exact leaves_stage ([].flatMap AggregatedBatch.items) _ rfl rfl hp
      (fun b => records_collector fun _ => mem_collector
        (show Reducer.Op.flush input.now ≠ .aclose by simp) rfl) hspawn hx
  | @drainTick stream p hp =>
    refine leaves_stage ([].flatMap AggregatedBatch.items) _ rfl rfl hp (fun b =>
      records_limiter fun batch hb => Or.inl (mem_drainEach
        (fun key limiter => limiter.drain_perm (input.drain key)) batch _ _ hb)) ?_ hx
    rw [holdingsOf_append, holdingsOf_append, holdingsOf_dispatchAll]
    simp [Work.holdings]
    rfl
  | send stream batch =>
    rcases hx with hx | hx | hx
    · exact Or.inl hx
    · simp only [holdingsOf_cons, holdingsOf_nil, List.append_nil, Work.holdings,
        List.mem_map] at hx
      obtain ⟨b, hb, rfl⟩ := hx
      exact Or.inr (.sent hb)
    · simp at hx
  | inFlight htrip =>
    rcases hx with hx | hx | hx
    · exact Or.inl hx
    · rcases mem_handling hx with ⟨call, hcall, held, hheld, rfl⟩ | ⟨b, hb, rfl⟩
      · obtain ⟨done, rest, hverdicts, hjudges, _⟩ := Retrier.trip_judges htrip
        obtain ⟨⟨b, v⟩, hbv, hjudged⟩ := hjudges.judged hcall (isCallback_of_holding hheld)
        exact Or.inr (.answered (hverdicts ▸ List.mem_append_left rest hbv) hjudged hheld)
      · exact Or.inr (.unjudged (List.mem_of_mem_drop hb))
    · simp at hx
  | @leaveContext context =>
    refine leaves_same rfl rfl (fun x hx => ?_) hx
    cases context <;> simp [Context.leave, Work.holdings] at hx
  | closeCollector hp =>
    exact leaves_stage ([].flatMap AggregatedBatch.items) ([].flatMap _) rfl rfl hp
      (fun b => records_collector fun batch hb => by
        simp [Reducer.aclose, Collector.Config.reducer] at hb) rfl hx
  | closeAggregator hp =>
    exact leaves_stage [] [] rfl rfl hp
      (fun b => records_aggregator fun hb => by
        simp [Aggregator.aclose, Aggregator.State.buffered, Dict.values, Dict.empty] at hb) rfl hx
  | closeLimiter hp | leaveAggregator hp =>
    refine leaves_stage [] [] rfl rfl hp ?_ rfl hx
    exact fun b hb => hb
  | invalidate | nothingToFlush | leftContexts | checkpoint | awaitCollector | awaitLimiter
  | awaitAggregator | awaitTaskGroup => exact leaves_same rfl rfl (by simp) hx

/-- A frame that raises leaves nothing in the stages but what was there or in its
    hands. -/
theorem exec_raises_has {sys : System} {input : Input} {id : Nat} {s s' : Shared} {w : Work}
    {left : List Work} (h : exec sys input id s w = some (.raises s' left)) {x : Held}
    (hx : s'.Has x) : s.Has x ∨ x ∈ w.holdings := by
  cases exec_raising h with
  | getPipeline _ _ hsubmit =>
    obtain ⟨rfl, rfl⟩ := submit_raises hsubmit
    exact Or.inl hx
  | buildFails | getReducer | inFlight | handleRaises => exact Or.inl hx
  | buildPipeline hsubmit =>
    obtain ⟨rfl, rfl⟩ := submit_raises hsubmit
    exact Or.inl (has_entering hx)
  | @limiterAdmit stream batch p _ _ hp hbatch =>
    obtain ⟨rfl, _⟩ := collectorBatch_raises hbatch
    have htaken : waitingIn stream ([batch].flatMap AggregatedBatch.items) =
        (Work.limiterAdmit stream batch).holdings := by simp [Work.holdings]
    rw [← htaken]
    exact has_stage hp (fun b => records_collector fun _ => mem_collector
      (show Reducer.Op.add input.now batch ≠ .aclose by simp) rfl) (Or.inl hx)
  | @flushCollector stream p _ _ hp hbatch =>
    obtain ⟨rfl, _⟩ := collectorBatch_raises hbatch
    have htaken : waitingIn stream (([] : List AggregatedBatch).flatMap AggregatedBatch.items) =
        (Work.flushCollector stream).holdings := rfl
    rw [← htaken]
    exact has_stage hp (fun b => records_collector fun _ => mem_collector
      (show Reducer.Op.flush input.now ≠ .aclose by simp) rfl) (Or.inl hx)

/-! ## Steps -/

/-- The record waits in a stage or is in the hands of a task. -/
def State.Has (s : State) (x : Held) : Prop :=
  s.shared.Has x ∨ ∃ id t, s.tasks.get? id = some t ∧ x ∈ holdingsOf t.work

/-- The producer has the record beside what the first frame of the task has. -/
def State.HasBeside (s : State) (id : Nat) (rest : List Work) (x : Held) : Prop :=
  s.shared.Has x ∨ x ∈ holdingsOf rest ∨
    ∃ id' t, id' ≠ id ∧ s.tasks.get? id' = some t ∧ x ∈ holdingsOf t.work

theorem has_endReducerTimer {cfg : Aggregator.Config} {stream : String}
    {shardKey : Option ShardId} {scope : Nat} {s : Shared} {x : Held}
    (hx : (endReducerTimer cfg stream shardKey scope s).Has x) : s.Has x := by
  unfold endReducerTimer at hx
  split at hx
  · exact hx
  · rename_i p hp
    split at hx
    · exact hx
    · rename_i aggregator closed hend
      have hmoved : ∀ b, b ∈ ({ p with aggregator } : Pipeline).records ∨ b ∈ [] →
          b ∈ p.records ∨ b ∈ [] := fun b => records_aggregator fun hb =>
        mem_onReducer (by simp) hend (hb.imp_right fun hnil => absurd hnil List.not_mem_nil)
      exact (has_stage hp hmoved (Or.inl hx)).resolve_right List.not_mem_nil

/-- A task goes on with `work`, and the others stand where they stood. -/
theorem has_goOn {sys : System} {id : Nat} {kind : TaskKind} {work : List Work} {s : State}
    {x : Held} (hx : (s.goOn sys id kind work).Has x) : s.HasBeside id work x := by
  rcases hx with hx | ⟨id', t, ht, hx⟩
  · unfold State.goOn at hx
    split at hx
    · cases kind with
      | reducerTimer stream shardKey scope => exact Or.inl (has_endReducerTimer hx)
      | _ => exact Or.inl hx
    · exact Or.inl hx
  · rw [get?_goOn] at ht
    split at ht
    · split at ht
      · cases ht
      · obtain rfl := Option.some.inj ht
        exact Or.inr (Or.inl hx)
    · rename_i hne
      exact Or.inr (Or.inr ⟨id', t, hne, ht, hx⟩)

theorem has_spawn {s : State} {spawn : Option Task} {x : Held} (hx : (s.spawn spawn).Has x) :
    s.Has x ∨ x ∈ holdingsOf (spawn.toList.flatMap Task.work) := by
  cases spawn with
  | none => exact Or.inl hx
  | some task =>
    rcases hx with hx | ⟨id, t, ht, hx⟩
    · exact Or.inl (Or.inl hx)
    · rw [get?_spawn] at ht
      split at ht
      · obtain rfl := Option.some.inj ht
        right
        simpa using hx
      · exact Or.inl (Or.inr ⟨id, t, ht, hx⟩)

/-- A task that fails loses its frames. -/
theorem has_fail {s : State} {id : Nat} {kind : TaskKind} {work left : List Work} {x : Held}
    (hx : (s.fail id { kind, work } left).Has x) : s.HasBeside id [] x := by
  rcases hx with hx | ⟨id', t, ht, hx⟩
  · left
    rw [Shared.Has, (fail_calls id kind work left s).2.2.2.2] at hx
    exact hx
  · rw [get?_fail] at ht
    split at ht
    · cases ht
    · rename_i hne
      exact Or.inr (Or.inr ⟨id', t, hne, ht, hx⟩)

theorem State.HasBeside.has {s : State} {id : Nat} {kind : TaskKind} {work rest : List Work}
    {x : Held} (hfound : s.tasks.get? id = some { kind, work })
    (hrest : ∀ y ∈ holdingsOf rest, y ∈ holdingsOf work) (h : s.HasBeside id rest x) : s.Has x := by
  rcases h with h | h | ⟨id', t, _, ht, h⟩
  · exact Or.inl h
  · exact Or.inr ⟨id, _, hfound, hrest x h⟩
  · exact Or.inr ⟨id', t, ht, h⟩

/-- A stage that moves on by itself hands what it gives out to a task of its own. -/
theorem has_stage_step {s : State} {stream : String} {p p' : Pipeline} {spawn : Option Task}
    {given : List BufferedRecord} (hp : s.shared.pipelines.get? stream = some p)
    (hmoved : ∀ b, b ∈ p'.records ∨ b ∈ given → b ∈ p.records ∨ b ∈ [])
    (hgiven : holdingsOf (spawn.toList.flatMap Task.work) = waitingIn stream given) {x : Held}
    (hx : ({ s with shared := s.shared.setPipeline stream p' }.spawn spawn).Has x) : s.Has x := by
  rcases has_spawn hx with (hx | ⟨id, t, ht, hx⟩) | hx
  · exact Or.inl ((has_stage hp hmoved (Or.inl hx)).resolve_right List.not_mem_nil)
  · exact Or.inr ⟨id, t, ht, hx⟩
  · rw [hgiven] at hx
    exact Or.inl ((has_stage hp hmoved (Or.inr hx)).resolve_right List.not_mem_nil)

/-- What a timer of the Aggregator takes out goes to its task. -/
theorem holdingsOf_timerTask {stream : String} {shardKey : Option ShardId}
    {cfg : Aggregator.Config} {op : Reducer.Op BufferedRecord} {a a' : Aggregator.State}
    {closed : Option AggregatedBatch} (htimer : timerOp op = true)
    (h : Aggregator.onReducer cfg shardKey op a = some (a', closed)) :
    holdingsOf ((timerTask stream shardKey op closed).toList.flatMap Task.work) =
      waitingIn stream (closed.toList.flatMap AggregatedBatch.items) := by
  cases closed with
  | none => cases op <;> rfl
  | some batch =>
    obtain ⟨r, r', closed', _, hstep, hout⟩ := Aggregator.onReducer_eq_some h
    obtain ⟨_, rfl⟩ := Prod.mk.inj hout
    cases op with
    | fire now scope => simp [timerTask, Work.holdings]
    | wake now scope | cancelled scope => simp [Reducer.step] at hstep
    | add now item | flush now | aclose | dispatched scope => simp [timerOp] at htimer

/-- **What a producer has after a step** it had before, unless the frame that the step
    ran handed it on. -/
theorem step_has {sys : System} {s s' : State} {op : Op} (hstep : s.step sys op = some s')
    {x : Held} (hx : s'.Has x) :
    (s.ran sys op = none ∧ s.Has x) ∨
      ∃ id input kind w rest, s.tasks.get? id = some { kind, work := w :: rest } ∧
        s.ran sys op = some (input, w) ∧ (s.HasBeside id rest x ∨ Handed sys input w x) := by
  cases (step_turn hstep).2 with
  | refused stream userRecord => exact Or.inl ⟨rfl, hx⟩
  | entered stream userRecord _ =>
    exact Or.inl ⟨rfl, (has_spawn hx).resolve_right (by simp [Work.holdings])⟩
  | flushes => exact Or.inl ⟨rfl, (has_spawn hx).resolve_right (by simp [Work.holdings])⟩
  | exits _ =>
    have hbefore := (has_spawn hx).resolve_right (by simp [Work.holdings])
    exact Or.inl ⟨rfl, hbefore⟩
  | @ran id input kind w rest push shared spawn hfound _ hexec =>
    refine Or.inr ⟨id, input, kind, w, rest, hfound, ran_next hfound hexec, ?_⟩
    have hleaves : Leaves shared push spawn x → s.HasBeside id rest x ∨ Handed sys input w x :=
      fun hx => (exec_leaves hexec hx).imp_left Or.inl
    rcases has_spawn hx with hx | hx
    · rcases has_goOn hx with hx | hx | hx
      · exact hleaves (Or.inl hx)
      · rw [holdingsOf_append, List.mem_append] at hx
        rcases hx with hpush | hrest
        · exact hleaves (Or.inr (Or.inl hpush))
        · exact Or.inl (Or.inr (Or.inl hrest))
      · exact Or.inl (Or.inr (Or.inr hx))
    · exact hleaves (Or.inr (Or.inr hx))
  | @raised id input kind w rest left shared hfound _ hexec =>
    refine Or.inl ⟨ran_raises hfound hexec, ?_⟩
    rcases has_fail hx with hx | hx | ⟨id', t, _, ht, hx⟩
    · rcases exec_raises_has hexec hx with hx | hx
      · exact Or.inl hx
      · exact Or.inr ⟨id, _, hfound, List.mem_append_left _ hx⟩
    · cases hx
    · exact Or.inr ⟨id', t, ht, hx⟩
  | reducerTimer htimer hp hop =>
    obtain ⟨hclose, hadds⟩ := timerOp_adds htimer
    refine Or.inl ⟨rfl, has_stage_step hp (fun b => records_aggregator fun hb => ?_)
      (holdingsOf_timerTask htimer hop) hx⟩
    rw [← hadds]
    exact mem_onReducer hclose hop hb
  | @collectorTimer stream op p collector closed _ _ _ hadds hop hp hreducer hbatch =>
    obtain ⟨rfl, _, hspawn⟩ := holdingsOf_collectorBatch hbatch
    have hmoved : ∀ batch, batch ∈ collector.active.items ∨
        batch ∈ closed.toList.flatMap PutRecordsBatch.items →
        batch ∈ p.collector.active.items ∨ batch ∈ [] := by
      intro batch hb
      rw [← hadds]
      exact mem_collector hop hreducer hb
    exact Or.inl ⟨rfl, has_stage_step hp (fun b => records_collector hmoved) hspawn hx⟩
  | @overrun stream op p collector closed _ _ hadds hop hp hreducer hbatch =>
    obtain ⟨rfl, _⟩ := collectorBatch_raises hbatch
    have hmoved : ∀ batch, batch ∈ collector.active.items ∨ batch ∈ [] →
        batch ∈ p.collector.active.items ∨ batch ∈ [] := by
      intro batch hb
      rw [← hadds]
      exact mem_collector hop hreducer (hb.imp_right fun hnil => absurd hnil List.not_mem_nil)
    refine Or.inl ⟨rfl, ?_⟩
    rcases hx with hx | ⟨id, t, ht, hx⟩
    · have hrecords : ∀ b, b ∈ ({ p with collector } : Pipeline).records ∨ b ∈ [] →
          b ∈ p.records ∨ b ∈ [] := fun b => records_collector hmoved
      exact Or.inl ((has_stage hp hrecords (Or.inl hx)).resolve_right List.not_mem_nil)
    · exact Or.inr ⟨id, t, ht, hx⟩
  | answered _ =>
    rw [resolve_eq] at hx
    exact Or.inl ⟨rfl, hx⟩
  | @cancelled id kind w rest hfound _ _ =>
    exact Or.inl ⟨rfl, (has_fail hx).has hfound (by simp)⟩
  | @stopped id stream work p hfound hp _ =>
    refine Or.inl ⟨rfl, ?_⟩
    rcases hx with hx | ⟨id', t, ht, hx⟩
    · exact Or.inl hx
    · rw [Dict.get?_erase] at ht
      split at ht
      · cases ht
      · exact Or.inr ⟨id', t, ht, hx⟩

/-! ## One at a time -/

theorem weigh_ge (weight : Work → ℕ) {s : State} {id : Nat} {t : Task}
    (hfound : s.tasks.get? id = some t) : load weight t.work ≤ s.weigh weight := by
  have htotal := Dict.total_of_get? (fun _ (t : Task) => load weight t.work) hfound
  rw [State.weigh, htotal]
  exact Nat.le_add_right _ _

theorem weigh_ge_two (weight : Work → ℕ) {s : State} {id id' : Nat} {t t' : Task}
    (hne : id' ≠ id) (hfound : s.tasks.get? id = some t) (hfound' : s.tasks.get? id' = some t') :
    load weight t.work + load weight t'.work ≤ s.weigh weight := by
  have htotal := Dict.total_of_get? (fun _ (t : Task) => load weight t.work) hfound
  have herased : (s.tasks.erase id).get? id' = some t' := by
    rw [Dict.get?_erase, if_neg hne]
    exact hfound'
  have hother := Dict.total_of_get? (fun _ (t : Task) => load weight t.work) herased
  rw [State.weigh, htotal, hother]
  omega

theorem load_pos_of_mem {work : List Work} {x : Held} (h : x ∈ holdingsOf work) :
    0 < load (carries (tokenOf x)) work := by
  obtain ⟨w, hw, hx⟩ := List.mem_flatMap.mp h
  rw [load_carries]
  exact List.count_pos_iff.mpr (List.mem_flatMap.mpr ⟨w, hw, mem_tokens hx⟩)

theorem Shared.Has.mass_pos {s : Shared} {x : Held} (h : s.Has x) : 0 < s.mass (tokenOf x) := by
  obtain ⟨p, hp, hx⟩ := h
  have htotal := Dict.total_of_get? (Pipeline.holds (tokenOf x)) hp
  have hpos : 0 < p.holds (tokenOf x) x.1 := by
    rw [← count_records]
    apply List.count_pos_iff.mpr
    rw [← tokens_waitingIn]
    exact List.mem_map_of_mem hx
  rw [Shared.mass, htotal]
  omega

variable {maxOutstanding : Nat}

theorem Ledger.live_of_has {s : State} (h : Ledger maxOutstanding s) (hs : Sound s) {x : Held}
    (hx : s.Has x) : tokenOf x ∈ s.shared.accepted ∧ tokenOf x ∉ s.shared.finished := by
  apply h.live_of_weigh hs
  rcases hx with hx | ⟨id, t, ht, hx⟩
  · exact Nat.add_pos_left hx.mass_pos _
  · exact Nat.add_pos_right _ ((load_pos_of_mem hx).trans_le (weigh_ge _ ht))

/-- **What the first frame of a task has** the producer has nowhere else. -/
theorem Ledger.alone {s : State} (h : Ledger maxOutstanding s) (hs : Sound s) {id : Nat}
    {kind : TaskKind} {w : Work} {rest : List Work}
    (hfound : s.tasks.get? id = some { kind, work := w :: rest }) {x : Held}
    (hx : s.HasBeside id rest x) : tokenOf x ∉ w.tokens := by
  intro hmem
  have hbalance := h.balance (tokenOf x)
  have honce := hs.accepted_count (tokenOf x)
  have hcarries : 0 < carries (tokenOf x) w := List.count_pos_iff.mpr hmem
  have hweigh := weigh_ge (carries (tokenOf x)) hfound
  rw [load_cons] at hweigh
  rcases hx with hx | hx | ⟨id', t, hne, ht, hx⟩
  · have := hx.mass_pos
    omega
  · have := load_pos_of_mem hx
    omega
  · have := load_pos_of_mem hx
    have htwo := weigh_ge_two (carries (tokenOf x)) hne hfound ht
    rw [load_cons] at htwo
    omega

/-- And has it once. -/
theorem Ledger.count_tokens {s : State} (h : Ledger maxOutstanding s) (hs : Sound s) {id : Nat}
    {kind : TaskKind} {w : Work} {rest : List Work}
    (hfound : s.tasks.get? id = some { kind, work := w :: rest }) (k : Token) :
    w.tokens.count k ≤ 1 := by
  have hbalance := h.balance k
  have honce := hs.accepted_count k
  have hweigh := weigh_ge (carries k) hfound
  rw [load_cons, carries] at hweigh
  omega

end Producer

end Aiokpl
