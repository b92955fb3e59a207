import Aiokpl.Producer

/-!
# What the stages and the frames of a producer hold

Every place a record can be in is weighed by how often it holds one token.  Each
operation of a stage is followed by one equation: what the stage held and took in
is what it holds and gives out.
-/

namespace Aiokpl

open Lib Aggregation

namespace Producer

/-! ## Tokens -/

@[simp] theorem tokensOf_nil (stream : String) : tokensOf stream [] = [] := rfl

@[simp] theorem tokensOf_append (stream : String) (xs ys : List BufferedRecord) :
    tokensOf stream (xs ++ ys) = tokensOf stream xs ++ tokensOf stream ys :=
  List.map_append

theorem tokensOf_flatMap {α : Type} (stream : String) (f : α → List BufferedRecord) (xs : List α) :
    tokensOf stream (xs.flatMap f) = xs.flatMap fun x => tokensOf stream (f x) :=
  List.map_flatMap

/-- Tokens see a record by its identity only. -/
theorem tokensOf_congr {stream : String} {xs ys : List BufferedRecord}
    (h : xs.map BufferedRecord.ident = ys.map BufferedRecord.ident) :
    tokensOf stream xs = tokensOf stream ys := by
  have hsame : ∀ zs : List BufferedRecord,
      tokensOf stream zs = (zs.map BufferedRecord.ident).map fun n => (stream, n) := by
    intro zs
    rw [List.map_map]
    rfl
  rw [hsame, hsame, h]

/-! ## Frames -/

/-- The sum of a weight over frames. -/
def load (weight : Work → ℕ) (work : List Work) : ℕ := (work.map weight).sum

@[simp] theorem load_nil (weight : Work → ℕ) : load weight [] = 0 := rfl

@[simp] theorem load_cons (weight : Work → ℕ) (w : Work) (rest : List Work) :
    load weight (w :: rest) = weight w + load weight rest := by
  simp [load]

@[simp] theorem load_append (weight : Work → ℕ) (work work' : List Work) :
    load weight (work ++ work') = load weight work + load weight work' := by
  simp [load]

/-- How often a frame holds the token. -/
def carries (k : Token) (w : Work) : ℕ := w.tokens.count k

theorem load_carries (k : Token) (work : List Work) :
    load (carries k) work = (work.flatMap Work.tokens).count k := by
  rw [List.count_flatMap]
  rfl

/-- Frames of one kind hold what their contents hold. -/
theorem load_carries_map {α : Type} {k : Token} {stream : String} {frame : α → Work}
    (contents : α → List BufferedRecord) (h : ∀ x, (frame x).tokens = tokensOf stream (contents x))
    (xs : List α) :
    load (carries k) (xs.map frame) = (tokensOf stream (xs.flatMap contents)).count k := by
  rw [load_carries, List.flatMap_map, tokensOf_flatMap]
  simp only [h]

/-- How often batches hold the token. -/
def inBatches (k : Token) (stream : String) (batches : List AggregatedBatch) : ℕ :=
  (tokensOf stream (batches.flatMap AggregatedBatch.items)).count k

@[simp] theorem inBatches_nil (k : Token) (stream : String) : inBatches k stream [] = 0 := rfl

@[simp] theorem inBatches_append (k : Token) (stream : String) (bs bs' : List AggregatedBatch) :
    inBatches k stream (bs ++ bs') = inBatches k stream bs + inBatches k stream bs' := by
  simp [inBatches]

@[simp] theorem inBatches_singleton (k : Token) (stream : String) (b : AggregatedBatch) :
    inBatches k stream [b] = (tokensOf stream b.items).count k := by
  simp [inBatches]

theorem inBatches_perm {bs bs' : List AggregatedBatch} (h : bs.Perm bs') (k : Token)
    (stream : String) : inBatches k stream bs = inBatches k stream bs' :=
  ((h.flatMap_right AggregatedBatch.items).map _).count_eq k

theorem load_toLimiter (k : Token) (stream : String) (closed : Option AggregatedBatch) :
    load (carries k) (toLimiter stream closed) = inBatches k stream closed.toList :=
  load_carries_map _ (fun _ => rfl) closed.toList

theorem load_dispatch (k : Token) (stream : String) (drained : Limiter.Drained) :
    load (carries k) (dispatch stream drained) = inBatches k stream drained.batches := by
  rw [dispatch, load_append, Limiter.Drained.batches, inBatches_append]
  congr 1 <;> exact load_carries_map _ (fun _ => rfl) _

theorem load_dispatchAll (k : Token) (stream : String) (drained : List Limiter.Drained) :
    load (carries k) (drained.flatMap (dispatch stream)) =
      (drained.map fun d => inBatches k stream d.batches).sum := by
  induction drained with
  | nil => rfl
  | cons d drained ih => simp [ih, load_dispatch]

theorem load_callbacks (k : Token) (stream : String) (calls : List Retrier.Call) :
    load (carries k) (calls.map (.callback stream)) =
      (tokensOf stream (calls.filterMap Retrier.Call.buffered?)).count k := by
  rw [load_carries_map (fun call : Retrier.Call => call.buffered?.toList) fun _ => rfl]
  congr 2
  induction calls with
  | nil => rfl
  | cons call calls ih => cases h : call.buffered? <;> simp [h, ih]

/-! ## Stages -/

section Stages

variable (k : Token) (stream : String)

def inAggregator (a : Aggregator.State) : ℕ :=
  a.reducers.total fun _ r => (tokensOf stream r.active.items).count k

def inLimiter (l : Limiter.State) : ℕ :=
  l.shards.total fun _ limiter => inBatches k stream limiter.batches

def inCollector (c : Reducer.State PutRecordsBatch) : ℕ := inBatches k stream c.active.items

/-- An operation of one Reducer, for the whole Aggregator. -/
theorem inAggregator_onReducer {cfg : Aggregator.Config} {shardKey : Option ShardId}
    {op : Reducer.Op BufferedRecord} {a a' : Aggregator.State} {closed : Option AggregatedBatch}
    (hop : op ≠ .aclose) (h : Aggregator.onReducer cfg shardKey op a = some (a', closed)) :
    inAggregator k stream a' + inBatches k stream closed.toList =
      inAggregator k stream a + (tokensOf stream op.adds).count k := by
  obtain ⟨r, r', closed', hr, hstep, hout⟩ := Aggregator.onReducer_eq_some h
  obtain ⟨rfl, rfl⟩ := Prod.mk.inj hout
  have hperm : (closed.toList.flatMap AggregatedBatch.items ++ r'.active.items).Perm
      (r.active.items ++ op.adds) := Reducer.step_items_perm hop hstep
  have hcount := (hperm.map fun b => (stream, b.ident)).count_eq k
  have htotal := Dict.total_set_of_get? (fun _ r => (tokensOf stream r.active.items).count k) hr r'
  simp only [List.map_append, List.count_append] at hcount
  simp only [inAggregator, inBatches, tokensOf] at htotal ⊢
  omega

theorem inAggregator_getOrCreateReducer {cfg : Aggregator.Config} {shardKey : Option ShardId}
    {a a' : Aggregator.State} (h : Aggregator.getOrCreateReducer cfg shardKey a = some a') :
    inAggregator k stream a' = inAggregator k stream a := by
  unfold Aggregator.getOrCreateReducer at h
  split at h
  · rw [Option.some.inj h]
  · rename_i hnone
    split at h
    · obtain rfl := Option.some.inj h
      rw [inAggregator, Dict.total_set_of_none _ hnone]
      simp [Reducer.init, Aggregator.Config.reducer, inAggregator]
    · simp at h

/-- A forgotten Reducer keeps or closes the record it still takes. -/
theorem inBatches_addToForgotten (cfg : Aggregator.Config) (now : Time) (shardKey : Option ShardId)
    (b : BufferedRecord) :
    (tokensOf stream (addToForgotten cfg now shardKey b).1.active.items).count k +
        inBatches k stream (addToForgotten cfg now shardKey b).2.toList =
      (tokensOf stream [b]).count k := by
  have hperm : ((addToForgotten cfg now shardKey b).2.toList.flatMap AggregatedBatch.items ++
      (addToForgotten cfg now shardKey b).1.active.items).Perm ([] ++ [b]) :=
    Reducer.step_items_perm (show Reducer.Op.add now b ≠ .aclose by simp) rfl
  have hcount := (hperm.map fun b => (stream, b.ident)).count_eq k
  simp only [List.map_append, List.count_append, List.nil_append] at hcount
  simp only [inBatches, tokensOf]
  omega

/-- What `put` takes in it queues or hands out. -/
theorem inLimiter_put (cfg : Limiter.Config) (t : Limiter.PutReadings) (batch : AggregatedBatch)
    (l : Limiter.State) :
    inLimiter k stream (Limiter.put cfg t batch l).1 +
        inBatches k stream (Limiter.put cfg t batch l).2.1.batches =
      inLimiter k stream l + inBatches k stream [batch] := by
  let weight : Option ShardId → Limiter.ShardLimiter → ℕ := fun _ l => inBatches k stream l.batches
  have hput : ∀ limiter : Limiter.ShardLimiter,
      let out := (limiter.enqueue batch (t.enqueued + cfg.expiration)).drain t.toReadings
      inBatches k stream out.1.batches + inBatches k stream out.2.batches =
        inBatches k stream limiter.batches + inBatches k stream [batch] := by
    intro limiter
    have hqueued :=
      inBatches_perm (limiter.enqueue_perm batch (t.enqueued + cfg.expiration)) k stream
    have hdrained := inBatches_perm (Limiter.ShardLimiter.drain_perm t.toReadings
      (limiter.enqueue batch (t.enqueued + cfg.expiration))) k stream
    simp only [inBatches_append] at hqueued hdrained
    dsimp only
    omega
  cases hget : l.shards.get? batch.predictedShard with
  | none =>
    have hout := hput (.init cfg.recordsPerSecPerShard cfg.bytesPerSecPerShard t.created)
    have htotal := Dict.total_set_of_none weight hget
    simp only [Limiter.put, inLimiter, hget, Option.getD_none, weight] at htotal hout ⊢
    rw [htotal, add_right_comm, hout]
    simp [Limiter.ShardLimiter.init, Limiter.ShardLimiter.batches, add_comm]
  | some limiter =>
    have hout := hput limiter
    have htotal := Dict.total_set_of_get? weight hget
      ((limiter.enqueue batch (t.enqueued + cfg.expiration)).drain t.toReadings).1
    simp only [Limiter.put, inLimiter, hget, Option.getD_some, weight] at htotal hout ⊢
    omega

theorem inLimiter_drainEach {drain : Option ShardId → Limiter.ShardLimiter →
      Limiter.ShardLimiter × Limiter.Drained}
    (hdrain : ∀ key limiter,
      ((drain key limiter).2.batches ++ (drain key limiter).1.batches).Perm limiter.batches) :
    ∀ (keys : List (Option ShardId)) (shards : Dict (Option ShardId) Limiter.ShardLimiter),
      (Limiter.drainEach drain keys shards).1.total (fun _ l => inBatches k stream l.batches) +
          ((Limiter.drainEach drain keys shards).2.map fun d => inBatches k stream d.batches).sum =
        shards.total fun _ l => inBatches k stream l.batches
  | [], _ => rfl
  | key :: keys, shards => by
    simp only [Limiter.drainEach]
    split
    · exact inLimiter_drainEach hdrain keys shards
    · rename_i limiter hget
      have ih := inLimiter_drainEach hdrain keys (shards.set key (drain key limiter).1)
      have hperm := inBatches_perm (hdrain key limiter) k stream
      have htotal := Dict.total_set_of_get? (fun _ l => inBatches k stream l.batches) hget
        (drain key limiter).1
      simp only [inBatches_append] at hperm
      simp only [List.map_cons, List.sum_cons]
      omega

theorem inLimiter_drainAll (t : Option ShardId → Limiter.Readings) (l : Limiter.State) :
    inLimiter k stream (Limiter.drainAll t l).1 +
        load (carries k) ((Limiter.drainAll t l).2.flatMap (dispatch stream)) =
      inLimiter k stream l := by
  rw [load_dispatchAll]
  exact inLimiter_drainEach k stream (fun key limiter => limiter.drain_perm (t key)) _ _

theorem inLimiter_flush (now : Option ShardId → Time) (l : Limiter.State) :
    inLimiter k stream (Limiter.flush now l).1 +
        load (carries k) ((Limiter.flush now l).2.flatMap (dispatch stream)) =
      inLimiter k stream l := by
  rw [load_dispatchAll]
  exact inLimiter_drainEach k stream (fun key limiter => limiter.drainForce_perm (now key)) _ _

/-- What the Collector closes or keeps. -/
theorem inCollector_step {cfg : Reducer.Config AggregatedBatch PutRecordsBatch}
    {op : Reducer.Op AggregatedBatch} {c c' : Reducer.State PutRecordsBatch}
    {closed : Option PutRecordsBatch} (hop : op ≠ .aclose)
    (h : Reducer.step cfg c op = some (c', closed)) :
    inCollector k stream c' + inBatches k stream (closed.toList.flatMap PutRecordsBatch.items) =
      inCollector k stream c + inBatches k stream op.adds := by
  have hperm : (closed.toList.flatMap PutRecordsBatch.items ++ c'.active.items).Perm
      (c.active.items ++ op.adds) := Reducer.step_items_perm hop h
  have hcount := inBatches_perm hperm k stream
  simp only [inBatches_append] at hcount
  simp only [inCollector]
  omega

theorem inCollector_add (cfg : Reducer.Config AggregatedBatch PutRecordsBatch) (now : Time)
    (batch : AggregatedBatch) (c : Reducer.State PutRecordsBatch) :
    inCollector k stream (Reducer.add cfg now batch c).1 + inBatches k stream
        ((Reducer.add cfg now batch c).2.toList.flatMap PutRecordsBatch.items) =
      inCollector k stream c + inBatches k stream [batch] :=
  inCollector_step k stream (show Reducer.Op.add now batch ≠ .aclose by simp) rfl

theorem inCollector_flush (cfg : Reducer.Config AggregatedBatch PutRecordsBatch) (now : Time)
    (c : Reducer.State PutRecordsBatch) :
    inCollector k stream (Reducer.flush cfg now c).1 + inBatches k stream
        ((Reducer.flush cfg now c).2.toList.flatMap PutRecordsBatch.items) =
      inCollector k stream c :=
  inCollector_step k stream (show Reducer.Op.flush now ≠ .aclose by simp) rfl

/-- What becomes of the records of a batch: the Retrier makes callbacks for the first of
    them, and loses the others if it raises. -/
theorem load_handling {md5 : Bytes → Digest} {u : DigitClasses} {cfg : Retrier.Config}
    {env : Retrier.Env} {startedAt endedAt : Time} {batch : PutRecordsBatch}
    {reply : Sender.Reply} {outcome : SendOutcome} {handled : Retrier.Handled}
    (h : Retrier.trip md5 u cfg env stream startedAt endedAt batch reply = .ok (outcome, handled)) :
    load (carries k) (handling stream batch handled) = inBatches k stream batch.items := by
  obtain ⟨done, rest, hsplit, hjudges, hall⟩ := Retrier.trip_judges h
  have hidents := hjudges.delivers.idents
  have hrecords : done.map Prod.fst ++ rest.map Prod.fst = Retrier.records batch := by
    rw [← List.map_append, ← hsplit, Retrier.verdicts_fst]
  have hlength : (handled.calls.filterMap Retrier.Call.buffered?).length =
      (done.map Prod.fst).length := by
    simpa using congrArg List.length hidents
  have hunjudged : unjudged batch handled.calls = rest.map Prod.fst := by
    rw [unjudged, hlength, ← hrecords, List.drop_left]
  have hwhole : inBatches k stream batch.items = (tokensOf stream (done.map Prod.fst)).count k +
      (tokensOf stream (rest.map Prod.fst)).count k := by
    rw [← List.count_append, ← tokensOf_append, hrecords]
    rfl
  rw [handling, load_append, load_callbacks, tokensOf_congr hidents, hwhole, hunjudged]
  cases hraised : handled.raised with
  | none =>
    rw [hall hraised]
    rfl
  | some e => simp [carries, Work.tokens]

/-- The Retrier takes every record of an expired batch for refused. -/
theorem expired_judges (u : DigitClasses) (cfg : Retrier.Config) (env : Retrier.Env) (now : Time)
    (batch : AggregatedBatch) :
    Retrier.Judges cfg (expiredOutcome stream now batch)
      (batch.items.map fun b =>
        (b, .refused Retrier.expiredErrorCode (Retrier.expiredErrorMessage ++ ": Expired")))
      (Retrier.handle u cfg env (expiredOutcome stream now batch)).calls := by
  have hitems : batch.items = [batch].flatMap AggregatedBatch.items := by simp
  rw [hitems]
  exact Retrier.judgeEach_judges cfg _ env _ (fun _ => .refused _ _)
    (fun b now => Retrier.judgeFailure_judged cfg _ b Retrier.expiredErrorCode _ now) 0 _

/-- So are those of an expired batch. -/
theorem load_expired (u : DigitClasses) (cfg : Retrier.Config) (env : Retrier.Env) (now : Time)
    (batch : AggregatedBatch) :
    load (carries k) ((Retrier.handle u cfg env (expiredOutcome stream now batch)).calls.map
        (.callback stream)) = inBatches k stream [batch] := by
  have hidents := (expired_judges stream u cfg env now batch).delivers.idents
  simp only [List.map_map, Function.comp_def] at hidents
  rw [load_callbacks, tokensOf_congr hidents]
  simp [inBatches]

end Stages

/-! ## Pipelines -/

/-- How often the stages of a pipeline hold the token. -/
def Pipeline.holds (k : Token) (stream : String) (p : Pipeline) : ℕ :=
  inAggregator k stream p.aggregator + inLimiter k stream p.limiter +
    inCollector k stream p.collector

/-- How often the stages hold the token, or have dropped it. -/
def Shared.mass (k : Token) (s : Shared) : ℕ :=
  s.pipelines.total (Pipeline.holds k) + s.dropped.count k

theorem holds_newPipeline (k : Token) (stream : String) (cfg : Config) :
    (newPipeline cfg).holds k stream = 0 := by
  rfl

/-- Setting a pipeline exchanges what it held. -/
theorem Shared.mass_setPipeline {s : Shared} {stream : String} {p : Pipeline}
    (hp : s.pipelines.get? stream = some p) (k : Token) (p' : Pipeline) :
    (s.setPipeline stream p').mass k + p.holds k stream = s.mass k + p'.holds k stream := by
  have htotal := Dict.total_set_of_get? (Pipeline.holds k) hp p'
  simp only [Shared.mass, Shared.setPipeline]
  omega

end Producer

end Aiokpl
