import Mathlib.Tactic
import Aiokpl.Lib.TransitionSystem
import Aiokpl.Aggregator
import Aiokpl.Limiter
import Aiokpl.Collector
import Aiokpl.RetrierTrips

/-!
# The producer (`aiokpl/producer.py`)

A task is the list of what it still has to do, the frame that runs next in
front.  Running a frame is one stretch of the source between two awaits, or a
part of one: it changes what the tasks share, pushes the frames of the calls it
makes, and may start a task.  What a stretch reads from outside (clocks, the
shard map, the service) is the input of the step.

Any task may run next, so every interleaving of calls, timers, drains, replies
and callbacks is a run.  Metrics and the pending reporter are left out, and so
is what the shard map does on its own: a record may be predicted for any shard
at any time.  Clock readings, TTLs and rates are exact rationals, not doubles.

An exception that leaves a `put_record` or `flush` call goes to its caller, and
the producer goes on.  One that leaves a background task or `__aexit__` cancels
the task group of the producer: the run ends there, in a state that is `crashed`
and takes no step.  The task is gone, and the records it had in hand are lost.
`Retrier.handle` raises in this way at a `ShardId` with more digits than `int`
takes, after its callbacks for the slots before.

The main results are in the modules that import this one: what the stages and
tasks hold (`ProducerLedger`, `ProducerConservation`), cancellation and failing
calls (`ProducerCancellation`, `ProducerRollback`), shutdown (`ProducerShutdown`,
`ProducerTeardown`), the attempts of a record (`ProducerAttempts`, `ProducerLogs`),
and that records move on and settle (`ProducerMovers`, `ProducerSettles`).
-/

namespace Aiokpl

open Lib Aggregation

namespace Producer

/-! ## Configuration -/

/-- The fields of `Config` that the stages read. -/
structure Config where
  aggregationEnabled : Bool := true
  aggregationMaxCount : Int := 4294967295
  aggregationMaxSize : Int := 51200
  recordMaxBufferedTimeMs : Time := 100
  recordTtlMs : Time := 30000
  collectionMaxCount : Int := 500
  collectionMaxSize : Int := 5 * 1024 * 1024
  rateLimitRecordsPerSecPerShard : ℚ := 1000
  rateLimitBytesPerSecPerShard : ℚ := 1048576
  failIfThrottled : Bool := false
  retryDeadlineMs : Time := 50
  maxOutstandingRecords : Nat := 100000

def Config.aggregator (cfg : Config) : Aggregator.Config :=
  { aggregationEnabled := cfg.aggregationEnabled
    recordMaxBufferedTimeMs := cfg.recordMaxBufferedTimeMs
    aggregationMaxCount := cfg.aggregationMaxCount
    aggregationMaxSize := cfg.aggregationMaxSize }

def Config.limiter (cfg : Config) : Limiter.Config :=
  { recordsPerSecPerShard := cfg.rateLimitRecordsPerSecPerShard
    bytesPerSecPerShard := cfg.rateLimitBytesPerSecPerShard
    expirationMs := cfg.recordTtlMs }

def Config.collector (cfg : Config) : Collector.Config :=
  { collectionMaxCount := cfg.collectionMaxCount
    collectionMaxSize := cfg.collectionMaxSize }

def Config.retrier (cfg : Config) : Retrier.Config :=
  { recordTtlMs := cfg.recordTtlMs
    failIfThrottled := cfg.failIfThrottled
    retryDeadlineMs := cfg.retryDeadlineMs }

/-- What the steps read that never changes. -/
structure System where
  md5 : Bytes → Digest
  u : DigitClasses
  cfg : Config

/-! ## What the tasks share -/

/-- A user record of a stream, by the number of the `put_record` call that made it.
    The number also names the record's `Outcome`. -/
abbrev Token := String × Nat

/-- `_StreamPipeline`.  `pending` maps the identity of a record to its Outcome. -/
structure Pipeline where
  aggregator : Aggregator.State := {}
  limiter : Limiter.State := {}
  collector : Reducer.State PutRecordsBatch
  pending : Dict Nat Nat := .empty

/-- How far a `put_record` call has got: it waits for a permit, has been granted one,
    has resumed and counted itself, or has registered its record. -/
inductive PutPhase
  | waiting
  | granted
  | resumed
  | registered
  deriving DecidableEq, Repr

/-- What a producer has entered on its exit stack. -/
inductive Context
  | taskGroup
  | client
  | pipeline (stream : String)
  deriving DecidableEq, Repr

/-- The fields of a `Producer`, the exit stack innermost first, and the history of a
    run: records registered and finished, permits given back, Outcomes set,
    `put_record` calls that returned and that failed, and records whose last holder
    was dropped. -/
structure Shared where
  permits : Nat
  outstanding : Int := 0
  closed : Bool := false
  taskGroup : Bool := true
  clientOpen : Bool := true
  exitStack : List Context := [.client, .taskGroup]
  pipelineLock : Option Nat := none
  pipelines : Dict String Pipeline := .empty
  accepted : List Token := []
  finished : List Token := []
  released : List Nat := []
  resolved : List Nat := []
  returned : List Nat := []
  failed : List (Nat × PutPhase) := []
  dropped : List Token := []

/-- A new pipeline; its stages have been entered. -/
def newPipeline (cfg : Config) : Pipeline := { collector := Reducer.init cfg.collector.reducer }

def Shared.setPipeline (stream : String) (p : Pipeline) (s : Shared) : Shared :=
  { s with pipelines := s.pipelines.set stream p }

/-! ## Frames and tasks -/

/-- A `put_record` call. -/
structure PutCall where
  number : Nat
  stream : String
  userRecord : UserRecord

/-- What a task does next.  Comments name the `await` a frame waits at, if it does. -/
inductive Work
  /-- `_semaphore.acquire()`, and the yield once a permit has been granted. -/
  | acquire (call : PutCall)
  | resume (call : PutCall)
  /-- `_pipeline_lock`, and the awaits of `_build_pipeline` under it. -/
  | getPipeline (call : PutCall)
  | buildPipeline (call : PutCall)
  /-- `put_buffered`: the Aggregator's lock, then that of the Reducer. -/
  | getReducer (stream : String) (shardKey : Option ShardId) (buffered : BufferedRecord)
  | reducerAdd (stream : String) (shardKey : Option ShardId) (buffered : BufferedRecord)
  /-- `on_aggregator_batch`: the Limiter's lock. -/
  | limiterPut (stream : String) (batch : AggregatedBatch)
  /-- `on_limiter_expired`; does not wait by itself. -/
  | limiterExpired (stream : String) (batch : AggregatedBatch)
  /-- `on_limiter_admit`: the lock of the Collector's Reducer. -/
  | limiterAdmit (stream : String) (batch : AggregatedBatch)
  /-- A callback of the Retrier.  Only `invalidate` waits by itself. -/
  | callback (stream : String) (call : Retrier.Call)
  /-- `flush`: `_pipeline_lock`, and the locks of each stage. -/
  | flushPipelines
  | flushAggregator (stream : String)
  | flushReducer (stream : String) (shardKey : Option ShardId)
  | flushLimiter (stream : String)
  | flushCollector (stream : String)
  | checkpoint
  /-- A tick of `_drain_loop`: its sleep and the Limiter's lock. -/
  | drainTick (stream : String)
  /-- `_send_and_handle` before it runs, and at `put_records`. -/
  | send (stream : String) (batch : PutRecordsBatch)
  | inFlight (stream : String) (startedAt : Time) (batch : PutRecordsBatch)
  /-- `Retrier.handle` raises, with these records still to come. -/
  | handleRaises (stream : String) (records : List BufferedRecord)
  /-- The `finally` of `__aexit__`, and what it does to leave the contexts.  An
  `await…` frame waits for the tasks of a task group. -/
  | unwind
  | leaveContexts
  | closeCollector (stream : String)
  | awaitCollector (stream : String)
  | closeLimiter (stream : String)
  | awaitLimiter (stream : String)
  | closeAggregator (stream : String)
  | leaveAggregator (stream : String)
  | awaitAggregator (stream : String)
  | closeClient
  | awaitTaskGroup

inductive TaskKind
  | putRecord
  | flush
  | exit
  | reducerTimer (stream : String) (shardKey : Option ShardId) (scope : Nat)
  | drain (stream : String)
  | send
  deriving DecidableEq, Repr

structure Task where
  kind : TaskKind
  work : List Work

/-- What a frame reads from outside. -/
structure Input where
  now : Time := 0
  endedAt : Time := 0
  shardKey : Option ShardId := none
  env : Retrier.Env := { clock := fun _ => 0, seenAt := fun _ => 0, hashrange := fun _ _ => none }
  put : Limiter.PutReadings := { now := 0, take := fun _ _ => 0, created := 0, enqueued := 0 }
  drain : Option ShardId → Limiter.Readings := fun _ => { now := 0, take := fun _ _ => 0 }
  buildFails : Bool := false
  reply : Sender.Reply := .response []

/-- What running a frame comes to: the frames it pushes and the task it starts, or an
    exception, with the frames that hold what its callees had taken out. -/
inductive Ran
  | next (s : Shared) (push : List Work) (spawn : Option Task)
  | raises (s : Shared) (left : List Work)

/-! ## The callbacks of a pipeline -/

/-- `on_limiter_expired`: the outcome `_handle_expired` makes up. -/
def expiredOutcome (stream : String) (now : Time) (batch : AggregatedBatch) : SendOutcome :=
  { streamName := stream, startedAt := now, endedAt := now
    requestError := some (Retrier.expiredErrorCode, Retrier.expiredErrorMessage ++ ": Expired")
    perRecord := [], batchItems := [batch] }

/-- `_dispatch`: expired batches first. -/
def dispatch (stream : String) (drained : Limiter.Drained) : List Work :=
  drained.expired.map (.limiterExpired stream) ++ drained.admitted.map (.limiterAdmit stream)

/-- The records of a batch that `Retrier.handle` has made no callback for. -/
def unjudged (batch : PutRecordsBatch) (calls : List Retrier.Call) : List BufferedRecord :=
  (Retrier.records batch).drop (calls.filterMap Retrier.Call.buffered?).length

/-- `Retrier.handle`: the callbacks it makes, and what it raises after them. -/
def handling (stream : String) (batch : PutRecordsBatch) (handled : Retrier.Handled) : List Work :=
  handled.calls.map (.callback stream) ++
    handled.raised.toList.map fun _ => .handleRaises stream (unjudged batch handled.calls)

/-- `on_collector_batch` on what the Collector closed, if it closed a batch. -/
def collectorBatch (stream : String) (closed : Option PutRecordsBatch) (s : Shared) : Ran :=
  match closed with
  | none => .next s [] none
  | some batch =>
    if s.taskGroup then .next s [] (some { kind := .send, work := [.send stream batch] })
    else .raises s [.send stream batch]

/-- `set_value` or `set_exception`, unless the Outcome is set. -/
def Shared.resolve (outcome : Nat) (s : Shared) : Shared :=
  if outcome ∈ s.resolved then s else { s with resolved := s.resolved ++ [outcome] }

/-- `on_retrier_finish`. -/
def finish (stream : String) (buffered : BufferedRecord) (s : Shared) : Shared :=
  let s := match s.pipelines.get? stream with
    | none => s
    | some p =>
      let s' := s.setPipeline stream { p with pending := p.pending.erase buffered.ident }
      match p.pending.get? buffered.ident with
      | some outcome => s'.resolve outcome
      | none => s'
  { s with
    outstanding := s.outstanding - 1
    permits := s.permits + 1
    released := s.released ++ [buffered.ident]
    finished := s.finished ++ [(stream, buffered.ident)] }

/-! ## Running a frame -/

/-- The rest of `put_record` once it holds the pipeline, up to the Aggregator's lock. -/
def submit (sys : System) (input : Input) (call : PutCall) (p : Pipeline) (s : Shared) : Ran :=
  match Aggregator.buildBuffered sys.md5 sys.u sys.cfg.aggregator input.now call.number
      call.userRecord with
  | .error _ => .raises s []
  | .ok buffered =>
    let p := { p with pending := p.pending.set buffered.ident call.number }
    .next
      { s.setPipeline call.stream p with
        accepted := s.accepted ++ [(call.stream, call.number)] }
      [.getReducer call.stream input.shardKey buffered] none

/-- The records of a list, as tokens of the stream. -/
def tokensOf (stream : String) (records : List BufferedRecord) : List Token :=
  records.map fun b => (stream, b.ident)

/-- What a Reducer closed goes to the Limiter. -/
def toLimiter (stream : String) (closed : Option AggregatedBatch) : List Work :=
  closed.toList.map (.limiterPut stream)

/-- A Reducer that `aclose` has emptied and forgotten still takes a record from the
    call that holds it, and may close a batch of it. -/
def addToForgotten (cfg : Aggregator.Config) (now : Time) (shardKey : Option ShardId)
    (buffered : BufferedRecord) : Reducer.State AggregatedBatch × Option AggregatedBatch :=
  Reducer.add (cfg.reducer shardKey) now buffered
    (Reducer.aclose (cfg.reducer shardKey) (Reducer.init (cfg.reducer shardKey)))

/-- The `__aexit__` of what was entered. -/
def Context.leave : Context → List Work
  | .taskGroup => [.awaitTaskGroup]
  | .client => [.closeClient]
  | .pipeline stream =>
    [.closeCollector stream, .awaitCollector stream, .closeLimiter stream, .awaitLimiter stream,
      .closeAggregator stream, .leaveAggregator stream, .awaitAggregator stream]

/-- Run the frame of a task; `none` when it has to wait. -/
def exec (sys : System) (input : Input) (task : Nat) (s : Shared) : Work → Option Ran
  | .acquire call =>
    if s.permits > 0 then some (.next { s with permits := s.permits - 1 } [.resume call] none)
    else none
  | .resume call =>
    some (.next { s with outstanding := s.outstanding + 1 } [.getPipeline call] none)
  | .getPipeline call =>
    match s.pipelineLock, s.pipelines.get? call.stream with
    | some _, _ => none
    | none, some p => some (submit sys input call p s)
    | none, none => some (.next { s with pipelineLock := some task } [.buildPipeline call] none)
  | .buildPipeline call =>
    let s := { s with pipelineLock := none }
    if input.buildFails then some (.raises s [])
    else
      let p := newPipeline sys.cfg
      let s := { s with exitStack := .pipeline call.stream :: s.exitStack }
      some (submit sys input call p (s.setPipeline call.stream p))
  | .getReducer stream shardKey buffered => do
    let p ← s.pipelines.get? stream
    match Aggregator.getOrCreateReducer sys.cfg.aggregator shardKey p.aggregator with
    | none => some (.raises s [.getReducer stream shardKey buffered])
    | some aggregator =>
      some (.next (s.setPipeline stream { p with aggregator })
        [.reducerAdd stream shardKey buffered] none)
  | .reducerAdd stream shardKey buffered => do
    let p ← s.pipelines.get? stream
    match Aggregator.onReducer sys.cfg.aggregator shardKey (.add input.now buffered)
        p.aggregator with
    | some (aggregator, closed) =>
      some (.next (s.setPipeline stream { p with aggregator }) (toLimiter stream closed) none)
    | none =>
      let (r, closed) := addToForgotten sys.cfg.aggregator input.now shardKey buffered
      some (.next { s with dropped := s.dropped ++ tokensOf stream r.active.items }
        (toLimiter stream closed) none)
  | .limiterPut stream batch => do
    let p ← s.pipelines.get? stream
    let (limiter, drained, starts) := Limiter.put sys.cfg.limiter input.put batch p.limiter
    some (.next (s.setPipeline stream { p with limiter }) (dispatch stream drained)
      (if starts then some { kind := .drain stream, work := [.drainTick stream] } else none))
  | .limiterExpired stream batch =>
    let handled := Retrier.handle sys.u sys.cfg.retrier input.env
      (expiredOutcome stream input.now batch)
    some (.next s (handled.calls.map (.callback stream)) none)
  | .limiterAdmit stream batch => do
    let p ← s.pipelines.get? stream
    let (collector, closed) := Reducer.add sys.cfg.collector.reducer input.now batch p.collector
    some (collectorBatch stream closed (s.setPipeline stream { p with collector }))
  | .callback stream (.onFinish buffered _) => some (.next (finish stream buffered s) [] none)
  | .callback stream (.onRetry buffered) =>
    some (.next s [.getReducer stream input.shardKey buffered] none)
  | .callback _ (.invalidate _ _) => some (.next s [] none)
  | .flushPipelines =>
    match s.pipelineLock with
    | some _ => none
    | none =>
      some (.next s ((s.pipelines.keys.flatMap fun stream =>
        [.flushAggregator stream, .flushLimiter stream, .flushCollector stream]) ++ [.checkpoint])
        none)
  | .flushAggregator stream => do
    let p ← s.pipelines.get? stream
    some (.next s (p.aggregator.reducers.keys.map (.flushReducer stream)) none)
  | .flushReducer stream shardKey => do
    let p ← s.pipelines.get? stream
    match Aggregator.onReducer sys.cfg.aggregator shardKey (.flush input.now) p.aggregator with
    | some (aggregator, closed) =>
      some (.next (s.setPipeline stream { p with aggregator }) (toLimiter stream closed) none)
    | none => some (.next s [] none)
  | .flushLimiter stream => do
    let p ← s.pipelines.get? stream
    let (limiter, drained) := Limiter.flush (fun key => (input.drain key).now) p.limiter
    some (.next (s.setPipeline stream { p with limiter }) (drained.flatMap (dispatch stream)) none)
  | .flushCollector stream => do
    let p ← s.pipelines.get? stream
    let (collector, closed) := Reducer.flush sys.cfg.collector.reducer input.now p.collector
    some (collectorBatch stream closed (s.setPipeline stream { p with collector }))
  | .checkpoint => some (.next s [] none)
  | .drainTick stream => do
    let p ← s.pipelines.get? stream
    let (limiter, drained) := Limiter.drainAll input.drain p.limiter
    some (.next (s.setPipeline stream { p with limiter })
      (drained.flatMap (dispatch stream) ++ [.drainTick stream]) none)
  | .send stream batch => some (.next s [.inFlight stream input.now batch] none)
  | .inFlight stream startedAt batch =>
    match Retrier.trip sys.md5 sys.u sys.cfg.retrier input.env stream startedAt input.endedAt batch
        input.reply with
    | .ok (_, handled) => some (.next s (handling stream batch handled) none)
    | .error _ => some (.raises s [.inFlight stream startedAt batch])
  | .handleRaises stream records => some (.raises s [.handleRaises stream records])
  | .unwind => some (.next { s with closed := true, taskGroup := false } [.leaveContexts] none)
  | .leaveContexts =>
    match s.exitStack with
    | [] => some (.next s [] none)
    | context :: exitStack =>
      some (.next { s with exitStack } (context.leave ++ [.leaveContexts]) none)
  | .closeCollector stream => do
    let p ← s.pipelines.get? stream
    let lost := p.collector.active.items.flatMap fun b => tokensOf stream b.items
    let collector := Reducer.aclose sys.cfg.collector.reducer p.collector
    some (.next { s.setPipeline stream { p with collector } with dropped := s.dropped ++ lost }
      [] none)
  | .closeLimiter stream => do
    let p ← s.pipelines.get? stream
    some (.next (s.setPipeline stream { p with limiter := Limiter.aclose p.limiter }) [] none)
  | .closeAggregator stream => do
    let p ← s.pipelines.get? stream
    let lost := p.aggregator.reducers.values.flatMap fun r => tokensOf stream r.active.items
    let aggregator := Aggregator.aclose p.aggregator
    some (.next { s.setPipeline stream { p with aggregator } with dropped := s.dropped ++ lost }
      [] none)
  | .leaveAggregator stream => do
    let p ← s.pipelines.get? stream
    let aggregator := Aggregator.leave p.aggregator
    some (.next (s.setPipeline stream { p with aggregator }) [] none)
  | .closeClient => some (.next { s with clientOpen := false } [] none)
  | .awaitCollector _ => some (.next s [] none)
  | .awaitLimiter _ => some (.next s [] none)
  | .awaitAggregator _ => some (.next s [] none)
  | .awaitTaskGroup => some (.next s [] none)

/-! ## The machine -/

/-- `exiting` and `exited` are set when `__aexit__` starts and when it has returned, and
    `crashed` once an exception has left a background task. -/
structure State where
  shared : Shared
  tasks : Dict Nat Task := .empty
  nextTask : Nat := 0
  exiting : Bool := false
  exited : Bool := false
  crashed : Bool := false

/-- The records a frame holds. -/
def Work.tokens : Work → List Token
  | .getReducer stream _ buffered => tokensOf stream [buffered]
  | .reducerAdd stream _ buffered => tokensOf stream [buffered]
  | .limiterPut stream batch => tokensOf stream batch.items
  | .limiterExpired stream batch => tokensOf stream batch.items
  | .limiterAdmit stream batch => tokensOf stream batch.items
  | .callback stream call => tokensOf stream call.buffered?.toList
  | .send stream batch => tokensOf stream (Retrier.records batch)
  | .inFlight stream _ batch => tokensOf stream (Retrier.records batch)
  | .handleRaises stream records => tokensOf stream records
  | _ => []

/-- How far the call has got whose frames these are. -/
def putPhase : List Work → PutPhase
  | .acquire _ :: _ => .waiting
  | .resume _ :: _ => .granted
  | .getPipeline _ :: _ => .resumed
  | .buildPipeline _ :: _ => .resumed
  | _ => .registered

/-- The frame stands at an `await` where a cancellation can be delivered. -/
def Work.awaits : Work → Bool
  | .limiterExpired _ _ => false
  | .callback _ (.onFinish _ _) => false
  | .callback _ (.onRetry _) => false
  | .handleRaises _ _ => false
  | _ => true

def State.spawn (task : Option Task) (s : State) : State :=
  match task with
  | none => s
  | some task => { s with tasks := s.tasks.set s.nextTask task, nextTask := s.nextTask + 1 }

/-- The end of `_timer_task` in a Reducer of the Aggregator. -/
def endReducerTimer (cfg : Aggregator.Config) (stream : String) (shardKey : Option ShardId)
    (scope : Nat) (s : Shared) : Shared :=
  match s.pipelines.get? stream with
  | none => s
  | some p =>
    match Aggregator.onReducer cfg shardKey (.dispatched scope) p.aggregator with
    | none => s
    | some (aggregator, _) => s.setPipeline stream { p with aggregator }

/-- A task has nothing left to do. -/
def State.finishTask (sys : System) (id : Nat) (kind : TaskKind) (s : State) : State :=
  let s := { s with tasks := s.tasks.erase id }
  match kind with
  | .putRecord => { s with shared := { s.shared with returned := s.shared.returned ++ [id] } }
  | .reducerTimer stream shardKey scope =>
    { s with shared := endReducerTimer sys.cfg.aggregator stream shardKey scope s.shared }
  | .exit => { s with exited := true }
  | _ => s

/-- The task goes on with `work`. -/
def State.goOn (sys : System) (id : Nat) (kind : TaskKind) (work : List Work) (s : State) : State :=
  if work.isEmpty then s.finishTask sys id kind
  else { s with tasks := s.tasks.set id { kind, work } }

/-- The `except` branch of `put_record`, or of the semaphore, by phase. -/
def rollBack (id : Nat) (phase : PutPhase) (s : Shared) : Shared :=
  match phase with
  | .waiting => s
  | .granted => { s with permits := s.permits + 1, released := s.released ++ [id] }
  | _ =>
    { s with
      outstanding := s.outstanding - 1
      permits := s.permits + 1
      released := s.released ++ [id] }

/-- An exception or a cancellation leaves the task, and what its frames `left` had in hand
    is lost. -/
def State.fail (id : Nat) (task : Task) (left : List Work) (s : State) : State :=
  let lost := left.flatMap Work.tokens
  match task.kind with
  | .putRecord =>
    let phase := putPhase task.work
    let shared := rollBack id phase s.shared
    { s with
      tasks := s.tasks.erase id
      shared := { shared with
        pipelineLock := if shared.pipelineLock = some id then none else shared.pipelineLock
        failed := shared.failed ++ [(id, phase)]
        dropped := shared.dropped ++ lost } }
  | .flush =>
    { s with
      tasks := s.tasks.erase id
      shared := { s.shared with dropped := s.shared.dropped ++ lost } }
  | _ =>
    { s with
      tasks := s.tasks.erase id
      shared := { s.shared with dropped := s.shared.dropped ++ lost }
      crashed := true }

/-- What the contexts that `__aexit__` leaves wait for. -/
def State.ready (s : State) : Work → Bool
  | .awaitCollector stream => (s.shared.pipelines.get? stream).all fun p => p.collector.timers = []
  | .awaitLimiter stream => s.tasks.values.all fun t => t.kind ≠ .drain stream
  | .awaitAggregator stream =>
    (s.shared.pipelines.get? stream).all (fun p =>
      p.aggregator.reducers.values.all fun r => r.timers = []) &&
    s.tasks.values.all fun t =>
      match t.kind with
      | .reducerTimer stream' _ _ => stream' ≠ stream
      | _ => true
  | .awaitTaskGroup => s.tasks.values.all fun t => t.kind ≠ .send
  | _ => true

/-- The progress of a timer task up to the batch it takes out. -/
def timerOp {I : Type} : Reducer.Op I → Bool
  | .wake _ _ => true
  | .fire _ _ => true
  | .cancelled _ => true
  | _ => false

/-- The task under this scope hands on what it took out, if it took out a batch. -/
def timerTask (stream : String) (shardKey : Option ShardId) (op : Reducer.Op BufferedRecord)
    (closed : Option AggregatedBatch) : Option Task :=
  match op, closed with
  | .fire _ scope, some batch =>
    some { kind := .reducerTimer stream shardKey scope, work := [.limiterPut stream batch] }
  | _, _ => none

/-- What can happen.  `cancel` is a cancellation delivered to a `put_record` or
    `flush` call, `cancelOutcome` is `SyncOutcome.cancel`, and `stopDrain` the end of
    a drain task whose scope `aclose` has cancelled. -/
inductive Op
  | putRecord (stream : String) (userRecord : UserRecord)
  | flush
  | exit
  | run (task : Nat) (input : Input)
  | reducerTimer (stream : String) (shardKey : Option ShardId) (op : Reducer.Op BufferedRecord)
  | collectorTimer (stream : String) (op : Reducer.Op AggregatedBatch)
  | cancelOutcome (number : Nat)
  | cancel (task : Nat)
  | stopDrain (task : Nat)

/-- Run the next frame of a task. -/
def State.runTask (sys : System) (id : Nat) (input : Input) (s : State) : Option State := do
  let task ← s.tasks.get? id
  match task.work with
  | [] => none
  | w :: rest =>
    if ¬ s.ready w then none
    else
      match ← exec sys input id s.shared w with
      | .next shared push spawn =>
        some (({ s with shared }.goOn sys id task.kind (push ++ rest)).spawn spawn)
      | .raises shared left => some ({ s with shared }.fail id task (left ++ rest))

/-- One step, `none` when it cannot happen in this state. -/
def State.step (sys : System) (s : State) (op : Op) : Option State :=
  if s.crashed then none
  else
    match op with
    | .putRecord stream userRecord =>
      if s.shared.closed ∨ userRecord.partitionKey = "" then some s
      else
        some (s.spawn (some
          { kind := .putRecord, work := [.acquire { number := s.nextTask, stream, userRecord }] }))
    | .flush => some (s.spawn (some { kind := .flush, work := [.flushPipelines] }))
    | .exit =>
      if s.exiting then none
      else
        some ({ s with exiting := true }.spawn (some
          { kind := .exit, work := [.flushPipelines, .unwind] }))
    | .run id input => s.runTask sys id input
    | .reducerTimer stream shardKey op => do
      if ¬ timerOp op then none
      else
        let p ← s.shared.pipelines.get? stream
        let (aggregator, closed) ← Aggregator.onReducer sys.cfg.aggregator shardKey op p.aggregator
        some ({ s with shared := s.shared.setPipeline stream { p with aggregator } }.spawn
          (timerTask stream shardKey op closed))
    | .collectorTimer stream op => do
      let p ← s.shared.pipelines.get? stream
      match op with
      | .add _ _ => none
      | .flush _ => none
      | .aclose => none
      | op =>
        let (collector, closed) ← Reducer.step sys.cfg.collector.reducer p.collector op
        match collectorBatch stream closed (s.shared.setPipeline stream { p with collector }) with
        | .next shared _ spawn => some ({ s with shared }.spawn spawn)
        | .raises shared left =>
          some { s with
            shared := { shared with dropped := shared.dropped ++ left.flatMap Work.tokens }
            crashed := true }
    | .cancelOutcome number =>
      if number ∈ s.shared.returned then some { s with shared := s.shared.resolve number } else none
    | .cancel id => do
      let task ← s.tasks.get? id
      if (task.kind = .putRecord ∨ task.kind = .flush) ∧ (task.work.head?.any Work.awaits) then
        some (s.fail id task task.work)
      else none
    | .stopDrain id => do
      let task ← s.tasks.get? id
      match task.kind with
      | .drain stream =>
        if (s.shared.pipelines.get? stream).any (fun p => p.limiter.closed) ∧
            task.work.head?.any Work.awaits then
          some { s with
            tasks := s.tasks.erase id
            shared := { s.shared with
              dropped := s.shared.dropped ++ task.work.flatMap Work.tokens } }
        else none
      | _ => none

/-- A producer that has been entered. -/
def State.start (sys : System) (s : State) : Prop :=
  s = { shared := { permits := sys.cfg.maxOutstandingRecords } }

end Producer

end Aiokpl
