import Aiokpl.Producer

/-!
# What running a frame comes to

`exec` read backwards.  `Runs` lists what a frame may come to when it raises nothing,
and `Raises` the frames that may raise; what holds of every frame is proved by cases
on these two.  What holds of all frames that the Limiter or the Retrier has to come is
read off its batches and callbacks, and of those of a flush off the streams.
-/

namespace Aiokpl

open Lib Aggregation

namespace Producer

/-! ## The frames that a frame has to come -/

theorem forall_dispatch {P : Work → Prop} {stream : String} {drained : Limiter.Drained}
    (h : ∀ b ∈ drained.batches, P (.limiterExpired stream b) ∧ P (.limiterAdmit stream b)) :
    ∀ v ∈ dispatch stream drained, P v :=
  List.forall_mem_append.mpr
    ⟨List.forall_mem_map.mpr fun b hb => (h b (List.mem_append_left _ hb)).1,
      List.forall_mem_map.mpr fun b hb => (h b (List.mem_append_right _ hb)).2⟩

theorem forall_dispatchAll {P : Work → Prop} {stream : String} {drained : List Limiter.Drained}
    (h : ∀ d ∈ drained, ∀ b ∈ d.batches,
      P (.limiterExpired stream b) ∧ P (.limiterAdmit stream b)) :
    ∀ v ∈ drained.flatMap (dispatch stream), P v := by
  intro v hv
  obtain ⟨d, hd, hv⟩ := List.mem_flatMap.mp hv
  exact forall_dispatch (h d hd) v hv

theorem forall_handling {P : Work → Prop} {stream : String} {batch : PutRecordsBatch}
    {handled : Retrier.Handled} (hcall : ∀ call ∈ handled.calls, P (.callback stream call))
    (hraises : P (.handleRaises stream (unjudged batch handled.calls))) :
    ∀ v ∈ handling stream batch handled, P v :=
  List.forall_mem_append.mpr
    ⟨List.forall_mem_map.mpr hcall, List.forall_mem_map.mpr fun _ _ => hraises⟩

theorem forall_flushPipelines {P : Work → Prop} {streams : List String}
    (hstream : ∀ stream ∈ streams,
      P (.flushAggregator stream) ∧ P (.flushLimiter stream) ∧ P (.flushCollector stream))
    (hcheckpoint : P .checkpoint) :
    ∀ v ∈ (streams.flatMap fun stream =>
      [.flushAggregator stream, .flushLimiter stream, .flushCollector stream]) ++ [.checkpoint],
      P v := by
  intro v hv
  rcases List.mem_append.mp hv with hv | hv
  · obtain ⟨stream, hmem, hv⟩ := List.mem_flatMap.mp hv
    obtain ⟨haggregator, hlimiter, hcollector⟩ := hstream stream hmem
    simp only [List.mem_cons, List.not_mem_nil, or_false] at hv
    rcases hv with rfl | rfl | rfl <;> assumption
  · rw [List.mem_singleton.mp hv]
    exact hcheckpoint

/-! ## What running a frame may come to -/

section

variable (sys : System) (input : Input) (id : Nat) (s : Shared)

/-- The producer when `_build_pipeline` has entered the pipeline of a stream. -/
def entering (stream : String) : Shared :=
  Shared.setPipeline stream (newPipeline sys.cfg)
    { s with pipelineLock := none, exitStack := .pipeline stream :: s.exitStack }

/-- What a frame may come to when it raises nothing. -/
inductive Runs : Work → Shared → List Work → Option Task → Prop
  | acquire (call : PutCall) : 0 < s.permits →
      Runs (.acquire call) { s with permits := s.permits - 1 } [.resume call] none
  | resume (call : PutCall) :
      Runs (.resume call) { s with outstanding := s.outstanding + 1 } [.getPipeline call] none
  | building (call : PutCall) : s.pipelineLock = none → s.pipelines.get? call.stream = none →
      Runs (.getPipeline call) { s with pipelineLock := some id } [.buildPipeline call] none
  | getPipeline {call : PutCall} {p : Pipeline} {s' : Shared} {push : List Work}
      {spawn : Option Task} : s.pipelineLock = none → s.pipelines.get? call.stream = some p →
      submit sys input call p s = .next s' push spawn → Runs (.getPipeline call) s' push spawn
  | buildPipeline {call : PutCall} {s' : Shared} {push : List Work} {spawn : Option Task} :
      submit sys input call (newPipeline sys.cfg) (entering sys s call.stream) =
        .next s' push spawn →
      Runs (.buildPipeline call) s' push spawn
  | getReducer {stream : String} {shardKey : Option ShardId} {buffered : BufferedRecord}
      {p : Pipeline} {aggregator : Aggregator.State} : s.pipelines.get? stream = some p →
      Aggregator.getOrCreateReducer sys.cfg.aggregator shardKey p.aggregator = some aggregator →
      Runs (.getReducer stream shardKey buffered) (s.setPipeline stream { p with aggregator })
        [.reducerAdd stream shardKey buffered] none
  | reducerAdd {stream : String} {shardKey : Option ShardId} {buffered : BufferedRecord}
      {p : Pipeline} {aggregator : Aggregator.State} {closed : Option AggregatedBatch} :
      s.pipelines.get? stream = some p →
      Aggregator.onReducer sys.cfg.aggregator shardKey (.add input.now buffered) p.aggregator =
        some (aggregator, closed) →
      Runs (.reducerAdd stream shardKey buffered) (s.setPipeline stream { p with aggregator })
        (toLimiter stream closed) none
  | reducerForgotten {stream : String} {shardKey : Option ShardId} {buffered : BufferedRecord}
      {p : Pipeline} : s.pipelines.get? stream = some p →
      Aggregator.onReducer sys.cfg.aggregator shardKey (.add input.now buffered)
        p.aggregator = none →
      Runs (.reducerAdd stream shardKey buffered)
        { s with
          dropped := s.dropped ++ tokensOf stream
            (addToForgotten sys.cfg.aggregator input.now shardKey buffered).1.active.items }
        (toLimiter stream (addToForgotten sys.cfg.aggregator input.now shardKey buffered).2) none
  | limiterPut {stream : String} {batch : AggregatedBatch} {p : Pipeline} :
      s.pipelines.get? stream = some p →
      Runs (.limiterPut stream batch)
        (s.setPipeline stream
          { p with limiter := (Limiter.put sys.cfg.limiter input.put batch p.limiter).1 })
        (dispatch stream (Limiter.put sys.cfg.limiter input.put batch p.limiter).2.1)
        (if (Limiter.put sys.cfg.limiter input.put batch p.limiter).2.2 then
          some { kind := .drain stream, work := [.drainTick stream] } else none)
  | limiterExpired (stream : String) (batch : AggregatedBatch) :
      Runs (.limiterExpired stream batch) s
        ((Retrier.handle sys.u sys.cfg.retrier input.env
          (expiredOutcome stream input.now batch)).calls.map (.callback stream)) none
  | limiterAdmit {stream : String} {batch : AggregatedBatch} {p : Pipeline} {s' : Shared}
      {push : List Work} {spawn : Option Task} : s.pipelines.get? stream = some p →
      collectorBatch stream (Reducer.add sys.cfg.collector.reducer input.now batch p.collector).2
        (s.setPipeline stream
          { p with
            collector := (Reducer.add sys.cfg.collector.reducer input.now batch p.collector).1 }) =
        .next s' push spawn →
      Runs (.limiterAdmit stream batch) s' push spawn
  | onFinish (stream : String) (buffered : BufferedRecord) (result : RecordResult) :
      Runs (.callback stream (.onFinish buffered result)) (finish stream buffered s) [] none
  | onRetry (stream : String) (buffered : BufferedRecord) :
      Runs (.callback stream (.onRetry buffered)) s
        [.getReducer stream input.shardKey buffered] none
  | flushPipelines : s.pipelineLock = none →
      Runs .flushPipelines s ((s.pipelines.keys.flatMap fun stream =>
        [.flushAggregator stream, .flushLimiter stream, .flushCollector stream]) ++ [.checkpoint])
        none
  | flushAggregator {stream : String} {p : Pipeline} : s.pipelines.get? stream = some p →
      Runs (.flushAggregator stream) s (p.aggregator.reducers.keys.map (.flushReducer stream)) none
  | flushReducer {stream : String} {shardKey : Option ShardId} {p : Pipeline}
      {aggregator : Aggregator.State} {closed : Option AggregatedBatch} :
      s.pipelines.get? stream = some p →
      Aggregator.onReducer sys.cfg.aggregator shardKey (.flush input.now) p.aggregator =
        some (aggregator, closed) →
      Runs (.flushReducer stream shardKey) (s.setPipeline stream { p with aggregator })
        (toLimiter stream closed) none
  | flushLimiter {stream : String} {p : Pipeline} : s.pipelines.get? stream = some p →
      Runs (.flushLimiter stream)
        (s.setPipeline stream
          { p with limiter := (Limiter.flush (fun key => (input.drain key).now) p.limiter).1 })
        ((Limiter.flush (fun key => (input.drain key).now) p.limiter).2.flatMap (dispatch stream))
        none
  | flushCollector {stream : String} {p : Pipeline} {s' : Shared} {push : List Work}
      {spawn : Option Task} : s.pipelines.get? stream = some p →
      collectorBatch stream (Reducer.flush sys.cfg.collector.reducer input.now p.collector).2
        (s.setPipeline stream
          { p with
            collector := (Reducer.flush sys.cfg.collector.reducer input.now p.collector).1 }) =
        .next s' push spawn →
      Runs (.flushCollector stream) s' push spawn
  | drainTick {stream : String} {p : Pipeline} : s.pipelines.get? stream = some p →
      Runs (.drainTick stream)
        (s.setPipeline stream { p with limiter := (Limiter.drainAll input.drain p.limiter).1 })
        ((Limiter.drainAll input.drain p.limiter).2.flatMap (dispatch stream) ++
          [.drainTick stream]) none
  | send (stream : String) (batch : PutRecordsBatch) :
      Runs (.send stream batch) s [.inFlight stream input.now batch] none
  | inFlight {stream : String} {startedAt : Time} {batch : PutRecordsBatch} {outcome : SendOutcome}
      {handled : Retrier.Handled} :
      Retrier.trip sys.md5 sys.u sys.cfg.retrier input.env stream startedAt input.endedAt batch
        input.reply = .ok (outcome, handled) →
      Runs (.inFlight stream startedAt batch) s (handling stream batch handled) none
  | unwind : Runs .unwind { s with closed := true, taskGroup := false } [.leaveContexts] none
  | leaveContext {context : Context} {exitStack : List Context} :
      s.exitStack = context :: exitStack →
      Runs .leaveContexts { s with exitStack } (context.leave ++ [.leaveContexts]) none
  | closeCollector {stream : String} {p : Pipeline} : s.pipelines.get? stream = some p →
      Runs (.closeCollector stream)
        { s.setPipeline stream
            { p with collector := Reducer.aclose sys.cfg.collector.reducer p.collector } with
          dropped := s.dropped ++
            p.collector.active.items.flatMap fun b => tokensOf stream b.items } [] none
  | closeLimiter {stream : String} {p : Pipeline} : s.pipelines.get? stream = some p →
      Runs (.closeLimiter stream)
        (s.setPipeline stream { p with limiter := Limiter.aclose p.limiter }) [] none
  | closeAggregator {stream : String} {p : Pipeline} : s.pipelines.get? stream = some p →
      Runs (.closeAggregator stream)
        { s.setPipeline stream { p with aggregator := Aggregator.aclose p.aggregator } with
          dropped := s.dropped ++
            p.aggregator.reducers.values.flatMap fun r => tokensOf stream r.active.items } [] none
  | leaveAggregator {stream : String} {p : Pipeline} : s.pipelines.get? stream = some p →
      Runs (.leaveAggregator stream)
        (s.setPipeline stream { p with aggregator := Aggregator.leave p.aggregator }) [] none
  | closeClient : Runs .closeClient { s with clientOpen := false } [] none
  | invalidate (stream : String) (seenAt : Time) (shard : Option ShardId) :
      Runs (.callback stream (.invalidate seenAt shard)) s [] none
  | nothingToFlush {stream : String} {shardKey : Option ShardId} {p : Pipeline} :
      s.pipelines.get? stream = some p →
      Aggregator.onReducer sys.cfg.aggregator shardKey (.flush input.now) p.aggregator = none →
      Runs (.flushReducer stream shardKey) s [] none
  | checkpoint : Runs .checkpoint s [] none
  | leftContexts : s.exitStack = [] → Runs .leaveContexts s [] none
  | awaitCollector (stream : String) : Runs (.awaitCollector stream) s [] none
  | awaitLimiter (stream : String) : Runs (.awaitLimiter stream) s [] none
  | awaitAggregator (stream : String) : Runs (.awaitAggregator stream) s [] none
  | awaitTaskGroup : Runs .awaitTaskGroup s [] none

/-- The frames that may raise: what the producer then is, and what they had in hand. -/
inductive Raises : Work → Shared → List Work → Prop
  | getPipeline {call : PutCall} {p : Pipeline} {s' : Shared} {left : List Work} :
      s.pipelineLock = none → s.pipelines.get? call.stream = some p →
      submit sys input call p s = .raises s' left → Raises (.getPipeline call) s' left
  | buildFails (call : PutCall) : input.buildFails = true →
      Raises (.buildPipeline call) { s with pipelineLock := none } []
  | buildPipeline {call : PutCall} {s' : Shared} {left : List Work} :
      submit sys input call (newPipeline sys.cfg) (entering sys s call.stream) = .raises s' left →
      Raises (.buildPipeline call) s' left
  | getReducer {stream : String} {shardKey : Option ShardId} {buffered : BufferedRecord}
      {p : Pipeline} : s.pipelines.get? stream = some p →
      Aggregator.getOrCreateReducer sys.cfg.aggregator shardKey p.aggregator = none →
      Raises (.getReducer stream shardKey buffered) s [.getReducer stream shardKey buffered]
  | limiterAdmit {stream : String} {batch : AggregatedBatch} {p : Pipeline} {s' : Shared}
      {left : List Work} : s.pipelines.get? stream = some p →
      collectorBatch stream (Reducer.add sys.cfg.collector.reducer input.now batch p.collector).2
        (s.setPipeline stream
          { p with
            collector := (Reducer.add sys.cfg.collector.reducer input.now batch p.collector).1 }) =
        .raises s' left →
      Raises (.limiterAdmit stream batch) s' left
  | flushCollector {stream : String} {p : Pipeline} {s' : Shared} {left : List Work} :
      s.pipelines.get? stream = some p →
      collectorBatch stream (Reducer.flush sys.cfg.collector.reducer input.now p.collector).2
        (s.setPipeline stream
          { p with
            collector := (Reducer.flush sys.cfg.collector.reducer input.now p.collector).1 }) =
        .raises s' left →
      Raises (.flushCollector stream) s' left
  | inFlight {stream : String} {startedAt : Time} {batch : PutRecordsBatch} {e : Sender.Error} :
      Retrier.trip sys.md5 sys.u sys.cfg.retrier input.env stream startedAt input.endedAt batch
        input.reply = .error e →
      Raises (.inFlight stream startedAt batch) s [.inFlight stream startedAt batch]
  | handleRaises (stream : String) (records : List BufferedRecord) :
      Raises (.handleRaises stream records) s [.handleRaises stream records]

end

/-- What a frame comes to, whether it raises or not. -/
def Comes (sys : System) (input : Input) (id : Nat) (s : Shared) (w : Work) : Ran → Prop
  | .next s' push spawn => Runs sys input id s w s' push spawn
  | .raises s' left => Raises sys input s w s' left

/-- **`exec` read backwards.** -/
theorem exec_comes {sys : System} {input : Input} {id : Nat} {s : Shared} {w : Work} {ran : Ran}
    (h : exec sys input id s w = some ran) : Comes sys input id s w ran := by
  cases w with
  | acquire call =>
    simp only [exec, Option.ite_none_right_eq_some, Option.some.injEq] at h
    obtain ⟨hpermits, rfl⟩ := h
    exact Runs.acquire call hpermits
  | resume call =>
    obtain rfl := Option.some.inj h
    exact Runs.resume call
  | getPipeline call =>
    simp only [exec] at h
    split at h
    · cases h
    · rename_i p hlock hp
      cases ran with
      | next s' push spawn => exact Runs.getPipeline hlock hp (Option.some.inj h)
      | raises s' left => exact Raises.getPipeline hlock hp (Option.some.inj h)
    · rename_i hlock hp
      obtain rfl := Option.some.inj h
      exact Runs.building call hlock hp
  | buildPipeline call =>
    simp only [exec] at h
    split at h
    · rename_i hfails
      obtain rfl := Option.some.inj h
      exact Raises.buildFails call hfails
    · cases ran with
      | next s' push spawn => exact Runs.buildPipeline (Option.some.inj h)
      | raises s' left => exact Raises.buildPipeline (Option.some.inj h)
  | getReducer stream shardKey buffered =>
    obtain ⟨p, hp, h⟩ := Option.bind_eq_some_iff.mp h
    split at h
    · rename_i hnone
      obtain rfl := Option.some.inj h
      exact Raises.getReducer hp hnone
    · rename_i aggregator hfound
      obtain rfl := Option.some.inj h
      exact Runs.getReducer hp hfound
  | reducerAdd stream shardKey buffered =>
    obtain ⟨p, hp, h⟩ := Option.bind_eq_some_iff.mp h
    split at h
    · rename_i aggregator closed hadd
      obtain rfl := Option.some.inj h
      exact Runs.reducerAdd hp hadd
    · rename_i hforgotten
      obtain rfl := Option.some.inj h
      exact Runs.reducerForgotten hp hforgotten
  | limiterPut stream batch =>
    obtain ⟨p, hp, h⟩ := Option.bind_eq_some_iff.mp h
    obtain rfl := Option.some.inj h
    exact Runs.limiterPut hp
  | limiterExpired stream batch =>
    obtain rfl := Option.some.inj h
    exact Runs.limiterExpired stream batch
  | limiterAdmit stream batch =>
    obtain ⟨p, hp, h⟩ := Option.bind_eq_some_iff.mp h
    cases ran with
    | next s' push spawn => exact Runs.limiterAdmit hp (Option.some.inj h)
    | raises s' left => exact Raises.limiterAdmit hp (Option.some.inj h)
  | callback stream call =>
    cases call with
    | onFinish buffered result =>
      obtain rfl := Option.some.inj h
      exact Runs.onFinish stream buffered result
    | onRetry buffered =>
      obtain rfl := Option.some.inj h
      exact Runs.onRetry stream buffered
    | invalidate seenAt shard =>
      obtain rfl := Option.some.inj h
      exact Runs.invalidate stream seenAt shard
  | flushPipelines =>
    simp only [exec] at h
    split at h
    · cases h
    · rename_i hlock
      obtain rfl := Option.some.inj h
      exact Runs.flushPipelines hlock
  | flushAggregator stream =>
    obtain ⟨p, hp, h⟩ := Option.bind_eq_some_iff.mp h
    obtain rfl := Option.some.inj h
    exact Runs.flushAggregator hp
  | flushReducer stream shardKey =>
    obtain ⟨p, hp, h⟩ := Option.bind_eq_some_iff.mp h
    split at h
    · rename_i aggregator closed hflush
      obtain rfl := Option.some.inj h
      exact Runs.flushReducer hp hflush
    · rename_i hnone
      obtain rfl := Option.some.inj h
      exact Runs.nothingToFlush hp hnone
  | flushLimiter stream =>
    obtain ⟨p, hp, h⟩ := Option.bind_eq_some_iff.mp h
    obtain rfl := Option.some.inj h
    exact Runs.flushLimiter hp
  | flushCollector stream =>
    obtain ⟨p, hp, h⟩ := Option.bind_eq_some_iff.mp h
    cases ran with
    | next s' push spawn => exact Runs.flushCollector hp (Option.some.inj h)
    | raises s' left => exact Raises.flushCollector hp (Option.some.inj h)
  | drainTick stream =>
    obtain ⟨p, hp, h⟩ := Option.bind_eq_some_iff.mp h
    obtain rfl := Option.some.inj h
    exact Runs.drainTick hp
  | send stream batch =>
    obtain rfl := Option.some.inj h
    exact Runs.send stream batch
  | inFlight stream startedAt batch =>
    simp only [exec] at h
    split at h
    · rename_i outcome handled htrip
      obtain rfl := Option.some.inj h
      exact Runs.inFlight htrip
    · rename_i e htrip
      obtain rfl := Option.some.inj h
      exact Raises.inFlight htrip
  | handleRaises stream records =>
    obtain rfl := Option.some.inj h
    exact Raises.handleRaises stream records
  | unwind =>
    obtain rfl := Option.some.inj h
    exact Runs.unwind
  | leaveContexts =>
    simp only [exec] at h
    split at h
    · rename_i hempty
      obtain rfl := Option.some.inj h
      exact Runs.leftContexts hempty
    · rename_i context exitStack hstack
      obtain rfl := Option.some.inj h
      exact Runs.leaveContext hstack
  | closeCollector stream =>
    obtain ⟨p, hp, h⟩ := Option.bind_eq_some_iff.mp h
    obtain rfl := Option.some.inj h
    exact Runs.closeCollector hp
  | closeLimiter stream =>
    obtain ⟨p, hp, h⟩ := Option.bind_eq_some_iff.mp h
    obtain rfl := Option.some.inj h
    exact Runs.closeLimiter hp
  | closeAggregator stream =>
    obtain ⟨p, hp, h⟩ := Option.bind_eq_some_iff.mp h
    obtain rfl := Option.some.inj h
    exact Runs.closeAggregator hp
  | leaveAggregator stream =>
    obtain ⟨p, hp, h⟩ := Option.bind_eq_some_iff.mp h
    obtain rfl := Option.some.inj h
    exact Runs.leaveAggregator hp
  | closeClient =>
    obtain rfl := Option.some.inj h
    exact Runs.closeClient
  | checkpoint =>
    obtain rfl := Option.some.inj h
    exact Runs.checkpoint
  | awaitCollector stream =>
    obtain rfl := Option.some.inj h
    exact Runs.awaitCollector stream
  | awaitLimiter stream =>
    obtain rfl := Option.some.inj h
    exact Runs.awaitLimiter stream
  | awaitAggregator stream =>
    obtain rfl := Option.some.inj h
    exact Runs.awaitAggregator stream
  | awaitTaskGroup =>
    obtain rfl := Option.some.inj h
    exact Runs.awaitTaskGroup

section

variable {sys : System} {input : Input} {id : Nat} {s s' : Shared} {w : Work}

theorem exec_runs {push : List Work} {spawn : Option Task}
    (h : exec sys input id s w = some (.next s' push spawn)) :
    Runs sys input id s w s' push spawn :=
  exec_comes h

theorem exec_raising {left : List Work} (h : exec sys input id s w = some (.raises s' left)) :
    Raises sys input s w s' left :=
  exec_comes h

end

end Producer

end Aiokpl
