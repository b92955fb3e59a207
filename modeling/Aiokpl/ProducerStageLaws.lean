import Aiokpl.ProducerHoldings

/-!
# What the stages keep, for the whole producer

A `StageLaw` says what a Reducer of the Aggregator, a Limiter and a Collector keep, and
what is true of every batch they hand over; its obligations are about one operation of
one stage.  `StageLaw.reachable` carries them to every reachable state of a producer.
-/

namespace Aiokpl

open Lib Aggregation

namespace Producer

/-! ## Laws -/

/-- What the stages keep.  `closing` is whether contexts may be left. -/
structure StageLaw (cfg : Config) where
  reducer : Option ShardId → Reducer.State AggregatedBatch → Prop
  limiter : Limiter.State → Prop
  collector : Reducer.State PutRecordsBatch → Prop
  batch : AggregatedBatch → Prop
  request : PutRecordsBatch → Prop
  closing : Prop
  reducer_init : ∀ key, reducer key (Reducer.init (cfg.aggregator.reducer key))
  reducer_step : ∀ {key r op r' closed}, reducer key r → op ≠ .aclose →
    Reducer.step (cfg.aggregator.reducer key) r op = some (r', closed) →
    reducer key r' ∧ ∀ b ∈ closed, batch b
  forgotten : ∀ now key buffered, ∀ b ∈ (addToForgotten cfg.aggregator now key buffered).2, batch b
  limiter_init : limiter {}
  limiter_put : ∀ t {b l}, limiter l → batch b → limiter (Limiter.put cfg.limiter t b l).1 ∧
    ∀ b' ∈ (Limiter.put cfg.limiter t b l).2.1.batches, batch b'
  limiter_drain : ∀ t {l}, limiter l → limiter (Limiter.drainAll t l).1 ∧
    ∀ d ∈ (Limiter.drainAll t l).2, ∀ b ∈ d.batches, batch b
  limiter_flush : ∀ now {l}, limiter l → limiter (Limiter.flush now l).1 ∧
    ∀ d ∈ (Limiter.flush now l).2, ∀ b ∈ d.batches, batch b
  limiter_close : ∀ {l}, closing → limiter l → limiter (Limiter.aclose l)
  collector_init : collector (Reducer.init cfg.collector.reducer)
  collector_step : ∀ {c op c' closed}, collector c → op ≠ .aclose → (∀ b ∈ op.adds, batch b) →
    Reducer.step cfg.collector.reducer c op = some (c', closed) →
    collector c' ∧ ∀ p ∈ closed, request p
  collector_close : ∀ {c}, closing → collector c →
    collector (Reducer.aclose cfg.collector.reducer c)

section Collector

variable {cfg : Config} (law : StageLaw cfg) {c : Reducer.State PutRecordsBatch}

theorem StageLaw.collector_add (now : Time) {batch : AggregatedBatch} (hc : law.collector c)
    (hb : law.batch batch) :
    law.collector (Reducer.add cfg.collector.reducer now batch c).1 ∧
      ∀ p ∈ (Reducer.add cfg.collector.reducer now batch c).2, law.request p := by
  refine law.collector_step hc (show Reducer.Op.add now batch ≠ .aclose by simp) ?_ rfl
  intro b hmem
  rw [List.mem_singleton.mp hmem]
  exact hb

theorem StageLaw.collector_flush (now : Time) (hc : law.collector c) :
    law.collector (Reducer.flush cfg.collector.reducer now c).1 ∧
      ∀ p ∈ (Reducer.flush cfg.collector.reducer now c).2, law.request p := by
  refine law.collector_step hc (show Reducer.Op.flush now ≠ .aclose by simp) ?_ rfl
  intro b hmem
  cases hmem

end Collector

section Obeys

variable {sys : System} (law : StageLaw sys.cfg)

structure Pipeline.Obeys (p : Pipeline) : Prop where
  reducers : ∀ key r, p.aggregator.reducers.get? key = some r → law.reducer key r
  limiter : law.limiter p.limiter
  collector : law.collector p.collector

/-- What a frame has in hand is as the stages hand it over. -/
def Work.Obeys : Work → Prop
  | .limiterPut _ batch => law.batch batch
  | .limiterExpired _ batch => law.batch batch
  | .limiterAdmit _ batch => law.batch batch
  | .send _ batch => law.request batch
  | .inFlight _ _ batch => law.request batch
  | .unwind => law.closing
  | .leaveContexts => law.closing
  | .closeCollector _ => law.closing
  | .closeLimiter _ => law.closing
  | _ => True

def Shared.Obeys (s : Shared) : Prop :=
  ∀ stream p, s.pipelines.get? stream = some p → p.Obeys law

structure State.Obeys (s : State) : Prop where
  stages : s.shared.Obeys law
  frames : ∀ id t, s.tasks.get? id = some t → ∀ w ∈ t.work, w.Obeys law

end Obeys

/-! ## What a frame leaves -/

section Exec

variable {sys : System} {law : StageLaw sys.cfg} {input : Input} {id : Nat} {s s' : Shared}
  {w : Work} {push : List Work} {spawn : Option Task}

/-- The stages and the frames, once a frame has run. -/
structure Kept (law : StageLaw sys.cfg) (s' : Shared) (push : List Work) (spawn : Option Task) :
    Prop where
  stages : s'.Obeys law
  push : ∀ v ∈ push, v.Obeys law
  spawn : ∀ t, spawn = some t → ∀ v ∈ t.work, v.Obeys law

theorem Shared.Obeys.setPipeline (h : s.Obeys law) {stream : String} {p : Pipeline}
    (hp : p.Obeys law) : (s.setPipeline stream p).Obeys law := by
  intro stream' p' hp'
  rw [Shared.setPipeline, Dict.get?_set] at hp'
  split at hp'
  · obtain rfl := Option.some.inj hp'
    exact hp
  · exact h stream' p' hp'

theorem obeys_newPipeline : (newPipeline sys.cfg).Obeys law :=
  ⟨fun key r hr => (by cases hr), law.limiter_init, law.collector_init⟩

theorem obeys_entering (h : s.Obeys law) (stream : String) : (entering sys s stream).Obeys law := by
  apply Shared.Obeys.setPipeline _ obeys_newPipeline
  exact h

theorem obeys_toLimiter {stream : String} {closed : Option AggregatedBatch}
    (h : ∀ b ∈ closed, law.batch b) : ∀ v ∈ toLimiter stream closed, v.Obeys law := by
  intro v hv
  obtain ⟨b, hb, rfl⟩ := List.mem_map.mp hv
  exact h b (Option.mem_toList.mp hb)

theorem obeys_dispatch {stream : String} {drained : Limiter.Drained}
    (h : ∀ b ∈ drained.batches, law.batch b) : ∀ v ∈ dispatch stream drained, v.Obeys law :=
  forall_dispatch fun b hb => ⟨h b hb, h b hb⟩

theorem obeys_dispatchAll {stream : String} {drained : List Limiter.Drained}
    (h : ∀ d ∈ drained, ∀ b ∈ d.batches, law.batch b) :
    ∀ v ∈ drained.flatMap (dispatch stream), v.Obeys law :=
  forall_dispatchAll fun d hd b hb => ⟨h d hd b hb, h d hd b hb⟩

/-- An operation of one Reducer, for the whole Aggregator. -/
theorem obeys_onReducer {p : Pipeline} (h : p.Obeys law) {shardKey : Option ShardId}
    {op : Reducer.Op BufferedRecord} {aggregator : Aggregator.State}
    {closed : Option AggregatedBatch} (hop : op ≠ .aclose)
    (hreducer : Aggregator.onReducer sys.cfg.aggregator shardKey op p.aggregator =
      some (aggregator, closed)) :
    ({ p with aggregator } : Pipeline).Obeys law ∧ ∀ b ∈ closed, law.batch b := by
  obtain ⟨r, r', closed', hr, hstep, hout⟩ := Aggregator.onReducer_eq_some hreducer
  obtain ⟨rfl, rfl⟩ := Prod.mk.inj hout
  obtain ⟨hkept, hclosed⟩ := law.reducer_step (h.reducers shardKey r hr) hop hstep
  refine ⟨⟨fun key r'' hr'' => ?_, h.limiter, h.collector⟩, hclosed⟩
  rw [Dict.get?_set] at hr''
  split at hr''
  · rename_i hkey
    obtain rfl := Option.some.inj hr''
    rw [hkey]
    exact hkept
  · exact h.reducers key r'' hr''

theorem obeys_getOrCreateReducer {p : Pipeline} (h : p.Obeys law) {shardKey : Option ShardId}
    {aggregator : Aggregator.State}
    (hfound : Aggregator.getOrCreateReducer sys.cfg.aggregator shardKey p.aggregator =
      some aggregator) : ({ p with aggregator } : Pipeline).Obeys law := by
  unfold Aggregator.getOrCreateReducer at hfound
  split at hfound
  · obtain rfl := Option.some.inj hfound
    exact h
  · split at hfound
    · obtain rfl := Option.some.inj hfound
      refine ⟨fun key r hr => ?_, h.limiter, h.collector⟩
      rw [Dict.get?_set] at hr
      split at hr
      · obtain rfl := Option.some.inj hr
        rename_i hkey
        exact hkey ▸ law.reducer_init key
      · exact h.reducers key r hr
    · cases hfound

theorem obeys_collectorBatch {stream : String} {closed : Option PutRecordsBatch}
    (hs : s.Obeys law) (hclosed : ∀ p ∈ closed, law.request p)
    (h : collectorBatch stream closed s = .next s' push spawn) : Kept law s' push spawn := by
  obtain ⟨rfl, rfl, _, _⟩ := collectorBatch_next h
  refine ⟨hs, by simp, ?_⟩
  rintro t rfl v hv
  cases closed with
  | none => simp [collectorBatch] at h
  | some batch =>
    simp only [collectorBatch] at h
    split at h
    · simp only [Ran.next.injEq, Option.some.injEq, true_and] at h
      obtain rfl := h
      rw [List.mem_singleton.mp hv]
      exact hclosed batch rfl
    · cases h

theorem obeys_submit {call : PutCall} {p : Pipeline} (hs : s.Obeys law)
    (hp : s.pipelines.get? call.stream = some p)
    (h : submit sys input call p s = .next s' push spawn) : Kept law s' push spawn := by
  unfold submit at h
  split at h
  · cases h
  · obtain ⟨rfl, rfl, rfl⟩ := (Ran.next.injEq ..).mp h
    have hobeys := hs call.stream p hp
    refine ⟨?_, by simp [Work.Obeys], by simp⟩
    exact hs.setPipeline ⟨hobeys.reducers, hobeys.limiter, hobeys.collector⟩

/-- Frames that have nothing in hand. -/
theorem Kept.plain (hs : s'.Obeys law) (hpush : ∀ v ∈ push, v.Obeys law) :
    Kept law s' push none := ⟨hs, hpush, by simp⟩

theorem obeys_leave (hclosing : law.closing) (context : Context) :
    ∀ v ∈ context.leave ++ [Work.leaveContexts], v.Obeys law := by
  cases context <;> simp [Context.leave, Work.Obeys, hclosing]

/-- **What a frame leaves** when it raises nothing. -/
theorem exec_kept (hs : s.Obeys law) (hw : w.Obeys law)
    (h : exec sys input id s w = some (.next s' push spawn)) : Kept law s' push spawn := by
  cases exec_runs h with
  | acquire | resume | building | onRetry | invalidate => exact .plain hs (by simp [Work.Obeys])
  | getPipeline _ hp hsubmit => exact obeys_submit hs hp hsubmit
  | @buildPipeline call _ _ _ hsubmit =>
    exact obeys_submit (obeys_entering hs call.stream) (entering_stream sys s call.stream) hsubmit
  | getReducer hp hfound =>
    exact .plain (hs.setPipeline (obeys_getOrCreateReducer (hs _ _ hp) hfound))
      (by simp [Work.Obeys])
  | reducerAdd hp hadd =>
    obtain ⟨hkept, hclosed⟩ := obeys_onReducer (hs _ _ hp) (by simp) hadd
    exact .plain (hs.setPipeline hkept) (obeys_toLimiter hclosed)
  | @reducerForgotten _ shardKey buffered =>
    exact .plain hs (obeys_toLimiter (law.forgotten input.now shardKey buffered))
  | @limiterPut stream batch p hp =>
    have hobeys := hs stream p hp
    obtain ⟨hlimiter, hbatches⟩ := law.limiter_put input.put hobeys.limiter hw
    refine ⟨hs.setPipeline ⟨hobeys.reducers, hlimiter, hobeys.collector⟩,
      obeys_dispatch hbatches, ?_⟩
    intro t ht v hv
    split at ht
    · obtain rfl := Option.some.inj ht
      rw [List.mem_singleton.mp hv]
      trivial
    · cases ht
  | limiterExpired stream batch =>
    refine .plain hs fun v hv => ?_
    obtain ⟨call, _, rfl⟩ := List.mem_map.mp hv
    trivial
  | @limiterAdmit stream batch p _ _ _ hp hbatch =>
    have hobeys := hs stream p hp
    obtain ⟨hcollector, hclosed⟩ := law.collector_add input.now hobeys.collector hw
    refine obeys_collectorBatch ?_ hclosed hbatch
    exact hs.setPipeline ⟨hobeys.reducers, hobeys.limiter, hcollector⟩
  | onFinish stream buffered result =>
    refine .plain ?_ (by simp)
    cases hp : s.pipelines.get? stream with
    | none =>
      simp only [finish, hp]
      exact hs
    | some p =>
      have hobeys := hs stream p hp
      rw [finish_eq hp]
      refine hs.setPipeline ?_
      exact ⟨hobeys.reducers, hobeys.limiter, hobeys.collector⟩
  | flushPipelines =>
    exact .plain hs (forall_flushPipelines (fun _ _ => ⟨trivial, trivial, trivial⟩) trivial)
  | flushAggregator =>
    refine .plain hs fun v hv => ?_
    obtain ⟨key, _, rfl⟩ := List.mem_map.mp hv
    trivial
  | flushReducer hp hflush =>
    obtain ⟨hkept, hclosed⟩ := obeys_onReducer (hs _ _ hp) (by simp) hflush
    exact .plain (hs.setPipeline hkept) (obeys_toLimiter hclosed)
  | @flushLimiter stream p hp =>
    have hobeys := hs stream p hp
    obtain ⟨hlimiter, hbatches⟩ := law.limiter_flush (fun key => (input.drain key).now)
      hobeys.limiter
    exact .plain (hs.setPipeline ⟨hobeys.reducers, hlimiter, hobeys.collector⟩)
      (obeys_dispatchAll hbatches)
  | @flushCollector stream p _ _ _ hp hbatch =>
    have hobeys := hs stream p hp
    obtain ⟨hcollector, hclosed⟩ := law.collector_flush input.now hobeys.collector
    refine obeys_collectorBatch ?_ hclosed hbatch
    exact hs.setPipeline ⟨hobeys.reducers, hobeys.limiter, hcollector⟩
  | @drainTick stream p hp =>
    have hobeys := hs stream p hp
    obtain ⟨hlimiter, hbatches⟩ := law.limiter_drain input.drain hobeys.limiter
    refine .plain (hs.setPipeline ⟨hobeys.reducers, hlimiter, hobeys.collector⟩) fun v hv => ?_
    rcases List.mem_append.mp hv with hv | hv
    · exact obeys_dispatchAll hbatches v hv
    · rw [List.mem_singleton.mp hv]
      trivial
  | send stream batch =>
    refine .plain hs fun v hv => ?_
    rw [List.mem_singleton.mp hv]
    exact hw
  | inFlight =>
    refine .plain hs fun v hv => ?_
    rcases List.mem_append.mp hv with hv | hv
    · obtain ⟨call, _, rfl⟩ := List.mem_map.mp hv
      trivial
    · obtain ⟨_, _, rfl⟩ := List.mem_map.mp hv
      trivial
  | unwind =>
    refine .plain hs fun v hv => ?_
    rw [List.mem_singleton.mp hv]
    exact hw
  | leaveContext => exact .plain hs (obeys_leave hw _)
  | @closeCollector stream p hp =>
    have hobeys := hs stream p hp
    exact .plain (hs.setPipeline
      ⟨hobeys.reducers, hobeys.limiter, law.collector_close hw hobeys.collector⟩) (by simp)
  | @closeLimiter stream p hp =>
    have hobeys := hs stream p hp
    exact .plain (hs.setPipeline
      ⟨hobeys.reducers, law.limiter_close hw hobeys.limiter, hobeys.collector⟩) (by simp)
  | @closeAggregator stream p hp =>
    have hobeys := hs stream p hp
    refine .plain (hs.setPipeline ?_) (by simp)
    exact ⟨fun key r hr => (by cases hr), hobeys.limiter, hobeys.collector⟩
  | @leaveAggregator stream p hp =>
    have hobeys := hs stream p hp
    exact .plain (hs.setPipeline ⟨hobeys.reducers, hobeys.limiter, hobeys.collector⟩) (by simp)
  | closeClient | nothingToFlush | checkpoint | leftContexts | awaitCollector | awaitLimiter
  | awaitAggregator | awaitTaskGroup => exact .plain hs (by simp)

/-- A frame that raises leaves the stages as they may be. -/
theorem exec_raises_obeys (hs : s.Obeys law) (hw : w.Obeys law) {left : List Work}
    (h : exec sys input id s w = some (.raises s' left)) : s'.Obeys law := by
  cases exec_raising h with
  | getPipeline _ _ hsubmit =>
    obtain ⟨rfl, _⟩ := submit_raises hsubmit
    exact hs
  | buildFails | getReducer | inFlight | handleRaises => exact hs
  | buildPipeline hsubmit =>
    obtain ⟨rfl, _⟩ := submit_raises hsubmit
    exact obeys_entering hs _
  | @limiterAdmit stream batch p _ _ hp hbatch =>
    obtain ⟨rfl, _⟩ := collectorBatch_raises hbatch
    have hobeys := hs stream p hp
    exact hs.setPipeline
      ⟨hobeys.reducers, hobeys.limiter, (law.collector_add input.now hobeys.collector hw).1⟩
  | @flushCollector stream p _ _ hp hbatch =>
    obtain ⟨rfl, _⟩ := collectorBatch_raises hbatch
    have hobeys := hs stream p hp
    exact hs.setPipeline
      ⟨hobeys.reducers, hobeys.limiter, (law.collector_flush input.now hobeys.collector).1⟩

end Exec

/-! ## What a step leaves -/

section Step

variable {sys : System} {law : StageLaw sys.cfg} {s s' : State} {shared : Shared}

theorem Shared.Obeys.congr {s s' : Shared} (h : s.Obeys law) (hs : s'.pipelines = s.pipelines) :
    s'.Obeys law := by
  intro stream p hp
  rw [hs] at hp
  exact h stream p hp

theorem State.Obeys.spawn (h : s.Obeys law) {spawn : Option Task}
    (hspawn : ∀ t, spawn = some t → ∀ v ∈ t.work, v.Obeys law) : (s.spawn spawn).Obeys law := by
  refine ⟨?_, fun id t ht => ?_⟩
  · rw [shared_spawn]
    exact h.stages
  cases spawn with
  | none => exact h.frames id t ht
  | some task =>
    rw [get?_spawn] at ht
    split at ht
    · obtain rfl := Option.some.inj ht
      exact hspawn task rfl
    · exact h.frames id t ht

/-- The end of a timer task is an operation of its Reducer. -/
theorem obeys_endReducerTimer (h : shared.Obeys law) (stream : String) (shardKey : Option ShardId)
    (scope : Nat) :
    (endReducerTimer sys.cfg.aggregator stream shardKey scope shared).Obeys law := by
  unfold endReducerTimer
  split
  · exact h
  · rename_i p hp
    split
    · exact h
    · rename_i aggregator closed hend
      exact h.setPipeline (obeys_onReducer (h stream p hp) (by simp) hend).1

theorem obeys_goOn (h : s.Obeys law) (hstages : shared.Obeys law) {id : Nat} {kind : TaskKind}
    {work : List Work} (hwork : ∀ v ∈ work, v.Obeys law) :
    (({ s with shared } : State).goOn sys id kind work).Obeys law := by
  refine ⟨?_, fun id' t ht => ?_⟩
  · by_cases hempty : work = []
    · subst hempty
      cases kind with
      | putRecord => exact hstages.congr rfl
      | reducerTimer stream shardKey scope =>
        exact obeys_endReducerTimer hstages stream shardKey scope
      | flush | exit | drain stream | send => exact hstages
    · rw [goOn_of_ne hempty]
      exact hstages
  rw [get?_goOn] at ht
  split at ht
  · split at ht
    · cases ht
    · obtain rfl := Option.some.inj ht
      exact hwork
  · exact h.frames id' t ht

/-- A task that fails is gone. -/
theorem obeys_fail (h : s.Obeys law) (hstages : shared.Obeys law) (id : Nat) (task : Task)
    (left : List Work) : (({ s with shared } : State).fail id task left).Obeys law := by
  obtain ⟨kind, work⟩ := task
  refine ⟨hstages.congr (fail_calls id kind work left _).2.2.2.2, fun id' t ht => ?_⟩
  rw [get?_fail] at ht
  split at ht
  · cases ht
  · exact h.frames id' t ht

/-- **A step keeps what the stages keep**, if contexts are only left where the law allows it. -/
theorem State.Obeys.step (h : s.Obeys law) {op : Op} (hexit : op = .exit → law.closing)
    (hstep : s.step sys op = some s') : s'.Obeys law := by
  cases (step_turn hstep).2 with
  | refused => exact h
  | entered | flushes => exact h.spawn (by simp [Work.Obeys])
  | exits =>
    refine State.Obeys.spawn ?_ (by simp [Work.Obeys, hexit rfl])
    exact ⟨h.stages, h.frames⟩
  | @ran id input kind w rest push shared spawn hfound _ hexec =>
    have hframes := h.frames id _ hfound
    have hkept := exec_kept h.stages (hframes w List.mem_cons_self) hexec
    refine (obeys_goOn h hkept.stages fun v hv => ?_).spawn hkept.spawn
    rcases List.mem_append.mp hv with hpush | hrest
    · exact hkept.push v hpush
    · exact hframes v (List.mem_cons_of_mem w hrest)
  | @raised id input kind w rest left shared hfound _ hexec =>
    have hw := h.frames id _ hfound w List.mem_cons_self
    exact obeys_fail h (exec_raises_obeys h.stages hw hexec) id _ _
  | @reducerTimer stream shardKey op p aggregator closed htimer hp hop =>
    have hclose : op ≠ .aclose := by
      rintro rfl
      cases htimer
    obtain ⟨hkept, hclosed⟩ := obeys_onReducer (h.stages stream p hp) hclose hop
    refine State.Obeys.spawn ?_ fun t ht v hv => ?_
    · exact ⟨h.stages.setPipeline hkept, h.frames⟩
    unfold timerTask at ht
    split at ht
    · obtain rfl := Option.some.inj ht
      rw [List.mem_singleton.mp hv]
      exact hclosed _ rfl
    · cases ht
  | @collectorTimer stream op p collector closed shared push spawn hadds hclose hp hop hbatch =>
    have hobeys := h.stages stream p hp
    obtain ⟨hcollector, hclosed⟩ := law.collector_step hobeys.collector hclose (by simp [hadds]) hop
    have hkept : Kept law shared push spawn := by
      refine obeys_collectorBatch ?_ hclosed hbatch
      exact h.stages.setPipeline ⟨hobeys.reducers, hobeys.limiter, hcollector⟩
    refine State.Obeys.spawn ?_ hkept.spawn
    exact ⟨hkept.stages, h.frames⟩
  | @overrun stream op p collector closed _ _ hadds hclose hp hop hbatch =>
    obtain ⟨rfl, _⟩ := collectorBatch_raises hbatch
    have hobeys := h.stages stream p hp
    obtain ⟨hcollector, _⟩ := law.collector_step hobeys.collector hclose (by simp [hadds]) hop
    have hkept : (s.shared.setPipeline stream { p with collector }).Obeys law :=
      h.stages.setPipeline ⟨hobeys.reducers, hobeys.limiter, hcollector⟩
    exact ⟨hkept.congr rfl, h.frames⟩
  | @answered number => exact ⟨h.stages.congr (by unfold Shared.resolve; split <;> rfl), h.frames⟩
  | cancelled => exact obeys_fail h h.stages _ _ _
  | @stopped id stream work p hfound =>
    refine ⟨h.stages.congr rfl, fun id' t ht => ?_⟩
    rw [Dict.get?_erase] at ht
    split at ht
    · cases ht
    · exact h.frames id' t ht

/-- **What the stages keep holds in every run.** -/
theorem StageLaw.reachable (law : StageLaw sys.cfg) {ok : State → Op → Prop}
    (hexit : ∀ s, ok s .exit → law.closing)
    (h : Reachable (State.start sys) (State.step sys) ok s) :
    s.Obeys law := by
  have hstart : ∀ s, State.start sys s → s.Obeys law := by
    rintro _ rfl
    exact ⟨fun stream p hp => (by cases hp), fun id t ht => (by cases ht)⟩
  refine h.invariant hstart fun s op s' hobeys hok hstep => ?_
  exact hobeys.step (fun hop => hexit s (hop ▸ hok)) hstep

end Step

end Producer

end Aiokpl
