import Aiokpl.ProducerKinds

/-!
# A producer that has not begun to exit

Until `__aexit__` starts, every Reducer that a call holds is still in its
Aggregator, no stage is closed, and running a frame drops nothing.
-/

namespace Aiokpl

open Lib Aggregation

namespace Producer

/-! ## Open stages -/

/-- The frame is none of `__aexit__`, and the Reducer it holds is in its Aggregator. -/
def Work.Grounded (s : Shared) : Work → Prop
  | .reducerAdd stream shardKey _ =>
    ∃ p, s.pipelines.get? stream = some p ∧ p.aggregator.reducers.get? shardKey ≠ none
  | .unwind => False
  | .leaveContexts => False
  | .closeCollector _ => False
  | .awaitCollector _ => False
  | .closeLimiter _ => False
  | .awaitLimiter _ => False
  | .closeAggregator _ => False
  | .leaveAggregator _ => False
  | .awaitAggregator _ => False
  | .closeClient => False
  | .awaitTaskGroup => False
  | _ => True

/-- A pipeline none of whose contexts has been left. -/
structure Pipeline.Open (p : Pipeline) : Prop where
  limiter : p.limiter.closed = false
  aggregator : p.aggregator.entered = true

/-- Nothing is closed, dropped or forgotten on the way from `s` to `s'`. -/
structure Grows (s s' : Shared) : Prop where
  taskGroup : s'.taskGroup = s.taskGroup
  dropped : s'.dropped = s.dropped
  isOpen : (∀ stream p, s.pipelines.get? stream = some p → p.Open) →
    ∀ stream p, s'.pipelines.get? stream = some p → p.Open
  grounded : ∀ w : Work, w.Grounded s → w.Grounded s'

theorem Grows.refl (s : Shared) : Grows s s := ⟨rfl, rfl, fun h => h, fun _ h => h⟩

theorem Grows.trans {s s' s'' : Shared} (h : Grows s s') (h' : Grows s' s'') : Grows s s'' :=
  ⟨h'.taskGroup.trans h.taskGroup, h'.dropped.trans h.dropped, fun ho => h'.isOpen (h.isOpen ho),
    fun w hw => h'.grounded w (h.grounded w hw)⟩

/-- Only the pipelines matter to a frame. -/
theorem Work.Grounded.congr {s s' : Shared}
    (h : ∀ stream p shardKey, s.pipelines.get? stream = some p →
      p.aggregator.reducers.get? shardKey ≠ none → ∃ p', s'.pipelines.get? stream = some p' ∧
        p'.aggregator.reducers.get? shardKey ≠ none)
    {w : Work} (hw : w.Grounded s) : w.Grounded s' := by
  cases w with
  | reducerAdd stream shardKey buffered =>
    obtain ⟨p, hp, hr⟩ := hw
    exact h stream p shardKey hp hr
  | _ => exact hw

/-- Only the task group, what was dropped and the pipelines matter. -/
theorem Grows.of_pipelines {s s' : Shared} (htg : s'.taskGroup = s.taskGroup)
    (hdropped : s'.dropped = s.dropped) (hpipelines : s'.pipelines = s.pipelines) : Grows s s' := by
  refine ⟨htg, hdropped, ?_, fun w hw => hw.congr fun stream p shardKey hp hr => ⟨p, ?_, hr⟩⟩
  · rw [hpipelines]
    exact id
  · rwa [hpipelines]

/-- A pipeline that stays open and forgets no Reducer. -/
theorem grows_setPipeline {s : Shared} {stream : String} {p p' : Pipeline}
    (hp : s.pipelines.get? stream = some p) (hopen : p.Open → p'.Open)
    (hkeys : ∀ shardKey, p.aggregator.reducers.get? shardKey ≠ none →
      p'.aggregator.reducers.get? shardKey ≠ none) : Grows s (s.setPipeline stream p') := by
  refine ⟨rfl, rfl, fun ho stream' q hq => ?_,
    fun w hw => hw.congr fun stream' q shardKey hq hr => ?_⟩
  · simp only [Shared.setPipeline, Dict.get?_set] at hq
    split at hq
    · obtain rfl := Option.some.inj hq
      exact hopen (ho stream p hp)
    · exact ho stream' q hq
  · by_cases hs : stream' = stream
    · subst hs
      obtain rfl := Option.some.inj (hp.symm.trans hq)
      exact ⟨p', by simp [Shared.setPipeline], hkeys shardKey hr⟩
    · exact ⟨q, by simp [Shared.setPipeline, Dict.get?_set_ne _ _ hs, hq], hr⟩

/-- A new pipeline is open. -/
theorem grows_entering {s : Shared} {stream : String} (hnone : s.pipelines.get? stream = none)
    (sys : System) : Grows s (entering sys s stream) := by
  refine ⟨rfl, rfl, fun ho stream' q hq => ?_,
    fun w hw => hw.congr fun stream' q shardKey hq hr => ?_⟩
  · simp only [entering, Shared.setPipeline, Dict.get?_set] at hq
    split at hq
    · obtain rfl := Option.some.inj hq
      exact ⟨rfl, rfl⟩
    · exact ho stream' q hq
  · have hs : stream' ≠ stream := by
      rintro rfl
      simp [hnone] at hq
    exact ⟨q, by simp [entering, Shared.setPipeline, Dict.get?_set_ne _ _ hs, hq], hr⟩

/-! ## Operations of the stages -/

theorem onReducer_keeps {cfg : Aggregator.Config} {shardKey : Option ShardId}
    {op : Reducer.Op BufferedRecord} {a a' : Aggregator.State} {closed : Option AggregatedBatch}
    (h : Aggregator.onReducer cfg shardKey op a = some (a', closed)) :
    a'.entered = a.entered ∧ ∀ key, a.reducers.get? key ≠ none → a'.reducers.get? key ≠ none := by
  obtain ⟨r, r', closed', hr, _, hout⟩ := Aggregator.onReducer_eq_some h
  obtain ⟨rfl, rfl⟩ := Prod.mk.inj hout
  refine ⟨rfl, fun key hkey => ?_⟩
  simp only [Dict.get?_set]
  split <;> simp_all

theorem getOrCreateReducer_keeps {cfg : Aggregator.Config} {shardKey : Option ShardId}
    {a a' : Aggregator.State} (h : Aggregator.getOrCreateReducer cfg shardKey a = some a') :
    a'.entered = a.entered ∧ a'.reducers.get? shardKey ≠ none ∧
      ∀ key, a.reducers.get? key ≠ none → a'.reducers.get? key ≠ none := by
  unfold Aggregator.getOrCreateReducer at h
  split at h
  · rename_i r hr
    obtain rfl := Option.some.inj h
    exact ⟨rfl, by simp [hr], fun _ h => h⟩
  · split at h
    · obtain rfl := Option.some.inj h
      refine ⟨rfl, by simp, fun key hkey => ?_⟩
      simp only [Dict.get?_set]
      split <;> simp_all
    · simp at h

/-- A new pipeline has no record yet, and a registered one needs a Reducer first. -/
theorem submit_grows {sys : System} {input : Input} {call : PutCall} {p : Pipeline}
    {s s' : Shared} {push : List Work} {spawn : Option Task}
    (hp : s.pipelines.get? call.stream = some p)
    (h : submit sys input call p s = .next s' push spawn) :
    Grows s s' ∧ (∀ v ∈ push, v.Grounded s') ∧ spawn = none := by
  unfold submit at h
  split at h
  · simp at h
  · rename_i buffered hbuild
    obtain ⟨rfl, rfl, rfl⟩ := (Ran.next.injEq ..).mp h
    have hgrows : Grows s (s.setPipeline call.stream
        { p with pending := p.pending.set buffered.ident call.number }) :=
      grows_setPipeline hp (fun ho => ⟨ho.limiter, ho.aggregator⟩) fun _ h => h
    refine ⟨hgrows.trans (.of_pipelines rfl rfl rfl), ?_, rfl⟩
    simp [Work.Grounded]

theorem finish_grows (stream : String) (buffered : BufferedRecord) (s : Shared) :
    Grows s (finish stream buffered s) := by
  cases hp : s.pipelines.get? stream with
  | none =>
    simp only [finish, hp]
    exact .of_pipelines rfl rfl rfl
  | some p =>
    have hgrows : Grows s (s.setPipeline stream
        { p with pending := p.pending.erase buffered.ident }) :=
      grows_setPipeline hp (fun ho => ⟨ho.limiter, ho.aggregator⟩) fun _ h => h
    rw [finish_eq hp]
    exact hgrows.trans (.of_pipelines rfl rfl rfl)

/-! ## Running a frame -/

/-- What a frame comes to is grounded. -/
structure Stays (s s' : Shared) (push : List Work) (spawn : Option Task) : Prop where
  grows : Grows s s'
  push : ∀ v ∈ push, v.Grounded s'
  spawn : ∀ t, spawn = some t → ∀ v ∈ t.work, v.Grounded s'

theorem Stays.of_plain {s s' : Shared} {push : List Work} (hgrows : Grows s s')
    (hpush : ∀ v ∈ push, v.Grounded s') : Stays s s' push none :=
  ⟨hgrows, hpush, by simp⟩

theorem collectorBatch_stays {stream : String} {closed : Option PutRecordsBatch}
    {s s' s0 : Shared} {push : List Work} {spawn : Option Task} (hgrows : Grows s0 s)
    (h : collectorBatch stream closed s = .next s' push spawn) : Stays s0 s' push spawn := by
  cases closed with
  | none =>
    simp only [collectorBatch, Ran.next.injEq] at h
    obtain ⟨rfl, rfl, rfl⟩ := h
    exact .of_plain hgrows (by simp)
  | some batch =>
    simp only [collectorBatch] at h
    split at h
    · simp only [Ran.next.injEq] at h
      obtain ⟨rfl, rfl, rfl⟩ := h
      exact ⟨hgrows, by simp, by rintro t ⟨⟩; simp [Work.Grounded]⟩
    · simp at h

/-- **Before the exit** a frame drops nothing, closes nothing and forgets nothing. -/
theorem exec_next_stays {sys : System} {input : Input} {id : Nat} {s s' : Shared} {w : Work}
    {push : List Work} {spawn : Option Task} (hw : w.Grounded s)
    (hbuild : ∀ call, w = .buildPipeline call → s.pipelines.get? call.stream = none)
    (h : exec sys input id s w = some (.next s' push spawn)) : Stays s s' push spawn := by
  cases exec_runs h with
  | acquire | resume | building =>
    exact .of_plain (.of_pipelines rfl rfl rfl) (by simp [Work.Grounded])
  | getPipeline _ hp hsubmit =>
    obtain ⟨hgrows, hpush, rfl⟩ := submit_grows hp hsubmit
    exact .of_plain hgrows hpush
  | @buildPipeline call _ _ _ hsubmit =>
    obtain ⟨hgrows, hpush, rfl⟩ := submit_grows (entering_stream sys s call.stream) hsubmit
    exact .of_plain ((grows_entering (hbuild call rfl) sys).trans hgrows) hpush
  | @getReducer stream shardKey buffered p aggregator hp hfound =>
    obtain ⟨hentered, hmade, hkeys⟩ := getOrCreateReducer_keeps hfound
    refine .of_plain (grows_setPipeline hp (fun ho => ⟨ho.limiter, hentered.trans ho.aggregator⟩)
      hkeys) fun v hv => ?_
    obtain rfl := List.mem_singleton.mp hv
    exact ⟨{ p with aggregator }, by simp [Shared.setPipeline], hmade⟩
  | reducerAdd hp hop | flushReducer hp hop =>
    obtain ⟨hentered, hkeys⟩ := onReducer_keeps hop
    exact .of_plain (grows_setPipeline hp (fun ho => ⟨ho.limiter, hentered.trans ho.aggregator⟩)
      hkeys) (List.forall_mem_map.mpr fun _ _ => trivial)
  | reducerForgotten hp hforgotten =>
    -- the Reducer is there
    obtain ⟨p, hp', hr⟩ := hw
    obtain rfl := Option.some.inj (hp.symm.trans hp')
    obtain ⟨r, hr⟩ := Option.ne_none_iff_exists'.mp hr
    simp [Aggregator.onReducer, hr, Reducer.step] at hforgotten
  | @limiterPut stream _ _ hp =>
    refine ⟨grows_setPipeline hp (fun ho => ⟨ho.limiter, ho.aggregator⟩) fun _ h => h, ?_, ?_⟩
    · exact forall_dispatch fun _ _ => ⟨trivial, trivial⟩
    · intro t ht
      split at ht
      · obtain rfl := Option.some.inj ht
        simp [Work.Grounded]
      · simp at ht
  | limiterExpired | flushAggregator =>
    exact .of_plain (.refl s) (List.forall_mem_map.mpr fun _ _ => trivial)
  | inFlight => exact .of_plain (.refl s) (forall_handling (fun _ _ => trivial) trivial)
  | limiterAdmit hp hbatch | flushCollector hp hbatch =>
    refine collectorBatch_stays ?_ hbatch
    exact grows_setPipeline hp (fun ho => ⟨ho.limiter, ho.aggregator⟩) fun _ h => h
  | onFinish stream buffered result => exact .of_plain (finish_grows stream buffered s) (by simp)
  | onRetry | send => exact .of_plain (.refl s) (by simp [Work.Grounded])
  | flushPipelines =>
    exact .of_plain (.refl s)
      (forall_flushPipelines (fun _ _ => ⟨trivial, trivial, trivial⟩) trivial)
  | @flushLimiter stream _ hp =>
    exact .of_plain (grows_setPipeline hp (fun ho => ⟨ho.limiter, ho.aggregator⟩) fun _ h => h)
      (forall_dispatchAll fun _ _ _ _ => ⟨trivial, trivial⟩)
  | @drainTick stream _ hp =>
    refine .of_plain (grows_setPipeline hp (fun ho => ⟨ho.limiter, ho.aggregator⟩) fun _ h => h)
      (List.forall_mem_append.mpr ⟨?_, List.forall_mem_singleton.mpr trivial⟩)
    exact forall_dispatchAll fun _ _ _ _ => ⟨trivial, trivial⟩
  | invalidate | nothingToFlush | checkpoint => exact .of_plain (.refl s) (by simp)
  | unwind | leaveContext | leftContexts | closeCollector | awaitCollector | closeLimiter
  | awaitLimiter | closeAggregator | leaveAggregator | awaitAggregator | closeClient
  | awaitTaskGroup => exact hw.elim

/-- Nor does it if it raises, and it raises for no want of a stage. -/
theorem exec_raises_stays {sys : System} {input : Input} {id : Nat} {s s' : Shared} {w : Work}
    {left : List Work} (hw : w.Grounded s) (htg : s.taskGroup = true)
    (hopen : ∀ stream p, s.pipelines.get? stream = some p → p.Open)
    (hbuild : ∀ call, w = .buildPipeline call → s.pipelines.get? call.stream = none)
    (h : exec sys input id s w = some (.raises s' left)) :
    Grows s s' ∧ ((w.call?.isSome ∧ left = []) ∨ (w.owner = some .send ∧ left = [w])) := by
  cases exec_raising h with
  | getPipeline _ _ hsubmit =>
    obtain ⟨rfl, rfl⟩ := submit_raises hsubmit
    exact ⟨.refl _, Or.inl ⟨rfl, rfl⟩⟩
  | buildFails => exact ⟨.of_pipelines rfl rfl rfl, Or.inl ⟨rfl, rfl⟩⟩
  | @buildPipeline call _ _ hsubmit =>
    obtain ⟨rfl, rfl⟩ := submit_raises hsubmit
    exact ⟨grows_entering (hbuild call rfl) sys, Or.inl ⟨rfl, rfl⟩⟩
  | getReducer hp hnone =>
    have hentered := (hopen _ _ hp).aggregator
    unfold Aggregator.getOrCreateReducer at hnone
    split at hnone <;> simp [hentered] at hnone
  | limiterAdmit _ hbatch | flushCollector _ hbatch =>
    have hunset : s.taskGroup = false := (collectorBatch_raises hbatch).2.1
    rw [htg] at hunset
    cases hunset
  | inFlight => exact ⟨.refl _, Or.inr ⟨rfl, rfl⟩⟩
  | handleRaises => exact ⟨.refl _, Or.inr ⟨rfl, rfl⟩⟩

end Producer

end Aiokpl
