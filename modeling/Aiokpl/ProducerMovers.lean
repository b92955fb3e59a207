import Aiokpl.ProducerRequests

/-!
# Nothing is stranded

Before an exit begins, whatever has been put, flushed, cancelled or answered, and in
whatever order, every record that the producer still has is where something will move
it on: a batch that is being filled has a live timer, armed for no later than its
earliest deadline; a queue has its drain task; and a task that has records in hand can
run its next frame, whatever that frame reads.
-/

namespace Aiokpl

open Lib Aggregation

namespace Reducer

variable {I B : Type} [Batchable I] [Batch I B]

omit [Batchable I] in
theorem init_armed (cfg : Config I B) : Armed (init cfg) where
  nodup := by simp [init]
  fresh := by simp [init]
  dispatching := by simp [init]
  current := by simp [init]
  guarded := by simp [init, cfg.fresh]

/-- Only `aclose` closes a Reducer. -/
theorem step_isClosed {cfg : Config I B} {r : State B} {op : Op I} {out : State B × Option B}
    (hop : op ≠ .aclose) (hstep : step cfg r op = some out) : out.1.closed = r.closed := by
  cases step_turn hstep with
  | adds now item =>
    simp only [add]
    split <;> simp
  | flushes now =>
    simp only [flush]
    split <;> simp
  | closes => exact absurd rfl hop
  | wakes =>
    simp only [wake]
    split <;> rfl
  | fires now =>
    simp only [fire]
    split
    · rfl
    split
    · rfl
    split
    · rfl
    · exact packAndSplit_isClosed cfg now { r with timerScope := none }
  | dispatched => rfl
  | cancelled => rfl

/-- A live timer will close a batch of the items, no later than the earliest is due or,
    if that has passed, than it was armed. -/
def Guarded (cfg : Config I B) (r : State B) : Prop :=
  ∃ t ∈ r.timers, WouldFire cfg r t ∧ ∃ delay due, t.delay = some delay ∧
    earliest (Batch.items r.active) = some due ∧ t.armedAt + delay ≤ max t.armedAt due

theorem Armed.isGuarded [CountsItems I B] [ReportsEarliest I B] {cfg : Config I B} {r : State B}
    (h : Armed r) (hopen : r.closed = false) (hne : Batch.items r.active ≠ []) : Guarded cfg r := by
  obtain ⟨scope, hscope⟩ := Option.ne_none_iff_exists'.mp (h.guarded hopen hne)
  obtain ⟨t, ht, rfl, hcur⟩ := h.current hopen scope hscope
  have hcount : Batch.count r.active ≠ 0 := by
    simpa [CountsItems.count_eq] using hne
  have hfire : WouldFire cfg r t := by
    refine ⟨hcur.live, hcur.early, fun now => ?_⟩
    exact fire_isSome_iff.mpr ⟨hopen, hscope, hcount⟩
  obtain ⟨due, hdue⟩ : ∃ due, earliest (Batch.items r.active) = some due := by
    rw [← Option.ne_none_iff_exists']
    simpa [earliest, List.min?_eq_none_iff] using hne
  have hdelay := hcur.delay_eq
  rw [ReportsEarliest.deadline_eq, hdue] at hdelay
  exact ⟨t, ht, hfire, _, due, hdelay, hdue, (armedAt_add_delay rfl).le⟩

end Reducer

namespace Limiter

/-- What is queued comes with a drain task, until `aclose`. -/
def DrainStarted (l : State) : Prop :=
  l.closed = false ∧ Queued (fun _ _ => l.drainStarted = true) l.shards

theorem put_drainStarted (cfg : Config) (t : PutReadings) {batch : AggregatedBatch} {l : State}
    (h : DrainStarted l) : DrainStarted (put cfg t batch l).1 := by
  have hstarted : (put cfg t batch l).1.drainStarted = true := by
    simp [put, h.1]
  exact ⟨h.1, fun _ _ _ _ _ => hstarted⟩

theorem drainAll_drainStarted (t : Option ShardId → Readings) {l : State} (h : DrainStarted l) :
    DrainStarted (drainAll t l).1 := by
  refine ⟨h.1, ?_⟩
  exact (drainEach_queued (fun key s => ShardLimiter.drain_perm (t key) s) l.shards.keys h.2).1

theorem flush_drainStarted (now : Option ShardId → Time) {l : State} (h : DrainStarted l) :
    DrainStarted (flush now l).1 := by
  refine ⟨h.1, ?_⟩
  exact (drainEach_queued (fun key s => ShardLimiter.drainForce_perm (now key) s) l.shards.keys
    h.2).1

end Limiter

namespace Producer

/-! ## What the stages keep -/

/-- In every run the Reducers keep their timers right. -/
def arming (cfg : Config) : StageLaw cfg where
  reducer _ := Reducer.Armed
  limiter _ := True
  collector := Reducer.Armed
  batch _ := True
  request _ := True
  closing := True
  reducer_init _ := Reducer.init_armed _
  reducer_step hr _ hstep := ⟨Reducer.step_armed hr hstep, fun _ _ => trivial⟩
  forgotten _ _ _ _ _ := trivial
  limiter_init := trivial
  limiter_put _ _ _ _ _ := ⟨trivial, fun _ _ => trivial⟩
  limiter_drain _ _ _ := ⟨trivial, fun _ _ _ _ => trivial⟩
  limiter_flush _ _ _ := ⟨trivial, fun _ _ _ _ => trivial⟩
  limiter_close _ _ := trivial
  collector_init := Reducer.init_armed _
  collector_step hc _ _ hstep := ⟨Reducer.step_armed hc hstep, fun _ _ => trivial⟩
  collector_close _ hc := Reducer.aclose_armed hc.toTimersSound

/-- Before an exit the stages are open, and a Limiter that queues has its drain task. -/
def opening (cfg : Config) : StageLaw cfg where
  reducer _ r := r.closed = false
  limiter := Limiter.DrainStarted
  collector c := c.closed = false
  batch _ := True
  request _ := True
  closing := False
  reducer_init _ := rfl
  reducer_step hr hop hstep := ⟨(Reducer.step_isClosed hop hstep).trans hr, fun _ _ => trivial⟩
  forgotten _ _ _ _ _ := trivial
  limiter_init := ⟨rfl, fun _ _ hl => by cases hl⟩
  limiter_put t _ _ hl _ := ⟨Limiter.put_drainStarted cfg.limiter t hl, fun _ _ => trivial⟩
  limiter_drain t _ hl := ⟨Limiter.drainAll_drainStarted t hl, fun _ _ _ _ => trivial⟩
  limiter_flush now _ hl := ⟨Limiter.flush_drainStarted now hl, fun _ _ _ _ => trivial⟩
  limiter_close h _ := h.elim
  collector_init := rfl
  collector_step hc hop _ hstep := ⟨(Reducer.step_isClosed hop hstep).trans hc, fun _ _ => trivial⟩
  collector_close h _ := h.elim

/-! ## The frames of a task -/

/-- The frames with which a call begins; such a frame may have to wait. -/
def Work.enters : Work → Bool
  | .acquire _ => true
  | .resume _ => true
  | .getPipeline _ => true
  | .buildPipeline _ => true
  | .flushPipelines => true
  | _ => false

def Work.ticks : Work → Bool
  | .drainTick _ => true
  | _ => false

/-- The frames that a task runs once it has begun. -/
def Work.goesOn (w : Work) : Prop := w.enters = false ∧ w.ticks = false

/-- What a task does again and again. -/
def TaskKind.loop : TaskKind → List Work
  | .drain stream => [.drainTick stream]
  | _ => []

/-- The frames of a task: a call that begins has no record in hand, and a drain task
    ends with its next tick. -/
inductive Shaped (kind : TaskKind) : List Work → Prop
  | entering {w : Work} {rest : List Work} : w.enters = true → kind.loop = [] →
      (∀ v ∈ rest, v.goesOn ∧ v.tokens = []) → Shaped kind (w :: rest)
  | going {front : List Work} : (∀ v ∈ front, v.goesOn) → Shaped kind (front ++ kind.loop)

theorem Shaped.single {kind : TaskKind} {w : Work} (hw : w.goesOn) (hloop : kind.loop = []) :
    Shaped kind [w] := by
  have hshaped : Shaped kind ([w] ++ kind.loop) := by
    apply Shaped.going
    simpa using hw
  rwa [hloop, List.append_nil] at hshaped

/-- A drain task starts with its first tick. -/
theorem Shaped.started (stream : String) : Shaped (.drain stream) [.drainTick stream] := by
  have hshaped : Shaped (.drain stream) ([] ++ TaskKind.loop (.drain stream)) := by
    apply Shaped.going
    simp
  exact hshaped

/-- The stream whose stages the frame, or a frame that comes of it, works on.  The frames
    of `__aexit__` are left out. -/
def Work.stream? : Work → Option String
  | .getReducer stream _ _ => some stream
  | .reducerAdd stream _ _ => some stream
  | .limiterPut stream _ => some stream
  | .limiterExpired stream _ => some stream
  | .limiterAdmit stream _ => some stream
  | .callback stream _ => some stream
  | .flushAggregator stream => some stream
  | .flushReducer stream _ => some stream
  | .flushLimiter stream => some stream
  | .flushCollector stream => some stream
  | .drainTick stream => some stream
  | .send stream _ => some stream
  | .inFlight stream _ _ => some stream
  | _ => none

/-- The stream has been entered. -/
def Shared.Placed (s : Shared) (w : Work) : Prop :=
  ∀ stream ∈ w.stream?, s.pipelines.get? stream ≠ none

/-- The streams stay, and a drain task comes with what starts it. -/
structure Tends (s s' : Shared) (spawn : Option Task) : Prop where
  streams : ∀ stream, s.pipelines.get? stream ≠ none → s'.pipelines.get? stream ≠ none
  drains : ∀ stream p', s'.pipelines.get? stream = some p' → p'.limiter.drainStarted = true →
    (∃ p, s.pipelines.get? stream = some p ∧ p.limiter.drainStarted = true) ∨
      spawn = some { kind := .drain stream, work := [.drainTick stream] }

theorem Tends.of_pipelines {s s' : Shared} (h : s'.pipelines = s.pipelines) (spawn : Option Task) :
    Tends s s' spawn := by
  constructor
  · intro stream hstream
    rwa [h]
  · intro stream p' hp' hstarted
    rw [h] at hp'
    exact Or.inl ⟨p', hp', hstarted⟩

theorem Tends.setPipeline {s s' : Shared} {stream : String} {p p' : Pipeline}
    {spawn : Option Task} (hp : s.pipelines.get? stream = some p)
    (hs' : s'.pipelines = s.pipelines.set stream p')
    (hdrains : p'.limiter.drainStarted = true → p.limiter.drainStarted = true ∨
      spawn = some { kind := .drain stream, work := [.drainTick stream] }) : Tends s s' spawn := by
  constructor
  · intro stream' hstream'
    rw [hs', Dict.get?_set]
    split
    · simp
    · exact hstream'
  · intro stream' p'' hp'' hstarted
    rw [hs', Dict.get?_set] at hp''
    split at hp''
    · rename_i hsame
      obtain rfl := Option.some.inj hp''
      rw [hsame]
      exact (hdrains hstarted).imp_left fun h => ⟨p, hp, h⟩
    · exact Or.inl ⟨p'', hp'', hstarted⟩

/-- Only the stages of one pipeline change, and no drain is started. -/
theorem Tends.stage {s s' : Shared} {stream : String} {p p' : Pipeline} {spawn : Option Task}
    (hp : s.pipelines.get? stream = some p) (hs' : s'.pipelines = s.pipelines.set stream p')
    (hsame : p'.limiter.drainStarted = p.limiter.drainStarted) : Tends s s' spawn :=
  .setPipeline hp hs' fun h => Or.inl (hsame ▸ h)

theorem Tends.entering (sys : System) (s : Shared) (stream : String) :
    Tends s (entering sys s stream) none := by
  constructor
  · intro stream' hstream'
    rw [Producer.entering, Shared.setPipeline, Dict.get?_set]
    split
    · simp
    · exact hstream'
  · intro stream' p' hp' hstarted
    rw [Producer.entering, Shared.setPipeline, Dict.get?_set] at hp'
    split at hp'
    · obtain rfl := Option.some.inj hp'
      cases hstarted
    · exact Or.inl ⟨p', hp', hstarted⟩

theorem Tends.trans {s s' s'' : Shared} {spawn : Option Task} (h : Tends s s' none)
    (h' : Tends s' s'' spawn) : Tends s s'' spawn := by
  constructor
  · exact fun stream hstream => h'.streams stream (h.streams stream hstream)
  · intro stream p'' hp'' hstarted
    rcases h'.drains stream p'' hp'' hstarted with ⟨p', hp', hstarted'⟩ | hspawn
    · rcases h.drains stream p' hp' hstarted' with hold | hnone
      · exact Or.inl hold
      · cases hnone
    · exact Or.inr hspawn

/-! ## What a frame does to them -/

section Exec

variable {sys : System} {input : Input} {id : Nat} {s s' : Shared} {w : Work} {push : List Work}
  {spawn : Option Task}

/-- What comes after the first frame of a task. -/
inductive Follows : Work → List Work → Prop
  | enters {w v : Work} : w.enters = true → v.enters = true → Follows w [v]
  | goesOn {w : Work} {push : List Work} : w.ticks = false → (∀ v ∈ push, v.goesOn) →
      Follows w push
  | ticks {stream : String} {front : List Work} : (∀ v ∈ front, v.goesOn) →
      Follows (.drainTick stream) (front ++ [.drainTick stream])

theorem Shaped.follows {kind : TaskKind} {rest : List Work} (h : Shaped kind (w :: rest))
    (hfollows : Follows w push) : Shaped kind (push ++ rest) := by
  generalize hwork : w :: rest = work at h
  cases h with
  | @entering w' rest' henters hloop hrest =>
    obtain ⟨rfl, rfl⟩ := List.cons.inj hwork
    cases hfollows with
    | enters _ hv => exact .entering hv hloop hrest
    | goesOn _ hpush =>
      have hgoing : ∀ v ∈ push ++ rest, v.goesOn := by
        intro v hv
        rcases List.mem_append.mp hv with hv | hv
        · exact hpush v hv
        · exact (hrest v hv).1
      have hshaped : Shaped kind (_ ++ kind.loop) := .going hgoing
      rwa [hloop, List.append_nil] at hshaped
    | ticks => cases henters
  | @going front hfront =>
    cases front with
    | nil =>
      -- the next tick of a drain task
      cases kind with
      | drain stream =>
        obtain ⟨rfl, rfl⟩ := List.cons.inj hwork
        cases hfollows with
        | enters henters => cases henters
        | goesOn hticks => cases hticks
        | ticks hpush =>
          rw [List.append_nil]
          exact .going hpush
      | putRecord | flush | exit | reducerTimer _ _ _ | send => cases hwork
    | cons v front =>
      obtain ⟨rfl, rfl⟩ := List.cons.inj hwork
      obtain ⟨henters, hticks⟩ := hfront w List.mem_cons_self
      cases hfollows with
      | enters hw =>
        rw [henters] at hw
        cases hw
      | goesOn _ hpush =>
        have hgoing : ∀ v ∈ push ++ front, v.goesOn := by
          intro v hv
          rcases List.mem_append.mp hv with hv | hv
          · exact hpush v hv
          · exact hfront v (List.mem_cons_of_mem w hv)
        exact List.append_assoc push front kind.loop ▸ Shaped.going hgoing
      | ticks => cases hticks

/-- What running a frame does to the shape of its task, and to the streams. -/
structure Moves (s : Shared) (w : Work) (s' : Shared) (push : List Work) (spawn : Option Task) :
    Prop where
  tends : Tends s s' spawn
  follows : Follows w push
  placed : ∀ v ∈ push, s'.Placed v
  spawn : ∀ t, spawn = some t → Shaped t.kind t.work ∧ ∀ v ∈ t.work, s'.Placed v

theorem Tends.placed {spawn : Option Task} (h : Tends s s' spawn) (hw : s.Placed w) :
    s'.Placed w :=
  fun stream hstream => h.streams stream (hw stream hstream)

/-- The frames that are pushed work on the stream of the frame. -/
theorem Moves.same {stream : String} (htends : Tends s s' none) (hfollows : Follows w push)
    (hw : s.pipelines.get? stream ≠ none) (hpush : ∀ v ∈ push, ∀ stream' ∈ v.stream?,
      stream' = stream) : Moves s w s' push none := by
  refine ⟨htends, hfollows, fun v hv stream' hstream' => ?_, by simp⟩
  rw [hpush v hv stream' hstream']
  exact htends.streams stream hw

/-- A frame of this stream that neither enters nor ticks. -/
theorem goesOn_of_stream {stream : String} {v : Work} (hgoes : v.goesOn)
    (hstream : v.stream? = some stream) :
    v.goesOn ∧ ∀ stream' ∈ v.stream?, stream' = stream := by
  refine ⟨hgoes, fun stream' hstream' => ?_⟩
  rw [hstream] at hstream'
  exact (Option.some.inj hstream').symm

theorem goesOn_map {α : Type} {stream : String} {frame : α → Work}
    (hgoes : ∀ x, (frame x).goesOn) (hstream : ∀ x, (frame x).stream? = some stream)
    (xs : List α) : ∀ v ∈ xs.map frame, v.goesOn ∧ ∀ stream' ∈ v.stream?, stream' = stream :=
  List.forall_mem_map.mpr fun x _ => goesOn_of_stream (hgoes x) (hstream x)

theorem goesOn_dispatch (stream : String) (drained : Limiter.Drained) :
    ∀ v ∈ dispatch stream drained, v.goesOn ∧ ∀ stream' ∈ v.stream?, stream' = stream :=
  forall_dispatch fun _ _ => ⟨goesOn_of_stream ⟨rfl, rfl⟩ rfl, goesOn_of_stream ⟨rfl, rfl⟩ rfl⟩

theorem goesOn_dispatchAll (stream : String) (drained : List Limiter.Drained) :
    ∀ v ∈ drained.flatMap (dispatch stream),
      v.goesOn ∧ ∀ stream' ∈ v.stream?, stream' = stream :=
  forall_dispatchAll fun _ _ _ _ =>
    ⟨goesOn_of_stream ⟨rfl, rfl⟩ rfl, goesOn_of_stream ⟨rfl, rfl⟩ rfl⟩

theorem submit_moves {call : PutCall} {p : Pipeline}
    (hw : w.ticks = false) (hp : s.pipelines.get? call.stream = some p)
    (h : submit sys input call p s = .next s' push spawn) : Moves s w s' push spawn := by
  unfold submit at h
  split at h
  · cases h
  · obtain ⟨rfl, rfl, rfl⟩ := (Ran.next.injEq ..).mp h
    have hstream : s.pipelines.get? call.stream ≠ none := by
      rw [hp]
      simp
    exact .same (.stage hp rfl rfl) (.goesOn hw (by simp [Work.goesOn, Work.enters, Work.ticks]))
      hstream (by simp [Work.stream?])

theorem collectorBatch_moves {stream : String} {closed : Option PutRecordsBatch}
    {s₀ : Shared} (hw : w.ticks = false) (htends : Tends s₀ s none)
    (hstream : s₀.pipelines.get? stream ≠ none)
    (h : collectorBatch stream closed s = .next s' push spawn) : Moves s₀ w s' push spawn := by
  obtain ⟨rfl, rfl, _, _⟩ := collectorBatch_next h
  have htends' : Tends s₀ s' spawn := by
    refine ⟨htends.streams, fun stream' p' hp' hstarted => ?_⟩
    rcases htends.drains stream' p' hp' hstarted with hold | hnone
    · exact Or.inl hold
    · cases hnone
  refine ⟨htends', .goesOn hw (by simp), by simp, ?_⟩
  rintro t rfl
  cases closed with
  | none => simp [collectorBatch] at h
  | some batch =>
    simp only [collectorBatch] at h
    split at h
    · simp only [Ran.next.injEq, Option.some.injEq, true_and] at h
      obtain rfl := h
      refine ⟨.single ⟨rfl, rfl⟩ rfl, fun v hv stream' hstream' => ?_⟩
      rw [List.mem_singleton.mp hv] at hstream'
      obtain rfl := Option.some.inj hstream'
      exact htends.streams stream hstream
    · cases h

theorem finish_tends (stream : String) (buffered : BufferedRecord) (s : Shared) :
    Tends s (finish stream buffered s) none := by
  cases hp : s.pipelines.get? stream with
  | none =>
    apply Tends.of_pipelines
    simp [finish, hp]
  | some p =>
    rw [finish_eq hp]
    exact .stage hp rfl rfl

/-- A frame of no call that begins, with frames on its own stream to come. -/
theorem Moves.stage {stream : String} {p p' : Pipeline}
    (hp : s.pipelines.get? stream = some p) (hs' : s'.pipelines = s.pipelines.set stream p')
    (hsame : p'.limiter.drainStarted = p.limiter.drainStarted) (hw : w.ticks = false)
    (hpush : ∀ v ∈ push, v.goesOn ∧ ∀ stream' ∈ v.stream?, stream' = stream) :
    Moves s w s' push none := by
  refine .same (.stage hp hs' hsame) (.goesOn hw fun v hv => (hpush v hv).1) ?_
    fun v hv => (hpush v hv).2
  rw [hp]
  simp

/-- The same for a frame that leaves the pipelines alone. -/
theorem Moves.passes {stream : String} (hs' : s'.pipelines = s.pipelines)
    (hw : s.pipelines.get? stream ≠ none) (hticks : w.ticks = false)
    (hpush : ∀ v ∈ push, v.goesOn ∧ ∀ stream' ∈ v.stream?, stream' = stream) :
    Moves s w s' push none :=
  .same (.of_pipelines hs' none) (.goesOn hticks fun v hv => (hpush v hv).1) hw
    fun v hv => (hpush v hv).2

/-- A frame that leaves the pipelines alone. -/
theorem Moves.idle (hs' : s'.pipelines = s.pipelines) (hfollows : Follows w push)
    (hpush : ∀ v ∈ push, s.Placed v) : Moves s w s' push none :=
  ⟨.of_pipelines hs' none, hfollows, fun v hv => (Tends.of_pipelines hs' none).placed (hpush v hv),
    by simp⟩

/-- **What a frame does** to the shape of its task and to the streams. -/
theorem exec_moves (hw : s.Placed w) (h : exec sys input id s w = some (.next s' push spawn)) :
    Moves s w s' push spawn := by
  cases exec_runs h with
  | acquire | resume | building =>
    exact .idle rfl (.enters rfl rfl) (by simp [Shared.Placed, Work.stream?])
  | getPipeline _ hp hsubmit => exact submit_moves rfl hp hsubmit
  | @buildPipeline call _ _ _ hsubmit =>
    have hmoves : Moves (entering sys s call.stream) (.buildPipeline call) s' push spawn :=
      submit_moves rfl (entering_stream sys s call.stream) hsubmit
    exact ⟨(Tends.entering sys s call.stream).trans hmoves.tends, hmoves.follows, hmoves.placed,
      hmoves.spawn⟩
  | getReducer hp hfound =>
    exact .stage hp rfl rfl rfl (by simp [Work.goesOn, Work.enters, Work.ticks, Work.stream?])
  | reducerAdd hp hadd =>
    exact .stage hp rfl rfl rfl (goesOn_map (fun _ => ⟨rfl, rfl⟩) (fun _ => rfl) _)
  | @reducerForgotten stream _ _ p hp =>
    refine .passes ?_ (hw stream rfl) rfl (goesOn_map (fun _ => ⟨rfl, rfl⟩) (fun _ => rfl) _)
    rfl
  | @limiterPut stream batch p hp =>
    have htends : Tends s (s.setPipeline stream
        { p with limiter := (Limiter.put sys.cfg.limiter input.put batch p.limiter).1 })
        (if (Limiter.put sys.cfg.limiter input.put batch p.limiter).2.2 then
          some { kind := .drain stream, work := [.drainTick stream] } else none) := by
      refine .setPipeline hp rfl fun hstarted => ?_
      by_cases hbefore : p.limiter.drainStarted = true
      · exact Or.inl hbefore
      · have hstarts : (Limiter.put sys.cfg.limiter input.put batch p.limiter).2.2 = true := by
          simpa [Limiter.put, hbefore] using hstarted
        exact Or.inr (if_pos hstarts)
    have hstream := htends.streams stream (by simp [hp])
    have hpush := goesOn_dispatch stream
      (Limiter.put sys.cfg.limiter input.put batch p.limiter).2.1
    refine ⟨htends, .goesOn rfl fun v hv => (hpush v hv).1,
      fun v hv stream' hstream' => ?_, ?_⟩
    · rw [(hpush v hv).2 stream' hstream']
      exact hstream
    · intro t ht
      split at ht
      · obtain rfl := Option.some.inj ht
        refine ⟨.started stream, fun v hv stream' hstream' => ?_⟩
        rw [List.mem_singleton.mp hv] at hstream'
        obtain rfl := Option.some.inj hstream'
        exact hstream
      · cases ht
  | limiterExpired stream batch =>
    exact .passes rfl (hw stream rfl) rfl (goesOn_map (fun _ => ⟨rfl, rfl⟩) (fun _ => rfl) _)
  | @limiterAdmit stream batch p _ _ _ hp hbatch =>
    refine collectorBatch_moves rfl ?_ (hw stream rfl) hbatch
    exact .stage hp rfl rfl
  | onFinish stream buffered result =>
    exact ⟨finish_tends stream buffered s, .goesOn rfl (by simp), by simp, by simp⟩
  | onRetry stream buffered =>
    exact .passes rfl (hw stream rfl) rfl
      (List.forall_mem_singleton.mpr (goesOn_of_stream ⟨rfl, rfl⟩ rfl))
  | flushPipelines =>
    refine .idle rfl (.goesOn rfl ?_) (forall_flushPipelines (fun stream hstream => ?_) ?_)
    · exact forall_flushPipelines (fun _ _ => ⟨⟨rfl, rfl⟩, ⟨rfl, rfl⟩, ⟨rfl, rfl⟩⟩) ⟨rfl, rfl⟩
    · have hplaced : s.pipelines.get? stream ≠ none := by
        rw [Ne, Dict.get?_eq_none_iff, not_not]
        exact hstream
      simp [Shared.Placed, Work.stream?, hplaced]
    · simp [Shared.Placed, Work.stream?]
  | @flushAggregator stream p hp =>
    exact .passes rfl (hw stream rfl) rfl (goesOn_map (fun _ => ⟨rfl, rfl⟩) (fun _ => rfl) _)
  | flushReducer hp hflush =>
    exact .stage hp rfl rfl rfl (goesOn_map (fun _ => ⟨rfl, rfl⟩) (fun _ => rfl) _)
  | @flushLimiter stream p hp => exact .stage hp rfl rfl rfl (goesOn_dispatchAll stream _)
  | @flushCollector stream p _ _ _ hp hbatch =>
    refine collectorBatch_moves rfl ?_ (hw stream rfl) hbatch
    exact .stage hp rfl rfl
  | @drainTick stream p hp =>
    have hpush := goesOn_dispatchAll stream (Limiter.drainAll input.drain p.limiter).2
    refine .same (.stage hp rfl rfl) (.ticks fun v hv => (hpush v hv).1) (hw stream rfl)
      fun v hv => ?_
    rcases List.mem_append.mp hv with hv | hv
    · exact (hpush v hv).2
    · rw [List.mem_singleton.mp hv]
      intro stream' hstream'
      exact (Option.some.inj hstream').symm
  | send stream batch =>
    exact .passes rfl (hw stream rfl) rfl
      (List.forall_mem_singleton.mpr (goesOn_of_stream ⟨rfl, rfl⟩ rfl))
  | @inFlight stream =>
    exact .passes rfl (hw stream rfl) rfl (forall_handling
      (fun _ _ => goesOn_of_stream ⟨rfl, rfl⟩ rfl) ⟨⟨rfl, rfl⟩, by simp [Work.stream?]⟩)
  | unwind =>
    exact .idle rfl (.goesOn rfl (by simp [Work.goesOn, Work.enters, Work.ticks]))
      (by simp [Shared.Placed, Work.stream?])
  | @leaveContext context =>
    refine .idle rfl (.goesOn rfl ?_) ?_
    · cases context <;> simp [Context.leave, Work.goesOn, Work.enters, Work.ticks]
    · cases context <;> simp [Context.leave, Shared.Placed, Work.stream?]
  | closeCollector hp | closeLimiter hp | closeAggregator hp | leaveAggregator hp =>
    exact .stage hp rfl rfl rfl (by simp)
  | closeClient | invalidate | nothingToFlush | checkpoint | leftContexts | awaitCollector
  | awaitLimiter | awaitAggregator | awaitTaskGroup =>
    exact .idle rfl (.goesOn rfl (by simp)) (by simp)

theorem exec_raises_tends {left : List Work} (h : exec sys input id s w = some (.raises s' left)) :
    Tends s s' none := by
  cases exec_raising h with
  | getPipeline _ _ hsubmit =>
    obtain ⟨rfl, _⟩ := submit_raises hsubmit
    exact .of_pipelines rfl none
  | buildFails | getReducer | inFlight | handleRaises =>
    apply Tends.of_pipelines
    rfl
  | buildPipeline hsubmit =>
    obtain ⟨rfl, _⟩ := submit_raises hsubmit
    exact .entering sys s _
  | limiterAdmit hp hbatch | flushCollector hp hbatch =>
    obtain ⟨rfl, _⟩ := collectorBatch_raises hbatch
    exact .stage hp rfl rfl

end Exec

/-! ## Whole runs -/

/-- The tasks are shaped right, on streams that have been entered, and a drain that has
    been started goes on. -/
structure Tended (s : State) : Prop where
  tasks : s.crashed = false → ∀ id t, s.tasks.get? id = some t →
    Shaped t.kind t.work ∧ ∀ v ∈ t.work, s.shared.Placed v
  drains : s.crashed = false → ∀ stream p, s.shared.pipelines.get? stream = some p →
    p.limiter.drainStarted = true →
      ∃ id work, s.tasks.get? id = some { kind := .drain stream, work }

section Step

variable {sys : System} {s s' : State} {op : Op}

/-- A task is started, and the drains go on. -/
theorem Tended.spawn {spawn : Option Task} (h : Tended s) (hcrashed : s.crashed = false)
    (htends : Tends s.shared s'.shared spawn) (hfresh : s'.tasks.get? s'.nextTask = none)
    (htasks : ∀ id t, s'.tasks.get? id = some t →
      Shaped t.kind t.work ∧ ∀ v ∈ t.work, s'.shared.Placed v)
    (hkept : ∀ id stream work, s.tasks.get? id = some { kind := .drain stream, work } →
      ∃ work', s'.tasks.get? id = some { kind := .drain stream, work := work' })
    (hspawn : ∀ t, spawn = some t → Shaped t.kind t.work ∧ ∀ v ∈ t.work, s'.shared.Placed v) :
    Tended (s'.spawn spawn) := by
  have hlater : ∀ id t, s'.tasks.get? id = some t → (s'.spawn spawn).tasks.get? id = some t := by
    intro id t ht
    cases spawn with
    | none => exact ht
    | some task =>
      rw [get?_spawn, if_neg]
      · exact ht
      · rintro rfl
        rw [hfresh] at ht
        cases ht
  constructor
  · intro _ id t ht
    rw [shared_spawn]
    cases spawn with
    | none => exact htasks id t ht
    | some task =>
      rw [get?_spawn] at ht
      split at ht
      · obtain rfl := Option.some.inj ht
        exact hspawn task rfl
      · exact htasks id t ht
  · intro _ stream p' hp' hstarted
    rw [shared_spawn] at hp'
    rcases htends.drains stream p' hp' hstarted with ⟨p, hp, hbefore⟩ | rfl
    · obtain ⟨id, work, hdrain⟩ := h.drains hcrashed stream p hp hbefore
      obtain ⟨work', hdrain'⟩ := hkept id stream work hdrain
      exact ⟨id, work', hlater id _ hdrain'⟩
    · exact ⟨s'.nextTask, _, by rw [get?_spawn, if_pos rfl]⟩

theorem goOn_tends (sys : System) (id : Nat) (kind : TaskKind) (work : List Work) (s : State) :
    Tends s.shared (s.goOn sys id kind work).shared none := by
  by_cases hwork : work = []
  · subst hwork
    cases kind with
    | reducerTimer stream shardKey scope =>
      simp only [State.goOn, List.isEmpty_nil, if_true, State.finishTask, endReducerTimer]
      split
      · exact .of_pipelines rfl none
      · rename_i p hp
        split
        · exact .of_pipelines rfl none
        · exact .stage hp rfl rfl
    | putRecord | flush | exit | drain _ | send =>
      apply Tends.of_pipelines
      rfl
  · rw [goOn_of_ne hwork]
    exact .of_pipelines rfl none

/-- A task runs its next frame. -/
theorem Tended.goOn {id : Nat} {kind : TaskKind} {w : Work} {rest push : List Work}
    {shared : Shared} {spawn : Option Task} (h : Tended s) (hs : Sound s)
    (hcrashed : s.crashed = false) (hfound : s.tasks.get? id = some { kind, work := w :: rest })
    (hmoves : Moves s.shared w shared push spawn) :
    Tended (({ s with shared }.goOn sys id kind (push ++ rest)).spawn spawn) := by
  obtain ⟨hshaped, hplaced⟩ := h.tasks hcrashed id _ hfound
  have hshaped' : Shaped kind (push ++ rest) := hshaped.follows hmoves.follows
  have hgoes := goOn_tends sys id kind (push ++ rest) { s with shared }
  have htends :
      Tends s.shared ({ s with shared }.goOn sys id kind (push ++ rest)).shared spawn := by
    refine ⟨fun stream hstream => hgoes.streams stream (hmoves.tends.streams stream hstream), ?_⟩
    intro stream p'' hp'' hstarted
    rcases hgoes.drains stream p'' hp'' hstarted with ⟨p', hp', hstarted'⟩ | hnone
    · exact hmoves.tends.drains stream p' hp' hstarted'
    · cases hnone
  refine h.spawn hcrashed htends ?_ ?_ ?_ ?_
  · rw [get?_goOn, nextTask_goOn, if_neg (hs.lt_nextTask hfound).ne']
    exact (hs.fresh _ le_rfl).1
  · intro id' t ht
    rw [get?_goOn] at ht
    split at ht
    · split at ht
      · cases ht
      · obtain rfl := Option.some.inj ht
        refine ⟨hshaped', fun v hv => hgoes.placed ?_⟩
        rcases List.mem_append.mp hv with hv | hv
        · exact hmoves.placed v hv
        · exact hmoves.tends.placed (hplaced v (List.mem_cons_of_mem w hv))
    · obtain ⟨hshape, hplace⟩ := h.tasks hcrashed id' t ht
      exact ⟨hshape, fun v hv => htends.placed (hplace v hv)⟩
  · intro id' stream work hdrain
    rw [get?_goOn]
    split
    · rename_i hid
      subst hid
      obtain ⟨rfl, rfl⟩ := (Task.mk.injEq ..).mp (Option.some.inj (hfound.symm.trans hdrain))
      -- a drain task always has its next tick to come
      have hne : push ++ rest ≠ [] := by
        intro hnil
        rw [hnil] at hshaped'
        generalize hwork : ([] : List Work) = work at hshaped'
        cases hshaped' with
        | entering => cases hwork
        | going => simp [TaskKind.loop] at hwork
      exact ⟨push ++ rest, if_neg hne⟩
    · exact ⟨work, hdrain⟩
  · intro t ht
    obtain ⟨hshape, hplace⟩ := hmoves.spawn t ht
    exact ⟨hshape, fun v hv => hgoes.placed (hplace v hv)⟩

/-- A task fails: a call is gone, and anything else is a crash. -/
theorem Tended.fail {id : Nat} {kind : TaskKind} {work left : List Work} {shared : Shared}
    (h : Tended s) (hcrashed : s.crashed = false) (hfound : s.tasks.get? id = some { kind, work })
    (htends : Tends s.shared shared none) :
    Tended ({ s with shared }.fail id { kind, work } left) := by
  by_cases hcall : kind = .putRecord ∨ kind = .flush
  · have hpipelines := (fail_calls id kind work left { s with shared }).2.2.2.2
    have htends' := htends.trans (.of_pipelines hpipelines none)
    have hold : ∀ id' t, ({ s with shared }.fail id { kind, work } left).tasks.get? id' = some t →
        s.tasks.get? id' = some t := by
      intro id' t ht
      rw [get?_fail] at ht
      split at ht
      · cases ht
      · exact ht
    constructor
    · intro _ id' t ht
      obtain ⟨hshape, hplace⟩ := h.tasks hcrashed id' t (hold id' t ht)
      exact ⟨hshape, fun v hv => htends'.placed (hplace v hv)⟩
    · intro _ stream p' hp' hstarted
      rcases htends'.drains stream p' hp' hstarted with ⟨p, hp, hbefore⟩ | hnone
      · obtain ⟨id', work', hdrain⟩ := h.drains hcrashed stream p hp hbefore
        refine ⟨id', work', ?_⟩
        rw [get?_fail, if_neg]
        · exact hdrain
        · rintro rfl
          obtain ⟨rfl, rfl⟩ := (Task.mk.injEq ..).mp (Option.some.inj (hfound.symm.trans hdrain))
          simp at hcall
      · cases hnone
  · have hcrash : ({ s with shared }.fail id { kind, work } left).crashed = true := by
      cases kind with
      | putRecord => exact absurd (Or.inl rfl) hcall
      | flush => exact absurd (Or.inr rfl) hcall
      | _ => rfl
    constructor <;> (intro hnot; rw [hcrash] at hnot; cases hnot)

/-- **Before an exit** every step keeps the tasks in shape and the drains going. -/
theorem Tended.step (h : Tended s) (hrunning : Running s) (hs : Sound s) (hop : op ≠ .exit)
    (hstep : s.step sys op = some s') : Tended s' := by
  obtain ⟨hcrashed, hturn⟩ := step_turn hstep
  have hsame : Tends s.shared s.shared none := .of_pipelines rfl none
  have hcall : ∀ {kind : TaskKind} {w : Work}, kind.loop = [] → w.enters = true → w.stream? = none →
      Tended (s.spawn (some { kind, work := [w] })) := by
    intro kind w hloop henters hstream
    refine h.spawn hcrashed ⟨hsame.streams, fun stream p hp hstarted => Or.inl ⟨p, hp, hstarted⟩⟩
      (hs.fresh _ le_rfl).1 (h.tasks hcrashed) (fun id stream work hdrain => ⟨work, hdrain⟩) ?_
    rintro t ⟨⟩
    refine ⟨.entering henters hloop (by simp), fun v hv => ?_⟩
    simp [Shared.Placed, List.mem_singleton.mp hv, hstream]
  cases hturn with
  | refused => exact h
  | entered => exact hcall rfl rfl rfl
  | flushes => exact hcall rfl rfl rfl
  | exits => exact absurd rfl hop
  | @ran id input kind w rest push shared spawn hfound _ hexec =>
    have hplaced := (h.tasks hcrashed id _ hfound).2 w List.mem_cons_self
    exact h.goOn hs hcrashed hfound (exec_moves hplaced hexec)
  | raised hfound _ hexec => exact h.fail hcrashed hfound (exec_raises_tends hexec)
  | @reducerTimer stream shardKey op p aggregator closed _ hp _ =>
    have htends : Tends s.shared (s.shared.setPipeline stream { p with aggregator })
        (timerTask stream shardKey op closed) := .stage hp rfl rfl
    refine h.spawn hcrashed htends (hs.fresh _ le_rfl).1 ?_
      (fun id stream work hdrain => ⟨work, hdrain⟩) ?_
    · intro id t ht
      obtain ⟨hshape, hplace⟩ := h.tasks hcrashed id t ht
      exact ⟨hshape, fun v hv => htends.placed (hplace v hv)⟩
    · intro t ht
      unfold timerTask at ht
      split at ht
      · rename_i batch _ _
        obtain rfl := Option.some.inj ht
        refine ⟨.single ⟨rfl, rfl⟩ rfl, fun v hv stream' hstream' => ?_⟩
        rw [List.mem_singleton.mp hv] at hstream'
        obtain rfl := Option.some.inj hstream'
        exact htends.streams stream (by simp [hp])
      · cases ht
  | @collectorTimer stream op p collector closed shared push spawn _ _ hp _ hbatch =>
    have hmoves : Moves s.shared .checkpoint shared push spawn := by
      refine collectorBatch_moves rfl ?_ (by simp [hp]) hbatch
      exact .stage hp rfl rfl
    refine h.spawn hcrashed hmoves.tends (hs.fresh _ le_rfl).1 ?_
      (fun id stream work hdrain => ⟨work, hdrain⟩) hmoves.spawn
    intro id t ht
    obtain ⟨hshape, hplace⟩ := h.tasks hcrashed id t ht
    exact ⟨hshape, fun v hv => hmoves.tends.placed (hplace v hv)⟩
  | overrun => constructor <;> (intro hnot; cases hnot)
  | @answered number _ =>
    have hpipelines : (s.shared.resolve number).pipelines = s.shared.pipelines := by
      rw [resolve_eq]
    have htends : Tends s.shared (s.shared.resolve number) none := .of_pipelines hpipelines none
    constructor
    · intro _ id t ht
      obtain ⟨hshape, hplace⟩ := h.tasks hcrashed id t ht
      exact ⟨hshape, fun v hv => htends.placed (hplace v hv)⟩
    · intro _ stream p hp hstarted
      exact h.drains hcrashed stream p (hpipelines ▸ hp) hstarted
  | cancelled hfound => exact h.fail hcrashed hfound hsame
  | @stopped id stream work p _ hp hclosed =>
    rw [(hrunning.isOpen stream p hp).limiter] at hclosed
    cases hclosed

end Step

/-- Runs in which no exit begins. -/
def beforeExit (_ : State) (op : Op) : Prop := op.exits = false

instance (s : State) (op : Op) : Decidable (beforeExit s op) :=
  inferInstanceAs (Decidable (op.exits = false))

theorem start_tended {sys : System} {s : State} (h : State.start sys s) : Tended s := by
  rw [h]
  constructor
  · intro _ id t ht
    cases ht
  · intro _ stream p hp
    cases hp

theorem reachable_tended {sys : System} {s : State}
    (h : Reachable (State.start sys) (State.step sys) beforeExit s) : Running s ∧ Tended s := by
  induction h with
  | start h0 => exact ⟨start_running h0, start_tended h0⟩
  | next hprev hok hstep ih =>
    have hs := reachable_sound hprev
    exact ⟨ih.1.step hs (ne_exit hok) hstep, ih.2.step ih.1 hs (ne_exit hok) hstep⟩

/-! ## Who moves a record on -/

/-- The frame can run, whatever it reads. -/
def State.canRun (sys : System) (s : State) (id : Nat) (w : Work) : Prop :=
  s.ready w = true ∧ ∀ input, (exec sys input id s.shared w).isSome = true

/-- A frame of a task that has begun never waits. -/
theorem canRun_of_begun {sys : System} {s : State} {id : Nat} {w : Work}
    (henters : w.enters = false)
    (hplaced : s.shared.Placed w) (hgrounded : w.Grounded s.shared) : s.canRun sys id w := by
  have hstream : ∀ stream ∈ w.stream?, ∃ p, s.shared.pipelines.get? stream = some p :=
    fun stream hstream => Option.ne_none_iff_exists'.mp (hplaced stream hstream)
  cases w with
  | getReducer stream shardKey buffered =>
    obtain ⟨p, hp⟩ := hstream stream rfl
    refine ⟨rfl, fun input => ?_⟩
    simp only [exec, hp, Option.bind_eq_bind, Option.bind_some]
    split <;> rfl
  | reducerAdd stream shardKey buffered =>
    obtain ⟨p, hp⟩ := hstream stream rfl
    refine ⟨rfl, fun input => ?_⟩
    simp only [exec, hp, Option.bind_eq_bind, Option.bind_some]
    split <;> rfl
  | flushReducer stream shardKey =>
    obtain ⟨p, hp⟩ := hstream stream rfl
    refine ⟨rfl, fun input => ?_⟩
    simp only [exec, hp, Option.bind_eq_bind, Option.bind_some]
    split <;> rfl
  | limiterPut stream _ | limiterAdmit stream _ | flushAggregator stream | flushLimiter stream
  | flushCollector stream | drainTick stream =>
    obtain ⟨p, hp⟩ := hstream stream rfl
    refine ⟨rfl, fun input => ?_⟩
    simp [exec, hp]
  | callback stream call => cases call <;> exact ⟨rfl, fun input => rfl⟩
  | inFlight stream startedAt batch =>
    refine ⟨rfl, fun input => ?_⟩
    simp only [exec]
    split <;> rfl
  | limiterExpired _ _ | checkpoint | send _ _ | handleRaises _ _ =>
    exact ⟨rfl, fun input => rfl⟩
  | acquire _ | resume _ | getPipeline _ | buildPipeline _ | flushPipelines => cases henters
  | unwind | leaveContexts | closeCollector _ | awaitCollector _ | closeLimiter _ | awaitLimiter _
  | closeAggregator _ | leaveAggregator _ | awaitAggregator _ | closeClient | awaitTaskGroup =>
    exact hgrounded.elim

/-- Where a record is, and what moves it on from there. -/
inductive Mover (sys : System) (s : State) (k : Token) : Prop
  | reducer {p : Pipeline} {key : Option ShardId} {r : Reducer.State AggregatedBatch} :
      s.shared.pipelines.get? k.1 = some p → p.aggregator.reducers.get? key = some r →
      k ∈ tokensOf k.1 r.active.items → Reducer.Guarded (sys.cfg.aggregator.reducer key) r →
      Mover sys s k
  | queue {p : Pipeline} {key : Option ShardId} {l : Limiter.ShardLimiter} {id : Nat} {w : Work}
      {front rest : List Work} :
      s.shared.pipelines.get? k.1 = some p → p.limiter.shards.get? key = some l →
      k ∈ tokensOf k.1 (l.batches.flatMap AggregatedBatch.items) →
      s.tasks.get? id = some { kind := .drain k.1, work := w :: rest } →
      w :: rest = front ++ [.drainTick k.1] → s.canRun sys id w → Mover sys s k
  | collector {p : Pipeline} : s.shared.pipelines.get? k.1 = some p →
      k ∈ tokensOf k.1 (p.collector.active.items.flatMap AggregatedBatch.items) →
      Reducer.Guarded sys.cfg.collector.reducer p.collector → Mover sys s k
  | task {id : Nat} {kind : TaskKind} {w : Work} {rest : List Work} :
      s.tasks.get? id = some { kind, work := w :: rest } →
      k ∈ (w :: rest).flatMap Work.tokens → s.canRun sys id w → Mover sys s k

theorem stream_of_mem {stream : String} {records : List BufferedRecord} {k : Token}
    (h : k ∈ tokensOf stream records) : k.1 = stream := by
  obtain ⟨b, _, rfl⟩ := List.mem_map.mp h
  rfl

theorem ne_nil_of_mem {stream : String} {records : List BufferedRecord} {k : Token}
    (h : k ∈ tokensOf stream records) : records ≠ [] := by
  rintro rfl
  cases h

/-- A record that nobody has dropped is in a stage or in the hands of a task. -/
theorem Ledger.mem_locations {maxOutstanding : Nat} {s : State} (h : Ledger maxOutstanding s)
    {k : Token} (hlive : k ∈ s.live) (hdropped : k ∉ s.shared.dropped) :
    k ∈ s.locations.map Prod.snd := by
  obtain ⟨haccepted, hfinished⟩ := mem_live.mp hlive
  have hbalance := h.balance k
  have hcount := count_locations k s
  have hone := List.count_pos_iff.mpr haccepted
  rw [List.count_eq_zero.mpr hfinished, Shared.mass, List.count_eq_zero.mpr hdropped] at hbalance
  apply List.count_pos_iff.mp
  omega

/-- What has records in hand is past the frames with which a call begins. -/
theorem Shaped.begun {kind : TaskKind} {w : Work} {rest : List Work} (h : Shaped kind (w :: rest))
    {k : Token} (hk : k ∈ (w :: rest).flatMap Work.tokens) : w.enters = false := by
  generalize hwork : w :: rest = work at h
  cases h with
  | @entering w' rest' henters hloop hrest =>
    obtain ⟨rfl, rfl⟩ := List.cons.inj hwork
    obtain ⟨v, hv, hmem⟩ := List.mem_flatMap.mp hk
    rcases List.mem_cons.mp hv with rfl | hv
    · cases v <;> cases henters <;> cases hmem
    · rw [(hrest v hv).2] at hmem
      cases hmem
  | @going front hfront =>
    cases front with
    | nil =>
      cases kind with
      | drain stream =>
        obtain ⟨rfl, _⟩ := List.cons.inj hwork
        rfl
      | putRecord | flush | exit | reducerTimer _ _ _ | send => cases hwork
    | cons v front =>
      obtain ⟨rfl, _⟩ := List.cons.inj hwork
      exact (hfront w List.mem_cons_self).1

/-- The frames of a drain task. -/
theorem Shaped.drains {stream : String} {work : List Work} (h : Shaped (.drain stream) work) :
    ∃ w rest front, work = w :: rest ∧ work = front ++ [.drainTick stream] ∧ w.enters = false ∧
      (w.ticks = true → w = .drainTick stream) := by
  cases h with
  | entering _ hloop => cases hloop
  | @going front hfront =>
    cases front with
    | nil => exact ⟨_, [], [], rfl, rfl, rfl, fun _ => rfl⟩
    | cons w front =>
      obtain ⟨henters, hticks⟩ := hfront w List.mem_cons_self
      refine ⟨w, _, w :: front, rfl, rfl, henters, fun hw => ?_⟩
      rw [hticks] at hw
      cases hw

section Movers

variable {sys : System} {s : State} {k : Token}

/-- What is known of a producer before an exit. -/
structure Attended (sys : System) (s : State) : Prop where
  running : Running s
  tended : Tended s
  sound : Sound s
  ledger : Ledger sys.cfg.maxOutstandingRecords s
  armed : s.Obeys (arming sys.cfg)
  opened : s.Obeys (opening sys.cfg)

theorem reachable_attended (h : Reachable (State.start sys) (State.step sys) beforeExit s) :
    Attended sys s := by
  obtain ⟨hrunning, htended⟩ := reachable_tended h
  obtain ⟨hs, hledger⟩ := reachable_ledger h
  refine ⟨hrunning, htended, hs, hledger, ?_, ?_⟩
  · exact (arming sys.cfg).reachable (fun _ _ => trivial) h
  · exact (opening sys.cfg).reachable (fun _ hexit => by cases hexit) h

theorem Attended.canRun (h : Attended sys s) (hcrashed : s.crashed = false) {id : Nat}
    {kind : TaskKind} {w : Work} {rest : List Work}
    (hfound : s.tasks.get? id = some { kind, work := w :: rest }) (henters : w.enters = false) :
    s.canRun sys id w :=
  canRun_of_begun henters ((h.tended.tasks hcrashed id _ hfound).2 w List.mem_cons_self)
    (h.running.grounded id _ hfound w List.mem_cons_self)

theorem Attended.mover (h : Attended sys s) (hcrashed : s.crashed = false) (hlive : k ∈ s.live)
    (hdropped : k ∉ s.shared.dropped) : Mover sys s k := by
  obtain ⟨⟨place, _⟩, hmem, rfl⟩ := List.mem_map.mp (h.ledger.mem_locations hlive hdropped)
  rcases List.mem_append.mp hmem with hstage | htask
  · obtain ⟨⟨stream, p⟩, hp, hmem⟩ := List.mem_flatMap.mp hstage
    have hp := Dict.get?_eq_some_iff.mpr hp
    have harmed := h.armed.stages stream p hp
    have hopen := h.opened.stages stream p hp
    rcases List.mem_append.mp hmem with hmem | hcollector
    · rcases List.mem_append.mp hmem with hreducer | hqueue
      · obtain ⟨⟨key, r⟩, hr, hmem⟩ := List.mem_flatMap.mp hreducer
        obtain ⟨k, hk, hplace⟩ := List.mem_map.mp hmem
        obtain ⟨rfl, rfl⟩ := Prod.mk.inj hplace
        obtain rfl := stream_of_mem hk
        have hr := Dict.get?_eq_some_iff.mpr hr
        refine .reducer hp hr hk ?_
        exact (harmed.reducers key r hr).isGuarded (hopen.reducers key r hr) (ne_nil_of_mem hk)
      · obtain ⟨⟨key, l⟩, hl, hmem⟩ := List.mem_flatMap.mp hqueue
        obtain ⟨k, hk, hplace⟩ := List.mem_map.mp hmem
        obtain ⟨rfl, rfl⟩ := Prod.mk.inj hplace
        obtain rfl := stream_of_mem hk
        have hl := Dict.get?_eq_some_iff.mpr hl
        -- what is queued has its drain task
        obtain ⟨b, hb⟩ := List.exists_mem_of_ne_nil _ (ne_nil_of_mem hk)
        obtain ⟨batch, hbatch, _⟩ := List.mem_flatMap.mp hb
        have hstarted := hopen.limiter.2 key l hl batch hbatch
        obtain ⟨id, work, hdrain⟩ := h.tended.drains hcrashed k.1 p hp hstarted
        obtain ⟨w, rest, front, rfl, hwork, henters, _⟩ :=
          (h.tended.tasks hcrashed id _ hdrain).1.drains
        exact .queue hp hl hk hdrain hwork (h.canRun hcrashed hdrain henters)
    · obtain ⟨k, hk, hplace⟩ := List.mem_map.mp hcollector
      obtain ⟨rfl, rfl⟩ := Prod.mk.inj hplace
      obtain rfl := stream_of_mem hk
      refine .collector hp hk ?_
      have hne : p.collector.active.items ≠ [] := by
        intro hnil
        rw [hnil] at hk
        cases hk
      exact harmed.collector.isGuarded hopen.collector hne
  · obtain ⟨⟨id, kind, work⟩, ht, hmem⟩ := List.mem_flatMap.mp htask
    have ht := Dict.get?_eq_some_iff.mpr ht
    obtain ⟨v, hv, hmem⟩ := List.mem_flatMap.mp hmem
    obtain ⟨k, hk, hplace⟩ := List.mem_map.mp hmem
    obtain ⟨rfl, rfl⟩ := Prod.mk.inj hplace
    have hwork : k ∈ work.flatMap Work.tokens := List.mem_flatMap.mpr ⟨v, hv, hk⟩
    cases work with
    | nil => cases hv
    | cons w rest =>
      have hbegun := (h.tended.tasks hcrashed id _ ht).1.begun hwork
      exact .task ht hwork (h.canRun hcrashed ht hbegun)

/-- **Nothing is stranded.**  In every run before an exit, unless a background task has raised,
    every record that is accepted and has neither finished nor been dropped is in a batch that
    a live timer will close by its deadline, in a queue whose drain task can run, or in the
    hands of a task whose next frame can run, whatever it reads. -/
theorem nothing_is_stranded (sys : System) {s : State}
    (h : Reachable (State.start sys) (State.step sys) beforeExit s) (hcrashed : s.crashed = false) :
    ∀ k ∈ s.shared.accepted, k ∉ s.shared.finished → k ∉ s.shared.dropped → Mover sys s k :=
  fun _ haccepted hfinished hdropped =>
    (reachable_attended h).mover hcrashed (mem_live.mpr ⟨haccepted, hfinished⟩) hdropped

/-- A first record has been sent, and a second one waits in its Reducer. -/
theorem nothing_is_stranded_two :
    ∃ s, Reachable (State.start oneStream) (State.step oneStream) beforeExit s ∧
      s.locations = [(.reducer "a" none, ("a", 4))] ∧ Mover oneStream s ("a", 4) := by
  have hrun : (Lib.exec (State.step oneStream) beforeExit entered putsTwo).map
      (fun s => (decide (s.crashed = false ∧ ("a", 4) ∈ s.shared.accepted ∧
        ("a", 4) ∉ s.shared.finished ∧ ("a", 4) ∉ s.shared.dropped), s.locations)) =
        some (true, [(.reducer "a" none, ("a", 4))]) := by
    decide +kernel
  obtain ⟨s, hexec, hout⟩ := Option.map_eq_some_iff.mp hrun
  obtain ⟨hstate, hlocations⟩ := Prod.mk.inj hout
  obtain ⟨hcrashed, haccepted, hfinished, hdropped⟩ := of_decide_eq_true hstate
  have hreach : Reachable (State.start oneStream) (State.step oneStream) beforeExit s :=
    Reachable.exec (.start rfl) hexec
  exact ⟨s, hreach, hlocations, nothing_is_stranded oneStream hreach hcrashed ("a", 4) haccepted
    hfinished hdropped⟩

end Movers

end Producer

end Aiokpl
