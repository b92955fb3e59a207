import Aiokpl.ProducerFrames

/-!
# The steps of a producer

`step_turn` lists what a step can be; the lemmas on `goOn`, `spawn` and `fail`
say what becomes of the tasks and of the accounts.
-/

namespace Aiokpl

open Lib Aggregation

namespace Producer

/-! ## The kinds of steps -/

/-- What a step from `s` under a label can be. -/
inductive Turn (sys : System) (s : State) : Op → State → Prop
  | refused (stream : String) (userRecord : UserRecord) :
      Turn sys s (.putRecord stream userRecord) s
  | entered (stream : String) (userRecord : UserRecord) : s.shared.closed = false →
      Turn sys s (.putRecord stream userRecord) (s.spawn (some
        { kind := .putRecord, work := [.acquire { number := s.nextTask, stream, userRecord }] }))
  | flushes : Turn sys s .flush (s.spawn (some { kind := .flush, work := [.flushPipelines] }))
  | exits : s.exiting = false → Turn sys s .exit
      ({ s with exiting := true }.spawn
        (some { kind := .exit, work := [.flushPipelines, .unwind] }))
  | ran {id : Nat} {input : Input} {kind : TaskKind} {w : Work} {rest push : List Work}
      {shared : Shared} {spawn : Option Task} :
      s.tasks.get? id = some { kind, work := w :: rest } → s.ready w = true →
      exec sys input id s.shared w = some (.next shared push spawn) →
      Turn sys s (.run id input) (({ s with shared }.goOn sys id kind (push ++ rest)).spawn spawn)
  | raised {id : Nat} {input : Input} {kind : TaskKind} {w : Work} {rest left : List Work}
      {shared : Shared} :
      s.tasks.get? id = some { kind, work := w :: rest } → s.ready w = true →
      exec sys input id s.shared w = some (.raises shared left) →
      Turn sys s (.run id input)
        ({ s with shared }.fail id { kind, work := w :: rest } (left ++ rest))
  | reducerTimer {stream : String} {shardKey : Option ShardId} {op : Reducer.Op BufferedRecord}
      {p : Pipeline} {aggregator : Aggregator.State} {closed : Option AggregatedBatch} :
      timerOp op = true → s.shared.pipelines.get? stream = some p →
      Aggregator.onReducer sys.cfg.aggregator shardKey op p.aggregator =
        some (aggregator, closed) →
      Turn sys s (.reducerTimer stream shardKey op)
        ({ s with shared := s.shared.setPipeline stream { p with aggregator } }.spawn
          (timerTask stream shardKey op closed))
  | collectorTimer {stream : String} {op : Reducer.Op AggregatedBatch} {p : Pipeline}
      {collector : Reducer.State PutRecordsBatch} {closed : Option PutRecordsBatch}
      {shared : Shared} {push : List Work} {spawn : Option Task} :
      op.adds = [] → op ≠ .aclose → s.shared.pipelines.get? stream = some p →
      Reducer.step sys.cfg.collector.reducer p.collector op = some (collector, closed) →
      collectorBatch stream closed (s.shared.setPipeline stream { p with collector }) =
        .next shared push spawn →
      Turn sys s (.collectorTimer stream op) ({ s with shared }.spawn spawn)
  | overrun {stream : String} {op : Reducer.Op AggregatedBatch} {p : Pipeline}
      {collector : Reducer.State PutRecordsBatch} {closed : Option PutRecordsBatch}
      {shared : Shared} {left : List Work} :
      op.adds = [] → op ≠ .aclose → s.shared.pipelines.get? stream = some p →
      Reducer.step sys.cfg.collector.reducer p.collector op = some (collector, closed) →
      collectorBatch stream closed (s.shared.setPipeline stream { p with collector }) =
        .raises shared left →
      Turn sys s (.collectorTimer stream op)
        { s with
          shared := { shared with dropped := shared.dropped ++ left.flatMap Work.tokens }
          crashed := true }
  | answered {number : Nat} : number ∈ s.shared.returned →
      Turn sys s (.cancelOutcome number) { s with shared := s.shared.resolve number }
  | cancelled {id : Nat} {kind : TaskKind} {w : Work} {rest : List Work} :
      s.tasks.get? id = some { kind, work := w :: rest } → kind = .putRecord ∨ kind = .flush →
      w.awaits = true →
      Turn sys s (.cancel id) (s.fail id { kind, work := w :: rest } (w :: rest))
  | stopped {id : Nat} {stream : String} {work : List Work} {p : Pipeline} :
      s.tasks.get? id = some { kind := .drain stream, work } →
      s.shared.pipelines.get? stream = some p → p.limiter.closed = true →
      Turn sys s (.stopDrain id)
        { s with
          tasks := s.tasks.erase id
          shared := { s.shared with dropped := s.shared.dropped ++ work.flatMap Work.tokens } }

/-- **The steps.**  Nothing happens after a crash. -/
theorem step_turn {sys : System} {s s' : State} {op : Op} (h : s.step sys op = some s') :
    s.crashed = false ∧ Turn sys s op s' := by
  unfold State.step at h
  split at h
  · simp at h
  · rename_i hcrashed
    refine ⟨by simpa using hcrashed, ?_⟩
    cases op with
    | putRecord stream userRecord =>
      simp only at h
      split at h
      · obtain rfl := Option.some.inj h
        exact .refused stream userRecord
      · rename_i hopen
        obtain rfl := Option.some.inj h
        exact .entered stream userRecord (by
          by_contra hclosed
          exact hopen (Or.inl (by simpa using hclosed)))
    | flush =>
      obtain rfl := Option.some.inj h
      exact .flushes
    | exit =>
      simp only at h
      split at h
      · simp at h
      · rename_i hexiting
        obtain rfl := Option.some.inj h
        exact .exits (by simpa using hexiting)
    | run id input =>
      simp only [State.runTask, Option.bind_eq_bind, Option.bind_eq_some_iff] at h
      obtain ⟨⟨kind, work⟩, htask, h⟩ := h
      cases work with
      | nil => simp at h
      | cons w rest =>
        simp only at h
        split at h
        · simp at h
        · rename_i hready
          simp only [Option.bind_eq_some_iff] at h
          obtain ⟨ran, hexec, h⟩ := h
          have hready' : s.ready w = true := by simpa using hready
          cases ran with
          | next shared push spawn =>
            obtain rfl := Option.some.inj h
            exact .ran htask hready' hexec
          | raises shared left =>
            obtain rfl := Option.some.inj h
            exact .raised htask hready' hexec
    | reducerTimer stream shardKey op =>
      simp only at h
      split at h
      · simp at h
      · rename_i htimer
        simp only [Option.bind_eq_bind, Option.bind_eq_some_iff, Option.some.injEq] at h
        obtain ⟨p, hp, ⟨aggregator, closed⟩, hop, rfl⟩ := h
        exact .reducerTimer (by simpa using htimer) hp hop
    | collectorTimer stream op =>
      simp only [Option.bind_eq_bind, Option.bind_eq_some_iff] at h
      obtain ⟨p, hp, h⟩ := h
      cases op with
      | add now item => simp at h
      | flush now => simp at h
      | aclose => simp at h
      | wake now scope | fire now scope | dispatched scope | cancelled scope =>
        simp only [Option.bind_eq_some_iff] at h
        obtain ⟨⟨collector, closed⟩, hstep, h⟩ := h
        split at h
        · rename_i hran
          obtain rfl := Option.some.inj h
          exact .collectorTimer rfl (by simp) hp hstep hran
        · rename_i hran
          rw [← Option.some.inj h]
          exact .overrun rfl (by simp) hp hstep hran
    | cancelOutcome number =>
      simp only [Option.ite_none_right_eq_some, Option.some.injEq] at h
      obtain ⟨hreturned, rfl⟩ := h
      exact .answered hreturned
    | cancel id =>
      simp only [Option.bind_eq_bind, Option.bind_eq_some_iff, Option.ite_none_right_eq_some,
        Option.some.injEq] at h
      obtain ⟨⟨kind, work⟩, htask, ⟨hkind, hawaits⟩, rfl⟩ := h
      cases work with
      | nil => simp at hawaits
      | cons w rest => exact .cancelled htask hkind (by simpa using hawaits)
    | stopDrain id =>
      simp only [Option.bind_eq_bind, Option.bind_eq_some_iff] at h
      obtain ⟨⟨kind, work⟩, htask, h⟩ := h
      cases kind with
      | drain stream =>
        simp only [Option.ite_none_right_eq_some, Option.some.injEq] at h
        obtain ⟨⟨hclosed, _⟩, rfl⟩ := h
        cases hp : s.shared.pipelines.get? stream with
        | none => simp [hp] at hclosed
        | some p => exact .stopped htask hp (by simpa [hp] using hclosed)
      | putRecord | flush | exit | reducerTimer _ _ _ | send => simp at h

/-! ## The tasks -/

@[simp] theorem spawn_none (s : State) : s.spawn none = s := rfl

@[simp] theorem shared_spawn (spawn : Option Task) (s : State) :
    (s.spawn spawn).shared = s.shared := by
  cases spawn <;> rfl

@[simp] theorem crashed_spawn (spawn : Option Task) (s : State) :
    (s.spawn spawn).crashed = s.crashed := by
  cases spawn <;> rfl

theorem get?_spawn (t : Task) (s : State) (id : Nat) :
    (s.spawn (some t)).tasks.get? id = if id = s.nextTask then some t else s.tasks.get? id :=
  Dict.get?_set ..

theorem get?_goOn (sys : System) (id : Nat) (kind : TaskKind) (work : List Work) (s : State)
    (id' : Nat) :
    (s.goOn sys id kind work).tasks.get? id' =
      if id' = id then (if work = [] then none else some { kind, work })
      else s.tasks.get? id' := by
  by_cases hwork : work = []
  · subst hwork
    have hfinish : (s.finishTask sys id kind).tasks = s.tasks.erase id := by
      cases kind <;> rfl
    simp [State.goOn, hfinish, Dict.get?_erase]
  · simp [State.goOn, List.isEmpty_iff, hwork, Dict.get?_set]

theorem goOn_of_ne {work : List Work} (h : work ≠ []) (sys : System) (id : Nat) (kind : TaskKind)
    (s : State) : s.goOn sys id kind work = { s with tasks := s.tasks.set id { kind, work } } := by
  simp [State.goOn, List.isEmpty_iff, h]

@[simp] theorem crashed_goOn (sys : System) (id : Nat) (kind : TaskKind) (work : List Work)
    (s : State) : (s.goOn sys id kind work).crashed = s.crashed := by
  unfold State.goOn
  split
  · cases kind <;> rfl
  · rfl

@[simp] theorem nextTask_goOn (sys : System) (id : Nat) (kind : TaskKind) (work : List Work)
    (s : State) : (s.goOn sys id kind work).nextTask = s.nextTask := by
  unfold State.goOn
  split
  · cases kind <;> rfl
  · rfl

/-- A task ends when it raises. -/
theorem tasks_fail (id : Nat) (task : Task) (left : List Work) (s : State) :
    (s.fail id task left).tasks = s.tasks.erase id := by
  obtain ⟨kind, work⟩ := task
  cases kind <;> rfl

theorem get?_fail (id : Nat) (task : Task) (left : List Work) (s : State) (id' : Nat) :
    (s.fail id task left).tasks.get? id' = if id' = id then none else s.tasks.get? id' := by
  rw [tasks_fail, Dict.get?_erase]

@[simp] theorem nextTask_fail (id : Nat) (task : Task) (left : List Work) (s : State) :
    (s.fail id task left).nextTask = s.nextTask := by
  obtain ⟨kind, work⟩ := task
  cases kind <;> rfl

/-- What the end of a task leaves alone. -/
structure Steady (s s' : Shared) : Prop where
  pending : s'.pendingAt = s.pendingAt
  lock : s'.pipelineLock = s.pipelineLock
  streams : ∀ stream, s.pipelines.get? stream = none → s'.pipelines.get? stream = none
  mass : ∀ k, s'.mass k = s.mass k
  dropped : s'.dropped = s.dropped

theorem Steady.refl (s : Shared) : Steady s s := ⟨rfl, rfl, fun _ h => h, fun _ => rfl, rfl⟩

theorem endReducerTimer_steady (cfg : Aggregator.Config) (stream : String)
    (shardKey : Option ShardId) (scope : Nat) (s : Shared) :
    (endReducerTimer cfg stream shardKey scope s).books = s.books ∧
      Steady s (endReducerTimer cfg stream shardKey scope s) := by
  unfold endReducerTimer
  split
  · exact ⟨rfl, .refl s⟩
  · rename_i p hp
    split
    · exact ⟨rfl, .refl s⟩
    · rename_i aggregator closed hend
      have hstages : StagesOnly s (s.setPipeline stream { p with aggregator }) :=
        stagesOnly_setPipeline hp rfl
      refine ⟨rfl, hstages.pending, rfl, hstages.streams, fun k => ?_, rfl⟩
      have hset := Shared.mass_setPipeline hp k { p with aggregator }
      have hsum := inAggregator_onReducer k stream (by simp) hend
      have hnone : closed = none := by
        obtain ⟨r, r', closed', _, hstep, hout⟩ := Aggregator.onReducer_eq_some hend
        simp only [Reducer.step, Option.ite_none_right_eq_some, Option.some.injEq,
          Prod.mk.injEq] at hstep
        rw [(Prod.mk.inj hout).2, ← hstep.2.2]
      simp only [hnone, Reducer.Op.adds, Option.toList_none, inBatches_nil, tokensOf_nil,
        List.count_nil, Nat.add_zero] at hsum
      simp only [Pipeline.holds, hsum] at hset
      omega

/-- A `put_record` call with nothing left to do returns; what else a task does at its
    end is not in the books. -/
theorem goOn_accounts (sys : System) (id : Nat) (kind : TaskKind) (work : List Work) (s : State) :
    (s.goOn sys id kind work).shared.books =
        { s.shared.books with
          returned := s.shared.returned ++ if work = [] ∧ kind = .putRecord then [id] else [] } ∧
      Steady s.shared (s.goOn sys id kind work).shared := by
  by_cases hwork : work = []
  · subst hwork
    cases kind with
    | putRecord => exact ⟨by simp [State.goOn, State.finishTask, Shared.books],
        rfl, rfl, fun _ h => h, fun _ => rfl, rfl⟩
    | reducerTimer stream shardKey scope =>
      obtain ⟨hbooks, hsteady⟩ := endReducerTimer_steady sys.cfg.aggregator stream shardKey scope
        s.shared
      exact ⟨hbooks.trans (by simp [Shared.books]), hsteady⟩
    | flush | exit | drain stream | send =>
      exact ⟨by simp [State.goOn, State.finishTask, Shared.books], .refl s.shared⟩
  · rw [goOn_of_ne hwork]
    exact ⟨by simp [hwork, Shared.books], .refl s.shared⟩

/-! ## What the tasks weigh -/

/-- The sum of a weight over the frames of all tasks. -/
def State.weigh (weight : Work → ℕ) (s : State) : ℕ := s.tasks.total fun _ t => load weight t.work

theorem weigh_spawn {s : State} (hfresh : s.tasks.get? s.nextTask = none) (weight : Work → ℕ)
    (spawn : Option Task) :
    (s.spawn spawn).weigh weight =
      s.weigh weight + load weight (spawn.toList.flatMap Task.work) := by
  cases spawn with
  | none => simp
  | some t =>
    have htotal := Dict.total_set_of_none (fun _ t => load weight t.work) hfresh t
    simp only [State.weigh, State.spawn, htotal, Option.toList_some, List.flatMap_singleton]
    exact Nat.add_comm ..

/-- A task exchanges its frames. -/
theorem weigh_goOn {s : State} {id : Nat} {old : Task} (hfound : s.tasks.get? id = some old)
    (weight : Work → ℕ) (sys : System) (kind : TaskKind) (work : List Work) :
    (s.goOn sys id kind work).weigh weight + load weight old.work =
      s.weigh weight + load weight work := by
  by_cases hwork : work = []
  · subst hwork
    have hfinish : (s.goOn sys id kind []).tasks = s.tasks.erase id := by
      cases kind <;> rfl
    have htotal := Dict.total_of_get? (fun _ t => load weight t.work) hfound
    simp only [State.weigh, hfinish, htotal, load_nil]
    omega
  · have htotal := Dict.total_set_of_get? (fun _ t => load weight t.work) hfound { kind, work }
    rw [goOn_of_ne hwork]
    exact htotal

/-- The frames of a task that fails are gone. -/
theorem weigh_fail {s : State} {id : Nat} {task : Task} (hfound : s.tasks.get? id = some task)
    (weight : Work → ℕ) (left : List Work) :
    (s.fail id task left).weigh weight + load weight task.work = s.weigh weight := by
  have herase := Dict.total_of_get? (fun _ t => load weight t.work) hfound
  rw [State.weigh, tasks_fail, State.weigh, herase]
  exact Nat.add_comm ..

/-- A failure drops what the frames had in hand. -/
theorem mass_fail {s : State} {id : Nat} {task : Task} (hfound : s.tasks.get? id = some task)
    (left : List Work) (k : Token) :
    (s.fail id task left).shared.mass k + (s.fail id task left).weigh (carries k) +
        load (carries k) task.work =
      s.shared.mass k + s.weigh (carries k) + load (carries k) left := by
  have hweigh := weigh_fail hfound (carries k) left
  have hmass : (s.fail id task left).shared.mass k = s.shared.mass k + load (carries k) left := by
    obtain ⟨kind, work⟩ := task
    cases kind with
    | putRecord =>
      have hroll : ∀ phase, (rollBack id phase s.shared).pipelines = s.shared.pipelines ∧
          (rollBack id phase s.shared).dropped = s.shared.dropped := by
        intro phase
        cases phase <;> exact ⟨rfl, rfl⟩
      simp [State.fail, Shared.mass, hroll, load_carries, add_assoc]
    | flush | exit | reducerTimer _ _ _ | drain _ | send =>
      simp [State.fail, Shared.mass, load_carries, add_assoc]
  omega

end Producer

end Aiokpl
