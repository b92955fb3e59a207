import Aiokpl.ProducerOpen
import Aiokpl.ProducerTeardown

/-!
# Runs that have not come to the exit

`step_failed` says which call a step ends by an exception or a cancellation, and
`Running` that before `__aexit__` such a call is the only thing that ever drops a
record: the stages are open, and no frame of the exit is there to close one.
-/

namespace Aiokpl

open Lib Aggregation

namespace Producer

/-! ## Calls that fail -/

/-- The `put_record` or `flush` call that the step ends by an exception or a
    cancellation. -/
def State.failing (sys : System) (s : State) : Op → Option (Nat × Task)
  | .cancel id => (s.tasks.get? id).map fun t => (id, t)
  | .run id input => do
    let t ← s.tasks.get? id
    let w ← t.work.head?
    match ← exec sys input id s.shared w with
    | .next _ _ _ => none
    | .raises _ _ => if t.kind = .putRecord ∨ t.kind = .flush then some (id, t) else none
  | _ => none

/-- What a step adds to the history of failed calls. -/
def failedBy : Option (Nat × Task) → List (Nat × PutPhase)
  | some (id, { kind := .putRecord, work }) => [(id, putPhase work)]
  | _ => []

@[simp] theorem failedBy_none : failedBy none = [] := rfl

theorem failedBy_eq (id : Nat) (t : Task) :
    failedBy (some (id, t)) = if t.kind = .putRecord then [(id, putPhase t.work)] else [] := by
  obtain ⟨kind, work⟩ := t
  cases kind with
  | putRecord => exact (if_pos rfl).symm
  | _ => exact (if_neg (by simp)).symm

theorem failing_ran {sys : System} {s : State} {id : Nat} {input : Input} {kind : TaskKind}
    {w : Work} {rest push : List Work} {shared : Shared} {spawn : Option Task}
    (hfound : s.tasks.get? id = some { kind, work := w :: rest })
    (hexec : exec sys input id s.shared w = some (.next shared push spawn)) :
    s.failing sys (.run id input) = none := by
  simp [State.failing, hfound, hexec]

theorem failing_raised {sys : System} {s : State} {id : Nat} {input : Input} {kind : TaskKind}
    {w : Work} {rest left : List Work} {shared : Shared}
    (hfound : s.tasks.get? id = some { kind, work := w :: rest })
    (hexec : exec sys input id s.shared w = some (.raises shared left)) :
    s.failing sys (.run id input) =
      if kind = .putRecord ∨ kind = .flush then some (id, { kind, work := w :: rest })
      else none := by
  simp [State.failing, hfound, hexec]

/-- **Which calls have failed.** -/
theorem step_failed {sys : System} {s s' : State} {op : Op} (hs : Sound s)
    (hstep : s.step sys op = some s') :
    s'.shared.failed = s.shared.failed ++ failedBy (s.failing sys op) := by
  cases (step_turn hstep).2 with
  | @ran id input kind w rest push shared spawn hfound _ hexec =>
    have heffect := exec_next (fun _ hw => (hs.building hfound hw).2) hexec
    have hfailed : shared.failed = s.shared.failed := by
      cases heffect with
      | moved _ hstages => exact congrArg Books.failed hstages.books
      | acquired | resumed | building => rfl
      | accepted _ _ _ _ hbooks => exact congrArg Books.failed hbooks
      | finished hfinish => exact congrArg Books.failed hfinish.books
    have hgoes :=
      congrArg Books.failed (goOn_accounts sys id kind (push ++ rest) { s with shared }).1
    rw [failing_ran hfound hexec, failedBy_none, List.append_nil, shared_spawn]
    exact hgoes.trans hfailed
  | @raised id input kind w rest left shared hfound _ hexec =>
    have hraised := exec_raises (fun _ hw => (hs.building hfound hw).2) hexec
    have hfailed : shared.failed = s.shared.failed := congrArg Books.failed hraised.books
    obtain ⟨_, _, hfail, _, _⟩ := fail_calls id kind (w :: rest) (left ++ rest) { s with shared }
    rw [hfail, hfailed, failing_raised hfound hexec]
    cases kind <;> simp [failedBy]
  | overrun _ _ _ _ hbatch =>
    obtain ⟨rfl, _⟩ := collectorBatch_raises hbatch
    exact (List.append_nil _).symm
  | reducerTimer =>
    rw [shared_spawn]
    exact (List.append_nil _).symm
  | collectorTimer _ _ _ _ hbatch =>
    obtain ⟨rfl, _⟩ := collectorBatch_next hbatch
    rw [shared_spawn]
    exact (List.append_nil _).symm
  | answered =>
    rw [resolve_eq]
    exact (List.append_nil _).symm
  | @cancelled id kind w rest hfound =>
    obtain ⟨_, _, hfail, _, _⟩ := fail_calls id kind (w :: rest) (w :: rest) s
    rw [hfail, State.failing, hfound, Option.map_some, failedBy_eq]
  | refused | entered | flushes | exits | stopped => exact (List.append_nil _).symm

/-! ## Before the exit -/

/-- No exit has begun: no context has been left, and no frame will leave one. -/
structure Running (s : State) : Prop where
  taskGroup : s.shared.taskGroup = true
  isOpen : ∀ stream p, s.shared.pipelines.get? stream = some p → p.Open
  grounded : ∀ id t, s.tasks.get? id = some t → ∀ v ∈ t.work, v.Grounded s.shared

theorem endReducerTimer_grows (cfg : Aggregator.Config) (stream : String)
    (shardKey : Option ShardId) (scope : Nat) (s : Shared) :
    Grows s (endReducerTimer cfg stream shardKey scope s) := by
  unfold endReducerTimer
  split
  · exact .refl s
  · rename_i p hp
    split
    · exact .refl s
    · rename_i aggregator closed hend
      obtain ⟨hentered, hkeys⟩ := onReducer_keeps hend
      exact grows_setPipeline hp (fun ho => ⟨ho.limiter, hentered.trans ho.aggregator⟩) hkeys

theorem goOn_grows (sys : System) (id : Nat) (kind : TaskKind) (work : List Work) (s : State) :
    Grows s.shared (s.goOn sys id kind work).shared := by
  unfold State.goOn
  split
  · cases kind with
    | reducerTimer stream shardKey scope => apply endReducerTimer_grows
    | _ => exact .of_pipelines rfl rfl rfl
  · exact .refl _

/-- What grows stays as it was before the exit, if what has come new is grounded. -/
theorem Running.grows {s s' : State} {shared : Shared} (h : Running s)
    (hgrows : Grows s.shared shared) (htg : s'.shared.taskGroup = shared.taskGroup)
    (hpipelines : s'.shared.pipelines = shared.pipelines)
    (htasks : ∀ id t, s'.tasks.get? id = some t → ∀ v ∈ t.work, v.Grounded shared) :
    Running s' := by
  have hsame : Grows shared { shared with pipelines := s'.shared.pipelines } :=
    .of_pipelines rfl rfl hpipelines
  constructor
  · rw [htg, hgrows.taskGroup]
    exact h.taskGroup
  · rw [hpipelines]
    exact hgrows.isOpen h.isOpen
  · intro id t ht v hv
    apply (hsame.grounded v (htasks id t ht v hv)).congr
    intro stream p shardKey hp hr
    exact ⟨p, hp, hr⟩

/-- A new task whose frames are grounded. -/
theorem Running.spawn {s : State} {spawn : Option Task} (h : Running s)
    (hspawn : ∀ t, spawn = some t → ∀ v ∈ t.work, v.Grounded s.shared) :
    Running (s.spawn spawn) := by
  cases spawn with
  | none => exact h
  | some t =>
    refine h.grows (.refl _) rfl rfl ?_
    intro id t' ht'
    rw [get?_spawn] at ht'
    split at ht'
    · obtain rfl := Option.some.inj ht'
      exact hspawn t rfl
    · exact h.grounded id t' ht'

/-- A task goes on with frames that are grounded. -/
theorem Running.goOn {sys : System} {s : State} {id : Nat} {kind : TaskKind} {w : Work}
    {rest push : List Work} {shared : Shared} (h : Running s)
    (hfound : s.tasks.get? id = some { kind, work := w :: rest }) (hgrows : Grows s.shared shared)
    (hpush : ∀ v ∈ push, v.Grounded shared) :
    Running ({ s with shared }.goOn sys id kind (push ++ rest)) := by
  have hgoes := goOn_grows sys id kind (push ++ rest) { s with shared }
  refine h.grows (hgrows.trans hgoes) rfl rfl ?_
  intro id' t ht v hv
  rw [get?_goOn] at ht
  apply hgoes.grounded
  split at ht
  · split at ht
    · cases ht
    · obtain rfl := Option.some.inj ht
      rcases List.mem_append.mp hv with hv | hv
      · exact hpush v hv
      · exact hgrows.grounded v
          (h.grounded id _ hfound v (List.mem_cons_of_mem w hv))
  · exact hgrows.grounded v (h.grounded id' t ht v hv)

/-- A task ends by an exception or a cancellation. -/
theorem Running.fail {s : State} {id : Nat} {kind : TaskKind} {work left : List Work}
    {shared : Shared} (h : Running s)
    (hgrows : Grows s.shared shared) : Running ({ s with shared }.fail id { kind, work } left) := by
  have hflags := sameFlags_fail id { kind, work } left { s with shared }
  obtain ⟨_, _, _, _, hpipelines⟩ := fail_calls id kind work left { s with shared }
  refine h.grows hgrows hflags.taskGroup hpipelines ?_
  intro id' t ht v hv
  rw [get?_fail] at ht
  split at ht
  · cases ht
  · exact hgrows.grounded v (h.grounded id' t ht v hv)

/-- **Before the exit** every step leaves the stages open. -/
theorem Running.step {sys : System} {s s' : State} {op : Op} (h : Running s) (hs : Sound s)
    (hop : op ≠ .exit) (hstep : s.step sys op = some s') : Running s' := by
  cases (step_turn hstep).2 with
  | refused => exact h
  | entered =>
    apply h.spawn
    rintro t ⟨⟩
    simp [Work.Grounded]
  | flushes =>
    apply h.spawn
    rintro t ⟨⟩
    simp [Work.Grounded]
  | exits => exact absurd rfl hop
  | @ran id input kind w rest push shared spawn hfound _ hexec =>
    have hstays := exec_next_stays (h.grounded id _ hfound w List.mem_cons_self)
      (fun _ hw => (hs.building hfound hw).2) hexec
    apply (h.goOn hfound hstays.grows hstays.push).spawn
    intro t ht v hv
    exact (goOn_grows sys id kind (push ++ rest) { s with shared }).grounded v
      (hstays.spawn t ht v hv)
  | @raised id input kind w rest left shared hfound _ hexec =>
    have hraises := exec_raises_stays (h.grounded id _ hfound w List.mem_cons_self)
      h.taskGroup h.isOpen (fun _ hw => (hs.building hfound hw).2) hexec
    exact h.fail hraises.1
  | @reducerTimer stream shardKey op p aggregator closed _ hp hop' =>
    obtain ⟨hentered, hkeys⟩ := onReducer_keeps hop'
    have hgrows : Grows s.shared (s.shared.setPipeline stream { p with aggregator }) :=
      grows_setPipeline hp (fun ho => ⟨ho.limiter, hentered.trans ho.aggregator⟩) hkeys
    apply Running.spawn
    · refine h.grows hgrows rfl rfl ?_
      intro id t ht v hv
      exact hgrows.grounded v (h.grounded id t ht v hv)
    · intro t ht
      unfold timerTask at ht
      split at ht
      · obtain rfl := Option.some.inj ht
        simp [Work.Grounded]
      · cases ht
  | @collectorTimer stream op p collector closed shared push spawn _ _ hp _ hbatch =>
    have hgrows : Grows s.shared (s.shared.setPipeline stream { p with collector }) :=
      grows_setPipeline hp (fun ho => ⟨ho.limiter, ho.aggregator⟩) fun _ h => h
    have hstays := collectorBatch_stays hgrows hbatch
    apply Running.spawn
    · refine h.grows hstays.grows rfl rfl ?_
      intro id t ht v hv
      exact hstays.grows.grounded v (h.grounded id t ht v hv)
    · exact hstays.spawn
  | overrun _ _ _ _ hbatch =>
    have htg := (collectorBatch_raises hbatch).2.1
    cases h.taskGroup.symm.trans htg
  | answered =>
    rw [resolve_eq]
    exact ⟨h.taskGroup, h.isOpen, h.grounded⟩
  | cancelled => exact h.fail (.refl _)
  | @stopped id stream work p _ hp hclosed =>
    rw [(h.isOpen stream p hp).limiter] at hclosed
    cases hclosed

/-- An exception leaves a background task at this step. -/
def State.crashes (sys : System) (s : State) (op : Op) : Bool :=
  (s.step sys op).any fun s' => s'.crashed

theorem crashes_eq {sys : System} {s s' : State} {op : Op} (hstep : s.step sys op = some s') :
    s.crashes sys op = s'.crashed := by
  rw [State.crashes, hstep]
  rfl

/-- What a call that is cancelled has in hand. -/
def State.inHand (s : State) : Op → List Token
  | .cancel id => (s.tasks.get? id).elim [] fun t => t.work.flatMap Work.tokens
  | _ => []

@[simp] theorem inHand_run (s : State) (id : Nat) (input : Input) :
    s.inHand (.run id input) = [] := rfl

theorem fail_dropped (id : Nat) (kind : TaskKind) (work left : List Work) (s : State) :
    (s.fail id { kind, work } left).shared.dropped =
      s.shared.dropped ++ left.flatMap Work.tokens := by
  cases kind with
  | putRecord =>
    have hroll : ∀ phase, (rollBack id phase s.shared).dropped = s.shared.dropped := by
      intro phase
      cases phase <;> rfl
    simp [State.fail, hroll]
  | _ => rfl

theorem fail_finished (id : Nat) (kind : TaskKind) (work left : List Work) (s : State) :
    (s.fail id { kind, work } left).shared.finished = s.shared.finished := by
  cases kind with
  | putRecord => exact congrArg Books.finished (rollBack_books id (putPhase work) s.shared)
  | _ => rfl

/-! ## What a step finishes -/

/-- The frame that the step runs to its end, and what it reads. -/
def State.ran (sys : System) (s : State) : Op → Option (Input × Work)
  | .run id input => do
    let t ← s.tasks.get? id
    let w ← t.work.head?
    match ← exec sys input id s.shared w with
    | .next _ _ _ => some (input, w)
    | .raises _ _ => none
  | _ => none

theorem ran_next {sys : System} {s : State} {id : Nat} {input : Input} {kind : TaskKind}
    {w : Work} {rest push : List Work} {shared : Shared} {spawn : Option Task}
    (hfound : s.tasks.get? id = some { kind, work := w :: rest })
    (hexec : exec sys input id s.shared w = some (.next shared push spawn)) :
    s.ran sys (.run id input) = some (input, w) := by
  simp [State.ran, hfound, hexec]

theorem ran_raises {sys : System} {s : State} {id : Nat} {input : Input} {kind : TaskKind}
    {w : Work} {rest left : List Work} {shared : Shared}
    (hfound : s.tasks.get? id = some { kind, work := w :: rest })
    (hexec : exec sys input id s.shared w = some (.raises shared left)) :
    s.ran sys (.run id input) = none := by
  simp [State.ran, hfound, hexec]

/-- It is the first frame of a task. -/
theorem ran_eq_some {sys : System} {s : State} {op : Op} {input : Input} {w : Work}
    (h : s.ran sys op = some (input, w)) :
    ∃ id kind rest, s.tasks.get? id = some { kind, work := w :: rest } := by
  cases op with
  | run id input' =>
    simp only [State.ran, Option.bind_eq_bind, Option.bind_eq_some_iff] at h
    obtain ⟨⟨kind, work⟩, hfound, w', hhead, ran, _, h⟩ := h
    cases ran with
    | next shared push spawn =>
      obtain ⟨rfl, rfl⟩ := Prod.mk.inj (Option.some.inj h)
      cases work with
      | nil => cases hhead
      | cons v rest =>
        obtain rfl := Option.some.inj hhead
        exact ⟨id, kind, rest, hfound⟩
    | raises shared left => cases h
  | _ => cases h

/-- The record a frame finishes. -/
def Work.finishes : Work → List Token
  | .callback stream (.onFinish buffered _) => [(stream, buffered.ident)]
  | _ => []

theorem exec_finishes {sys : System} {input : Input} {id : Nat} {s s' : Shared} {w : Work}
    {push : List Work} {spawn : Option Task}
    (hbuild : ∀ call, w = .buildPipeline call → s.pipelines.get? call.stream = none)
    (h : exec sys input id s w = some (.next s' push spawn)) :
    s.accepted <+: s'.accepted ∧ s'.finished = s.finished ++ w.finishes := by
  by_cases hw : ∃ stream buffered result, w = .callback stream (.onFinish buffered result)
  · obtain ⟨stream, buffered, result, rfl⟩ := hw
    cases exec_runs h
    have hbooks := (finish_finishing stream buffered s).books
    have haccepted : (finish stream buffered s).accepted = s.accepted :=
      congrArg Books.accepted hbooks
    exact ⟨haccepted ▸ List.prefix_rfl, congrArg Books.finished hbooks⟩
  · have hnone : w.finishes = [] := by
      cases w with
      | callback stream call =>
        cases call with
        | onFinish buffered result => exact absurd ⟨stream, buffered, result, rfl⟩ hw
        | _ => rfl
      | _ => rfl
    rw [hnone, List.append_nil]
    cases exec_next hbuild h with
    | moved _ hstages =>
      have haccepted : s'.accepted = s.accepted := congrArg Books.accepted hstages.books
      exact ⟨haccepted ▸ List.prefix_rfl, congrArg Books.finished hstages.books⟩
    | acquired | resumed | building => exact ⟨List.prefix_rfl, rfl⟩
    | accepted _ _ _ _ hbooks =>
      have haccepted : s'.accepted = s.accepted ++ _ := congrArg Books.accepted hbooks
      exact ⟨haccepted ▸ List.prefix_append _ _, congrArg Books.finished hbooks⟩
    | finished => exact absurd ⟨_, _, _, rfl⟩ hw

/-- **What a step finishes.**  No record is forgotten that was registered. -/
theorem step_history {sys : System} {s s' : State} {op : Op} (hs : Sound s)
    (hstep : s.step sys op = some s') :
    s.shared.accepted <+: s'.shared.accepted ∧ s'.shared.finished =
      s.shared.finished ++ (s.ran sys op).toList.flatMap fun ran => ran.2.finishes := by
  have hsame : ∀ {shared : Shared}, shared.accepted = s.shared.accepted →
      shared.finished = s.shared.finished → s.shared.accepted <+: shared.accepted ∧
        shared.finished = s.shared.finished ++ [] := fun haccepted hfinished =>
    ⟨haccepted ▸ List.prefix_rfl, by rw [hfinished, List.append_nil]⟩
  cases (step_turn hstep).2 with
  | @ran id input kind w rest push shared spawn hfound _ hexec =>
    have hbooks := (goOn_accounts sys id kind (push ++ rest) { s with shared }).1
    obtain ⟨haccepted, hfinished⟩ := exec_finishes (fun _ hw => (hs.building hfound hw).2) hexec
    rw [shared_spawn, ran_next hfound hexec, Option.toList_some, List.flatMap_singleton]
    have haccepted' := congrArg Books.accepted hbooks
    have hfinished' := congrArg Books.finished hbooks
    simp only [Shared.books] at haccepted' hfinished'
    rw [haccepted', hfinished']
    exact ⟨haccepted, hfinished⟩
  | @raised id input kind w rest left shared hfound _ hexec =>
    have hraised := exec_raises (fun _ hw => (hs.building hfound hw).2) hexec
    rw [ran_raises hfound hexec]
    exact hsame ((fail_calls id kind (w :: rest) (left ++ rest) { s with shared }).1.trans
      (congrArg Books.accepted hraised.books))
      ((fail_finished id kind (w :: rest) (left ++ rest) { s with shared }).trans
        (congrArg Books.finished hraised.books))
  | reducerTimer =>
    rw [shared_spawn]
    exact hsame rfl rfl
  | collectorTimer _ _ _ _ hbatch =>
    obtain ⟨rfl, _⟩ := collectorBatch_next hbatch
    rw [shared_spawn]
    exact hsame rfl rfl
  | answered =>
    rw [resolve_eq]
    exact hsame rfl rfl
  | @cancelled id kind w rest =>
    exact hsame (fail_calls id kind (w :: rest) (w :: rest) s).1
      (fail_finished id kind (w :: rest) (w :: rest) s)
  | overrun _ _ _ _ hbatch =>
    obtain ⟨rfl, _⟩ := collectorBatch_raises hbatch
    exact hsame rfl rfl
  | refused | entered | flushes | exits | stopped => exact hsame rfl rfl

/-! ## What is dropped before the exit -/

/-- **Before the exit** a record is dropped only with the call that is cancelled over it, or
    in a crash. -/
theorem Running.dropped {sys : System} {s s' : State} {op : Op} (h : Running s) (hs : Sound s)
    (ho : Ordered s) (hop : op ≠ .exit) (hstep : s.step sys op = some s')
    (hcrashed : s'.crashed = false) : s'.shared.dropped = s.shared.dropped ++ s.inHand op := by
  cases (step_turn hstep).2 with
  | exits => exact absurd rfl hop
  | @ran id input kind w rest push shared spawn hfound _ hexec =>
    have hstays := exec_next_stays (h.grounded id _ hfound w List.mem_cons_self)
      (fun _ hw => (hs.building hfound hw).2) hexec
    have hgoes := goOn_grows sys id kind (push ++ rest) { s with shared }
    rw [shared_spawn, hgoes.dropped, inHand_run, List.append_nil]
    exact hstays.grows.dropped
  | @raised id input kind w rest left shared hfound _ hexec =>
    obtain ⟨hgrows, hleft⟩ := exec_raises_stays
      (h.grounded id _ hfound w List.mem_cons_self) h.taskGroup h.isOpen
      (fun _ hw => (hs.building hfound hw).2) hexec
    rw [fail_dropped, inHand_run, ← hgrows.dropped]
    congr 1
    rcases hleft with ⟨hw, rfl⟩ | ⟨howner, _⟩
    · -- A call that has not registered its record has no other frame.
      obtain ⟨call, hcall⟩ := Option.isSome_iff_exists.mp hw
      obtain ⟨_, rfl, _⟩ := hs.entering hfound hcall
      rfl
    · have hkind : TaskKind.send = kind := ho.owns id _ hfound w List.mem_cons_self .send howner
      subst hkind
      cases hcrashed
  | reducerTimer =>
    rw [shared_spawn]
    exact (List.append_nil _).symm
  | collectorTimer _ _ _ _ hbatch =>
    obtain ⟨rfl, _⟩ := collectorBatch_next hbatch
    rw [shared_spawn]
    exact (List.append_nil _).symm
  | answered =>
    rw [resolve_eq]
    exact (List.append_nil _).symm
  | @cancelled id kind w rest hfound =>
    rw [fail_dropped, State.inHand, hfound]
    rfl
  | @stopped id stream work p _ hp hclosed =>
    rw [(h.isOpen stream p hp).limiter] at hclosed
    cases hclosed
  | overrun => cases hcrashed
  | refused | entered | flushes => exact (List.append_nil _).symm

theorem start_running {sys : System} {s : State} (h : State.start sys s) : Running s := by
  rw [h]
  constructor
  · rfl
  · intro stream p hp
    cases hp
  · intro id t ht
    cases ht

end Producer

end Aiokpl
