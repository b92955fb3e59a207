import Aiokpl.ProducerKinds

/-!
# What is still running when the client is closed

`AsyncExitStack` leaves its contexts in the reverse order of entry, and `__aenter__`
enters the task group before the client: the client is closed first, and only then
the exit waits for the tasks that use it.  From the `finally` of `__aexit__` on no
task that sends can be started, so what is closed while none is left stays unused.
-/

namespace Aiokpl

open Lib Aggregation

namespace Producer

/-! ## The flags -/

/-- The flags are as before. -/
structure SameFlags (s s' : Shared) : Prop where
  closed : s'.closed = s.closed
  taskGroup : s'.taskGroup = s.taskGroup
  client : s'.clientOpen = s.clientOpen

theorem SameFlags.refl (s : Shared) : SameFlags s s := ⟨rfl, rfl, rfl⟩

theorem sameFlags_goOn (sys : System) (id : Nat) (kind : TaskKind) (work : List Work) (s : State) :
    SameFlags s.shared (s.goOn sys id kind work).shared := by
  unfold State.goOn
  split
  · cases kind with
    | reducerTimer stream shardKey scope =>
      simp only [State.finishTask, endReducerTimer]
      split
      · exact .refl _
      · split <;> exact ⟨rfl, rfl, rfl⟩
    | _ => exact ⟨rfl, rfl, rfl⟩
  · exact .refl _

theorem sameFlags_fail (id : Nat) (task : Task) (left : List Work) (s : State) :
    SameFlags s.shared (s.fail id task left).shared := by
  have hroll : ∀ phase, SameFlags s.shared (rollBack id phase s.shared) := by
    intro phase
    cases phase <;> exact ⟨rfl, rfl, rfl⟩
  obtain ⟨kind, work⟩ := task
  cases kind with
  | putRecord =>
    obtain ⟨hclosed, htg, hclient⟩ := hroll (putPhase work)
    exact ⟨hclosed, htg, hclient⟩
  | _ => exact ⟨rfl, rfl, rfl⟩

/-- A frame that raises leaves the flags alone, and no context. -/
theorem exec_raises_flags {sys : System} {input : Input} {id : Nat} {s s' : Shared} {w : Work}
    {left : List Work} (h : exec sys input id s w = some (.raises s' left)) :
    SameFlags s s' ∧ s.exitStack ⊆ s'.exitStack := by
  cases exec_raising h with
  | getPipeline _ _ hsubmit =>
    obtain ⟨rfl, _⟩ := submit_raises hsubmit
    exact ⟨.refl _, List.Subset.refl _⟩
  | buildFails => exact ⟨⟨rfl, rfl, rfl⟩, List.Subset.refl _⟩
  | buildPipeline hsubmit =>
    obtain ⟨rfl, _⟩ := submit_raises hsubmit
    exact ⟨⟨rfl, rfl, rfl⟩, List.subset_cons_self _ _⟩
  | getReducer | inFlight | handleRaises => exact ⟨.refl _, List.Subset.refl _⟩
  | limiterAdmit _ hbatch | flushCollector _ hbatch =>
    obtain ⟨rfl, _⟩ := collectorBatch_raises hbatch
    exact ⟨⟨rfl, rfl, rfl⟩, List.Subset.refl _⟩

/-! ## Where a task of the next state comes from -/

/-- The tasks that a step starts. -/
inductive Started (sys : System) (s : State) : Op → Task → Prop
  | putRecord {stream : String} {userRecord : UserRecord} {call : PutCall} :
      Started sys s (.putRecord stream userRecord) { kind := .putRecord, work := [.acquire call] }
  | flush : Started sys s .flush { kind := .flush, work := [.flushPipelines] }
  | exit : Started sys s .exit { kind := .exit, work := [.flushPipelines, .unwind] }
  | frame {id : Nat} {input : Input} {kind : TaskKind} {w : Work} {rest push : List Work}
      {shared : Shared} {t : Task} :
      s.tasks.get? id = some { kind, work := w :: rest } →
      exec sys input id s.shared w = some (.next shared push (some t)) →
      Started sys s (.run id input) t
  | reducerTimer {stream : String} {shardKey : Option ShardId} {op : Reducer.Op BufferedRecord}
      {closed : Option AggregatedBatch} {t : Task} : timerTask stream shardKey op closed = some t →
      Started sys s (.reducerTimer stream shardKey op) t
  | collectorTimer {stream : String} {op : Reducer.Op AggregatedBatch}
      {closed : Option PutRecordsBatch} {before shared : Shared} {push : List Work} {t : Task} :
      before.taskGroup = s.shared.taskGroup →
      collectorBatch stream closed before = .next shared push (some t) →
      Started sys s (.collectorTimer stream op) t

/-- Where a task of the next state comes from: it was there, it has run a frame, or the
    step has started it. -/
inductive TaskFrom (sys : System) (s : State) (op : Op) (s' : State) (id : Nat) (t : Task) : Prop
  | kept : s.tasks.get? id = some t → TaskFrom sys s op s' id t
  | ran {input : Input} {w : Work} {rest push : List Work} {shared : Shared} {spawn : Option Task} :
      op = .run id input → s.tasks.get? id = some { kind := t.kind, work := w :: rest } →
      exec sys input id s.shared w = some (.next shared push spawn) → t.work = push ++ rest →
      SameFlags shared s'.shared → TaskFrom sys s op s' id t
  | started : Started sys s op t → TaskFrom sys s op s' id t

theorem taskFrom_spawn {sys : System} {s s1 s' : State} {op : Op} {spawn : Option Task} {id : Nat}
    {t : Task} (h : (s1.spawn spawn).tasks.get? id = some t)
    (hspawn : ∀ t, spawn = some t → Started sys s op t)
    (hold : ∀ t, s1.tasks.get? id = some t → TaskFrom sys s op s' id t) :
    TaskFrom sys s op s' id t := by
  cases spawn with
  | none => exact hold t h
  | some t' =>
    rw [get?_spawn] at h
    split at h
    · obtain rfl := Option.some.inj h
      exact .started (hspawn t' rfl)
    · exact hold t h

/-- **The tasks after a step.** -/
theorem step_tasks {sys : System} {s s' : State} {op : Op} (hstep : s.step sys op = some s')
    {id : Nat} {t : Task} (h : s'.tasks.get? id = some t) :
    TaskFrom sys s op s' id t := by
  cases (step_turn hstep).2 with
  | refused => exact .kept h
  | entered =>
    refine taskFrom_spawn h ?_ fun t ht => .kept ht
    rintro t ⟨⟩
    exact .putRecord
  | flushes =>
    refine taskFrom_spawn h ?_ fun t ht => .kept ht
    rintro t ⟨⟩
    exact .flush
  | exits =>
    refine taskFrom_spawn h ?_ fun t ht => .kept ht
    rintro t ⟨⟩
    exact .exit
  | @ran id' input kind w rest push shared spawn hfound _ hexec =>
    apply taskFrom_spawn h
    · rintro t rfl
      exact .frame hfound hexec
    · intro t ht
      rw [get?_goOn] at ht
      split at ht
      · rename_i hid
        subst hid
        split at ht
        · cases ht
        · obtain rfl := Option.some.inj ht
          refine .ran rfl hfound hexec rfl ?_
          rw [shared_spawn]
          exact sameFlags_goOn sys id kind (push ++ rest) { s with shared }
      · exact .kept ht
  | raised =>
    rw [get?_fail] at h
    split at h
    · cases h
    · exact .kept h
  | reducerTimer =>
    refine taskFrom_spawn h ?_ fun t ht => .kept ht
    intro t ht
    exact .reducerTimer ht
  | collectorTimer _ _ hp _ hbatch =>
    refine taskFrom_spawn h ?_ fun t ht => .kept ht
    rintro t rfl
    refine .collectorTimer ?_ hbatch
    rfl
  | overrun => exact .kept h
  | answered => exact .kept h
  | cancelled =>
    rw [get?_fail] at h
    split at h
    · cases h
    · exact .kept h
  | @stopped id' stream work p hfound =>
    rw [Dict.get?_erase] at h
    split at h
    · cases h
    · exact .kept h

/-! ## The flags after a step -/

/-- **The flags change** only where a frame of `__aexit__` changes them. -/
theorem step_flags {sys : System} {s s' : State} {op : Op} (hstep : s.step sys op = some s') :
    SameFlags s.shared s'.shared ∨
      ∃ id input kind w rest, op = .run id input ∧
        s.tasks.get? id = some { kind, work := w :: rest } ∧
        s'.shared.closed = (s.shared.closed || w.unwinds) ∧
        s'.shared.taskGroup = (s.shared.taskGroup && !w.unwinds) ∧
        s'.shared.clientOpen = (s.shared.clientOpen && !w.closesClient) := by
  cases (step_turn hstep).2 with
  | refused => exact Or.inl (.refl _)
  | entered => exact Or.inl (.refl _)
  | flushes => exact Or.inl (.refl _)
  | exits => exact Or.inl (.refl _)
  | @ran id input kind w rest push shared spawn hfound _ hexec =>
    have hcontrol := exec_next_control hexec
    obtain ⟨hclosed, htg, hclient⟩ := sameFlags_goOn sys id kind (push ++ rest) { s with shared }
    refine Or.inr ⟨id, input, kind, w, rest, rfl, hfound, ?_⟩
    rw [shared_spawn, hclosed, htg, hclient]
    exact ⟨hcontrol.closed, hcontrol.taskGroup, hcontrol.client⟩
  | @raised id input kind w rest left shared hfound _ hexec =>
    obtain ⟨⟨hclosed, htg, hclient⟩, _⟩ := exec_raises_flags hexec
    obtain ⟨hclosed', htg', hclient'⟩ :=
      sameFlags_fail id { kind, work := w :: rest } (left ++ rest) { s with shared }
    exact Or.inl ⟨hclosed'.trans hclosed, htg'.trans htg, hclient'.trans hclient⟩
  | reducerTimer =>
    rw [shared_spawn]
    exact Or.inl ⟨rfl, rfl, rfl⟩
  | collectorTimer _ _ _ _ hbatch =>
    obtain ⟨rfl, _⟩ := collectorBatch_control hbatch
    rw [shared_spawn]
    exact Or.inl ⟨rfl, rfl, rfl⟩
  | overrun _ _ _ _ hbatch =>
    obtain ⟨rfl, _⟩ := collectorBatch_raises hbatch
    exact Or.inl ⟨rfl, rfl, rfl⟩
  | answered =>
    rw [resolve_eq]
    exact Or.inl ⟨rfl, rfl, rfl⟩
  | cancelled => exact Or.inl (sameFlags_fail ..)
  | stopped => exact Or.inl ⟨rfl, rfl, rfl⟩

/-! ## The frames of the exit -/

/-- The frame belongs to the `finally` of `__aexit__`, past its first line. -/
def Work.leaves : Work → Bool
  | .unwind => false
  | w => w.owner = some .exit

theorem owner_of_leaves {w : Work} (h : w.leaves = true) : w.owner = some .exit := by
  cases w <;> simp [Work.leaves, Work.owner] at h ⊢

/-- The tasks have the frames of their kinds; frames that leave contexts are there only
    once the task group has been unset; and so is a client that is closed. -/
structure Ordered (s : State) : Prop where
  owns : ∀ id t, s.tasks.get? id = some t → Owns t.kind t.work
  leaves : ∀ id t, s.tasks.get? id = some t → ∀ v ∈ t.work, v.leaves = true →
    s.shared.taskGroup = false
  client : s.shared.clientOpen = false → s.shared.taskGroup = false

theorem started_spec {sys : System} {s : State} {op : Op} {t : Task} (h : Started sys s op t) :
    Owns t.kind t.work ∧ (∀ v ∈ t.work, v.leaves = false) ∧
      (t.kind = .send → s.shared.taskGroup = true) := by
  have hspawned :
      Owns t.kind t.work ∧ t.kind ≠ .exit ∧ (t.kind = .send → s.shared.taskGroup = true) →
      Owns t.kind t.work ∧ (∀ v ∈ t.work, v.leaves = false) ∧
        (t.kind = .send → s.shared.taskGroup = true) := by
    rintro ⟨howns, hkind, htg⟩
    refine ⟨howns, ?_, htg⟩
    intro v hv
    by_contra hleaves
    rw [Bool.not_eq_false] at hleaves
    exact hkind (howns v hv .exit (owner_of_leaves hleaves)).symm
  cases h with
  | putRecord => simp [Owns, Work.owner, Work.leaves]
  | flush => simp [Owns, Work.owner, Work.leaves]
  | exit => simp [Owns, Work.owner, Work.leaves]
  | frame hfound hexec => exact hspawned ((exec_next_control hexec).spawn t rfl)
  | reducerTimer htimer =>
    unfold timerTask at htimer
    split at htimer
    · obtain rfl := Option.some.inj htimer
      simp [Owns, Work.owner, Work.leaves]
    · cases htimer
  | collectorTimer hbefore hbatch =>
    apply hspawned
    rw [← hbefore]
    exact (collectorBatch_control hbatch).2.2 t rfl

/-- A frame that leaves a context is pushed by a frame of `__aexit__`. -/
theorem Control.leaves {s s' : Shared} {w v : Work} {push : List Work} {spawn : Option Task}
    (h : Control s w s' push spawn) (hv : v ∈ push) (hleaves : v.leaves = true) :
    w.owner = some .exit := by
  by_contra hw
  have hkind : w.owner.getD .send ≠ .exit := by
    cases howner : w.owner with
    | none => simp
    | some kind =>
      rintro rfl
      exact hw howner
  have howns : Owns (w.owner.getD .send) [w] := by
    intro v hv owner howner
    rw [List.mem_singleton.mp hv] at howner
    rw [Option.mem_def.mp howner]
    rfl
  exact hkind (h.owns _ howns v hv .exit (owner_of_leaves hleaves)).symm

theorem leaves_of_owner {w : Work} (h : w.owner = some .exit) :
    w.leaves = true ∨ w.unwinds = true := by
  cases w <;> simp [Work.owner, Work.leaves, Work.unwinds] at h ⊢

theorem leaves_of_closesClient {w : Work} (h : w.closesClient = true) : w.leaves = true := by
  cases w <;> simp [Work.closesClient, Work.leaves, Work.owner] at h ⊢

/-- The task group is never set again. -/
theorem step_taskGroup {sys : System} {s s' : State} {op : Op} (hstep : s.step sys op = some s')
    (h : s.shared.taskGroup = false) : s'.shared.taskGroup = false := by
  rcases step_flags hstep with hsame | ⟨_, _, _, _, _, _, _, _, htg, _⟩
  · exact hsame.taskGroup.trans h
  · rw [htg, h]
    rfl

theorem step_ordered {sys : System} {s s' : State} {op : Op} (h : Ordered s)
    (hstep : s.step sys op = some s') : Ordered s' := by
  constructor
  · intro id t ht
    cases step_tasks hstep ht with
    | kept hold => exact h.owns id t hold
    | @ran input w rest push shared spawn _ hold hexec hwork =>
      have howns := h.owns id _ hold
      have hw : Owns t.kind [w] := by
        intro v hv
        rw [List.mem_singleton.mp hv]
        exact howns w List.mem_cons_self
      rw [hwork]
      refine List.forall_mem_append.mpr ⟨(exec_next_control hexec).owns _ hw, fun v hv => ?_⟩
      exact howns v (List.mem_cons_of_mem w hv)
    | started hstarted => exact (started_spec hstarted).1
  · intro id t ht v hv hleaves
    cases step_tasks hstep ht with
    | kept hold => exact step_taskGroup hstep (h.leaves id t hold v hv hleaves)
    | @ran input w rest push shared spawn hop hold hexec hwork hsame =>
      have hexit : v ∈ push → s'.shared.taskGroup = false := by
        intro hpush
        rcases leaves_of_owner ((exec_next_control hexec).leaves hpush hleaves) with hw | hw
        · exact step_taskGroup hstep (h.leaves id _ hold w List.mem_cons_self hw)
        · rw [hsame.taskGroup, (exec_next_control hexec).taskGroup, hw]
          exact Bool.and_false _
      rw [hwork, List.mem_append] at hv
      rcases hv with hpush | hrest
      · exact hexit hpush
      · exact step_taskGroup hstep
          (h.leaves id _ hold v (List.mem_cons_of_mem w hrest) hleaves)
    | started hstarted =>
      rw [(started_spec hstarted).2.1 v hv] at hleaves
      cases hleaves
  · intro hclosed
    rcases step_flags hstep with hsame | ⟨id, input, kind, w, rest, rfl, hfound, _, _, hclient⟩
    · exact hsame.taskGroup.trans (h.client (hsame.client.symm.trans hclosed))
    · apply step_taskGroup hstep
      cases hw : w.closesClient with
      | true =>
        exact h.leaves id _ hfound w List.mem_cons_self (leaves_of_closesClient hw)
      | false =>
        rw [hclosed, hw, Bool.not_false, Bool.and_true] at hclient
        exact h.client hclient.symm

theorem start_ordered {sys : System} {s : State} (h : State.start sys s) : Ordered s := by
  rw [h]
  constructor
  · intro id t ht
    cases ht
  · intro id t ht
    cases ht
  · intro hclosed
    cases hclosed

theorem reachable_ordered {sys : System} {ok : State → Op → Prop} {s : State}
    (h : Reachable (State.start sys) (State.step sys) ok s) : Ordered s :=
  h.invariant (fun _ => start_ordered) fun _ _ _ hs _ hstep => step_ordered hs hstep

/-! ## Closing the client -/

/-- No task that sends is left. -/
def State.idle (s : State) : Bool := s.tasks.values.all fun t => t.kind ≠ .send

theorem idle_iff {s : State} :
    s.idle = true ↔ ∀ id t, s.tasks.get? id = some t → t.kind ≠ .send := by
  simp only [State.idle, List.all_eq_true, Dict.mem_values, decide_eq_true_eq]
  constructor
  · intro h id t ht
    exact h t ⟨id, ht⟩
  · rintro h t ⟨id, ht⟩
    exact h id t ht

/-- The next frame of the task is such a frame. -/
def State.comesTo (s : State) (frame : Work → Bool) (id : Nat) : Bool :=
  (s.tasks.get? id).any fun t => t.work.head?.any frame

theorem comesTo_of_get? {s : State} {id : Nat} {kind : TaskKind} {w : Work} {rest : List Work}
    (h : s.tasks.get? id = some { kind, work := w :: rest }) (frame : Work → Bool) :
    s.comesTo frame id = frame w := by
  simp [State.comesTo, h]

/-- When `__aexit__` comes to its `finally`, no task that sends is left. -/
def unwindsIdle (s : State) : Op → Prop
  | .run id _ => s.comesTo Work.unwinds id = true → s.idle = true
  | _ => True

instance (s : State) : (op : Op) → Decidable (unwindsIdle s op)
  | .run id _ =>
    inferInstanceAs (Decidable (s.comesTo Work.unwinds id = true → s.idle = true))
  | .putRecord _ _ | .flush | .exit | .reducerTimer _ _ _ | .collectorTimer _ _
  | .cancelOutcome _ | .cancel _ | .stopDrain _ => isTrue trivial

/-- A task that sends was there before, unless the task group was still set. -/
theorem step_send {sys : System} {s s' : State} {op : Op} (hstep : s.step sys op = some s')
    (htg : s.shared.taskGroup = false) {id : Nat} {t : Task} (ht : s'.tasks.get? id = some t)
    (hsend : t.kind = .send) : ∃ t', s.tasks.get? id = some t' ∧ t'.kind = .send := by
  cases step_tasks hstep ht with
  | kept hold => exact ⟨t, hold, hsend⟩
  | ran _ hold => exact ⟨_, hold, hsend⟩
  | started hstarted =>
    have hset := (started_spec hstarted).2.2 hsend
    rw [htg] at hset
    cases hset

theorem step_idle {sys : System} {s s' : State} {op : Op} (hstep : s.step sys op = some s')
    (htg : s.shared.taskGroup = false) (h : s.idle = true) : s'.idle = true := by
  rw [idle_iff] at h ⊢
  intro id t ht hsend
  obtain ⟨t', hold, hsend'⟩ := step_send hstep htg ht hsend
  exact h id t' hold hsend'

/-- A frame that starts no task leaves the other tasks alone. -/
theorem run_alone {sys : System} {s s' : State} {id : Nat} {input : Input} {kind : TaskKind}
    {w : Work} {rest push : List Work} {shared : Shared}
    (hfound : s.tasks.get? id = some { kind, work := w :: rest })
    (hexec : exec sys input id s.shared w = some (.next shared push none))
    (hstep : s.step sys (.run id input) = some s') :
    SameFlags shared s'.shared ∧
      (∀ id', id' ≠ id → s'.tasks.get? id' = s.tasks.get? id') ∧
      ∀ t, s'.tasks.get? id = some t → t.kind = kind := by
  cases (step_turn hstep).2 with
  | ran hfound' _ hexec' =>
    obtain ⟨rfl, hwork⟩ := (Task.mk.injEq ..).mp (Option.some.inj (hfound.symm.trans hfound'))
    obtain ⟨rfl, rfl⟩ := (List.cons.injEq ..).mp hwork
    obtain ⟨rfl, rfl, rfl⟩ := (Ran.next.injEq ..).mp (Option.some.inj (hexec.symm.trans hexec'))
    refine ⟨?_, ?_, ?_⟩
    · rw [shared_spawn]
      exact sameFlags_goOn sys id kind (push ++ rest) { s with shared }
    · intro id' hid
      rw [spawn_none, get?_goOn, if_neg hid]
    · intro t ht
      rw [spawn_none, get?_goOn, if_pos rfl] at ht
      split at ht
      · cases ht
      · obtain rfl := Option.some.inj ht
        rfl
  | raised hfound' _ hexec' =>
    obtain ⟨rfl, hwork⟩ := (Task.mk.injEq ..).mp (Option.some.inj (hfound.symm.trans hfound'))
    obtain ⟨rfl, rfl⟩ := (List.cons.injEq ..).mp hwork
    rw [hexec] at hexec'
    cases hexec'

/-- If no task that sends is left at the `finally`, none is left while the client is
    closed. -/
theorem unwinds_idle {sys : System} {s : State}
    (h : Reachable (State.start sys) (State.step sys) unwindsIdle s)
    (hclosed : s.shared.clientOpen = false) : s.idle = true := by
  have hidle : s.shared.taskGroup = false → s.idle = true := by
    clear hclosed
    induction h with
    | start h0 =>
      rw [h0]
      rintro ⟨⟩
    | @next s s' op hprev hok hstep ih =>
      intro htg
      cases hset : s.shared.taskGroup with
      | false => exact step_idle hstep hset (ih hset)
      | true =>
        have hordered := reachable_ordered hprev
        rcases step_flags hstep with hsame | ⟨id, input, kind, w, rest, rfl, hfound, _, htg', _⟩
        · rw [hsame.taskGroup, hset] at htg
          cases htg
        · have hw : w.unwinds = true := by
            rw [htg, hset, Bool.true_and] at htg'
            simpa using htg'.symm
          have hbefore := idle_iff.mp (hok ((comesTo_of_get? hfound _).trans hw))
          obtain rfl : w = .unwind := by
            cases w <;> first | rfl | cases hw
          obtain ⟨_, hothers, hself⟩ := run_alone hfound rfl hstep
          rw [idle_iff]
          intro id' t ht
          by_cases hid : id' = id
          · subst hid
            rw [hself t ht]
            exact hbefore id' _ hfound
          · exact hbefore id' t ((hothers id' hid).symm.trans ht)
  exact hidle ((reachable_ordered h).client hclosed)

/-- A task that sends stands still until it is run. -/
theorem step_waits {sys : System} {s s' : State} {op : Op} (hs : Sound s)
    (hstep : s.step sys op = some s') {id : Nat} {t : Task} (hfound : s.tasks.get? id = some t)
    (hsend : t.kind = .send) (hop : ∀ input, op ≠ .run id input) : s'.tasks.get? id = some t := by
  have hspawn : ∀ (s1 : State) (spawn : Option Task), s1.nextTask = s.nextTask →
      s1.tasks.get? id = some t → (s1.spawn spawn).tasks.get? id = some t := by
    intro s1 spawn hnext hkept
    cases spawn with
    | none => exact hkept
    | some started =>
      have hlt := hs.lt_nextTask hfound
      rw [get?_spawn, if_neg (by omega)]
      exact hkept
  cases (step_turn hstep).2 with
  | refused => exact hfound
  | entered | flushes | exits | reducerTimer | collectorTimer => exact hspawn _ _ rfl hfound
  | @ran id' input =>
    have hother : id ≠ id' := by
      rintro rfl
      exact hop input rfl
    apply hspawn
    · exact nextTask_goOn ..
    · rw [get?_goOn, if_neg hother]
      exact hfound
  | @raised id' input =>
    have hother : id ≠ id' := by
      rintro rfl
      exact hop input rfl
    rw [get?_fail, if_neg hother]
    exact hfound
  | overrun => exact hfound
  | answered => exact hfound
  | @cancelled id' kind w rest hfound' hkind =>
    have hother : id ≠ id' := by
      rintro rfl
      obtain rfl := Option.some.inj (hfound.symm.trans hfound')
      rcases hkind with rfl | rfl <;> cases hsend
    rw [get?_fail, if_neg hother]
    exact hfound
  | @stopped id' stream work p hfound' =>
    have hother : id ≠ id' := by
      rintro rfl
      obtain rfl := Option.some.inj (hfound.symm.trans hfound')
      cases hsend
    rw [Dict.get?_erase, if_neg hother]
    exact hfound

theorem exec_waits {sys : System} {s s' : State} {ops : List Op}
    (h : Reachable (State.start sys) (State.step sys) anyStep s)
    (hexec : Lib.exec (State.step sys) anyStep s ops = some s') {id : Nat} {t : Task}
    (hfound : s.tasks.get? id = some t) (hsend : t.kind = .send)
    (hops : ∀ input, .run id input ∉ ops) : s'.tasks.get? id = some t := by
  induction ops generalizing s with
  | nil =>
    obtain rfl := Option.some.inj hexec
    exact hfound
  | cons op ops ih =>
    rw [Lib.exec, if_pos (by trivial), Option.bind_eq_some_iff] at hexec
    obtain ⟨mid, hstep, hexec⟩ := hexec
    have hkept := step_waits (reachable_sound h) hstep hfound hsend fun input hop =>
      hops input (List.mem_cons.mpr (Or.inl hop.symm))
    exact ih (h.next trivial hstep) hexec hkept fun input hop =>
      hops input (List.mem_cons_of_mem op hop)

/-- **The client is closed over the tasks that use it.**  If no task that sends is left
    when `__aexit__` comes to its `finally`, none is left, and no request is made or
    awaited, while the client is closed.  If one is left then, it is still where it was,
    whatever the exit has closed, for as long as it takes no step. -/
theorem closed_client_unused (sys : System) :
    (∀ s, Reachable (State.start sys) (State.step sys) unwindsIdle s →
      s.shared.clientOpen = false → s.idle = true ∧
        ∀ id t, s.tasks.get? id = some t → ∀ v ∈ t.work, v.owner ≠ some .send) ∧
    ∀ s s' ops id t, Reachable (State.start sys) (State.step sys) anyStep s →
      Lib.exec (State.step sys) anyStep s ops = some s' →
      s.tasks.get? id = some t → t.kind = .send → (∀ input, .run id input ∉ ops) →
      s'.idle = false ∧ s'.tasks.get? id = some t := by
  constructor
  · intro s hreach hclosed
    have hidle := unwinds_idle hreach hclosed
    refine ⟨hidle, ?_⟩
    intro id t ht v hv howner
    exact idle_iff.mp hidle id t ht ((reachable_ordered hreach).owns id t ht v hv .send howner).symm
  · intro s s' ops id t hreach hexec hfound hsend hops
    have hkept := exec_waits hreach hexec hfound hsend hops
    refine ⟨?_, hkept⟩
    rw [Bool.eq_false_iff]
    exact fun hidle => idle_iff.mp hidle id t hkept hsend

/-! ### A request whose reply is still to come -/

def oneStream : System := { md5 := fun _ => .zero, u := .asciiOnly, cfg := {} }

def entered : State := { shared := { permits := oneStream.cfg.maxOutstandingRecords } }

/-- A record is put, and the `flush` of the exit starts the task 3, which makes the request
    as the exit comes to its `finally`. -/
def flushesOne : List Op :=
  .putRecord "a" { partitionKey := "p", data := [] } :: List.replicate 6 (.run 0 {}) ++
    .exit :: List.replicate 8 (.run 1 {}) ++ [.run 3 {}]

/-- The service takes the record, which is finished. -/
def takesOne : List Op :=
  let slot : Sender.Slot := { sequenceNumber := some "1", shardId := some "shardId-000000000000" }
  [.run 3 { reply := .response [slot] }, .run 3 {}]

/-- The exit leaves the pipeline, whose timers and drain task end, and the client. -/
def leavesClient : List Op :=
  List.replicate 3 (.run 1 {}) ++ [.collectorTimer "a" (.cancelled 0), .run 1 {}, .run 1 {},
    .stopDrain 2, .run 1 {}, .reducerTimer "a" none (.cancelled 0)] ++ List.replicate 5 (.run 1 {})

def Work.awaitsReply : Work → Bool
  | .inFlight _ _ _ => true
  | _ => false

/-- The service answers before the `finally`, or not at all. -/
theorem closed_client_unused_taken :
    (∃ s, Reachable (State.start oneStream) (State.step oneStream) unwindsIdle s ∧
      s.shared.clientOpen = false ∧ s.shared.finished = [("a", 0)] ∧ s.idle = true) ∧
    ∃ s s', Lib.exec (State.step oneStream) anyStep s leavesClient = some s' ∧
      s'.shared.clientOpen = false ∧ s'.comesTo Work.awaitsReply 3 = true ∧ s'.idle = false := by
  constructor
  · have hrun : (Lib.exec (State.step oneStream) unwindsIdle entered
        (flushesOne ++ takesOne ++ leavesClient)).map
        (fun s => (s.shared.clientOpen, s.shared.finished)) = some (false, [("a", 0)]) := by
      decide +kernel
    obtain ⟨s, hexec, hout⟩ := Option.map_eq_some_iff.mp hrun
    obtain ⟨hclosed, hfinished⟩ := Prod.mk.inj hout
    have hreach : Reachable (State.start oneStream) (State.step oneStream) unwindsIdle s :=
      Reachable.exec (.start rfl) hexec
    exact ⟨s, hreach, hclosed, hfinished, ((closed_client_unused oneStream).1 s hreach hclosed).1⟩
  · have hrun : (Lib.exec (State.step oneStream) anyStep entered flushesOne).map
        (fun s => decide (((s.tasks.get? 3).map Task.kind = some .send) ∧
          (Lib.exec (State.step oneStream) anyStep s leavesClient).map
            (fun s' => (s'.shared.clientOpen, s'.comesTo Work.awaitsReply 3)) =
              some (false, true))) = some true := by
      decide +kernel
    obtain ⟨s, hexec, hout⟩ := Option.map_eq_some_iff.mp hrun
    obtain ⟨htask, hleaves⟩ := of_decide_eq_true hout
    obtain ⟨t, hfound, hsend⟩ := Option.map_eq_some_iff.mp htask
    obtain ⟨s', hexec', hout'⟩ := Option.map_eq_some_iff.mp hleaves
    obtain ⟨hclosed, hawaits⟩ := Prod.mk.inj hout'
    have hreach : Reachable (State.start oneStream) (State.step oneStream) anyStep s :=
      Reachable.exec (.start rfl) hexec
    have hidle := ((closed_client_unused oneStream).2 s s' leavesClient 3 t hreach hexec' hfound
      hsend (by simp [leavesClient])).1
    exact ⟨s, s', hexec', hclosed, hawaits, hidle⟩

/-- The exit does not wait for the task it has started: the client is closed while the
    request waits for its reply. -/
theorem request_on_closed_client :
    ∃ s, Reachable (State.start oneStream) (State.step oneStream) anyStep s ∧
      s.shared.clientOpen = false ∧ s.comesTo Work.awaitsReply 3 = true ∧ s.idle = false := by
  have hrun : (Lib.exec (State.step oneStream) anyStep entered (flushesOne ++ leavesClient)).map
      (fun s => decide (s.shared.clientOpen = false ∧ s.comesTo Work.awaitsReply 3 = true ∧
        s.idle = false)) = some true := by
    decide +kernel
  obtain ⟨s, hexec, hout⟩ := Option.map_eq_some_iff.mp hrun
  obtain ⟨hclosed, hawaits, hidle⟩ := of_decide_eq_true hout
  have hreach : Reachable (State.start oneStream) (State.step oneStream) anyStep s :=
    Reachable.exec (.start rfl) hexec
  exact ⟨s, hreach, hclosed, hawaits, hidle⟩

end Producer

end Aiokpl
