import Aiokpl.ProducerRollback
import Aiokpl.ProducerTeardown

/-!
# How a call comes to register its record

A `put_record` call stays the call it is until it registers its record under its number,
and no other step registers one.  Before the exit a call that raises does so before it
has registered anything.
-/

namespace Aiokpl

open Lib Aggregation

namespace Producer

variable {sys : System} {s s' : State} {op : Op}

/-! ## The task that a step is about -/

/-- The task that the step runs, cancels or stops. -/
def Op.task? : Op → Option Nat
  | .run id _ => some id
  | .cancel id => some id
  | .stopDrain id => some id
  | _ => none

/-- The other tasks stay as they are. -/
theorem step_spares (hstep : s.step sys op = some s') {id : Nat} (hid : id < s.nextTask)
    (hop : op.task? ≠ some id) : s'.tasks.get? id = s.tasks.get? id := by
  have hspawn : ∀ (s1 : State) (spawn : Option Task), s1.nextTask = s.nextTask →
      (s1.spawn spawn).tasks.get? id = s1.tasks.get? id := by
    intro s1 spawn hnext
    cases spawn with
    | none => rfl
    | some t =>
      rw [get?_spawn, hnext]
      exact if_neg hid.ne
  cases (step_turn hstep).2 with
  | entered | flushes | exits => exact hspawn _ _ rfl
  | ran =>
    have hne : ¬id = _ := fun heq => hop (congrArg some heq.symm)
    rw [hspawn]
    · rw [get?_goOn, if_neg hne]
    · exact nextTask_goOn ..
  | raised | cancelled =>
    have hne : ¬id = _ := fun heq => hop (congrArg some heq.symm)
    rw [get?_fail, if_neg hne]
  | reducerTimer | collectorTimer => exact hspawn _ _ rfl
  | stopped =>
    have hne : ¬id = _ := fun heq => hop (congrArg some heq.symm)
    exact (Dict.get?_erase ..).trans (if_neg hne)
  | refused | overrun | answered => rfl

/-- A task of a `put_record` call is there because it was, or because the call has come. -/
theorem step_putTasks (hs : Sound s) (hstep : s.step sys op = some s') {id : Nat} {t : Task}
    (ht : s'.tasks.get? id = some t) (hkind : t.kind = .putRecord) :
    (∃ t', s.tasks.get? id = some t' ∧ t'.kind = .putRecord) ∨
      ∃ stream userRecord, op = .putRecord stream userRecord := by
  cases step_tasks hstep ht with
  | kept hold => exact Or.inl ⟨t, hold, hkind⟩
  | ran _ hold => exact Or.inl ⟨_, hold, hkind⟩
  | started hstarted =>
    cases hstarted with
    | putRecord => exact Or.inr ⟨_, _, rfl⟩
    | flush | exit => cases hkind
    | frame hfound hexec =>
      have hbackground : Background t := by
        cases exec_next (fun _ hw => (hs.building hfound hw).2) hexec with
        | moved _ _ _ hspawn => exact hspawn t rfl
      exact absurd hkind hbackground.kind
    | @reducerTimer _ _ op _ _ htimer =>
      unfold timerTask at htimer
      split at htimer
      · rw [← Option.some.inj htimer] at hkind
        cases hkind
      · cases htimer
    | collectorTimer _ hbatch =>
      have hbackground := ((collectorBatch_next hbatch).2.2.1 t rfl).1
      exact absurd hkind hbackground.kind

/-! ## Registering a record -/

/-- **What a step registers**: nothing, or the record of the call that runs its last frame
    before that. -/
theorem step_registers (hs : Sound s) (hstep : s.step sys op = some s') :
    s'.shared.accepted = s.shared.accepted ∨
      ∃ id w call, op.task? = some id ∧
        s.tasks.get? id = some { kind := .putRecord, work := [w] } ∧ w.call? = some call ∧
        s'.shared.accepted = s.shared.accepted ++ [(call.stream, id)] ∧
        (s'.tasks.get? id).isSome = true := by
  cases (step_turn hstep).2 with
  | @ran id input kind w rest push shared spawn hfound _ hexec =>
    have heffect := exec_next (fun _ hw => (hs.building hfound hw).2) hexec
    have hgoes := congrArg Books.accepted
      (goOn_accounts sys id kind (push ++ rest) { s with shared }).1
    simp only [Shared.books] at hgoes
    rw [shared_spawn, hgoes]
    cases hcall : w.call? with
    | none => exact Or.inl (heffect.calls hcall).1
    | some call =>
      obtain ⟨rfl, rfl, hnumber, _⟩ := hs.entering hfound hcall
      cases heffect with
      | moved hw => simp [hw] at hcall
      | finished => cases hcall
      | acquired | resumed | building => exact Or.inl rfl
      | @accepted _ call' _ shardKey buffered hcall' _ _ hbooks =>
        obtain rfl := Option.some.inj (hcall'.symm.trans hcall)
        refine Or.inr ⟨id, w, call', rfl, hfound, hcall, ?_, ?_⟩
        · have haccepted := congrArg Books.accepted hbooks
          simp only [Shared.books, hnumber] at haccepted
          exact haccepted
        · rw [spawn_none, get?_goOn, if_pos rfl]
          rfl
  | @raised id input kind w rest left shared hfound _ hexec =>
    have hraised := exec_raises (fun _ hw => (hs.building hfound hw).2) hexec
    have hkept := (fail_calls id kind (w :: rest) (left ++ rest) { s with shared }).1
    exact Or.inl (hkept.trans (congrArg Books.accepted hraised.books))
  | @cancelled id kind w rest => exact Or.inl (fail_calls id kind (w :: rest) (w :: rest) s).1
  | reducerTimer =>
    rw [shared_spawn]
    exact Or.inl rfl
  | collectorTimer _ _ _ _ hbatch =>
    obtain ⟨rfl, _⟩ := collectorBatch_next hbatch
    rw [shared_spawn]
    exact Or.inl rfl
  | answered =>
    rw [resolve_eq]
    exact Or.inl rfl
  | overrun _ _ _ _ hbatch =>
    obtain ⟨rfl, _⟩ := collectorBatch_raises hbatch
    exact Or.inl rfl
  | refused | entered | flushes | exits | stopped => exact Or.inl rfl

/-- **A call that is entering** goes on entering, or is over, or has registered its record. -/
theorem step_entering (hs : Sound s) (hstep : s.step sys op = some s') {id : Nat} {w : Work}
    {call : PutCall} (hfound : s.tasks.get? id = some { kind := .putRecord, work := [w] })
    (hcall : w.call? = some call) :
    (∃ w', s'.tasks.get? id = some { kind := .putRecord, work := [w'] } ∧ w'.call? = some call) ∨
      s'.tasks.get? id = none ∨ id ∈ acceptedIds s'.shared := by
  by_cases hop : op.task? = some id
  · cases (step_turn hstep).2 with
    | @ran id' input kind w' rest push shared spawn hfound' _ hexec =>
      obtain rfl := Option.some.inj hop
      obtain ⟨rfl, hwork⟩ := (Task.mk.injEq ..).mp (Option.some.inj (hfound'.symm.trans hfound))
      obtain ⟨rfl, rfl⟩ := (List.cons.injEq ..).mp hwork
      have hgoes : ∀ v : Work, v.call? = some call → push = [v] → spawn = none →
          ∃ w', (({ s with shared }.goOn sys id' .putRecord (push ++ [])).spawn spawn).tasks.get?
            id' = some { kind := .putRecord, work := [w'] } ∧ w'.call? = some call := by
        rintro v hv rfl rfl
        refine ⟨v, ?_, hv⟩
        rw [spawn_none, get?_goOn, if_pos rfl]
        exact if_neg (List.cons_ne_nil _ _)
      cases exec_next (fun _ hw => (hs.building hfound' hw).2) hexec with
      | moved hw => simp [hw] at hcall
      | finished => cases hcall
      | acquired call' => exact Or.inl (hgoes (.resume call') hcall rfl rfl)
      | resumed call' => exact Or.inl (hgoes (.getPipeline call') hcall rfl rfl)
      | building call' => exact Or.inl (hgoes (.buildPipeline call') hcall rfl rfl)
      | @accepted _ call' _ shardKey buffered hcall' _ _ hbooks =>
        refine Or.inr (Or.inr ?_)
        have hnumber := (hs.entering hfound' hcall').2.2.1
        have hgoes := congrArg Books.accepted (goOn_accounts sys id' .putRecord
          ([Work.getReducer call'.stream shardKey buffered] ++ []) { s with shared }).1
        have haccepted := congrArg Books.accepted hbooks
        simp only [Shared.books, hnumber] at hgoes haccepted
        rw [shared_spawn, acceptedIds, hgoes, haccepted, List.map_append]
        exact List.mem_append_right _ List.mem_cons_self
    | raised hfound' | cancelled hfound' =>
      obtain rfl := Option.some.inj hop
      obtain ⟨rfl, _⟩ := (Task.mk.injEq ..).mp (Option.some.inj (hfound'.symm.trans hfound))
      refine Or.inr (Or.inl ?_)
      rw [get?_fail, if_pos rfl]
    | stopped hfound' =>
      obtain rfl := Option.some.inj hop
      cases hfound'.symm.trans hfound
    | _ => cases hop
  · refine Or.inl ⟨w, ?_, hcall⟩
    rw [step_spares hstep (hs.lt_nextTask hfound) hop]
    exact hfound

/-! ## Before the exit -/

/-- **Before the exit** a call raises early, if it does. -/
theorem Running.failsEarly (h : Running s) (hs : Sound s) (ho : Ordered s)
    (hstep : s.step sys op = some s') (hop : ∀ id t, op = .cancel id → s.tasks.get? id = some t →
      t.kind ≠ .putRecord) : failsEarly sys s op := by
  obtain ⟨hcrashed, hturn⟩ := step_turn hstep
  have hnone : s.failing sys op = none → Producer.failsEarly sys s op := by
    intro hfailing e he
    rw [hfailing] at he
    cases he
  cases hturn with
  | ran hfound _ hexec => exact hnone (failing_ran hfound hexec)
  | @raised id input kind w rest left shared hfound _ hexec =>
    have hleft := (exec_raises_stays (h.grounded id _ hfound w List.mem_cons_self)
      h.taskGroup h.isOpen (fun _ hw => (hs.building hfound hw).2) hexec).2
    intro e he
    rw [failing_raised hfound hexec] at he
    split at he
    · rw [failedBy_eq] at he
      split at he
      · rename_i hkind
        obtain rfl := List.mem_singleton.mp he
        rcases hleft with ⟨hentering, _⟩ | ⟨howner, _⟩
        · obtain ⟨call, hcall⟩ := Option.isSome_iff_exists.mp hentering
          exact putPhase_entering hcall
        · -- Only a task that sends has such a frame.
          have hsend : TaskKind.send = kind :=
            ho.owns id _ hfound w List.mem_cons_self .send howner
          rw [← hsend] at hkind
          cases hkind
      · cases he
    · cases he
  | cancelled hfound =>
    intro e he
    have hkind := hop _ _ rfl hfound
    rw [State.failing, hfound, Option.map_some, failedBy_eq, if_neg hkind] at he
    cases he
  | _ => exact hnone rfl

/-- If no call has failed late, nothing is outstanding only when every record has
    finished. -/
theorem Ledger.finished_of_outstanding {maxOutstanding : Nat} (h : Ledger maxOutstanding s)
    (hs : Sound s) (hearly : ∀ e ∈ s.shared.failed, e.2 ≠ .registered)
    (hnone : s.shared.outstanding ≤ 0) : ∀ k ∈ s.shared.accepted, k ∈ s.shared.finished := by
  have hlate : lateFailures s.shared.failed = 0 := by
    apply List.countP_eq_zero.mpr
    intro e he hregistered
    exact hearly e he (of_decide_eq_true hregistered)
  have houtstanding := h.outstanding
  have hlength := h.live_length hs
  rw [hlate] at houtstanding
  have hlive : s.live = [] := List.length_eq_zero_iff.mp (by omega)
  intro k hk
  by_contra hunfinished
  have hmem := mem_live.mpr ⟨hk, hunfinished⟩
  rw [hlive] at hmem
  cases hmem

end Producer

end Aiokpl
