import Aiokpl.ProducerRollback

/-!
# What the exit leaves unresolved

`flush` does not wait for the replies, and the `finally` of `__aexit__` closes the
stages over whatever they hold.  What is with the service by then is waited for, and
it is resolved if the service does not ask for it again.
-/

namespace Aiokpl

open Lib Aggregation

namespace Producer

/-! ## Records that are with the service -/

/-- The frame holds records that are sent, or that have been answered and are not to be
    sent again. -/
def Work.delivers : Work → Bool
  | .send _ _ => true
  | .inFlight _ _ _ => true
  | .handleRaises _ _ => true
  | .callback _ (.onFinish _ _) => true
  | _ => false

def Task.delivers (k : Token) (t : Task) : Bool :=
  decide (t.kind = .send) && t.work.any fun w => w.delivers && w.tokens.contains k

/-- A task that sends has the record in its request, or the final answer to it. -/
def State.delivers (s : State) (k : Token) : Bool := s.tasks.values.any (Task.delivers k)

theorem delivers_iff {s : State} {k : Token} :
    s.delivers k = true ↔ ∃ id work, s.tasks.get? id = some { kind := .send, work } ∧
      ∃ w ∈ work, w.delivers = true ∧ k ∈ w.tokens := by
  simp only [State.delivers, List.any_eq_true, Dict.mem_values, Task.delivers, Bool.and_eq_true,
    decide_eq_true_eq, List.contains_iff_mem]
  constructor
  · rintro ⟨⟨kind, work⟩, ⟨id, ht⟩, rfl, hw⟩
    exact ⟨id, work, ht, hw⟩
  · rintro ⟨id, work, ht, hw⟩
    exact ⟨_, ⟨id, ht⟩, rfl, hw⟩

def isRetry : Retrier.Call → Bool
  | .onRetry _ => true
  | _ => false

/-- The reply to the request of this frame has a record retried. -/
def Work.retries (sys : System) (input : Input) : Work → Bool
  | .inFlight stream startedAt batch =>
    match Retrier.trip sys.md5 sys.u sys.cfg.retrier input.env stream startedAt input.endedAt batch
        input.reply with
    | .ok (_, handled) => handled.calls.any isRetry
    | .error _ => false
  | _ => false

/-- The step takes a reply that has a record retried. -/
def State.retries (sys : System) (s : State) : Op → Bool
  | .run id input => s.comesTo (Work.retries sys input) id
  | _ => false

/-- A record that is with the service stays there until it finishes, unless its reply
    has it retried. -/
theorem exec_delivers {sys : System} {input : Input} {id : Nat} {s s' : Shared} {w : Work}
    {push : List Work} {spawn : Option Task} {k : Token} (hw : w.delivers = true)
    (hk : k ∈ w.tokens) (hretries : w.retries sys input = false)
    (h : exec sys input id s w = some (.next s' push spawn)) :
    (∃ v ∈ push, v.delivers = true ∧ k ∈ v.tokens) ∨ k ∈ s'.finished := by
  cases exec_runs h with
  | send stream batch => exact Or.inl ⟨_, List.mem_cons_self, rfl, hk⟩
  | @inFlight stream startedAt batch outcome handled htrip =>
    have hcount : load (carries k) (handling stream batch handled) =
        (tokensOf stream (Retrier.records batch)).count k := load_handling k stream htrip
    have hpos : 0 < load (carries k) (handling stream batch handled) := by
      rw [hcount]
      exact List.count_pos_iff.mpr hk
    rw [load_carries] at hpos
    obtain ⟨v, hv, hkv⟩ := List.mem_flatMap.mp (List.count_pos_iff.mp hpos)
    simp only [Work.retries, htrip] at hretries
    left
    refine ⟨v, hv, ?_, hkv⟩
    rcases List.mem_append.mp hv with hcallback | hraises
    · obtain ⟨call, hcall, rfl⟩ := List.mem_map.mp hcallback
      cases call with
      | onFinish buffered result => rfl
      | onRetry buffered => exact absurd rfl (List.any_eq_false.mp hretries _ hcall)
      | invalidate seenAt shard => cases hkv
    · obtain ⟨_, _, rfl⟩ := List.mem_map.mp hraises
      rfl
  | onFinish stream buffered result =>
    obtain rfl := List.mem_singleton.mp hk
    have hfinished := congrArg Books.finished (finish_finishing stream buffered s).books
    right
    rw [show (finish stream buffered s).finished = _ from hfinished]
    exact List.mem_append_right _ List.mem_cons_self
  | _ => cases hw

/-- **A record that is with the service** stays with it until it has finished. -/
theorem step_delivers {sys : System} {s s' : State} {op : Op} (hs : Sound s)
    (hretries : s.retries sys op = false) (hstep : s.step sys op = some s')
    (hcrashed' : s'.crashed = false) {k : Token} (h : s.delivers k = true) :
    s'.delivers k = true ∨ k ∈ s'.shared.finished := by
  obtain ⟨id, work, ht, v, hv, hdelivers, hk⟩ := delivers_iff.mp h
  have hstays : ∀ {work'}, s'.tasks.get? id = some { kind := .send, work := work' } → v ∈ work' →
      s'.delivers k = true :=
    fun ht' hv' => delivers_iff.mpr ⟨id, _, ht', v, hv', hdelivers, hk⟩
  have hspawned : ∀ (s1 : State) (spawn : Option Task) (t : Task), s1.nextTask = s.nextTask →
      s1.tasks.get? id = some t → (s1.spawn spawn).tasks.get? id = some t := by
    intro s1 spawn t hnext ht'
    have hlt := hs.lt_nextTask ht
    cases spawn with
    | none => exact ht'
    | some t' => rwa [get?_spawn, if_neg (by omega)]
  cases (step_turn hstep).2 with
  | refused => exact Or.inl (hstays ht hv)
  | overrun => cases hcrashed'
  | answered => exact Or.inl (hstays ht hv)
  | entered | flushes | exits | reducerTimer | collectorTimer =>
    exact Or.inl (hstays (hspawned _ _ _ rfl ht) hv)
  | @ran id' input kind w rest push shared spawn hfound _ hexec =>
    by_cases hid : id = id'
    · subst hid
      obtain ⟨rfl, rfl⟩ := (Task.mk.injEq ..).mp (Option.some.inj (ht.symm.trans hfound))
      have hgoes : ∀ u ∈ push ++ rest, u.delivers = true → k ∈ u.tokens →
          (({ s with shared }.goOn sys id .send (push ++ rest)).spawn spawn).delivers k = true := by
        intro u hu hu' hku
        refine delivers_iff.mpr
          ⟨id, push ++ rest, hspawned _ _ _ (nextTask_goOn ..) ?_, u, hu, hu', hku⟩
        rw [get?_goOn, if_pos rfl, if_neg (List.ne_nil_of_mem hu)]
      rcases List.mem_cons.mp hv with rfl | hrest
      · have hnone : v.retries sys input = false := by
          rw [← comesTo_of_get? ht (Work.retries sys input)]
          exact hretries
        rcases exec_delivers hdelivers hk hnone hexec with ⟨u, hu, hu', hku⟩ | hfinished
        · exact Or.inl (hgoes u (List.mem_append_left _ hu) hu' hku)
        · right
          have hbooks := (goOn_accounts sys id .send (push ++ rest) { s with shared }).1
          rw [shared_spawn]
          rwa [show (State.goOn sys id .send (push ++ rest) { s with shared }).shared.finished =
            shared.finished from congrArg Books.finished hbooks]
      · exact Or.inl (hgoes v (List.mem_append_right _ hrest) hdelivers hk)
    · left
      refine hstays (hspawned _ _ _ (nextTask_goOn ..) ?_) hv
      rw [get?_goOn, if_neg hid]
      exact ht
  | @raised id' input kind w rest left shared hfound _ hexec =>
    left
    by_cases hid : id = id'
    · subst hid
      obtain ⟨rfl, rfl⟩ := (Task.mk.injEq ..).mp (Option.some.inj (ht.symm.trans hfound))
      cases hcrashed'
    · refine hstays ?_ hv
      rw [get?_fail, if_neg hid]
      exact ht
  | @cancelled id' kind w rest hfound hkind =>
    left
    refine hstays ?_ hv
    rw [get?_fail, if_neg]
    · exact ht
    · rintro rfl
      obtain ⟨rfl, _⟩ := (Task.mk.injEq ..).mp (Option.some.inj (ht.symm.trans hfound))
      simp at hkind
  | @stopped id' stream work' p hfound =>
    left
    refine hstays ?_ hv
    rw [Dict.get?_erase, if_neg]
    · exact ht
    · rintro rfl
      cases ht.symm.trans hfound

/-! ## From the `finally` on -/

/-- No call is about to register a record, and every record that has not finished is
    with the service, but for those of calls that have failed; after the exit there are no
    others. -/
structure Sent (s : State) : Prop where
  settled : s.crashed = false → ∀ id t, s.tasks.get? id = some t → Settled t.work
  live : s.crashed = false → ∀ k ∈ s.live,
    k.2 ∈ s.shared.failed.map Prod.fst ∨ s.delivers k = true
  left : s.exited = true → ∀ k ∈ s.live, k.2 ∈ s.shared.failed.map Prod.fst

theorem started_settled {sys : System} {s : State} {op : Op} {t : Task} (hs : Sound s)
    (h : Started sys s op t) (hop : ∀ stream userRecord, op ≠ .putRecord stream userRecord) :
    Settled t.work := by
  cases h with
  | putRecord => exact absurd rfl (hop _ _)
  | flush => simp [Settled, Work.call?]
  | exit => simp [Settled, Work.call?]
  | frame hfound hexec =>
    cases exec_next (fun _ hw => (hs.building hfound hw).2) hexec with
    | moved _ _ _ hspawn => exact (hspawn _ rfl).settled
  | reducerTimer htimer => exact (timerTask_background htimer).settled
  | collectorTimer _ hbatch => exact ((collectorBatch_next hbatch).2.2.1 _ rfl).1.settled

/-- While no call is entering, none comes to enter if none can be made. -/
theorem Sent.step_settled {sys : System} {s s' : State} {op : Op} (h : Sent s) (hs : Sound s)
    (hop : s.shared.closed = true ∨ ∀ stream userRecord, op ≠ .putRecord stream userRecord)
    (hstep : s.step sys op = some s') (hcrashed' : s'.crashed = false) :
    ∀ id t, s'.tasks.get? id = some t → Settled t.work := by
  have hsettled := h.settled (step_turn hstep).1
  have hother : (∀ stream userRecord, op ≠ .putRecord stream userRecord) →
      ∀ id t, s'.tasks.get? id = some t → Settled t.work := by
    intro hop id t ht
    cases step_tasks hstep ht with
    | kept hold => exact hsettled id t hold
    | ran _ hold hexec hwork =>
      have heffect := exec_next (fun _ hw => (hs.building hold hw).2) hexec
      obtain ⟨_, _, _, _, _, hpush, _⟩ :=
        heffect.calls (hsettled id _ hold _ List.mem_cons_self)
      rw [hwork]
      exact hpush.append_tail (hsettled id _ hold)
    | started hstarted => exact started_settled hs hstarted hop
  cases op with
  | putRecord stream userRecord =>
    cases (step_turn hstep).2 with
    | refused => exact hsettled
    | entered _ _ hopen =>
      rcases hop with hclosed | hop
      · cases hclosed.symm.trans hopen
      · exact absurd rfl (hop _ _)
  | _ => exact hother (by simp)

/-- And then no record is registered. -/
theorem Sent.step_accepted {sys : System} {s s' : State} {op : Op} (h : Sent s) (hs : Sound s)
    (hstep : s.step sys op = some s') : s'.shared.accepted = s.shared.accepted := by
  have hsettled := h.settled (step_turn hstep).1
  cases (step_turn hstep).2 with
  | @ran id input kind w rest push shared spawn hfound _ hexec =>
    have heffect := exec_next (fun _ hw => (hs.building hfound hw).2) hexec
    have hbooks := (goOn_accounts sys id kind (push ++ rest) { s with shared }).1
    rw [shared_spawn]
    exact (congrArg Books.accepted hbooks).trans
      (heffect.calls (hsettled id _ hfound w List.mem_cons_self)).1
  | @raised id input kind w rest left shared hfound _ hexec =>
    have hraised := exec_raises (fun _ hw => (hs.building hfound hw).2) hexec
    rw [(fail_calls id kind (w :: rest) (left ++ rest) { s with shared }).1]
    exact congrArg Books.accepted hraised.books
  | reducerTimer =>
    rw [shared_spawn]
    rfl
  | collectorTimer _ _ _ _ hbatch =>
    obtain ⟨rfl, _⟩ := collectorBatch_next hbatch
    rw [shared_spawn]
    rfl
  | answered => rw [resolve_eq]
  | @cancelled id kind w rest => exact (fail_calls id kind (w :: rest) (w :: rest) s).1
  | overrun _ _ _ _ hbatch =>
    obtain ⟨rfl, _⟩ := collectorBatch_raises hbatch
    rfl
  | refused | entered | flushes | exits | stopped => rfl

/-- What has finished has finished. -/
theorem step_finished {sys : System} {s s' : State} {op : Op} (hs : Sound s)
    (hstep : s.step sys op = some s') : s.shared.finished ⊆ s'.shared.finished := by
  rw [(step_history hs hstep).2]
  exact List.subset_append_left _ _

/-- The step that crashes the producer does not end the exit. -/
theorem exited_of_crashed {sys : System} {s s' : State} {op : Op}
    (hstep : s.step sys op = some s') (hcrashed' : s'.crashed = true) :
    s'.exited = s.exited := by
  have hcrashed := (step_turn hstep).1
  cases (step_turn hstep).2 with
  | ran => simp [hcrashed] at hcrashed'
  | reducerTimer | collectorTimer => simp [hcrashed] at hcrashed'
  | @raised id input kind => cases kind <;> rfl
  | @cancelled id kind => cases kind <;> rfl
  | overrun => rfl
  | _ => cases hcrashed.symm.trans hcrashed'

/-- **From the `finally` on** what has not finished stays with the service, if no reply
    has a record retried. -/
theorem Sent.step {sys : System} {s s' : State} {op : Op} (h : Sent s) (hs : Sound s)
    (hop : s.shared.closed = true ∨ ∀ stream userRecord, op ≠ .putRecord stream userRecord)
    (hretries : s.retries sys op = false) (hstep : s.step sys op = some s')
    (hidle : s'.exited = true → s'.idle = true) : Sent s' := by
  have hlive : ∀ k ∈ s'.live, k ∈ s.live := by
    intro k hk
    obtain ⟨haccepted, hunfinished⟩ := mem_live.mp hk
    rw [h.step_accepted hs hstep] at haccepted
    exact mem_live.mpr ⟨haccepted, fun hmem => hunfinished (step_finished hs hstep hmem)⟩
  have hfailed : ∀ {k : Token}, k.2 ∈ s.shared.failed.map Prod.fst →
      k.2 ∈ s'.shared.failed.map Prod.fst := by
    intro k hk
    rw [step_failed hs hstep, List.map_append]
    exact List.mem_append_left _ hk
  have hstill : s'.crashed = false → ∀ k ∈ s'.live,
      k.2 ∈ s'.shared.failed.map Prod.fst ∨ s'.delivers k = true := by
    intro hcrashed' k hk
    rcases h.live (step_turn hstep).1 k (hlive k hk) with hbefore | hdelivers
    · exact Or.inl (hfailed hbefore)
    · rcases step_delivers hs hretries hstep hcrashed' hdelivers with hdelivers | hfinished
      · exact Or.inr hdelivers
      · exact absurd hfinished (mem_live.mp hk).2
  refine ⟨h.step_settled hs hop hstep, hstill, fun hexited' k hk => ?_⟩
  cases hcrashed' : s'.crashed with
  | true => exact hfailed (h.left (exited_of_crashed hstep hcrashed' ▸ hexited') k (hlive k hk))
  | false =>
    rcases hstill hcrashed' k hk with hbefore | hdelivers
    · exact hbefore
    · obtain ⟨id, work, ht, _⟩ := delivers_iff.mp hdelivers
      exact absurd rfl (idle_iff.mp (hidle hexited') id _ ht)

/-! ## The exit waits for the task group -/

theorem exitStack_goOn (sys : System) (id : Nat) (kind : TaskKind) (work : List Work) (s : State) :
    (s.goOn sys id kind work).shared.exitStack = s.shared.exitStack := by
  unfold State.goOn
  split
  · cases kind with
    | reducerTimer stream shardKey scope =>
      simp only [State.finishTask, endReducerTimer]
      split
      · rfl
      · split <;> rfl
    | _ => rfl
  · rfl

theorem exitStack_fail (id : Nat) (task : Task) (left : List Work) (s : State) :
    (s.fail id task left).shared.exitStack = s.shared.exitStack := by
  obtain ⟨kind, work⟩ := task
  cases kind with
  | putRecord =>
    simp only [State.fail]
    cases putPhase work <;> rfl
  | _ => rfl

/-- A context is left by a frame of the exit only. -/
theorem step_stack {sys : System} {s s' : State} {op : Op} (hstep : s.step sys op = some s') :
    s.shared.exitStack ⊆ s'.shared.exitStack ∨ ∃ id input kind rest, op = .run id input ∧
      s.tasks.get? id = some { kind, work := .leaveContexts :: rest } := by
  cases (step_turn hstep).2 with
  | @ran id input kind w rest push shared spawn hfound _ hexec =>
    rw [shared_spawn, exitStack_goOn]
    rcases (exec_next_control hexec).stack with hsame | ⟨call, _, hpushed⟩ | ⟨context, rfl, _⟩
    · exact Or.inl (hsame ▸ List.Subset.refl _)
    · exact Or.inl (hpushed ▸ List.subset_cons_self _ _)
    · exact Or.inr ⟨id, input, kind, rest, rfl, hfound⟩
  | raised _ _ hexec =>
    rw [exitStack_fail]
    exact Or.inl (exec_raises_flags hexec).2
  | reducerTimer =>
    rw [shared_spawn]
    exact Or.inl (List.Subset.refl _)
  | collectorTimer _ _ _ _ hbatch =>
    obtain ⟨rfl, _⟩ := collectorBatch_next hbatch
    rw [shared_spawn]
    exact Or.inl (List.Subset.refl _)
  | answered =>
    rw [resolve_eq]
    exact Or.inl (List.Subset.refl _)
  | cancelled =>
    rw [exitStack_fail]
    exact Or.inl (List.Subset.refl _)
  | overrun _ _ _ _ hbatch =>
    obtain ⟨rfl, _⟩ := collectorBatch_raises hbatch
    exact Or.inl (List.Subset.refl _)
  | refused | entered | flushes | exits | stopped => exact Or.inl (List.Subset.refl _)

/-- The task has yet to leave the task group, or to wait for it, or nothing is left to
    wait for. -/
def Waiting (s : State) (work : List Work) : Prop :=
  (Context.taskGroup ∈ s.shared.exitStack ∧ (.unwind ∈ work ∨ .leaveContexts ∈ work)) ∨
    .awaitTaskGroup ∈ work ∨ s.shared.taskGroup = false ∧ s.idle = true

/-- The only task of `__aexit__`; once that has returned, no task that sends is left. -/
structure Leaving (s : State) : Prop where
  fresh : s.exiting = false → Context.taskGroup ∈ s.shared.exitStack ∧
    ∀ id t, s.tasks.get? id = some t → t.kind ≠ .exit
  one : ∀ id id' t t', s.tasks.get? id = some t → s.tasks.get? id' = some t' → t.kind = .exit →
    t'.kind = .exit → id = id'
  waiting : s.crashed = false → ∀ id t, s.tasks.get? id = some t → t.kind = .exit →
    Waiting s t.work
  done : s.exited = true → s.shared.taskGroup = false ∧ s.idle = true

/-- Leaving the next context either waits for the task group or goes on leaving. -/
theorem exec_leaveContexts {sys : System} {input : Input} {id : Nat} {s s' : Shared}
    {push : List Work} {spawn : Option Task} (hstack : Context.taskGroup ∈ s.exitStack)
    (h : exec sys input id s .leaveContexts = some (.next s' push spawn)) :
    .awaitTaskGroup ∈ push ∨ Context.taskGroup ∈ s'.exitStack ∧ .leaveContexts ∈ push := by
  cases exec_runs h with
  | leftContexts hempty =>
    rw [hempty] at hstack
    cases hstack
  | leaveContext hcontexts =>
    rw [hcontexts] at hstack
    rcases List.mem_cons.mp hstack with rfl | hbelow
    · exact Or.inl List.mem_cons_self
    · exact Or.inr ⟨hbelow, List.mem_append_right _ List.mem_cons_self⟩

/-- A frame of the exit keeps what there is to wait for. -/
theorem Waiting.ran {sys : System} {input : Input} {id : Nat} {s : State} {shared : Shared}
    {w : Work} {rest push : List Work} {spawn : Option Task} (h : Waiting s (w :: rest))
    (hleaves : ∀ v ∈ w :: rest, v.leaves = true → s.shared.taskGroup = false)
    (hready : s.ready w = true)
    (hexec : exec sys input id s.shared w = some (.next shared push spawn)) :
    Context.taskGroup ∈ shared.exitStack ∧
      (.unwind ∈ push ++ rest ∨ .leaveContexts ∈ push ++ rest) ∨
      .awaitTaskGroup ∈ push ++ rest ∨ s.shared.taskGroup = false ∧ s.idle = true := by
  rcases h with ⟨hstack, hframes⟩ | hawaits | hidle
  · by_cases hw : w = .leaveContexts
    · subst hw
      rcases exec_leaveContexts hstack hexec with hpush | ⟨hstack', hpush⟩
      · exact Or.inr (Or.inl (List.mem_append_left _ hpush))
      · exact Or.inl ⟨hstack', Or.inr (List.mem_append_left _ hpush)⟩
    · have hstack' : Context.taskGroup ∈ shared.exitStack := by
        rcases (exec_next_control hexec).stack with hsame | ⟨call, _, hpushed⟩ | ⟨context, hnext, _⟩
        · rwa [hsame]
        · rw [hpushed]
          exact List.mem_cons_of_mem _ hstack
        · exact absurd hnext hw
      refine Or.inl ⟨hstack', ?_⟩
      rcases hframes with hunwind | hleave
      · rcases List.mem_cons.mp hunwind with rfl | hrest
        · cases exec_runs hexec
          exact Or.inr List.mem_cons_self
        · exact Or.inl (List.mem_append_right _ hrest)
      · rcases List.mem_cons.mp hleave with hhead | hrest
        · exact absurd hhead.symm hw
        · exact Or.inr (List.mem_append_right _ hrest)
  · rcases List.mem_cons.mp hawaits with rfl | hrest
    · exact Or.inr (Or.inr ⟨hleaves _ List.mem_cons_self rfl, hready⟩)
    · exact Or.inr (Or.inl (List.mem_append_right _ hrest))
  · exact Or.inr (Or.inr hidle)

/-- What there is to wait for stays if no context is left. -/
theorem Waiting.later {sys : System} {s s' : State} {op : Op} {work : List Work}
    (h : Waiting s work) (hstack : s.shared.exitStack ⊆ s'.shared.exitStack)
    (hstep : s.step sys op = some s') : Waiting s' work := by
  rcases h with ⟨hmem, hframes⟩ | hawaits | ⟨htg, hidle⟩
  · exact Or.inl ⟨hstack hmem, hframes⟩
  · exact Or.inr (Or.inl hawaits)
  · exact Or.inr (Or.inr ⟨step_taskGroup hstep htg, step_idle hstep htg hidle⟩)

/-- The tasks after a frame that raises nothing. -/
theorem get?_ran {sys : System} {s : State} {shared : Shared} {id id' : Nat} {kind : TaskKind}
    {work : List Work} {spawn : Option Task} {t : Task}
    (h : (({ s with shared }.goOn sys id' kind work).spawn spawn).tasks.get? id = some t) :
    id = id' ∧ t = { kind, work } ∧ work ≠ [] ∨ id ≠ id' ∧ s.tasks.get? id = some t ∨
      spawn = some t := by
  have hgoes : ({ s with shared }.goOn sys id' kind work).tasks.get? id = some t →
      id = id' ∧ t = { kind, work } ∧ work ≠ [] ∨ id ≠ id' ∧ s.tasks.get? id = some t ∨
        spawn = some t := by
    intro h
    rw [get?_goOn] at h
    split at h
    · rename_i hid
      split at h
      · cases h
      · rename_i hwork
        exact Or.inl ⟨hid, (Option.some.inj h).symm, hwork⟩
    · rename_i hid
      exact Or.inr (Or.inl ⟨hid, h⟩)
  cases spawn with
  | none => exact hgoes h
  | some t' =>
    rw [get?_spawn] at h
    split at h
    · exact Or.inr (Or.inr h)
    · exact hgoes h

theorem started_exit {sys : System} {s : State} {op : Op} {t : Task} (h : Started sys s op t)
    (hkind : t.kind = .exit) : op.exits = true := by
  cases h with
  | exit => rfl
  | putRecord => cases hkind
  | flush => cases hkind
  | frame _ hexec => exact absurd hkind ((exec_next_control hexec).spawn _ rfl).2.1
  | reducerTimer htimer =>
    unfold timerTask at htimer
    split at htimer
    · obtain rfl := Option.some.inj htimer
      cases hkind
    · cases htimer
  | collectorTimer _ hbatch =>
    exact absurd hkind ((collectorBatch_control hbatch).2.2 _ rfl).2.1

/-- A task of the exit was there before, unless the step begins the exit. -/
theorem step_exit {sys : System} {s s' : State} {op : Op} (hstep : s.step sys op = some s')
    (hop : op.exits = false) {id : Nat} {t : Task} (ht : s'.tasks.get? id = some t)
    (hkind : t.kind = .exit) : ∃ t', s.tasks.get? id = some t' ∧ t'.kind = .exit := by
  cases step_tasks hstep ht with
  | kept hold => exact ⟨t, hold, hkind⟩
  | ran _ hold => exact ⟨_, hold, hkind⟩
  | started hstarted => cases hop.symm.trans (started_exit hstarted hkind)

theorem exiting_goOn (sys : System) (id : Nat) (kind : TaskKind) (work : List Work) (s : State) :
    (s.goOn sys id kind work).exiting = s.exiting := by
  unfold State.goOn
  split
  · cases kind <;> rfl
  · rfl

theorem exited_goOn (sys : System) (id : Nat) (kind : TaskKind) (work : List Work) (s : State) :
    (s.goOn sys id kind work).exited = true → s.exited = true ∨ kind = .exit ∧ work = [] := by
  intro h
  unfold State.goOn at h
  split at h
  · rename_i hwork
    cases kind with
    | exit => exact Or.inr ⟨rfl, List.isEmpty_iff.mp hwork⟩
    | _ => exact Or.inl h
  · exact Or.inl h

/-- When the exit begins, and when it has returned. -/
theorem step_exits {sys : System} {s s' : State} {op : Op} (hstep : s.step sys op = some s')
    (hop : op.exits = false) : s'.exiting = s.exiting ∧ (s'.exited = true → s.exited = true ∨
      ∃ id input w rest shared push spawn, op = .run id input ∧
        s.tasks.get? id = some { kind := .exit, work := w :: rest } ∧ s.ready w = true ∧
        exec sys input id s.shared w = some (.next shared push spawn) ∧ push ++ rest = []) := by
  cases (step_turn hstep).2 with
  | exits => cases hop
  | @ran id input kind w rest push shared spawn hfound hready hexec =>
    have hspawned : ∀ s1 : State, (s1.spawn spawn).exiting = s1.exiting ∧
        (s1.spawn spawn).exited = s1.exited := by
      intro s1
      cases spawn <;> exact ⟨rfl, rfl⟩
    rw [(hspawned _).1, (hspawned _).2, exiting_goOn]
    refine ⟨rfl, ?_⟩
    intro hexited
    rcases exited_goOn _ _ _ _ _ hexited with hbefore | ⟨rfl, hwork⟩
    · exact Or.inl hbefore
    · exact Or.inr ⟨id, input, w, rest, shared, push, spawn, rfl, hfound, hready, hexec, hwork⟩
  | @raised id input kind =>
    cases kind <;> exact ⟨rfl, Or.inl⟩
  | @cancelled id kind =>
    cases kind <;> exact ⟨rfl, Or.inl⟩
  | @reducerTimer stream shardKey op p aggregator closed =>
    cases timerTask stream shardKey op closed <;> exact ⟨rfl, Or.inl⟩
  | @collectorTimer stream op p collector closed shared push spawn =>
    cases spawn <;> exact ⟨rfl, Or.inl⟩
  | refused | entered | flushes | overrun | answered | stopped => exact ⟨rfl, Or.inl⟩

/-- The exit begins once. -/
theorem Leaving.begins {sys : System} {s s' : State} (h : Leaving s)
    (hstep : s.step sys .exit = some s') : Leaving s' := by
  have hidle : s.exited = true → s'.shared.taskGroup = false ∧ s'.idle = true := by
    intro hexited
    obtain ⟨htg, hidle⟩ := h.done hexited
    exact ⟨step_taskGroup hstep htg, step_idle hstep htg hidle⟩
  cases (step_turn hstep).2 with
  | exits hexiting =>
    obtain ⟨hstack, hnone⟩ := h.fresh hexiting
    have hnew : ∀ id t, ({ s with exiting := true }.spawn
        (some { kind := .exit, work := [.flushPipelines, .unwind] })).tasks.get? id = some t →
        t.kind = .exit → id = s.nextTask ∧ t.work = [.flushPipelines, .unwind] := by
      intro id t ht hkind
      rw [get?_spawn] at ht
      split at ht
      · rename_i hid
        obtain rfl := Option.some.inj ht
        exact ⟨hid, rfl⟩
      · exact absurd hkind (hnone id t ht)
    constructor
    · intro hexiting'
      cases hexiting'
    · intro id id' t t' ht ht' hkind hkind'
      rw [(hnew id t ht hkind).1, (hnew id' t' ht' hkind').1]
    · intro _ id t ht hkind
      rw [(hnew id t ht hkind).2]
      exact Or.inl ⟨hstack, Or.inl (by simp)⟩
    · exact hidle

/-- While the producer has not crashed, every step keeps what there is to wait for. -/
theorem Leaving.waits {sys : System} {s s' : State} {op : Op} (h : Leaving s) (ho : Ordered s)
    (hop : op.exits = false) (hstep : s.step sys op = some s') (hcrashed' : s'.crashed = false) :
    ∀ id t, s'.tasks.get? id = some t → t.kind = .exit → Waiting s' t.work := by
  have hcrashed := (step_turn hstep).1
  intro id t ht hkind
  have hstays : (∀ id input, op ≠ .run id input) → Waiting s' t.work := by
    intro hne
    have hstack : s.shared.exitStack ⊆ s'.shared.exitStack := by
      rcases step_stack hstep with hstack | ⟨id', input, _, _, hrun, _⟩
      · exact hstack
      · exact absurd hrun (hne id' input)
    cases step_tasks hstep ht with
    | kept hold => exact (h.waiting hcrashed id t hold hkind).later hstack hstep
    | ran hrun => exact absurd hrun (hne _ _)
    | started hstarted => cases hop.symm.trans (started_exit hstarted hkind)
  cases op with
  | run id' input =>
    cases (step_turn hstep).2 with
    | @ran _ _ kind w rest push shared spawn hfound hready hexec =>
      rcases get?_ran ht with ⟨rfl, rfl, _⟩ | ⟨hne, hold⟩ | hspawn
      · have hran := (h.waiting hcrashed id _ hfound hkind).ran (ho.leaves id _ hfound)
          hready hexec
        rcases hran with hstack | hawaits | ⟨htg, hidle⟩
        · left
          rw [shared_spawn, exitStack_goOn]
          exact hstack
        · exact Or.inr (Or.inl hawaits)
        · exact Or.inr (Or.inr ⟨step_taskGroup hstep htg, step_idle hstep htg hidle⟩)
      · apply (h.waiting hcrashed id t hold hkind).later _ hstep
        rcases step_stack hstep with hstack | ⟨id'', input', kind', rest', hrun, hfound'⟩
        · exact hstack
        · -- Only the task of the exit leaves contexts, and there is one.
          obtain ⟨rfl, _⟩ := (Op.run.injEq ..).mp hrun
          have hexit : TaskKind.exit = kind' :=
            ho.owns id' _ hfound' .leaveContexts List.mem_cons_self .exit rfl
          exact absurd (h.one id id' t _ hold hfound' hkind hexit.symm) hne
      · exact absurd hkind ((exec_next_control hexec).spawn t hspawn).2.1
    | @raised _ _ kind w rest left shared hfound _ hexec =>
      have hstack : s.shared.exitStack ⊆ ({ s with shared }.fail id' { kind, work := w :: rest }
          (left ++ rest)).shared.exitStack := by
        rw [exitStack_fail]
        exact (exec_raises_flags hexec).2
      rw [get?_fail] at ht
      split at ht
      · cases ht
      · exact (h.waiting hcrashed id t ht hkind).later hstack hstep
  | _ => exact hstays (by simp)

theorem Leaving.step {sys : System} {s s' : State} {op : Op} (h : Leaving s) (ho : Ordered s)
    (hstep : s.step sys op = some s') : Leaving s' := by
  have hcrashed := (step_turn hstep).1
  cases hop : op.exits with
  | true =>
    obtain rfl : op = .exit := by cases op <;> first | rfl | cases hop
    exact h.begins hstep
  | false =>
    obtain ⟨hexiting, hexited⟩ := step_exits hstep hop
    constructor
    · intro hfresh
      obtain ⟨hstack, hnone⟩ := h.fresh (hexiting.symm.trans hfresh)
      constructor
      · rcases step_stack hstep with hsub | ⟨id, input, kind, rest, _, hfound⟩
        · exact hsub hstack
        · have hexit : TaskKind.exit = kind :=
            ho.owns id _ hfound .leaveContexts List.mem_cons_self .exit rfl
          exact absurd hexit.symm (hnone id _ hfound)
      · intro id t ht hkind
        obtain ⟨t', hold, hkind'⟩ := step_exit hstep hop ht hkind
        exact hnone id t' hold hkind'
    · intro id id' t t' ht ht' hkind hkind'
      obtain ⟨u, hold, hu⟩ := step_exit hstep hop ht hkind
      obtain ⟨u', hold', hu'⟩ := step_exit hstep hop ht' hkind'
      exact h.one id id' u u' hold hold' hu hu'
    · exact h.waits ho hop hstep
    · intro hdone
      have hidle : s.shared.taskGroup = false ∧ s.idle = true := by
        rcases hexited hdone with hbefore | ⟨id, input, w, rest, shared, push, spawn, _, hfound,
          hready, hexec, hwork⟩
        · exact h.done hbefore
        · have hran := (h.waiting hcrashed id _ hfound rfl).ran (ho.leaves id _ hfound)
            hready hexec
          rw [hwork] at hran
          simpa using hran
      exact ⟨step_taskGroup hstep hidle.1, step_idle hstep hidle.1 hidle.2⟩

theorem reachable_leaving {sys : System} {ok : State → Op → Prop} {s : State}
    (h : Reachable (State.start sys) (State.step sys) ok s) : Leaving s := by
  induction h with
  | start h0 =>
    rw [h0]
    constructor
    · intro _
      refine ⟨by simp, ?_⟩
      intro id t ht
      cases ht
    · intro id id' t t' ht
      cases ht
    · intro _ id t ht
      cases ht
    · intro hexited
      cases hexited
  | next hprev _ hstep ih => exact ih.step (reachable_ordered hprev) hstep

/-! ## Everything is with the service -/

/-- No call is about to register a record, and what has not finished is with the
    service, but for the records of failed calls. -/
def State.allSent (s : State) : Bool :=
  (s.tasks.values.all fun t => t.work.all fun w => w.call?.isNone) &&
    s.live.all fun k => decide (k.2 ∈ s.shared.failed.map Prod.fst) || s.delivers k

theorem sent_of_allSent {s : State} (h : s.allSent = true) (hexited : s.exited = false) :
    Sent s := by
  simp only [State.allSent, Bool.and_eq_true, List.all_eq_true, Dict.mem_values, Bool.or_eq_true,
    decide_eq_true_eq, Option.isNone_iff_eq_none] at h
  constructor
  · intro _ id t ht
    exact h.1 t ⟨id, ht⟩
  · exact fun _ => h.2
  · intro hdone
    cases hexited.symm.trans hdone

/-- When the exit comes to its `finally` everything is with the service, and from then on
    no reply has a record retried. -/
def sentBeforeLeaving (sys : System) (s : State) : Op → Prop
  | .run id input => (s.comesTo Work.unwinds id = true → s.allSent = true) ∧
      (s.shared.taskGroup = false → s.comesTo (Work.retries sys input) id = false)
  | _ => True

instance (sys : System) (s : State) : (op : Op) → Decidable (sentBeforeLeaving sys s op)
  | .run id input =>
    inferInstanceAs (Decidable ((s.comesTo Work.unwinds id = true → s.allSent = true) ∧
      (s.shared.taskGroup = false → s.comesTo (Work.retries sys input) id = false)))
  | .putRecord _ _ | .flush | .exit | .reducerTimer _ _ _ | .collectorTimer _ _
  | .cancelOutcome _ | .cancel _ | .stopDrain _ => isTrue trivial

theorem retries_of_sentBeforeLeaving {sys : System} {s : State} {op : Op}
    (hok : sentBeforeLeaving sys s op) (htg : s.shared.taskGroup = false) :
    s.retries sys op = false := by
  cases op with
  | run id input => exact hok.2 htg
  | _ => rfl

/-- From the `finally` on, everything is with the service. -/
theorem reachable_sent {sys : System} {s : State}
    (h : Reachable (State.start sys) (State.step sys) (sentBeforeLeaving sys) s) :
    s.shared.taskGroup = false → s.shared.closed = true ∧ Sent s := by
  induction h with
  | start h0 =>
    rw [h0]
    intro htg
    cases htg
  | @next s s' op hprev hok hstep ih =>
    intro htg'
    have hs := reachable_sound hprev
    have hidle : s'.exited = true → s'.idle = true :=
      fun hdone => ((reachable_leaving (hprev.next hok hstep)).done hdone).2
    cases htg : s.shared.taskGroup with
    | false =>
      obtain ⟨hclosed, hsent⟩ := ih htg
      have hretries := retries_of_sentBeforeLeaving hok htg
      refine ⟨?_, hsent.step hs (Or.inl hclosed) hretries hstep hidle⟩
      rcases step_flags hstep with hsame | ⟨_, _, _, _, _, _, _, hclosed', _, _⟩
      · exact hsame.closed.trans hclosed
      · rw [hclosed', hclosed]
        rfl
    | true =>
      rcases step_flags hstep with
        hsame | ⟨id, input, kind, w, rest, rfl, hfound, hclosed', htg'', _⟩
      · cases htg'.symm.trans (hsame.taskGroup.trans htg)
      · have hw : w.unwinds = true := by
          rw [htg', htg, Bool.true_and] at htg''
          simpa using htg''.symm
        have hretries : s.retries sys (.run id input) = false := by
          rw [State.retries, comesTo_of_get? hfound]
          cases w <;> first | rfl | cases hw
        have hexited : s.exited = false := by
          cases hdone : s.exited with
          | false => rfl
          | true => cases htg.symm.trans ((reachable_leaving hprev).done hdone).1
        have hsent := sent_of_allSent (hok.1 ((comesTo_of_get? hfound _).trans hw)) hexited
        refine ⟨?_, hsent.step hs (Or.inr (by simp)) hretries hstep hidle⟩
        rw [hclosed', hw]
        exact Bool.or_true _

/-- **Graceful shutdown.**  If everything is with the service when the exit comes to its
    `finally`, and no reply has a record retried from then on, the Outcome of every call
    that has returned is resolved when `__aexit__` has returned. -/
theorem exit_resolves_outcomes (sys : System) (s : State)
    (h : Reachable (State.start sys) (State.step sys) (sentBeforeLeaving sys) s)
    (hexited : s.exited = true) : ∀ id ∈ s.shared.returned, id ∈ s.shared.resolved := by
  obtain ⟨hs, hledger⟩ := reachable_ledger h
  obtain ⟨htg, _⟩ := (reachable_leaving h).done hexited
  obtain ⟨_, hsent⟩ := reachable_sent h htg
  intro id hreturned
  obtain ⟨k, hk, rfl⟩ := List.mem_map.mp ((hs.standing_of_returned hreturned).accepted.mpr trivial)
  apply hledger.resolved k
  by_contra hunfinished
  have hfailed := hsent.left hexited k (mem_live.mpr ⟨hk, hunfinished⟩)
  exact hs.not_failed_of_returned hreturned hfailed

/-- The request is under way when the exit leaves its contexts, and its reply comes while
    the exit waits for the task group. -/
def repliesLate : List Op :=
  let slot : Sender.Slot := { sequenceNumber := some "1", shardId := some "shardId-000000000000" }
  flushesOne ++ leavesClient ++
    [.run 1 {}, .run 3 { reply := .response [slot] }, .run 3 {}, .run 1 {}, .run 1 {}]

theorem exit_resolves_outcomes_late :
    ∃ s, Reachable (State.start oneStream) (State.step oneStream) (sentBeforeLeaving oneStream) s ∧
      s.exited = true ∧ s.shared.returned = [0] ∧ 0 ∈ s.shared.resolved := by
  have hrun :
      (Lib.exec (State.step oneStream) (sentBeforeLeaving oneStream) entered repliesLate).map
      (fun s => (s.exited, s.shared.returned)) = some (true, [0]) := by
    decide +kernel
  obtain ⟨s, hexec, hout⟩ := Option.map_eq_some_iff.mp hrun
  obtain ⟨hexited, hreturned⟩ := Prod.mk.inj hout
  have hreach :
      Reachable (State.start oneStream) (State.step oneStream) (sentBeforeLeaving oneStream) s :=
    Reachable.exec (.start rfl) hexec
  refine ⟨s, hreach, hexited, hreturned, exit_resolves_outcomes oneStream s hreach hexited 0 ?_⟩
  rw [hreturned]
  exact List.mem_cons_self

/-- The service throttles the record after the `flush` of the exit, the Retrier gives it
    back to the Aggregator, and the exit closes that over it. -/
def throttledLate : List Op :=
  let slot : Sender.Slot :=
    { errorCode := some "ProvisionedThroughputExceededException", errorMessage := some "slow down" }
  flushesOne ++ [.run 1 {}, .run 1 {}, .run 3 { reply := .response [slot] }] ++
    List.replicate 3 (.run 3 {}) ++ leavesClient.drop 2 ++ List.replicate 3 (.run 1 {})

/-- `__aexit__` returns over a record that it has dropped. -/
theorem exit_drops_retried_record :
    ∃ s, Reachable (State.start oneStream) (State.step oneStream) anyStep s ∧ s.exited = true ∧
      s.crashed = false ∧ s.shared.returned = [0] ∧ s.shared.dropped = [("a", 0)] ∧
      s.shared.resolved = [] := by
  have hrun : (Lib.exec (State.step oneStream) anyStep entered throttledLate).map
      (fun s => decide (s.exited = true ∧ s.crashed = false ∧ s.shared.returned = [0] ∧
        s.shared.dropped = [("a", 0)] ∧ s.shared.resolved = [])) = some true := by
    decide +kernel
  obtain ⟨s, hexec, hout⟩ := Option.map_eq_some_iff.mp hrun
  exact ⟨s, Reachable.exec (.start rfl) hexec, of_decide_eq_true hout⟩

end Producer

end Aiokpl
