import Aiokpl.ProducerTurns

/-!
# The `put_record` calls of a producer

`Sound` is the invariant about the calls: where each stands, who holds the
pipeline lock, and what the history says of the calls that are over.  It holds
in every run, whatever is cancelled or raises.
-/

namespace Aiokpl

open Lib Aggregation

namespace Producer

/-! ## The calls -/

def acceptedIds (s : Shared) : List Nat := s.accepted.map Prod.snd

/-- What the history says of a `put_record` call: whether its record was registered,
    whether it returned, and how far it had got when it failed. -/
structure Standing (s : Shared) (id : Nat) (accepted returned : Prop) (failed : Option PutPhase) :
    Prop where
  accepted : id ∈ acceptedIds s ↔ accepted
  returned : id ∈ s.returned ↔ returned
  failed : ∀ phase, (id, phase) ∈ s.failed ↔ failed = some phase

/-- Where a call can stand: its task, and what the history says of it. -/
inductive CallAt (s : Shared) (id : Nat) : Option Task → Prop
  | entering {w : Work} {call : PutCall} : w.call? = some call → call.number = id →
      (∀ call', w = .buildPipeline call' →
        s.pipelineLock = some id ∧ s.pipelines.get? call'.stream = none) →
      Standing s id False False none → CallAt s id (some { kind := .putRecord, work := [w] })
  | handing {work : List Work} : Settled work → Standing s id True False none →
      CallAt s id (some { kind := .putRecord, work })
  | background {t : Task} : Background t → Standing s id False False none → CallAt s id (some t)
  | returned : Standing s id True True none → CallAt s id none
  | failed {phase : PutPhase} {accepted : Prop} : (phase = .registered ↔ accepted) →
      Standing s id accepted False (some phase) → CallAt s id none
  | absent : Standing s id False False none → CallAt s id none

/-- The invariant about the calls. -/
structure Sound (s : State) : Prop where
  calls : ∀ id, CallAt s.shared id (s.tasks.get? id)
  fresh : ∀ id, s.nextTask ≤ id →
    s.tasks.get? id = none ∧ Standing s.shared id False False none
  accepted : (acceptedIds s.shared).Nodup
  failed : (s.shared.failed.map Prod.fst).Nodup

/-- The history of the other calls and their hold on the lock are as before. -/
structure Others (id : Nat) (s s' : Shared) : Prop where
  accepted : ∀ id', id' ≠ id → (id' ∈ acceptedIds s' ↔ id' ∈ acceptedIds s)
  returned : ∀ id', id' ≠ id → (id' ∈ s'.returned ↔ id' ∈ s.returned)
  failed : ∀ id', id' ≠ id → ∀ phase, (id', phase) ∈ s'.failed ↔ (id', phase) ∈ s.failed
  lock : ∀ id', id' ≠ id → s.pipelineLock = some id' → s'.pipelineLock = some id' ∧
    ∀ stream, s.pipelines.get? stream = none → s'.pipelines.get? stream = none

theorem Others.standing {id id' : Nat} {s s' : Shared} (h : Others id s s') (hne : id' ≠ id)
    {accepted returned : Prop} {failed : Option PutPhase}
    (hs : Standing s id' accepted returned failed) : Standing s' id' accepted returned failed :=
  ⟨(h.accepted id' hne).trans hs.accepted, (h.returned id' hne).trans hs.returned,
    fun phase => (h.failed id' hne phase).trans (hs.failed phase)⟩

theorem Others.callAt {id id' : Nat} {s s' : Shared} (h : Others id s s') (hne : id' ≠ id)
    {t : Option Task} (hc : CallAt s id' t) : CallAt s' id' t := by
  cases hc with
  | entering hw hnumber hlock hs =>
    refine .entering hw hnumber (fun call' hcall' => ?_) (h.standing hne hs)
    obtain ⟨howner, hnone⟩ := hlock call' hcall'
    obtain ⟨howner', hstreams⟩ := h.lock id' hne howner
    exact ⟨howner', hstreams _ hnone⟩
  | handing hsettled hs => exact .handing hsettled (h.standing hne hs)
  | background ht hs => exact .background ht (h.standing hne hs)
  | returned hs => exact .returned (h.standing hne hs)
  | failed hiff hs => exact .failed hiff (h.standing hne hs)
  | absent hs => exact .absent (h.standing hne hs)

/-- What is entered in the history concerns this call only. -/
theorem Others.of_append {id : Nat} {s s' : Shared} {a r : List Nat}
    {f : List (Nat × PutPhase)} (haccepted : acceptedIds s' = acceptedIds s ++ a)
    (hreturned : s'.returned = s.returned ++ r) (hfailed : s'.failed = s.failed ++ f)
    (ha : ∀ x ∈ a, x = id) (hr : ∀ x ∈ r, x = id) (hf : ∀ e ∈ f, e.1 = id)
    (hlock : ∀ id', id' ≠ id → s.pipelineLock = some id' → s'.pipelineLock = some id' ∧
      ∀ stream, s.pipelines.get? stream = none → s'.pipelines.get? stream = none) :
    Others id s s' := by
  refine ⟨fun id' hne => ?_, fun id' hne => ?_, fun id' hne phase => ?_, hlock⟩
  · rw [haccepted, List.mem_append, or_iff_left fun hmem => hne (ha id' hmem)]
  · rw [hreturned, List.mem_append, or_iff_left fun hmem => hne (hr id' hmem)]
  · rw [hfailed, List.mem_append, or_iff_left fun hmem => hne (hf _ hmem)]

/-- One call moves, and the others stay where they are. -/
theorem Sound.move {s s' : State} {id : Nat} (h : Sound s) (hid : id < s.nextTask)
    (hnext : s'.nextTask = s.nextTask) (hothers : Others id s.shared s'.shared)
    (htasks : ∀ id', id' ≠ id → s'.tasks.get? id' = s.tasks.get? id')
    (hself : CallAt s'.shared id (s'.tasks.get? id)) (haccepted : (acceptedIds s'.shared).Nodup)
    (hfailed : (s'.shared.failed.map Prod.fst).Nodup) : Sound s' := by
  refine ⟨fun id' => ?_, fun id' hle => ?_, haccepted, hfailed⟩
  · by_cases hne : id' = id
    · rw [hne]
      exact hself
    · rw [htasks id' hne]
      exact hothers.callAt hne (h.calls id')
  · have hne : id' ≠ id := by omega
    obtain ⟨hnone, hs⟩ := h.fresh id' (hnext ▸ hle)
    exact ⟨(htasks id' hne).trans hnone, hothers.standing hne hs⟩

/-- Only the history of the calls and the lock matter to them. -/
theorem Sound.congr {s : State} {shared : Shared} (h : Sound s)
    (haccepted : shared.accepted = s.shared.accepted)
    (hreturned : shared.returned = s.shared.returned) (hfailed : shared.failed = s.shared.failed)
    (hlock : shared.pipelineLock = s.shared.pipelineLock)
    (hstreams : ∀ stream, s.shared.pipelines.get? stream = none →
      shared.pipelines.get? stream = none) : Sound { s with shared } := by
  have hothers : ∀ id, Others id s.shared shared := fun id =>
    .of_append (a := []) (r := []) (f := []) (by simp [acceptedIds, haccepted])
      (by simp [hreturned]) (by simp [hfailed]) (by simp) (by simp) (by simp)
      fun id' _ howner => ⟨hlock.trans howner, hstreams⟩
  refine ⟨fun id => (hothers (id + 1)).callAt (by omega) (h.calls id), fun id hle => ?_, ?_, ?_⟩
  · obtain ⟨hnone, hstanding⟩ := h.fresh id hle
    exact ⟨hnone, (hothers (id + 1)).standing (by omega) hstanding⟩
  · simpa only [acceptedIds, haccepted] using h.accepted
  · simpa only [hfailed] using h.failed

/-- The stages do not matter to the calls. -/
theorem Sound.stages {s : State} {shared : Shared} (h : Sound s) (hs : StagesOnly s.shared shared) :
    Sound { s with shared } := by
  obtain ⟨_, _, haccepted, _, _, _, hreturned, hfailed⟩ := (Books.mk.injEq ..).mp hs.books
  exact h.congr haccepted hreturned hfailed hs.lock hs.streams

/-- Nor does what is lost. -/
theorem Sound.loses {s : State} (h : Sound s) (lost : List Token) :
    Sound { s with shared := { s.shared with dropped := s.shared.dropped ++ lost } } :=
  h.congr rfl rfl rfl rfl fun _ h => h

theorem Sound.crash {s : State} (h : Sound s) : Sound { s with crashed := true } :=
  ⟨h.calls, h.fresh, h.accepted, h.failed⟩

/-- A new task takes the next identity. -/
theorem Sound.spawn {s : State} (h : Sound s) {spawn : Option Task}
    (ht : ∀ t, spawn = some t → Standing s.shared s.nextTask False False none →
      CallAt s.shared s.nextTask (some t)) : Sound (s.spawn spawn) := by
  cases spawn with
  | none => exact h
  | some t =>
    refine ⟨fun id => ?_, fun id hle => ?_, by simpa using h.accepted, by simpa using h.failed⟩
    · rw [get?_spawn, shared_spawn]
      by_cases hid : id = s.nextTask
      · rw [if_pos hid, hid]
        exact ht t rfl (h.fresh _ le_rfl).2
      · rw [if_neg hid]
        exact h.calls id
    · have hlt : s.nextTask < id := hle
      rw [get?_spawn, if_neg (by omega), shared_spawn]
      exact h.fresh id hlt.le

theorem Sound.spawn_background {s : State} (h : Sound s) {spawn : Option Task}
    (ht : ∀ t, spawn = some t → Background t) : Sound (s.spawn spawn) :=
  h.spawn fun t hspawn hs => .background (ht t hspawn) hs

/-- A task that is there is no fresh one. -/
theorem Sound.lt_nextTask {s : State} (h : Sound s) {id : Nat} {t : Task}
    (hfound : s.tasks.get? id = some t) : id < s.nextTask := by
  by_contra hge
  simp [(h.fresh id (not_lt.mp hge)).1] at hfound

/-- Only a call that is entering builds a pipeline, for a stream that has none. -/
theorem Sound.building {s : State} (h : Sound s) {id : Nat} {kind : TaskKind} {w : Work}
    {rest : List Work} (hfound : s.tasks.get? id = some { kind, work := w :: rest })
    {call : PutCall}
    (hw : w = .buildPipeline call) :
    s.shared.pipelineLock = some id ∧ s.shared.pipelines.get? call.stream = none := by
  have hcall := h.calls id
  rw [hfound] at hcall
  cases hcall with
  | entering hw' _ hlock _ => exact hlock call hw
  | handing hsettled _ =>
    have hnone := hsettled w (by simp)
    simp [hw, Work.call?] at hnone
  | background ht _ =>
    have hnone := ht.settled w (by simp)
    simp [hw, Work.call?] at hnone

/-- A frame of no entering call leaves the books of the calls alone. -/
theorem Effect.calls {id : Nat} {s s' : Shared} {w : Work} {push : List Work} {spawn : Option Task}
    (h : Effect id s w s' push spawn) (hw : w.call? = none) :
    s'.accepted = s.accepted ∧ s'.returned = s.returned ∧ s'.failed = s.failed ∧
      s'.pipelineLock = s.pipelineLock ∧
      (∀ stream, s.pipelines.get? stream = none → s'.pipelines.get? stream = none) ∧
      Settled push ∧ ∀ t, spawn = some t → Background t := by
  cases h with
  | moved _ hstages hpush hspawn _ =>
    obtain ⟨_, _, haccepted, _, _, _, hreturned, hfailed⟩ := (Books.mk.injEq ..).mp hstages.books
    exact ⟨haccepted, hreturned, hfailed, hstages.lock, hstages.streams, hpush, hspawn⟩
  | acquired call _ => simp [Work.call?] at hw
  | resumed call => simp [Work.call?] at hw
  | building call _ _ => simp [Work.call?] at hw
  | accepted _ hcall => simp [hw] at hcall
  | finished hfinish =>
    obtain ⟨_, _, haccepted, _, _, _, hreturned, hfailed⟩ := (Books.mk.injEq ..).mp hfinish.books
    exact ⟨haccepted, hreturned, hfailed, hfinish.lock, hfinish.streams, settled_nil, by simp⟩

theorem Settled.append_tail {push rest : List Work} {w : Work} (hpush : Settled push)
    (h : Settled (w :: rest)) : Settled (push ++ rest) :=
  List.forall_mem_append.mpr ⟨hpush, fun v hv => h v (List.mem_cons_of_mem w hv)⟩

/-- A frame of no entering call: its call goes on handing over, or returns. -/
theorem Sound.ran_settled {sys : System} {s : State} (h : Sound s) {id : Nat} {kind : TaskKind}
    {w : Work} {rest push : List Work} {shared : Shared} {spawn : Option Task}
    (hfound : s.tasks.get? id = some { kind, work := w :: rest }) (hw : w.call? = none)
    (heffect : Effect id s.shared w shared push spawn) :
    Sound (({ s with shared }.goOn sys id kind (push ++ rest)).spawn spawn) := by
  obtain ⟨haccepted, hreturned, hfailed, hlock, hstreams, hpush, hspawn⟩ := heffect.calls hw
  obtain ⟨hbooks, hsteady⟩ := goOn_accounts sys id kind (push ++ rest) { s with shared }
  obtain ⟨_, _, haccepted', _, _, _, hreturned', hfailed'⟩ := (Books.mk.injEq ..).mp hbooks
  generalize hs1 : { s with shared }.goOn sys id kind (push ++ rest) = s1 at *
  have hids : acceptedIds s1.shared = acceptedIds s.shared := by
    rw [acceptedIds, haccepted', acceptedIds, ← haccepted]
    rfl
  replace hreturned' : s1.shared.returned = s.shared.returned ++
      (if push ++ rest = [] ∧ kind = .putRecord then [id] else []) := by
    rw [hreturned', hreturned]
  replace hfailed' : s1.shared.failed = s.shared.failed := hfailed'.trans hfailed
  have htasks : ∀ id', s1.tasks.get? id' = if id' = id then
      (if push ++ rest = [] then none else some { kind, work := push ++ rest })
      else s.tasks.get? id' := by
    rw [← hs1]
    exact get?_goOn sys id kind (push ++ rest) { s with shared }
  refine (h.move (h.lt_nextTask hfound) (by rw [← hs1]; simp) ?_ ?_ ?_ ?_ ?_).spawn_background
    hspawn
  · refine .of_append (a := []) (f := []) (by rw [hids]; simp) hreturned' (by simp [hfailed'])
      (by simp) ?_ (by simp) fun id' _ howner => ⟨?_, fun stream hnone => ?_⟩
    · intro x hx
      split at hx
      · simpa using hx
      · simp at hx
    · rw [hsteady.lock, ← howner]
      exact hlock
    · exact hsteady.streams stream (hstreams stream hnone)
  · intro id' hne
    rw [htasks, if_neg hne]
  · rw [htasks, if_pos rfl]
    have hcall := h.calls id
    rw [hfound] at hcall
    cases hcall with
    | entering hw' => simp [hw] at hw'
    | handing hsettled hs =>
      by_cases hdone : push ++ rest = []
      · rw [if_pos hdone]
        exact .returned ⟨by rw [hids, hs.accepted], by simp [hreturned', hdone],
          fun phase => by rw [hfailed', hs.failed]⟩
      · rw [if_neg hdone]
        exact .handing (hpush.append_tail hsettled) ⟨by rw [hids, hs.accepted],
          by simp [hreturned', hdone, hs.returned], fun phase => by rw [hfailed', hs.failed]⟩
    | background ht hs =>
      have hs' : Standing s1.shared id False False none := ⟨by rw [hids, hs.accepted],
        by simp [hreturned', ht.kind, hs.returned], fun phase => by rw [hfailed', hs.failed]⟩
      split
      · exact .absent hs'
      · exact .background ⟨ht.kind, hpush.append_tail ht.settled⟩ hs'
  · rw [hids]
    exact h.accepted
  · rw [hfailed']
    exact h.failed

/-- The only frame of a call that is entering. -/
theorem Sound.entering {s : State} (h : Sound s) {id : Nat} {kind : TaskKind} {w : Work}
    {rest : List Work} (hfound : s.tasks.get? id = some { kind, work := w :: rest })
    {call : PutCall} (hw : w.call? = some call) :
    kind = .putRecord ∧ rest = [] ∧ call.number = id ∧ Standing s.shared id False False none := by
  have hcall := h.calls id
  rw [hfound] at hcall
  cases hcall with
  | entering hw' hnumber _ hs =>
    obtain rfl := Option.some.inj (hw'.symm.trans hw)
    exact ⟨rfl, rfl, hnumber, hs⟩
  | handing hsettled _ => simp [hsettled w (by simp)] at hw
  | background ht _ => simp [ht.settled w (by simp)] at hw

/-- A frame of an entering call takes it one phase further. -/
theorem Sound.ran_entering {sys : System} {s : State} (h : Sound s) {id : Nat} {kind : TaskKind}
    {w : Work} {rest push : List Work} {shared : Shared} {spawn : Option Task} {call : PutCall}
    (hfound : s.tasks.get? id = some { kind, work := w :: rest }) (hw : w.call? = some call)
    (heffect : Effect id s.shared w shared push spawn) :
    Sound (({ s with shared }.goOn sys id kind (push ++ rest)).spawn spawn) := by
  obtain ⟨rfl, rfl, hnumber, hs⟩ := h.entering hfound hw
  have hnone : id ∉ acceptedIds s.shared := fun hmem => hs.accepted.mp hmem
  have hgoes : ∀ (v : Work) (shared : Shared), v.call? = some call →
      (∀ call', v = .buildPipeline call' →
        shared.pipelineLock = some id ∧ shared.pipelines.get? call'.stream = none) →
      acceptedIds shared = acceptedIds s.shared → shared.returned = s.shared.returned →
      shared.failed = s.shared.failed →
      (∀ id', id' ≠ id → s.shared.pipelineLock = some id' → shared.pipelineLock = some id' ∧
        ∀ stream, s.shared.pipelines.get? stream = none → shared.pipelines.get? stream = none) →
      Sound ({ s with shared }.goOn sys id .putRecord ([v] ++ [])) := by
    intro v shared hv hbuild haccepted hreturned hfailed hlock
    rw [goOn_of_ne (by simp)]
    refine h.move (h.lt_nextTask hfound) rfl (.of_append (a := []) (r := []) (f := [])
      (by simpa using haccepted) (by simpa using hreturned) (by simpa using hfailed)
      (by simp) (by simp) (by simp) hlock) (fun id' hne => Dict.get?_set_ne _ _ hne) ?_ ?_ ?_
    · rw [Dict.get?_set_self]
      exact .entering hv hnumber hbuild ⟨by rw [haccepted, hs.accepted],
        by rw [hreturned, hs.returned], fun phase => by rw [hfailed, hs.failed]⟩
    · simpa only [haccepted] using h.accepted
    · simpa only [hfailed] using h.failed
  cases heffect with
  | moved hw' => simp [hw] at hw'
  | finished => simp [Work.call?] at hw
  | acquired call' _ =>
    exact hgoes (.resume call') _ hw (by simp) rfl rfl rfl fun _ _ howner => ⟨howner, fun _ h => h⟩
  | resumed call' =>
    exact hgoes (.getPipeline call') _ hw (by simp) rfl rfl rfl
      fun _ _ howner => ⟨howner, fun _ h => h⟩
  | building call' hlock hmissing =>
    refine hgoes (.buildPipeline call') _ hw ?_ rfl rfl rfl fun id' _ howner => ?_
    · rintro call'' ⟨⟩
      exact ⟨rfl, hmissing⟩
    · rw [hlock] at howner
      cases howner
  | accepted shardKey hw' hident hfrom hbooks _ hlock _ _ =>
    obtain rfl := Option.some.inj (hw'.symm.trans hw)
    obtain ⟨_, _, haccepted, _, _, _, hreturned, hfailed⟩ := (Books.mk.injEq ..).mp hbooks
    have hids : acceptedIds shared = acceptedIds s.shared ++ [id] := by
      simp [acceptedIds, haccepted, hnumber]
    have hunowned : ∀ id', id' ≠ id → s.shared.pipelineLock ≠ some id' := by
      intro id' hne howner
      rcases hfrom with ⟨_, hfree⟩ | hbuild
      · simp [hfree] at howner
      · rw [(h.building hfound hbuild).1] at howner
        exact hne (Option.some.inj howner).symm
    rw [spawn_none, goOn_of_ne (by simp)]
    refine h.move (h.lt_nextTask hfound) rfl (.of_append (a := [id]) (r := []) (f := []) hids
      (by simp [hreturned, Shared.books]) (by simp [hfailed, Shared.books]) (by simp) (by simp)
      (by simp) fun id' hne howner => absurd howner (hunowned id' hne))
      (fun id' hne => Dict.get?_set_ne _ _ hne) ?_ ?_ ?_
    · rw [Dict.get?_set_self]
      refine .handing (by simp [Settled, Work.call?]) ⟨by simp [hids], ?_, fun phase => ?_⟩
      · rw [hreturned]
        exact hs.returned
      · rw [hfailed]
        exact hs.failed phase
    · rw [hids]
      exact List.nodup_append.mpr ⟨h.accepted, by simp, by
        intro a ha b hb hab
        rw [List.mem_singleton.mp hb] at hab
        exact hnone (hab ▸ ha)⟩
    · rw [hfailed]
      exact h.failed

/-- **Running a frame keeps the calls in order.** -/
theorem Sound.ran {sys : System} {s : State} (h : Sound s) {id : Nat} {kind : TaskKind}
    {w : Work} {rest push : List Work} {shared : Shared} {spawn : Option Task}
    (hfound : s.tasks.get? id = some { kind, work := w :: rest })
    (heffect : Effect id s.shared w shared push spawn) :
    Sound (({ s with shared }.goOn sys id kind (push ++ rest)).spawn spawn) := by
  cases hw : w.call? with
  | none => exact h.ran_settled hfound hw heffect
  | some call => exact h.ran_entering hfound hw heffect

/-- What a failure does to the history of the calls, and to the lock. -/
theorem fail_calls (id : Nat) (kind : TaskKind) (work left : List Work) (s : State) :
    let s' := (s.fail id { kind, work } left).shared
    s'.accepted = s.shared.accepted ∧ s'.returned = s.shared.returned ∧
      s'.failed = s.shared.failed ++ (if kind = .putRecord then [(id, putPhase work)] else []) ∧
      (s'.pipelineLock = s.shared.pipelineLock ∨
        s.shared.pipelineLock = some id ∧ s'.pipelineLock = none) ∧
      s'.pipelines = s.shared.pipelines := by
  cases kind with
  | putRecord =>
    have hroll : ∀ phase, (rollBack id phase s.shared).accepted = s.shared.accepted ∧
        (rollBack id phase s.shared).returned = s.shared.returned ∧
        (rollBack id phase s.shared).failed = s.shared.failed ∧
        (rollBack id phase s.shared).pipelineLock = s.shared.pipelineLock ∧
        (rollBack id phase s.shared).pipelines = s.shared.pipelines := by
      intro phase
      cases phase <;> exact ⟨rfl, rfl, rfl, rfl, rfl⟩
    obtain ⟨haccepted, hreturned, hfailed, hlock, hpipelines⟩ := hroll (putPhase work)
    refine ⟨haccepted, hreturned, by simp [State.fail, hfailed], ?_, hpipelines⟩
    simp only [State.fail, hlock]
    split
    · rename_i howner
      exact Or.inr ⟨howner, rfl⟩
    · exact Or.inl rfl
  | flush | exit | reducerTimer _ _ _ | drain _ | send =>
    exact ⟨rfl, rfl, by simp [State.fail], Or.inl rfl, rfl⟩

theorem putPhase_settled {work : List Work} (h : Settled work) : putPhase work = .registered := by
  cases work with
  | nil => rfl
  | cons w rest =>
    have hw := h w (by simp)
    cases w <;> first | rfl | simp [Work.call?] at hw

/-- A call fails before it registers its record exactly in the frames that enter. -/
theorem putPhase_entering {w : Work} {rest : List Work} {call : PutCall}
    (h : w.call? = some call) : putPhase (w :: rest) ≠ .registered := by
  cases w <;> first | (simp [putPhase]; done) | simp [Work.call?] at h

theorem Sound.not_failed {s : State} (h : Sound s) {id : Nat} {t : Task}
    (hfound : s.tasks.get? id = some t) (phase : PutPhase) : (id, phase) ∉ s.shared.failed := by
  have hcall := h.calls id
  rw [hfound] at hcall
  cases hcall with
  | entering _ _ _ hs => simp [hs.failed]
  | handing _ hs => simp [hs.failed]
  | background _ hs => simp [hs.failed]

/-- **A failure keeps the calls in order.** -/
theorem Sound.fail {s : State} (h : Sound s) {id : Nat} {kind : TaskKind} {work left : List Work}
    {shared : Shared} (hfound : s.tasks.get? id = some { kind, work })
    (hbooks : shared.books = s.shared.books)
    (hlock : shared.pipelineLock = s.shared.pipelineLock ∨
      s.shared.pipelineLock = some id ∧ shared.pipelineLock = none)
    (hstreams : ∀ stream, s.shared.pipelineLock ≠ some id → s.shared.pipelines.get? stream = none →
      shared.pipelines.get? stream = none) :
    Sound ({ s with shared }.fail id { kind, work } left) := by
  obtain ⟨_, _, haccepted, _, _, _, hreturned, hfailed⟩ := (Books.mk.injEq ..).mp hbooks
  obtain ⟨haccepted', hreturned', hfailed', hlock', hpipelines⟩ :=
    fail_calls id kind work left { s with shared }
  have htasks := get?_fail id { kind, work } left { s with shared }
  have hnext := nextTask_fail id { kind, work } left { s with shared }
  generalize { s with shared }.fail id { kind, work } left = s1 at *
  rw [haccepted] at haccepted'
  rw [hreturned] at hreturned'
  rw [hfailed] at hfailed'
  have hids : acceptedIds s1.shared = acceptedIds s.shared := by
    rw [acceptedIds, haccepted', acceptedIds]
  refine h.move (h.lt_nextTask hfound) hnext ?_ ?_ ?_ ?_ ?_
  · refine .of_append (a := []) (r := []) (by simpa using hids) (by simpa using hreturned') hfailed'
      (by simp) (by simp) ?_ fun id' hne howner => ?_
    · intro e he
      split at he
      · rw [List.mem_singleton.mp he]
      · simp at he
    · have hother : s.shared.pipelineLock ≠ some id := by
        rw [howner]
        simpa using hne
      have hkept : shared.pipelineLock = s.shared.pipelineLock := by
        rcases hlock with hkept | ⟨howner', _⟩
        · exact hkept
        · exact absurd howner' hother
      refine ⟨?_, fun stream hnone => ?_⟩
      · rcases hlock' with hkept' | ⟨howner', _⟩
        · exact hkept'.trans (hkept.trans howner)
        · exact absurd (hkept.symm.trans howner') hother
      · rw [hpipelines]
        exact hstreams stream hother hnone
  · intro id' hne
    rw [htasks, if_neg hne]
  · rw [htasks, if_pos rfl]
    have hcall := h.calls id
    rw [hfound] at hcall
    have hphase : ∀ accepted, Standing s.shared id accepted False none → kind = .putRecord →
        Standing s1.shared id accepted False (some (putPhase work)) := by
      intro accepted hs hkind
      refine ⟨by rw [hids, hs.accepted], by rw [hreturned', hs.returned], fun phase => ?_⟩
      simp [hfailed', hkind, hs.failed, eq_comm]
    cases hcall with
    | entering hw _ _ hs =>
      exact .failed (by simpa using putPhase_entering hw) (hphase False hs rfl)
    | handing hsettled hs =>
      exact .failed (by simpa using putPhase_settled hsettled) (hphase True hs rfl)
    | background ht hs =>
      exact .absent ⟨by rw [hids, hs.accepted], by rw [hreturned', hs.returned],
        fun phase => by simp [hfailed', ht.kind, hs.failed]⟩
  · rw [hids]
    exact h.accepted
  · rw [hfailed', List.map_append]
    split
    · refine List.nodup_append.mpr ⟨h.failed, by simp, fun a ha b hb hab => ?_⟩
      obtain ⟨e, he, rfl⟩ := List.mem_map.mp ha
      have hid : e = (id, e.2) := by
        rw [show id = b from (List.mem_singleton.mp hb).symm, ← hab]
      exact h.not_failed hfound e.2 (hid ▸ he)
    · simpa using h.failed

theorem timerTask_background {stream : String} {shardKey : Option ShardId}
    {op : Reducer.Op BufferedRecord} {closed : Option AggregatedBatch} {t : Task}
    (h : timerTask stream shardKey op closed = some t) : Background t := by
  unfold timerTask at h
  split at h
  · rename_i now scope batch
    obtain rfl := Option.some.inj h
    exact ⟨by simp, settled_singleton rfl⟩
  · simp at h

/-- **Every step keeps the calls in order.** -/
theorem Sound.step {sys : System} {s s' : State} {op : Op} (h : Sound s)
    (hstep : s.step sys op = some s') : Sound s' := by
  cases (step_turn hstep).2 with
  | refused stream userRecord => exact h
  | entered stream userRecord _ =>
    refine h.spawn fun t ht hs => ?_
    obtain rfl := Option.some.inj ht
    exact .entering rfl rfl (by simp) hs
  | flushes =>
    refine h.spawn_background fun t ht => ?_
    obtain rfl := Option.some.inj ht
    exact ⟨by simp, by simp [Settled, Work.call?]⟩
  | exits _ =>
    have hexiting : Sound { s with exiting := true } := ⟨h.calls, h.fresh, h.accepted, h.failed⟩
    refine hexiting.spawn_background fun t ht => ?_
    obtain rfl := Option.some.inj ht
    exact ⟨by simp, by simp [Settled, Work.call?]⟩
  | ran hfound _ hexec =>
    exact h.ran hfound (exec_next (fun _ hw => (h.building hfound hw).2) hexec)
  | raised hfound _ hexec =>
    have hraised := exec_raises (fun _ hw => (h.building hfound hw).2) hexec
    refine h.fail hfound hraised.books ?_ (fun stream hother => hraised.streams stream ?_)
    · rcases hraised.lock with hkept | ⟨⟨call, hw⟩, hfree⟩
      · exact Or.inl hkept
      · exact Or.inr ⟨(h.building hfound hw).1, hfree⟩
    · intro call hw
      exact absurd (h.building hfound hw).1 hother
  | reducerTimer _ hp _ =>
    refine (h.stages ?_).spawn_background fun t => timerTask_background
    exact stagesOnly_setPipeline hp rfl
  | collectorTimer _ _ hp _ hbatch =>
    obtain ⟨rfl, _, hspawn, _⟩ := collectorBatch_next hbatch
    refine (h.stages ?_).spawn_background fun t ht => (hspawn t ht).1
    exact stagesOnly_setPipeline hp rfl
  | @overrun stream _ p collector _ _ left _ _ hp _ hbatch =>
    obtain ⟨rfl, _⟩ := collectorBatch_raises hbatch
    have hstages : StagesOnly s.shared (s.shared.setPipeline stream { p with collector }) :=
      stagesOnly_setPipeline hp rfl
    have hset := h.stages hstages
    exact (hset.loses (left.flatMap Work.tokens)).crash
  | answered _ =>
    rw [resolve_eq]
    exact h.congr rfl rfl rfl rfl fun _ h => h
  | cancelled hfound _ _ =>
    exact h.fail hfound rfl (Or.inl rfl) fun _ _ h => h
  | @stopped id stream work p hfound hp _ =>
    have hcall := h.calls id
    rw [hfound] at hcall
    have hs : Standing s.shared id False False none := by
      cases hcall with
      | background _ hs => exact hs
    refine h.move (h.lt_nextTask hfound) rfl ⟨fun _ _ => Iff.rfl, fun _ _ => Iff.rfl,
      fun _ _ _ => Iff.rfl, fun _ _ howner => ⟨howner, fun _ h => h⟩⟩ (fun id' hne => ?_) ?_
      h.accepted h.failed
    · simp [Dict.get?_erase, hne]
    · simp only [Dict.get?_erase_self]
      exact .absent ⟨hs.accepted, hs.returned, hs.failed⟩

theorem start_sound {sys : System} {s : State} (h : State.start sys s) : Sound s := by
  rw [h]
  have hs : ∀ id, Standing { permits := sys.cfg.maxOutstandingRecords } id False False none :=
    fun id => ⟨by simp [acceptedIds], by simp, by simp⟩
  exact ⟨fun id => .absent (hs id), fun id _ => ⟨rfl, hs id⟩, by simp [acceptedIds], by simp⟩

theorem reachable_sound {sys : System} {ok : State → Op → Prop} {s : State}
    (h : Reachable (State.start sys) (State.step sys) ok s) : Sound s :=
  h.invariant (fun _ => start_sound) fun _ _ _ hs _ hstep => hs.step hstep

end Producer

end Aiokpl
