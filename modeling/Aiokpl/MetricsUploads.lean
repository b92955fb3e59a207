import Aiokpl.Lib.Outbox
import Aiokpl.MetricsExports

/-!
# Exports that make requests

A sink may make several requests for an export, one after the other.  The upload loop,
`__aexit__` and any caller of `flush` wait for their own export, so exports overlap, and
each ends early when a request raises or when its task is cancelled.  The manager goes on
with its own step once its export is over.  A sink that has been left is no longer handed
requests; what it does with those under way is left open.
-/

namespace Aiokpl

open Lib

namespace Metrics

/-! ## The machine -/

/-- A manager with the exports of its sink: those of its upload loop and of `__aexit__`,
    if they made requests, and the exports that the sink ignored. -/
structure Uploads (Request : Type) where
  manager : State
  outbox : Outbox Request := {}
  loopExport : Option ℕ := none
  exitExport : Option ℕ := none
  ignored : List (List MetricSnapshot) := []

/-- What can happen: a step of the manager; and the next request of an export returns, or
    the export makes no more. -/
inductive Uploads.Op
  | manager (op : Metrics.Op)
  | taken (number : ℕ)
  | abandoned (number : ℕ)

/-- The steps of the manager, by themselves. -/
def Uploads.Op.manager? : Uploads.Op → Option Metrics.Op
  | .manager op => some op
  | _ => none

section

variable {Request : Type}

/-- The export has made all its requests. -/
def Uploads.done (u : Uploads Request) (number : ℕ) : Bool :=
  u.outbox.ended number && !u.outbox.failed number

/-- The loop sleeps again after its export, and ends if that raised; `__aexit__` waits for
    its own export, and then for the loop. -/
def Uploads.admits (u : Uploads Request) : Metrics.Op → Bool
  | .asleep _ => u.loopExport.all u.done
  | .exportRaises => u.loopExport.any u.outbox.failed
  | .exited => u.exitExport.all u.done && u.loopExport.all u.outbox.ended
  | _ => true

/-- The sink is handed an export, for the task of this step. -/
def Uploads.export (requests : List MetricSnapshot → List Request) (op : Metrics.Op)
    (snaps : List MetricSnapshot) (u : Uploads Request) : Uploads Request :=
  match u.manager.phase with
  | .exited => { u with ignored := u.ignored ++ [snaps] }
  | _ =>
    let number := u.outbox.handed.length
    let u := { u with outbox := u.outbox.hand (requests snaps) }
    match op with
    | .wake _ _ => { u with loopExport := some number }
    | .exit _ => { u with exitExport := some number }
    | _ => u

/-- One step, `none` when it cannot happen in this state. -/
def Uploads.step (cfg : Config) (requests : List MetricSnapshot → List Request)
    (u : Uploads Request) : Uploads.Op → Option (Uploads Request)
  | .manager op => do
    if u.admits op then
      let manager ← u.manager.step cfg op
      let exported := manager.exports.drop u.manager.exports.length
      let loopExport := match op with
        | .wake _ _ => none
        | _ => u.loopExport
      some (exported.foldl (fun u snaps => u.export requests op snaps)
        { u with manager, loopExport })
    else none
  | .taken number => do
    let outbox ← u.outbox.deliver number
    some { u with outbox }
  | .abandoned number => do
    let outbox ← u.outbox.giveUp number
    some { u with outbox }

/-- A manager that has been entered, and its sink. -/
def Uploads.entered (cfg : Config) (now : Time) : Uploads Request :=
  { manager := Metrics.entered cfg now }

/-! ## What the manager hands over -/

/-- A step hands over one export at most. -/
theorem step_exports_grow {cfg : Config} {s s' : State} {op : Metrics.Op}
    (hstep : s.step cfg op = some s') :
    s'.exports = s.exports ∨ ∃ snaps, s'.exports = s.exports ++ [snaps] := by
  cases step_turn hstep with
  | puts | inspects | idles => exact Or.inl rfl
  | @flushes clock =>
    simp only [flush]
    split
    · exact Or.inl rfl
    · dsimp only
      split
      · exact Or.inl rfl
      · exact Or.inr ⟨_, rfl⟩

/-- A sink that has been left is not entered again. -/
theorem step_exited {cfg : Config} {s s' : State} {op : Metrics.Op}
    (hstep : s.step cfg op = some s') (h : s.phase = .exited) : s'.phase = .exited := by
  have hflush : ∀ clock, (flush cfg clock s).phase = s.phase := by
    intro clock
    unfold flush
    split <;> rfl
  cases op with
  | put =>
    simp only [State.step] at hstep
    split at hstep <;>
    · rw [← Option.some.inj hstep]
      exact h
  | snapshots =>
    rw [← Option.some.inj hstep]
    exact h
  | flush clock =>
    rw [← Option.some.inj hstep]
    exact (hflush clock).trans h
  | wake now clock =>
    simp only [State.step] at hstep
    split at hstep
    · rw [Option.ite_none_right_eq_some] at hstep
      rw [← Option.some.inj hstep.2]
      exact (hflush clock).trans h
    · cases hstep
  | asleep | exportRaises =>
    simp only [State.step] at hstep
    split at hstep
    · rw [← Option.some.inj hstep]
      exact h
    · cases hstep
  | exit | exited =>
    simp only [State.step, h] at hstep
    cases hstep

/-! ## What the sink makes of it -/

/-- The invariant of the exports: the sink has been handed all of them, those before it was
    left as requests, and nothing of these gets lost. -/
structure Sent {M : Type} [AddCommMonoid M] (weight : Request → M)
    (requests : List MetricSnapshot → List Request) (u : Uploads Request) : Prop where
  inOrder : u.outbox.InOrder
  handed : ∃ sent, u.manager.exports = sent ++ u.ignored ∧ u.outbox.handed = sent.map requests
  ignored : u.manager.phase ≠ .exited → u.ignored = []
  contents : u.outbox.contents weight = Outbox.weigh weight u.outbox.handed.flatten

variable {M : Type} [AddCommMonoid M] {weight : Request → M}
  {requests : List MetricSnapshot → List Request} {cfg : Config} {u u' : Uploads Request}

theorem entered_sent (weight : Request → M) (requests : List MetricSnapshot → List Request)
    (cfg : Config) (now : Time) : Sent weight requests (Uploads.entered cfg now) := by
  refine ⟨Outbox.inOrder_empty, ⟨[], rfl, rfl⟩, fun _ => rfl, ?_⟩
  simp [Uploads.entered, Outbox.contents, Outbox.weigh]

/-- What an export changes. -/
theorem export_eq (op : Metrics.Op) (snaps : List MetricSnapshot) (u : Uploads Request) :
    (u.export requests op snaps).manager = u.manager ∧
      (u.manager.phase = .exited ∧ (u.export requests op snaps).outbox = u.outbox ∧
          (u.export requests op snaps).ignored = u.ignored ++ [snaps] ∨
        u.manager.phase ≠ .exited ∧
          (u.export requests op snaps).outbox = u.outbox.hand (requests snaps) ∧
          (u.export requests op snaps).ignored = u.ignored) := by
  unfold Uploads.export
  split
  · rename_i hphase
    exact ⟨rfl, Or.inl ⟨hphase, rfl, rfl⟩⟩
  · rename_i hphase
    cases op <;> exact ⟨rfl, Or.inr ⟨hphase, rfl, rfl⟩⟩

/-- The step that hands over an export. -/
theorem Sent.export (h : Sent weight requests u) {manager : State} {loopExport : Option ℕ}
    {snaps : List MetricSnapshot} (hexports : manager.exports = u.manager.exports ++ [snaps])
    (hexited : u.manager.phase = .exited → manager.phase = .exited) (op : Metrics.Op) :
    Sent weight requests (Uploads.export requests op snaps { u with manager, loopExport }) := by
  obtain ⟨sent, hsent, hhanded⟩ := h.handed
  obtain ⟨hmanager, ⟨hphase, houtbox, hignored⟩ | ⟨hphase, houtbox, hignored⟩⟩ :=
    @export_eq Request requests op snaps { u with manager, loopExport }
  · constructor
    · rw [houtbox]
      exact h.inOrder
    · refine ⟨sent, ?_, ?_⟩
      · rw [hmanager, hignored, hexports, hsent, List.append_assoc]
      · rw [houtbox]
        exact hhanded
    · rw [hmanager]
      exact fun hne => absurd hphase hne
    · rw [houtbox]
      exact h.contents
  · have hnone : u.ignored = [] := h.ignored fun hbefore => hphase (hexited hbefore)
    constructor
    · rw [houtbox]
      exact h.inOrder.hand _
    · refine ⟨sent ++ [snaps], ?_, ?_⟩
      · rw [hmanager, hignored, hexports, hsent, hnone, List.append_nil, List.append_nil]
      · rw [houtbox, Outbox.handed_hand, hhanded, List.map_append]
        rfl
    · rw [hignored]
      exact fun _ => hnone
    · rw [houtbox, Outbox.contents_hand weight h.inOrder, Outbox.handed_hand, List.flatten_append,
        Outbox.weigh_append]
      exact congrArg₂ _ h.contents (by simp)

theorem Sent.step (h : Sent weight requests u) {op : Uploads.Op}
    (hstep : u.step cfg requests op = some u') : Sent weight requests u' := by
  cases op with
  | manager op =>
    simp only [Uploads.step, Option.ite_none_right_eq_some, Option.bind_eq_bind,
      Option.bind_eq_some_iff, Option.some.injEq] at hstep
    obtain ⟨_, manager, hmanager, rfl⟩ := hstep
    have hexited := step_exited hmanager
    rcases step_exports_grow hmanager with hsame | ⟨snaps, hexports⟩
    · rw [hsame, List.drop_length, List.foldl_nil]
      obtain ⟨sent, hsent, hhanded⟩ := h.handed
      refine ⟨h.inOrder, ⟨sent, hsame.trans hsent, hhanded⟩, ?_, h.contents⟩
      exact fun hne => h.ignored fun hbefore => hne (hexited hbefore)
    · rw [hexports, List.drop_left]
      exact h.export hexports hexited op
  | taken number =>
    simp only [Uploads.step, Option.bind_eq_bind, Option.bind_eq_some_iff,
      Option.some.injEq] at hstep
    obtain ⟨outbox, houtbox, rfl⟩ := hstep
    obtain ⟨request, rest, hd⟩ := Outbox.deliver_eq_some houtbox
    obtain ⟨sent, hsent, hhanded⟩ := h.handed
    refine ⟨h.inOrder.deliver houtbox, ⟨sent, hsent, hd.handed.trans hhanded⟩, h.ignored, ?_⟩
    rw [Outbox.contents_deliver weight houtbox, hd.handed]
    exact h.contents
  | abandoned number =>
    simp only [Uploads.step, Option.bind_eq_bind, Option.bind_eq_some_iff,
      Option.some.injEq] at hstep
    obtain ⟨outbox, houtbox, rfl⟩ := hstep
    have hhanded' : outbox.handed = u.outbox.handed := by
      obtain ⟨_, _, rfl⟩ := Option.map_eq_some_iff.mp houtbox
      rfl
    obtain ⟨sent, hsent, hhanded⟩ := h.handed
    refine ⟨h.inOrder.giveUp houtbox, ⟨sent, hsent, hhanded'.trans hhanded⟩, h.ignored, ?_⟩
    rw [Outbox.contents_giveUp weight houtbox, hhanded']
    exact h.contents

/-! ## Whole runs -/

theorem step_manager {op : Metrics.Op} (hstep : u.step cfg requests (.manager op) = some u') :
    u.manager.step cfg op = some u'.manager := by
  simp only [Uploads.step, Option.ite_none_right_eq_some, Option.bind_eq_bind,
    Option.bind_eq_some_iff, Option.some.injEq] at hstep
  obtain ⟨_, manager, hmanager, rfl⟩ := hstep
  rcases step_exports_grow hmanager with hsame | ⟨snaps, hexports⟩
  · rw [hsame, List.drop_length]
    exact hmanager
  · rw [hexports, List.drop_left, List.foldl_cons, List.foldl_nil, (export_eq op snaps _).1]
    exact hmanager

/-- The manager takes its own steps, whatever the sink does in between. -/
theorem run_manager {ops : List Uploads.Op}
    (hrun : Lib.exec (Uploads.step cfg requests) anyStep u ops = some u') :
    Lib.exec (State.step cfg) anyStep u.manager (ops.filterMap Uploads.Op.manager?) =
      some u'.manager := by
  induction ops generalizing u with
  | nil =>
    cases hrun
    rfl
  | cons op rest ih =>
    have hany : anyStep u op := trivial
    rw [Lib.exec, if_pos hany, Option.bind_eq_some_iff] at hrun
    obtain ⟨mid, hstep, hrest⟩ := hrun
    cases op with
    | manager op =>
      have hany : anyStep u.manager op := trivial
      have hops : (Uploads.Op.manager op :: rest).filterMap Uploads.Op.manager? =
          op :: rest.filterMap Uploads.Op.manager? := rfl
      rw [hops, Lib.exec, if_pos hany, step_manager hstep]
      exact ih hrest
    | taken number | abandoned number =>
      simp only [Uploads.step, Option.bind_eq_bind, Option.bind_eq_some_iff,
        Option.some.injEq] at hstep
      obtain ⟨outbox, _, rfl⟩ := hstep
      exact @ih { u with outbox } hrest

theorem run_sent (weight : Request → M) {enteredAt : Time} {ops : List Uploads.Op}
    (hrun : Lib.exec (Uploads.step cfg requests) anyStep (Uploads.entered cfg enteredAt) ops =
      some u) : Sent weight requests u := by
  have hreachable : Reachable (· = Uploads.entered cfg enteredAt) (Uploads.step cfg requests)
      anyStep u := Reachable.exec (.start rfl) hrun
  apply hreachable.invariant
  · rintro _ rfl
    exact entered_sent ..
  · intro _ _ _ hsent _ hstep
    exact hsent.step hstep

/-- **Nothing gets lost between the manager and the service**: what it has received, what
    is under way and given up, and what the sink ignored add up to the exports, in any
    figure that the requests of an export carry. -/
theorem Sent.adds_up (h : Sent weight requests u) (figure : List MetricSnapshot → M)
    (hnil : figure [] = 0) (happend : ∀ snaps snaps', figure (snaps ++ snaps') =
      figure snaps + figure snaps')
    (hfigure : ∀ snaps ∈ u.manager.exports, Outbox.weigh weight (requests snaps) = figure snaps) :
    u.outbox.contents weight + figure u.ignored.flatten = figure u.manager.exports.flatten := by
  obtain ⟨sent, hsent, hhanded⟩ := h.handed
  have hweigh : ∀ snapss : List (List MetricSnapshot), (∀ snaps ∈ snapss,
      Outbox.weigh weight (requests snaps) = figure snaps) →
      Outbox.weigh weight (snapss.map requests).flatten = figure snapss.flatten := by
    intro snapss hall
    induction snapss with
    | nil => exact hnil.symm
    | cons snaps rest ih =>
      have hhead := hall snaps List.mem_cons_self
      have hrest := ih fun snaps' hsnaps' => hall snaps' (List.mem_cons_of_mem _ hsnaps')
      rw [List.map_cons, List.flatten_cons, Outbox.weigh_append, hhead, hrest, List.flatten_cons,
        happend]
  rw [hsent] at hfigure
  rw [h.contents, hhanded, hsent, List.flatten_append, happend,
    hweigh sent fun snaps hsnaps => hfigure snaps (List.mem_append_left _ hsnaps)]

/-- What an export was handed, by its number. -/
theorem Sent.handed_of_export (h : Sent weight requests u) {number : ℕ}
    (hlt : number < u.outbox.handed.length) {snaps : List MetricSnapshot}
    (hexport : u.manager.exports[number]? = some snaps) :
    u.outbox.handed[number]? = some (requests snaps) := by
  obtain ⟨sent, hsent, hhanded⟩ := h.handed
  rw [hhanded, List.length_map] at hlt
  rw [hsent, List.getElem?_append_left hlt] at hexport
  rw [hhanded, List.getElem?_map, hexport, Option.map_some]

/-- The requests of an export are made in order, and all of them if it does not end early. -/
theorem Sent.received_of_export (h : Sent weight requests u) {number : ℕ}
    (hlt : number < u.outbox.handed.length) {snaps : List MetricSnapshot}
    (hexport : u.manager.exports[number]? = some snaps) :
    under number u.outbox.received <+: requests snaps ∧
      (u.done number = true → under number u.outbox.received = requests snaps) := by
  have hhanded := h.handed_of_export hlt hexport
  have hinit := h.inOrder.isPrefix number
  rw [hhanded, Option.getD_some] at hinit
  refine ⟨hinit, ?_⟩
  intro hdone
  rw [Uploads.done, Bool.and_eq_true, Bool.not_eq_true'] at hdone
  rw [h.inOrder.complete hdone.1 hdone.2, hhanded, Option.getD_some]

/-- Every request that is made is one of an export. -/
theorem Sent.export_of_received (h : Sent weight requests u) {number : ℕ} {request : Request}
    (hreceived : (number, request) ∈ u.outbox.received) :
    number < u.outbox.handed.length ∧
      ∃ snaps, u.manager.exports[number]? = some snaps ∧ request ∈ requests snaps := by
  obtain ⟨sent, hsent, hhanded⟩ := h.handed
  have hmem := (h.inOrder.isPrefix number).subset (mem_under.mpr hreceived)
  rw [hhanded, List.getElem?_map] at hmem
  rw [hhanded, List.length_map]
  cases hsnaps : sent[number]? with
  | none =>
    rw [hsnaps] at hmem
    cases hmem
  | some snaps =>
    rw [hsnaps, Option.map_some, Option.getD_some] at hmem
    obtain ⟨hlt, _⟩ := List.getElem?_eq_some_iff.mp hsnaps
    refine ⟨hlt, snaps, ?_, hmem⟩
    rw [hsent, List.getElem?_append_left hlt, hsnaps]

end

/-! ## What exports show -/

theorem shown_append (key : MetricKey) (snaps snaps' : List MetricSnapshot) :
    shown key (snaps ++ snaps') = shown key snaps + shown key snaps' := by
  rw [shown, List.filter_append, List.map_append, List.sum_append]
  rfl

theorem shown_cons (key : MetricKey) (m : MetricSnapshot) (snaps : List MetricSnapshot) :
    shown key (m :: snaps) = (if m.isOf key then (m.count, m.sum) else 0) + shown key snaps := by
  unfold shown
  by_cases hkey : m.isOf key = true <;> simp [hkey]

end Metrics

end Aiokpl
