import Mathlib.Tactic

/-!
# Guarded runs of a labelled transition function

A machine is given by its start states and a partial step function on labels.
A run is *guarded* by a predicate on the pair of a state and the label taken
from it: `fun _ _ => True` gives every run, a stronger guard gives the runs
whose steps all meet a side condition.  Invariants are proved once, by
`Reachable.invariant`; concrete runs are replayed by `exec`.
-/

namespace Aiokpl.Lib

universe u v

variable {σ : Type u} {α : Type v}

/-- The states reached by steps whose label meets `ok` in the state it leaves. -/
inductive Reachable (start : σ → Prop) (step : σ → α → Option σ) (ok : σ → α → Prop) :
    σ → Prop
  | start {s : σ} : start s → Reachable start step ok s
  | next {s s' : σ} {a : α} :
      Reachable start step ok s → ok s a → step s a = some s' → Reachable start step ok s'

/-- The guard of an unconditional run. -/
def anyStep : σ → α → Prop := fun _ _ => True

instance (s : σ) (a : α) : Decidable (anyStep s a) := isTrue trivial

variable {start : σ → Prop} {step : σ → α → Option σ} {ok ok' : σ → α → Prop}

/-- **Invariance.**  What holds at the start and is kept by every permitted step
    holds in every reachable state. -/
theorem Reachable.invariant {inv : σ → Prop}
    (hstart : ∀ s, start s → inv s)
    (hstep : ∀ s a s', inv s → ok s a → step s a = some s' → inv s')
    {s : σ} (h : Reachable start step ok s) : inv s := by
  induction h with
  | start h0 => exact hstart _ h0
  | next _ hok hs ih => exact hstep _ _ _ ih hok hs

/-- A run that meets a guard meets every weaker one. -/
theorem Reachable.mono (hweak : ∀ s a, ok s a → ok' s a) {s : σ}
    (h : Reachable start step ok s) : Reachable start step ok' s := by
  induction h with
  | start h0 => exact .start h0
  | next _ hok hs ih => exact .next ih (hweak _ _ hok) hs

/-- Replay a list of labels, checking the guard at every step. -/
def exec (step : σ → α → Option σ) (ok : σ → α → Prop) [∀ s a, Decidable (ok s a)] :
    σ → List α → Option σ
  | s, [] => some s
  | s, a :: rest => if ok s a then (step s a).bind fun s' => exec step ok s' rest else none

theorem exec_append [∀ s a, Decidable (ok s a)] (s : σ) (labels labels' : List α) :
    exec step ok s (labels ++ labels') =
      (exec step ok s labels).bind fun s' => exec step ok s' labels' := by
  induction labels generalizing s with
  | nil => rfl
  | cons a rest ih =>
    rw [List.cons_append, exec, exec]
    split
    · cases hstep : step s a with
      | none => rfl
      | some mid => exact ih mid
    · rfl

/-- A run can be stopped at any point. -/
theorem exec_of_isPrefix [∀ s a, Decidable (ok s a)] {labels labels' : List α} {s s' : σ}
    (h : labels <+: labels') (hrun : exec step ok s labels' = some s') :
    ∃ mid, exec step ok s labels = some mid := by
  obtain ⟨rest, rfl⟩ := h
  rw [exec_append, Option.bind_eq_some_iff] at hrun
  obtain ⟨mid, hmid, _⟩ := hrun
  exact ⟨mid, hmid⟩

theorem Reachable.exec [∀ s a, Decidable (ok s a)] {labels : List α} {s s' : σ}
    (h : Reachable start step ok s) (hrun : exec step ok s labels = some s') :
    Reachable start step ok s' := by
  induction labels generalizing s with
  | nil =>
    simp only [Lib.exec, Option.some.injEq] at hrun
    exact hrun ▸ h
  | cons a rest ih =>
    by_cases hok : ok s a
    · simp only [Lib.exec, if_pos hok, Option.bind_eq_some_iff] at hrun
      obtain ⟨mid, hmid, hrest⟩ := hrun
      exact ih (.next h hok hmid) hrest
    · simp only [Lib.exec, if_neg hok, reduceCtorEq] at hrun

end Aiokpl.Lib
