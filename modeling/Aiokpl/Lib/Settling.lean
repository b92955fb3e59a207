import Mathlib.Order.WellFounded
import Mathlib.Data.Prod.Lex
import Mathlib.Logic.Relation

/-!
# Work that comes to an end

`works s s'` says that a machine can work on from `s` to `s'`.  A rank that falls with
every such step bounds all work; if moreover something can be worked on wherever the
machine is not done, then it can always be brought to the end, and it stops nowhere else.
-/

namespace Aiokpl.Lib

universe u v

variable {σ : Type u} {ρ : Type v} {works : σ → σ → Prop} {inv done : σ → Prop}

/-- **A falling rank** leaves no endless work. -/
theorem acc_of_rank [Preorder ρ] [WellFoundedLT ρ] (rank : σ → ρ)
    (hkeeps : ∀ s s', inv s → works s s' → inv s')
    (hfalls : ∀ s s', inv s → works s s' → rank s' < rank s) {s : σ} (hs : inv s) :
    Acc (fun s' s => works s s') s := by
  induction hrank : rank s using WellFoundedLT.induction generalizing s with
  | ind r ih =>
    refine .intro s fun s' hworks => ?_
    exact ih (rank s') (hrank ▸ hfalls s s' hs hworks) (hkeeps s s' hs hworks) rfl

/-- There is no run that works for ever. -/
theorem no_endless_work {s : σ} (h : Acc (fun s' s => works s s') s) (run : ℕ → σ)
    (hstart : run 0 = s) : ∃ n, ¬ works (run n) (run (n + 1)) := by
  by_contra hforever
  have hchain : ¬ Acc (fun s' s => works s s') s := by
    apply not_acc_iff_exists_descending_chain.mpr
    exact ⟨run, hstart, fun n => not_not.mp fun hn => hforever ⟨n, hn⟩⟩
  exact hchain h

/-- **The end is reached** by a run that keeps the invariant. -/
theorem settles {s : σ} (h : Acc (fun s' s => works s s') s) (hs : inv s)
    (hmoves : ∀ s, inv s → ¬ done s → ∃ s', works s s' ∧ inv s') :
    ∃ s', Relation.ReflTransGen works s s' ∧ inv s' ∧ done s' := by
  induction h with
  | intro s _ ih =>
    by_cases hdone : done s
    · exact ⟨s, .refl, hs, hdone⟩
    · obtain ⟨s', hworks, hs'⟩ := hmoves s hs hdone
      obtain ⟨s'', hrun, hinv, hend⟩ := ih s' hworks hs'
      exact ⟨s'', .head hworks hrun, hinv, hend⟩

/-- A run keeps the invariant. -/
theorem inv_of_run (hkeeps : ∀ s s', inv s → works s s' → inv s') {s s' : σ} (hs : inv s)
    (hrun : Relation.ReflTransGen works s s') : inv s' := by
  induction hrun with
  | refl => exact hs
  | tail _ hworks ih => exact hkeeps _ _ ih hworks

end Aiokpl.Lib
