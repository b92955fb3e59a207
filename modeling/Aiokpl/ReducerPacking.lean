import Aiokpl.Lib.LongestPrefix
import Aiokpl.Reducer

/-!
# What the Reducer closes

`_pack_and_split` cuts the stably sorted active items at the longest prefix
within the limits.  `packAndSplit_wellPacked` says this of one call; the module
on runs derives from it what a whole history of operations closes.
-/

namespace Aiokpl

open Lib

/-- What a container must satisfy for packing: `size` and `count` are functions of
    the items and never decrease, and `remove_last` undoes `add`. -/
class BatchLaws (I : outParam Type) (B : Type) [Batch I B] : Prop where
  items_add : ∀ (b : B) (x : I), Batch.items (Batch.add b x) = Batch.items b ++ [x]
  items_removeLast_add : ∀ (b : B) (x : I),
    Batch.items (Batch.removeLast (Batch.add b x)) = Batch.items b
  count_congr : ∀ b b' : B, Batch.items b = Batch.items b' → Batch.count b = Batch.count b'
  size_congr : ∀ b b' : B, Batch.items b = Batch.items b' → Batch.size b = Batch.size b'
  count_add : ∀ (b : B) (x : I), Batch.count b ≤ Batch.count (Batch.add b x)
  size_add : ∀ (b : B) (x : I), Batch.size b ≤ Batch.size (Batch.add b x)

/-- `count` is the number of items. -/
class CountsItems (I : outParam Type) (B : Type) [Batch I B] : Prop where
  count_eq : ∀ b : B, Batch.count b = (Batch.items b).length

theorem CountsItems.items_ne_nil {I B : Type} [Batch I B] [CountsItems I B] {b : B}
    (h : Batch.count b ≠ 0) : Batch.items b ≠ [] := by
  intro hnil
  exact h (by simp [CountsItems.count_eq, hnil])

namespace Reducer

variable {I B : Type} [Batch I B]

/-! ## Bodies that only touch timers -/

@[simp] theorem cancelTimerLocked_active (r : State B) :
    (cancelTimerLocked r).active = r.active := by
  unfold cancelTimerLocked
  split <;> rfl

@[simp] theorem rescheduleLocked_active (now : Time) (r : State B) :
    (rescheduleLocked now r).active = r.active := by
  unfold rescheduleLocked
  by_cases h : Batch.count r.active = 0 <;> simp [h]

@[simp] theorem endTimer_active (scope : Nat) (r : State B) :
    (endTimer scope r).active = r.active := rfl

@[simp] theorem setPhase_active (scope : Nat) (phase : Phase) (r : State B) :
    (setPhase scope phase r).active = r.active := rfl

@[simp] theorem wake_active (scope : Nat) (r : State B) : (wake scope r).active = r.active := by
  unfold wake
  split <;> rfl

/-! ## Limits as a property of item lists -/

/-- A batch holding exactly `xs` is within both limits. -/
def Fits (cfg : Config I B) (xs : List I) : Prop :=
  exceeds cfg (fill cfg.batchFactory xs) = false

instance (cfg : Config I B) (xs : List I) : Decidable (Fits cfg xs) :=
  inferInstanceAs (Decidable (exceeds cfg (fill cfg.batchFactory xs) = false))

@[simp] theorem fill_nil (b : B) : fill b ([] : List I) = b := rfl

theorem fill_append (b : B) (xs ys : List I) : fill b (xs ++ ys) = fill (fill b xs) ys :=
  List.foldl_append

theorem fill_concat (b : B) (xs : List I) (x : I) :
    fill b (xs ++ [x]) = Batch.add (fill b xs) x := by
  rw [fill_append]
  rfl

section Laws

variable [BatchLaws I B]

theorem items_fill (b : B) (xs : List I) : Batch.items (fill b xs) = Batch.items b ++ xs := by
  induction xs using List.reverseRecOn with
  | nil => simp
  | append_singleton xs x ih =>
    rw [fill_concat, BatchLaws.items_add, ih, List.append_assoc]

theorem exceeds_congr (cfg : Config I B) {b b' : B} (h : Batch.items b = Batch.items b') :
    exceeds cfg b = exceeds cfg b' := by
  simp only [exceeds, BatchLaws.count_congr b b' h, BatchLaws.size_congr b b' h]

/-- Whether a batch exceeds the limits depends on its items alone. -/
theorem exceeds_eq_false_iff (cfg : Config I B) (b : B) :
    exceeds cfg b = false ↔ Fits cfg (Batch.items b) := by
  have hitems : Batch.items b = Batch.items (fill cfg.batchFactory (Batch.items b)) := by
    rw [items_fill, cfg.fresh, List.nil_append]
  rw [Fits, exceeds_congr cfg hitems]

theorem exceeds_add_false {cfg : Config I B} {b : B} {x : I}
    (h : exceeds cfg (Batch.add b x) = false) : exceeds cfg b = false := by
  simp only [exceeds, Bool.or_eq_false_iff, decide_eq_false_iff_not, not_lt] at h ⊢
  exact ⟨(BatchLaws.count_add b x).trans h.1, (BatchLaws.size_add b x).trans h.2⟩

/-- A prefix of items that fit fits. -/
theorem fits_prefixClosed (cfg : Config I B) : PrefixClosed (Fits cfg) := by
  rintro p q ⟨rest, rfl⟩ hfit
  induction rest using List.reverseRecOn with
  | nil => simpa using hfit
  | append_singleton rest x ih =>
    refine ih ?_
    rw [← List.append_assoc, Fits, fill_concat] at hfit
    exact exceeds_add_false hfit

/-! ## The packing loop -/

/-- What the loop leaves of its candidates, given what is already packed: the two
    results split the candidates, and the cut is where the next item stops fitting,
    or right after a single item that does not fit at all. -/
theorem packLoop_spec [CountsItems I B] (cfg : Config I B) :
    ∀ (cands : List I) (b : B), (Batch.items b ≠ [] → Fits cfg (Batch.items b)) →
      Batch.items (packLoop cfg b cands).1 ++ (packLoop cfg b cands).2 = Batch.items b ++ cands ∧
      ((∃ x, Batch.items (packLoop cfg b cands).1 = [x] ∧ ¬ Fits cfg [x]) ∨
        ((Batch.items b ++ cands ≠ [] →
            Batch.items (packLoop cfg b cands).1 ≠ [] ∧
              Fits cfg (Batch.items (packLoop cfg b cands).1)) ∧
          ∀ x rest, (packLoop cfg b cands).2 = x :: rest →
            ¬ Fits cfg (Batch.items (packLoop cfg b cands).1 ++ [x])))
  | [], b, hb => by
    refine ⟨rfl, Or.inr ⟨fun hne => ?_, fun x rest h => ?_⟩⟩
    · have hitems : Batch.items b ≠ [] := by simpa using hne
      exact ⟨hitems, hb hitems⟩
    · simp [packLoop] at h
  | cand :: rest, b, hb => by
    have hadd := BatchLaws.items_add b cand
    by_cases hexc : exceeds cfg (Batch.add b cand) = true
    · have hnot : ¬ Fits cfg (Batch.items b ++ [cand]) := by
        rw [← hadd, ← exceeds_eq_false_iff cfg, hexc]
        simp
      by_cases hone : Batch.count (Batch.add b cand) = 1
      · -- the batch was empty: the item is oversized on its own
        have hempty : Batch.items b = [] := by
          rw [CountsItems.count_eq, hadd] at hone
          simpa using hone
        simp only [packLoop, hexc, hone, if_true]
        rw [hadd, hempty]
        refine ⟨rfl, Or.inl ⟨cand, rfl, ?_⟩⟩
        simpa [hempty] using hnot
      · have hne : Batch.items b ≠ [] := by
          intro hempty
          rw [CountsItems.count_eq, hadd, hempty] at hone
          exact hone rfl
        simp only [packLoop, hexc, hone, if_true, if_false]
        rw [BatchLaws.items_removeLast_add]
        refine ⟨rfl, Or.inr ⟨fun _ => ⟨hne, hb hne⟩, ?_⟩⟩
        rintro x rest' ⟨⟩
        exact hnot
    · have hfit : Fits cfg (Batch.items (Batch.add b cand)) := by
        rw [← exceeds_eq_false_iff cfg]
        simpa using hexc
      have ih := packLoop_spec cfg rest (Batch.add b cand) fun _ => hfit
      simp only [packLoop, hexc, if_false, Bool.false_eq_true]
      simpa [hadd, List.append_assoc] using ih

end Laws

/-! ## One call of `_pack_and_split` -/

variable [Batchable I]

theorem packAndSplit_active (cfg : Config I B) (now : Time) (r : State B) :
    (packAndSplit cfg now r).1.active =
      fill cfg.batchFactory
        (packLoop cfg cfg.batchFactory (sortBy Batchable.deadline (Batch.items r.active))).2 := by
  simp only [packAndSplit, cancelTimerLocked_active]
  split <;> simp

theorem packAndSplit_closed (cfg : Config I B) (now : Time) (r : State B) :
    (packAndSplit cfg now r).2 =
      (packLoop cfg cfg.batchFactory (sortBy Batchable.deadline (Batch.items r.active))).1 := by
  simp [packAndSplit]

/-- The batch `closed` was cut correctly from the items `before`, leaving `left`. -/
structure WellPacked (cfg : Config I B) (before : List I) (closed : B) (left : List I) : Prop where
  split : Batch.items closed ++ left = sortBy Batchable.deadline before
  packed : IsLongestPrefix (Fits cfg) (sortBy Batchable.deadline before) (Batch.items closed) ∨
    ∃ x, Batch.items closed = [x] ∧ ¬ Fits cfg [x]
  nonempty : Batch.items closed ≠ []

section Laws

variable [BatchLaws I B] [CountsItems I B]

/-- **One call packs the longest prefix.**  Whatever the limits, a non-empty
    active batch is cut at the longest prefix of its stably sorted items that
    stays within them, or after a single oversized item. -/
theorem packAndSplit_wellPacked (cfg : Config I B) (now : Time) (r : State B)
    (hne : Batch.items r.active ≠ []) :
    WellPacked cfg (Batch.items r.active) (packAndSplit cfg now r).2
      (Batch.items (packAndSplit cfg now r).1.active) := by
  rw [packAndSplit_active, packAndSplit_closed, items_fill, cfg.fresh, List.nil_append]
  set sorted := sortBy Batchable.deadline (Batch.items r.active) with hsorted
  have hspec := packLoop_spec cfg sorted cfg.batchFactory fun h => absurd cfg.fresh h
  rw [cfg.fresh, List.nil_append] at hspec
  obtain ⟨hsplit, hcut⟩ := hspec
  rcases hcut with ⟨x, hx, hbig⟩ | ⟨hfits, hnext⟩
  · exact ⟨hsplit, Or.inr ⟨x, hx, hbig⟩, by simp [hx]⟩
  · have hsome : sorted ≠ [] := by simpa [hsorted] using hne
    obtain ⟨hne', hfit⟩ := hfits hsome
    refine ⟨hsplit, Or.inl ?_, hne'⟩
    cases hleft : (packLoop cfg cfg.batchFactory sorted).2 with
    | nil =>
      rw [hleft, List.append_nil] at hsplit
      rw [hsplit] at hfit ⊢
      exact .self hfit
    | cons x rest =>
      have hcut := IsLongestPrefix.of_next rest (fits_prefixClosed cfg) hfit
        (hnext x rest hleft)
      rwa [← hleft, hsplit] at hcut

end Laws

namespace WellPacked

variable {cfg : Config I B} {before left : List I} {closed : B}

/-- Nothing is lost or duplicated by the cut. -/
theorem perm (h : WellPacked cfg before closed left) :
    (Batch.items closed ++ left).Perm before := by
  rw [h.split]
  exact sortBy_perm _ _

/-- The closed batch is ordered by deadline, and no item left behind is due earlier. -/
theorem deadlines (h : WellPacked cfg before closed left) :
    (Batch.items closed).Pairwise (fun x y => Batchable.deadline x ≤ Batchable.deadline y) ∧
      ∀ x ∈ Batch.items closed, ∀ y ∈ left, Batchable.deadline x ≤ Batchable.deadline y := by
  have hsorted := sortBy_sorted Batchable.deadline before
  rw [← h.split, List.pairwise_append] at hsorted
  exact ⟨hsorted.1, hsorted.2.2⟩

/-- A closed batch is within the limits unless it is a singleton. -/
theorem within (h : WellPacked cfg before closed left) :
    Fits cfg (Batch.items closed) ∨ ∃ x, Batch.items closed = [x] := by
  rcases h.packed with hlong | ⟨x, hx, _⟩
  · exact Or.inl hlong.holds
  · exact Or.inr ⟨x, hx⟩

/-- Items that fit together all leave. -/
theorem all [BatchLaws I B] (h : WellPacked cfg before closed left)
    (hfits : Fits cfg (sortBy Batchable.deadline before)) :
    Batch.items closed = sortBy Batchable.deadline before := by
  rcases h.packed with hlong | ⟨x, hx, hbig⟩
  · exact hlong.unique (.self hfits)
  · refine absurd (fits_prefixClosed cfg _ _ ?_ hfits) hbig
    rw [← h.split, hx]
    exact List.prefix_append _ _

end WellPacked

end Reducer

end Aiokpl

