import Mathlib.Tactic
import Mathlib.Algebra.Order.Field.Basic

/-!
# Accounts that refill at a rate

An account starts full, refills at a rate up to its cap, and is never overdrawn.
What is spent in a window of time is then at most the cap plus what refills in the
window.  The potential is the level: what was spent since any moment, plus what is
left, never exceeds the cap plus what has refilled since.
-/

namespace Aiokpl.Lib

universe u

variable {K : Type u} [Field K] [LinearOrder K] [IsStrictOrderedRing K]

/-- What is spent from `t` on, by a log of times and amounts. -/
def spentFrom (t : K) (log : List (K × K)) : K :=
  ((log.filter fun e => t ≤ e.1).map Prod.snd).sum

/-- What is spent in the window `[t₁, t₂]`. -/
def spentIn (t₁ t₂ : K) (log : List (K × K)) : K :=
  ((log.filter fun e => t₁ ≤ e.1 ∧ e.1 ≤ t₂).map Prod.snd).sum

omit [IsStrictOrderedRing K] in
theorem spentFrom_concat (t : K) (log : List (K × K)) (e : K × K) :
    spentFrom t (log ++ [e]) = spentFrom t log + if t ≤ e.1 then e.2 else 0 := by
  by_cases h : t ≤ e.1 <;> simp [spentFrom, List.filter_append, h]

omit [IsStrictOrderedRing K] in
theorem spentIn_concat (t₁ t₂ : K) (log : List (K × K)) (e : K × K) :
    spentIn t₁ t₂ (log ++ [e]) =
      spentIn t₁ t₂ log + if t₁ ≤ e.1 ∧ e.1 ≤ t₂ then e.2 else 0 := by
  by_cases h : t₁ ≤ e.1 ∧ e.1 ≤ t₂ <;> simp [spentIn, List.filter_append, h]

omit [IsStrictOrderedRing K] in
/-- A window that ends after the last entry is open to the right. -/
theorem spentIn_eq_spentFrom {t₁ t₂ : K} {log : List (K × K)} (h : ∀ e ∈ log, e.1 ≤ t₂) :
    spentIn t₁ t₂ log = spentFrom t₁ log := by
  rw [spentIn, spentFrom]
  congr 2
  apply List.filter_congr
  intro e he
  simp [h e he]

omit [IsStrictOrderedRing K] in
theorem spentFrom_eq_zero {t : K} {log : List (K × K)} (h : ∀ e ∈ log, e.1 < t) :
    spentFrom t log = 0 := by
  have hnone : log.filter (fun e => decide (t ≤ e.1)) = [] := by
    rw [List.filter_eq_nil_iff]
    intro e he
    simpa using h e he
  rw [spentFrom, hnone]
  rfl

/-- An account whose level at `clock` is `level`, and whose log is within the
    envelope of the cap and the rate. -/
structure Envelope (cap rate clock level : K) (log : List (K × K)) : Prop where
  rate_nonneg : 0 ≤ rate
  level_nonneg : 0 ≤ level
  level_le : level ≤ cap
  past : ∀ e ∈ log, e.1 ≤ clock
  since : ∀ t ≤ clock, spentFrom t log + level ≤ cap + rate * (clock - t)
  window : ∀ t₁ t₂, t₁ ≤ t₂ → spentIn t₁ t₂ log ≤ cap + rate * (t₂ - t₁)

theorem Envelope.full {cap rate : K} (hcap : 0 ≤ cap) (hrate : 0 ≤ rate) (clock : K) :
    Envelope cap rate clock cap [] := by
  refine ⟨hrate, hcap, le_rfl, by simp, ?_, ?_⟩
  · intro t ht
    have hgrown : 0 ≤ rate * (clock - t) := mul_nonneg hrate (sub_nonneg.mpr ht)
    simpa [spentFrom] using hgrown
  · intro t₁ t₂ ht
    have hgrown : 0 ≤ rate * (t₂ - t₁) := mul_nonneg hrate (sub_nonneg.mpr ht)
    simpa [spentIn] using add_nonneg hcap hgrown

variable {cap rate clock level : K} {log : List (K × K)}

/-- Time passes. -/
theorem Envelope.wait (h : Envelope cap rate clock level log) {clock' : K} (hle : clock ≤ clock') :
    Envelope cap rate clock' (min cap (level + rate * (clock' - clock))) log := by
  have hgrown : 0 ≤ rate * (clock' - clock) := mul_nonneg h.rate_nonneg (sub_nonneg.mpr hle)
  have hcap : 0 ≤ cap := h.level_nonneg.trans h.level_le
  refine ⟨h.rate_nonneg, le_min hcap (add_nonneg h.level_nonneg hgrown), min_le_left _ _,
    fun e he => (h.past e he).trans hle, ?_, h.window⟩
  intro t ht
  rcases le_or_gt t clock with hbefore | hafter
  · have hsince := h.since t hbefore
    have hlevel := min_le_right cap (level + rate * (clock' - clock))
    have hsplit : rate * (clock' - t) = rate * (clock - t) + rate * (clock' - clock) := by ring
    linarith
  · have hnothing : spentFrom t log = 0 :=
      spentFrom_eq_zero fun e he => (h.past e he).trans_lt hafter
    have hlevel := min_le_left cap (level + rate * (clock' - clock))
    have hwindow : 0 ≤ rate * (clock' - t) := mul_nonneg h.rate_nonneg (sub_nonneg.mpr ht)
    linarith

/-- Something is spent at the clock. -/
theorem Envelope.spend (h : Envelope cap rate clock level log) {amount : K} (hnonneg : 0 ≤ amount)
    (hle : amount ≤ level) :
    Envelope cap rate clock (level - amount) (log ++ [(clock, amount)]) := by
  have hpast : ∀ e ∈ log ++ [(clock, amount)], e.1 ≤ clock := by
    intro e he
    rcases List.mem_append.mp he with he | he
    · exact h.past e he
    · rw [List.mem_singleton.mp he]
  have hsince : ∀ t ≤ clock, spentFrom t (log ++ [(clock, amount)]) + (level - amount) ≤
      cap + rate * (clock - t) := by
    intro t ht
    have hbefore := h.since t ht
    rw [spentFrom_concat, if_pos ht]
    linarith
  refine ⟨h.rate_nonneg, sub_nonneg.mpr hle, ?_, hpast, hsince, ?_⟩
  · have hcap := h.level_le
    linarith
  · intro t₁ t₂ ht
    by_cases hin : t₁ ≤ clock ∧ clock ≤ t₂
    · rw [spentIn_eq_spentFrom fun e he => (hpast e he).trans hin.2]
      have hbound := hsince t₁ hin.1
      have hwider : rate * (clock - t₁) ≤ rate * (t₂ - t₁) :=
        mul_le_mul_of_nonneg_left (sub_le_sub_right hin.2 t₁) h.rate_nonneg
      linarith
    · rw [spentIn_concat, if_neg hin, add_zero]
      exact h.window t₁ t₂ ht

end Aiokpl.Lib
