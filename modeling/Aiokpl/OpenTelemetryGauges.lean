import Aiokpl.OpenTelemetryTotals

/-!
# Gauges

An `UpDownCounter` adds up what it is given, and every export gives it the largest
sample of the window.  So an export leaves the latest sample in it only where that
largest sample is also the rise since the latest sample of the export before.
-/

namespace Aiokpl

open Lib RollingWindow Metrics

namespace OpenTelemetry

open OpenTelemetrySink

/-- The most recent sample. -/
def latest (window : List (Int × ℚ)) : ℚ := (window.getLast?.map Prod.snd).getD 0

/-- The largest sample of the later window is the rise from the latest sample of the
    earlier one to its own. -/
def Rises (earlier later : List (Int × ℚ)) : Prop :=
  (later.map Prod.snd).maximum = ((latest later - latest earlier : ℚ) : WithBot ℚ)

instance (earlier later : List (Int × ℚ)) : Decidable (Rises earlier later) :=
  inferInstanceAs (Decidable (_ = _))

/-- Samples that are not negative rise so only from zero, and to the largest of the window. -/
theorem rises_iff {earlier later : List (Int × ℚ)} (hlatest : 0 ≤ latest earlier)
    (hlater : later ≠ []) :
    Rises earlier later ↔
      latest earlier = 0 ∧ (later.map Prod.snd).maximum = ((latest later : ℚ) : WithBot ℚ) := by
  have hle : ((latest later : ℚ) : WithBot ℚ) ≤ (later.map Prod.snd).maximum := by
    apply List.le_maximum_of_mem'
    obtain ⟨e, he⟩ := Option.isSome_iff_exists.mp (List.getLast?_isSome.mpr hlater)
    rw [latest, he]
    exact List.mem_map_of_mem (List.mem_of_getLast? he)
  constructor
  · intro h
    rw [Rises] at h
    rw [h, WithBot.coe_le_coe] at hle
    have hzero : latest earlier = 0 := by
      linarith
    rw [h, hzero, sub_zero]
    exact ⟨rfl, rfl⟩
  · rintro ⟨hzero, h⟩
    rw [Rises, h, hzero, sub_zero]

/-- What is added on top of a running value, after each window. -/
theorem running_iff {shown : List (List (Int × ℚ))} {earlier : List (Int × ℚ)} :
    (∀ before, before <+: shown → ∀ window, before.getLast? = some window →
      ((latest earlier : ℚ) : WithBot ℚ) +
          (before.map fun window => (window.map Prod.snd).maximum).sum =
        ((latest window : ℚ) : WithBot ℚ)) ↔
      (earlier :: shown).IsChain Rises := by
  induction shown generalizing earlier with
  | nil =>
    constructor
    · intro _
      exact List.isChain_singleton _
    · intro _ before hbefore window hlast
      rw [List.prefix_nil.mp hbefore] at hlast
      cases hlast
  | cons next rest ih =>
    have hrises : Rises earlier next ↔
        ((latest earlier : ℚ) : WithBot ℚ) + (next.map Prod.snd).maximum =
          ((latest next : ℚ) : WithBot ℚ) := by
      rw [Rises]
      cases (next.map Prod.snd).maximum with
      | bot => simp
      | coe largest =>
        rw [← WithBot.coe_add, WithBot.coe_inj, WithBot.coe_inj]
        constructor <;>
          · intro h
            linarith
    rw [List.isChain_cons_cons, hrises, ← ih, forall_isPrefix_cons (by simp)]
    constructor
    · intro h
      have hfirst := h [] List.nil_prefix next rfl
      rw [List.map_cons, List.sum_cons, List.map_nil, List.sum_nil, add_zero] at hfirst
      refine ⟨hfirst, ?_⟩
      intro before hbefore window hlast
      have hlast' : (next :: before).getLast? = some window := by
        rw [List.getLast?_cons, hlast]
        rfl
      have hwindow := h before hbefore window hlast'
      rwa [List.map_cons, List.sum_cons, ← add_assoc, hfirst] at hwindow
    · rintro ⟨hfirst, h⟩ before hbefore window hlast
      rw [List.map_cons, List.sum_cons, ← add_assoc, hfirst]
      cases hbefore' : before.getLast? with
      | none =>
        rw [List.getLast?_eq_none_iff.mp hbefore'] at hlast ⊢
        rw [← Option.some.inj hlast]
        exact add_zero _
      | some window' =>
        rw [List.getLast?_cons, hbefore'] at hlast
        rw [← Option.some.inj hlast]
        exact h before hbefore window' hbefore'

/-- **The pending gauge.**  After every export that the metric is in, its running value is
    the most recent sample in the window exactly if the largest sample of each window
    that is shown is the rise of the latest sample. -/
theorem gauge_faithful_iff {cfg : Config} (hlevel : cfg.level ≠ .none) {enteredAt : Time}
    {s : State} {ops : List Op}
    (hrun : Lib.exec (State.step cfg) anyStep (entered cfg enteredAt) ops = some s)
    {key : MetricKey} (hkey : key.name = "UserRecordsPending")
    (hordered : (ops.filterMap (Op.reading cfg key)).Pairwise (· ≤ ·)) (instrumentPrefix : String) :
    (∀ before s' w, before <+: ops →
      Lib.exec (State.step cfg) anyStep (entered cfg enteredAt) before = some s' →
        (shownWindows cfg key before).getLast? = some w →
          (handed { instrumentPrefix } s').added key = ((latest w.2 : ℚ) : WithBot ℚ)) ↔
      ([] :: (shownWindows cfg key ops).map Prod.snd).IsChain Rises := by
  have hkind : kindOf key.name = .upDownCounter := by
    rw [hkey]
    decide
  have hadded : ∀ before s', before <+: ops →
      Lib.exec (State.step cfg) anyStep (entered cfg enteredAt) before = some s' →
        (handed { instrumentPrefix } s').added key = ((latest [] : ℚ) : WithBot ℚ) +
          (((shownWindows cfg key before).map Prod.snd).map fun window =>
            (window.map Prod.snd).maximum).sum := by
    intro before s' hbefore hrun'
    rw [gauge_added hlevel hrun' (hordered.sublist (hbefore.filterMap _).sublist) _ hkind,
      List.map_map]
    exact (zero_add _).symm
  rw [← running_iff]
  constructor
  · intro h windows hwindows window hlast
    obtain ⟨shown, hshown, rfl⟩ := List.prefix_map_iff.mp hwindows
    obtain ⟨events, hevents, rfl⟩ := exists_of_isPrefix_shownIn hshown
    obtain ⟨before, hbefore, rfl⟩ := List.prefix_filterMap_iff.mp hevents
    obtain ⟨s', hrun'⟩ := exec_of_isPrefix hbefore hrun
    rw [List.getLast?_map, Option.map_eq_some_iff] at hlast
    obtain ⟨w, hw, rfl⟩ := hlast
    exact (hadded before s' hbefore hrun').symm.trans (h before s' w hbefore hrun' hw)
  · intro h before s' w hbefore hrun' hw
    rw [hadded before s' hbefore hrun']
    refine h _ ((shownIn_isPrefix [] (hbefore.filterMap _)).map _) w.2 ?_
    rw [List.getLast?_map]
    exact congrArg (Option.map Prod.snd) hw

/-! ### One sample and two -/

def detailedLevel : Config := { level := .detailed }

def sample (now : Time) (value : ℚ) : Op :=
  .put now now "UserRecordsPending" value none none none

def pendingKey : MetricKey := { name := "UserRecordsPending" }

/-- From nothing pending to the largest sample of the window. -/
theorem gauge_faithful_iff_rising :
    ∃ s, Lib.exec (State.step detailedLevel) anyStep (entered detailedLevel 0)
        [sample 0 0, .flush fun _ => 1, sample 2 3, .flush fun _ => 3] = some s ∧
      (handed {} s).added pendingKey = ((3 : ℚ) : WithBot ℚ) := by
  have hsome : (Lib.exec (State.step detailedLevel) anyStep (entered detailedLevel 0)
      [sample 0 0, .flush fun _ => 1, sample 2 3, .flush fun _ => 3]).isSome = true := by
    decide +kernel
  obtain ⟨s, hrun⟩ := Option.isSome_iff_exists.mp hsome
  have hkey : pendingKey.name = "UserRecordsPending" := rfl
  have hrises : ([] :: (shownWindows detailedLevel pendingKey
      [sample 0 0, .flush fun _ => 1, sample 2 3, .flush fun _ => 3]).map Prod.snd).IsChain
        Rises := by
    decide +kernel
  have hlast : (shownWindows detailedLevel pendingKey
      [sample 0 0, .flush fun _ => 1, sample 2 3, .flush fun _ => 3]).getLast? =
        some (-56, [(0, 0), (2, 3)]) := by
    decide +kernel
  have hfaithful := (gauge_faithful_iff (by decide) hrun hkey (by decide +kernel) "aiokpl.").mpr
    hrises
  exact ⟨s, hrun, hfaithful _ s _ (List.prefix_refl _) hrun hlast⟩

/-- The one sample is added by each of the two exports. -/
theorem gauge_counts_twice :
    ∃ s, Lib.exec (State.step detailedLevel) anyStep (entered detailedLevel 0)
        [sample 0 5, .flush fun _ => 1, .flush fun _ => 2] = some s ∧
      ([sample 0 5, .flush fun _ => 1, .flush fun _ => 2].filterMap
        (Op.reading detailedLevel pendingKey)).Pairwise (· ≤ ·) ∧
      (shownWindows detailedLevel pendingKey
        [sample 0 5, .flush fun _ => 1, .flush fun _ => 2]).getLast? = some (-57, [(0, 5)]) ∧
      (handed {} s).added pendingKey = ((10 : ℚ) : WithBot ℚ) ∧
      (handed {} s).added pendingKey ≠ ((latest [(0, 5)] : ℚ) : WithBot ℚ) := by
  have hadded : (Lib.exec (State.step detailedLevel) anyStep (entered detailedLevel 0)
      [sample 0 5, .flush fun _ => 1, .flush fun _ => 2]).map
        (fun s => (handed {} s).added pendingKey) = some ((10 : ℚ) : WithBot ℚ) := by
    decide +kernel
  obtain ⟨s, hrun, hten⟩ := Option.map_eq_some_iff.mp hadded
  refine ⟨s, hrun, by decide +kernel, by decide +kernel, hten, ?_⟩
  rw [hten]
  decide +kernel

end OpenTelemetry

end Aiokpl
