import Aiokpl.OpenTelemetry

/-!
# What the instruments add up to

A counter is added the change of a sum that also falls when observations leave the
window, and a gauge a whole observation at every export.  Each export that a metric is
in either settles its account or leaves it wrong; which of the two depends only on the
window that it shows and on the window that was shown before.
-/

namespace Aiokpl

open Lib RollingWindow Metrics

namespace OpenTelemetry

open OpenTelemetrySink

/-! ## All exports -/

/-- What the exports of a manager leave of a sink. -/
def handed (sink : OpenTelemetrySink) (s : State) : OpenTelemetrySink :=
  s.exports.foldl exportSnapshots sink

theorem handed_eq (sink : OpenTelemetrySink) (s : State) :
    handed sink s = sink.exportSnapshots s.exports.flatten :=
  List.foldl_flatten.symm

/-- What a counter is added for a list of sums. -/
def deltas (prev : ℚ) : List ℚ → ℚ
  | [] => 0
  | sum :: rest => delta prev sum + deltas sum rest

theorem counter_export {key : MetricKey} (hkey : kindOf key.name = .counter)
    {snaps : List MetricSnapshot} (hmade : ∀ m ∈ snaps, Made m) {sink : OpenTelemetrySink}
    (hvalid : sink.Valid) :
    (sink.exportSnapshots snaps).added key = sink.added key +
      ((deltas (sink.lastSum key) ((showing key snaps).map Bucket.sum) : ℚ) : WithBot ℚ) := by
  induction snaps generalizing sink with
  | nil => exact (add_zero _).symm
  | cons m rest ih =>
    obtain ⟨key', bounds, st, rfl⟩ := hmade m List.mem_cons_self
    have hrest := ih (fun m hm => hmade m (List.mem_cons_of_mem _ hm))
      (exportOne_valid hvalid (key'.snapshot bounds st))
    obtain ⟨hadded, hlast⟩ := exportOne_counter hvalid key key' bounds st hkey
    rw [exportSnapshots, List.foldl_cons, ← exportSnapshots, hrest, hadded, hlast,
      showing_cons_snapshot]
    by_cases hsame : key' = key
    · subst hsame
      simp only [↓reduceIte, List.map_cons, deltas, WithBot.coe_add, add_assoc]
    · simp only [if_neg hsame, add_zero]

theorem gauge_export {key : MetricKey} (hkey : kindOf key.name = .upDownCounter)
    {snaps : List MetricSnapshot} (hmade : ∀ m ∈ snaps, Made m) {sink : OpenTelemetrySink}
    (hvalid : sink.Valid) :
    (sink.exportSnapshots snaps).added key =
      sink.added key + ((showing key snaps).map Bucket.max).sum := by
  induction snaps generalizing sink with
  | nil => exact (add_zero _).symm
  | cons m rest ih =>
    obtain ⟨key', bounds, st, rfl⟩ := hmade m List.mem_cons_self
    have hrest := ih (fun m hm => hmade m (List.mem_cons_of_mem _ hm))
      (exportOne_valid hvalid (key'.snapshot bounds st))
    have hadded := exportOne_gauge hvalid key key' bounds st hkey
    rw [exportSnapshots, List.foldl_cons, ← exportSnapshots, hrest, hadded,
      showing_cons_snapshot]
    by_cases hsame : key' = key
    · simp only [if_pos hsame, List.map_cons, List.sum_cons, add_assoc]
    · simp only [if_neg hsame, add_zero]

/-! ## Runs -/

theorem forall_isPrefix_cons {α : Type} {a : α} {l : List α} {p : List α → Prop} (hnil : p []) :
    (∀ before, before <+: a :: l → p before) ↔ ∀ before, before <+: l → p (a :: before) := by
  constructor
  · intro h before hbefore
    exact h (a :: before) (List.cons_prefix_cons.mpr ⟨rfl, hbefore⟩)
  · intro h before hbefore
    rcases List.prefix_cons_iff.mp hbefore with rfl | ⟨before', rfl, hbefore'⟩
    · exact hnil
    · exact h before' hbefore'

/-- What the exports of a run show of a metric: its windows with an observation. -/
def shownWindows (cfg : Config) (key : MetricKey) (ops : List Op) :
    List (Int × List (Int × ℚ)) :=
  shownIn [] (ops.filterMap (Op.event cfg key))

section Runs

variable {cfg : Config} (hlevel : cfg.level ≠ .none) {enteredAt : Time} {s : State} {ops : List Op}
  (hrun : Lib.exec (State.step cfg) anyStep (entered cfg enteredAt) ops = some s)
  {key : MetricKey} (hordered : (ops.filterMap (Op.reading cfg key)).Pairwise (· ≤ ·))
  (instrumentPrefix : String)

include hlevel hrun hordered

theorem showing_exports :
    showing key s.exports.flatten = (shownWindows cfg key ops).map fun w =>
      { count := w.2.length, sum := total id w.2
        min := (w.2.map Prod.snd).minimum, max := (w.2.map Prod.snd).maximum } := by
  have hreadings : (ops.filterMap (Op.reading cfg key) ++ []).Pairwise (· ≤ ·) := by
    rwa [List.append_nil]
  exact (run_mirrored hlevel hrun hreadings).2.trans (showings_eq _ _)

theorem counter_added (hkey : kindOf key.name = .counter) :
    (handed { instrumentPrefix } s).added key =
      ((deltas 0 ((shownWindows cfg key ops).map fun w => total id w.2) : ℚ) : WithBot ℚ) := by
  rw [handed_eq, counter_export hkey (exports_made hrun) (valid_new _),
    showing_exports hlevel hrun hordered, List.map_map]
  exact zero_add _

theorem gauge_added (hkey : kindOf key.name = .upDownCounter) :
    (handed { instrumentPrefix } s).added key =
      ((shownWindows cfg key ops).map fun w => (w.2.map Prod.snd).maximum).sum := by
  rw [handed_eq, gauge_export hkey (exports_made hrun) (valid_new _),
    showing_exports hlevel hrun hordered, List.map_map]
  exact zero_add _

end Runs

end OpenTelemetry

end Aiokpl
