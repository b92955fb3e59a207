import Aiokpl.MetricsExports

/-!
# Snapshots are made of observations

The window of a metric drops buckets at its front only, and fills them in the order of
the observations.  So whatever a clock shows, and even if it is set back, a snapshot has
the figures of the last few observations put for its metric before the flush that hands
it over, and of one at least.  The figures are exact: values are rationals.
-/

namespace Aiokpl

open Lib RollingWindow

namespace Metrics

/-! ## Buckets of observations -/

theorem fill_eq (values : List ℚ) : fill {} Bucket.add values = (values.map Bucket.of).sum := by
  induction values using List.reverseRecOn with
  | nil => rfl
  | append_singleton values value ih =>
    have hlast : fill {} Bucket.add (values ++ [value]) =
        Bucket.add value (fill {} Bucket.add values) := List.foldl_append
    rw [hlast, ih, Bucket.add_eq, List.map_append, List.sum_append, List.map_singleton,
      List.sum_singleton]

/-- What `stats` returns of buckets that hold the last few of these values. -/
theorem stats_of_holds {window : Int} {acc : Accumulator window} {values : List ℚ}
    (h : Holds {} Bucket.add values acc.buckets) {st : Bucket} (hstats : acc.stats = some st) :
    ∃ recent, recent <:+ values ∧ figuresOver recent = some st := by
  obtain ⟨groups, hne, hsuffix, hbuckets⟩ := h
  rw [stats_eq, Option.ite_none_left_eq_some, Option.some.injEq] at hstats
  obtain ⟨hsome, hst⟩ := hstats
  refine ⟨groups.flatten, hsuffix, figuresOver_eq_some_iff.mpr ⟨?_, ?_⟩⟩
  · obtain ⟨group, rest, hgroups⟩ : ∃ group rest, groups = group :: rest := by
      apply List.exists_cons_of_ne_nil
      rintro rfl
      exact hsome (List.map_eq_nil_iff.mp hbuckets)
    intro hnil
    rw [List.flatten_eq_nil_iff] at hnil
    have hmem : group ∈ groups := hgroups ▸ List.mem_cons_self
    exact hne group hmem (hnil group hmem)
  · have hsum : ∀ groups : List (List ℚ), (groups.map (fill {} Bucket.add)).sum =
        (groups.flatten.map Bucket.of).sum := by
      intro groups
      induction groups with
      | nil => rfl
      | cons group rest ih =>
        rw [List.map_cons, List.sum_cons, ih, fill_eq, List.flatten_cons, List.map_append,
          List.sum_append]
    rw [← hst, total, ← hsum, ← hbuckets]
    rfl

/-! ## One step -/

/-- The window of the metric holds the last few of these values. -/
def State.Recent (s : State) (key : MetricKey) (values : List ℚ) : Prop :=
  Holds {} Bucket.add values ((s.registry.get? key).getD {}).buckets

/-- The snapshots are of the last few of the values that were put for their metrics. -/
def RecentOnly (valuesOf : MetricKey → List ℚ) (snaps : List MetricSnapshot) : Prop :=
  ∀ key, ∀ m ∈ snaps, m.isOf key = true →
    ∃ recent, recent <:+ valuesOf key ∧ figuresOver recent = some m.stats

theorem value_eq (cfg : Config) (key : MetricKey) (op : Op) :
    (op.value cfg key).toList = ((op.event cfg key).toList.flatMap Event.logged).map Prod.snd := by
  cases op with
  | put now stamp name value stream shardId errorCode =>
    by_cases hkey : cfg.keyOf name stream shardId errorCode = key <;>
      simp [Op.value, Op.event, hkey, Event.logged]
  | _ => rfl

theorem recent_evictAll {s : State} {key : MetricKey} {values : List ℚ}
    (h : s.Recent key values) (clock : MetricKey → Time) :
    State.Recent { s with registry := evictAll clock s.registry } key values := by
  rw [State.Recent, getD_evictAll]
  exact Holds.evict h _

theorem recentOnly_snapshots {s : State} {valuesOf : MetricKey → List ℚ}
    (h : ∀ key, s.Recent key (valuesOf key)) : RecentOnly valuesOf (snapshots s.registry) := by
  intro key m hm hkey
  have hstats : m.stats ∈ showing key (snapshots s.registry) :=
    List.mem_map_of_mem (List.mem_filter.mpr ⟨hm, hkey⟩)
  rw [showing_snapshots, Option.mem_toList] at hstats
  exact stats_of_holds (h key) hstats

/-- A step adds its observation, and hands over one export at most, which is recent. -/
theorem step_recent {cfg : Config} (hlevel : cfg.level ≠ .none) {s s' : State} {op : Op}
    (hstep : s.step cfg op = some s') {valuesOf : MetricKey → List ℚ}
    (h : ∀ key, s.Recent key (valuesOf key)) :
    (∀ key, s'.Recent key (valuesOf key ++ (op.value cfg key).toList)) ∧
      (s'.exports = s.exports ∨
        ∃ snaps, s'.exports = s.exports ++ [snaps] ∧ RecentOnly valuesOf snaps) := by
  cases step_turn hstep with
  | @puts now stamp name value stream shardId errorCode _ hop =>
    subst hop
    refine ⟨?_, Or.inl rfl⟩
    intro key
    by_cases hkey : cfg.keyOf name stream shardId errorCode = key
    · rw [Op.value, if_pos hkey, Option.toList_some, State.Recent, put, hkey, Dict.get?_set_self,
        Option.getD_some]
      exact Holds.record (Holds.evict (h key) _) _ value
    · rw [Op.value, if_neg hkey, Option.toList_none, List.append_nil, State.Recent, put,
        Dict.get?_set_ne _ _ (Ne.symm hkey)]
      exact h key
  | @inspects clock hop =>
    subst hop
    refine ⟨?_, Or.inl rfl⟩
    intro key
    have hvalue : (Op.snapshots clock).value cfg key = none := rfl
    rw [hvalue, Option.toList_none, List.append_nil]
    exact recent_evictAll (h key) clock
  | @flushes clock loop phase _ hevent =>
    have hevicted : ∀ key, State.Recent { s with registry := evictAll clock s.registry } key
        (valuesOf key) := fun key => recent_evictAll (h key) clock
    constructor
    · intro key
      rw [value_eq, hevent, Option.toList_some, List.flatMap_singleton, Event.logged, List.map_nil,
        List.append_nil, flush, if_neg hlevel]
      exact hevicted key
    · simp only [flush, if_neg hlevel]
      split
      · exact Or.inl rfl
      · exact Or.inr ⟨_, rfl, recentOnly_snapshots hevicted⟩
  | idles loop phase hquiet =>
    refine ⟨?_, Or.inl rfl⟩
    intro key
    rw [value_eq, (hquiet hlevel key).2, Option.toList_none, List.flatMap_nil, List.map_nil,
      List.append_nil]
    exact h key

/-! ## Whole runs -/

/-- The operations of a run before the flush that hands over the export of this number. -/
def UpToExport (cfg : Config) (enteredAt : Time) (ops : List Op) (number : ℕ)
    (snaps : List MetricSnapshot) (before : List Op) : Prop :=
  ∃ flush after s s', ops = before ++ flush :: after ∧
    Lib.exec (State.step cfg) anyStep (entered cfg enteredAt) before = some s ∧
    s.step cfg flush = some s' ∧ s.exports.length = number ∧ s'.exports = s.exports ++ [snaps]

/-- The run goes on. -/
theorem UpToExport.later {cfg : Config} {enteredAt : Time} {ops : List Op} {number : ℕ}
    {snaps : List MetricSnapshot} {before : List Op}
    (h : UpToExport cfg enteredAt ops number snaps before) (op : Op) :
    UpToExport cfg enteredAt (ops ++ [op]) number snaps before := by
  obtain ⟨flush, after, s, s', rfl, hrun, hstep, hnumber, hexports⟩ := h
  refine ⟨flush, after ++ [op], s, s', ?_, hrun, hstep, hnumber, hexports⟩
  rw [List.append_assoc, List.cons_append]

theorem run_recent {cfg : Config} (hlevel : cfg.level ≠ .none) {enteredAt : Time} {s : State}
    {ops : List Op}
    (hrun : Lib.exec (State.step cfg) anyStep (entered cfg enteredAt) ops = some s) :
    (∀ key, s.Recent key (ops.filterMap (Op.value cfg key))) ∧
      ∀ number snaps, s.exports[number]? = some snaps →
        ∃ before, UpToExport cfg enteredAt ops number snaps before ∧
          RecentOnly (fun key => before.filterMap (Op.value cfg key)) snaps := by
  induction ops using List.reverseRecOn generalizing s with
  | nil =>
    rw [← Option.some.inj hrun]
    refine ⟨fun key => Holds.nil _, ?_⟩
    intro number snaps hsnaps
    cases hsnaps
  | append_singleton ops op ih =>
    rw [exec_append, Option.bind_eq_some_iff] at hrun
    obtain ⟨mid, hmid, hlast⟩ := hrun
    have hany : anyStep mid op := trivial
    rw [Lib.exec, if_pos hany, Option.bind_eq_some_iff] at hlast
    obtain ⟨s', hstep, hs'⟩ := hlast
    obtain rfl : s' = s := Option.some.inj hs'
    obtain ⟨hrecent, hexports⟩ := ih hmid
    obtain ⟨hrecent', hexports'⟩ := step_recent hlevel hstep hrecent
    constructor
    · intro key
      have hvalues : (ops ++ [op]).filterMap (Op.value cfg key) =
          ops.filterMap (Op.value cfg key) ++ (op.value cfg key).toList := by
        rw [List.filterMap_append]
        cases hvalue : op.value cfg key <;> simp [hvalue]
      rw [hvalues]
      exact hrecent' key
    · have hold : ∀ number snaps, mid.exports[number]? = some snaps →
          ∃ before, UpToExport cfg enteredAt (ops ++ [op]) number snaps before ∧
            RecentOnly (fun key => before.filterMap (Op.value cfg key)) snaps := by
        intro number snaps hsnaps
        obtain ⟨before, hbefore, honly⟩ := hexports number snaps hsnaps
        exact ⟨before, hbefore.later op, honly⟩
      intro number snaps hsnaps
      rcases hexports' with hsame | ⟨last, hgrown, honly⟩
      · rw [hsame] at hsnaps
        exact hold number snaps hsnaps
      · rw [hgrown] at hsnaps
        rcases Nat.lt_or_ge number mid.exports.length with hlt | hge
        · rw [List.getElem?_append_left hlt] at hsnaps
          exact hold number snaps hsnaps
        · rw [List.getElem?_append_right hge, List.getElem?_singleton] at hsnaps
          split at hsnaps
          · rename_i hzero
            obtain rfl := Option.some.inj hsnaps
            have hnumber : mid.exports.length = number := by omega
            exact ⟨ops, ⟨op, [], mid, s', rfl, hmid, hstep, hnumber, hgrown⟩, honly⟩
          · cases hsnaps

/-- Without a level there are no exports. -/
theorem exports_of_none {cfg : Config} (hlevel : cfg.level = .none) {enteredAt : Time} {s : State}
    {ops : List Op}
    (hrun : Lib.exec (State.step cfg) anyStep (entered cfg enteredAt) ops = some s) :
    s.exports = [] := by
  have hreach : Reachable (Eq (entered cfg enteredAt)) (State.step cfg) anyStep s :=
    (Reachable.start rfl).exec hrun
  apply hreach.invariant
  · rintro _ rfl
    rfl
  · intro s op s' hempty _ hstep
    cases step_turn hstep with
    | puts | inspects | idles => exact hempty
    | @flushes clock =>
      rw [flush, if_pos hlevel]
      exact hempty

/-- Each snapshot of the export has the figures of the last few observations, one at least,
    that the operations before its flush have put for its metric. -/
def Observed (cfg : Config) (enteredAt : Time) (ops : List Op) (number : ℕ)
    (snaps : List MetricSnapshot) : Prop :=
  ∃ before, UpToExport cfg enteredAt ops number snaps before ∧
    ∀ m ∈ snaps, ∃ key recent, m.isOf key = true ∧
      recent <:+ before.filterMap (Op.value cfg key) ∧ figuresOver recent = some m.stats

/-- **What is exported was observed**, whatever the clocks show, and however puts,
    inspections and flushes take turns. -/
theorem exports_were_observed {cfg : Config} {enteredAt : Time} {s : State} {ops : List Op}
    (hrun : Lib.exec (State.step cfg) anyStep (entered cfg enteredAt) ops = some s) :
    ∀ number snaps, s.exports[number]? = some snaps → Observed cfg enteredAt ops number snaps := by
  intro number snaps hsnaps
  by_cases hlevel : cfg.level = .none
  · rw [exports_of_none hlevel hrun] at hsnaps
    cases hsnaps
  · obtain ⟨before, hbefore, honly⟩ := (run_recent hlevel hrun).2 number snaps hsnaps
    refine ⟨before, hbefore, ?_⟩
    intro m hm
    obtain ⟨key, bounds, st, rfl⟩ :=
      exports_made hrun m (List.mem_flatten_of_mem (List.mem_of_getElem? hsnaps) hm)
    have hkey := (isOf_snapshot key key bounds st).mpr rfl
    obtain ⟨recent, hrecent, hfigures⟩ := honly key _ hm hkey
    exact ⟨key, recent, hkey, hrecent, hfigures⟩

/-- An observation at 70, one at 5 when the clock has been set back, a flush at 70 that
    shows both, and an observation that comes too late for it. -/
def setBack : List Op := [onePut 70, onePut 5, .flush fun _ => 70, onePut 71, .flush fun _ => 72]

theorem exports_were_observed_set_back :
    ∃ s first second, Lib.exec (State.step detailed) anyStep (entered detailed 0) setBack = some s ∧
      s.exports = [first, second] ∧ first.map MetricSnapshot.count = [2] ∧
      second.map MetricSnapshot.count = [3] ∧ Observed detailed 0 setBack 0 first ∧
      Observed detailed 0 setBack 1 second := by
  have hsome : (Lib.exec (State.step detailed) anyStep (entered detailed 0) setBack).any
      (fun s => s.exports.map (List.map MetricSnapshot.count) = [[2], [3]]) = true := by
    decide +kernel
  obtain ⟨s, hrun, hcounts⟩ := (Option.any_eq_true _ _).mp hsome
  obtain ⟨first, rest, hexports, hfirst, hrest⟩ :=
    List.map_eq_cons_iff.mp (of_decide_eq_true hcounts)
  obtain ⟨second, rfl, hsecond⟩ := List.map_eq_singleton_iff.mp hrest
  refine ⟨s, first, second, hrun, hexports, hfirst, hsecond, ?_, ?_⟩
  · exact exports_were_observed hrun 0 first (by rw [hexports]; rfl)
  · exact exports_were_observed hrun 1 second (by rw [hexports]; rfl)

end Metrics

end Aiokpl
