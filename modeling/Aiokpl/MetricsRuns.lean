import Aiokpl.MetricsWindows

/-!
# Runs of a manager, one metric at a time

An operation does at most two things to a metric: it puts an observation into its
window, or it moves the window and shows what is in it.  So over a run the buckets of
each metric are those of the observations put for it, and what the sink is handed of it
are the figures of its window at each flush, where there are any.
-/

namespace Aiokpl

open Lib RollingWindow

namespace Metrics

/-! ## Keys and snapshots -/

theorem dimensions_injective {key key' : MetricKey} (hname : key.name = key'.name)
    (h : key.dimensions = key'.dimensions) : key = key' := by
  have hlookup : ∀ key : MetricKey, key.dimensions.lookup "stream" = key.stream ∧
      key.dimensions.lookup "shard" = key.shardId ∧
      key.dimensions.lookup "error_code" = key.errorCode := by
    rintro ⟨name, stream, shardId, errorCode⟩
    cases stream <;> cases shardId <;> cases errorCode <;>
      simp [MetricKey.dimensions, List.lookup_cons]
  obtain ⟨hstream, hshard, herror⟩ := hlookup key
  obtain ⟨hstream', hshard', herror'⟩ := hlookup key'
  rw [h] at hstream hshard herror
  cases key
  cases key'
  simp only [MetricKey.mk.injEq]
  exact ⟨hname, hstream.symm.trans hstream', hshard.symm.trans hshard', herror.symm.trans herror'⟩

/-- The snapshot is of this metric. -/
def MetricSnapshot.isOf (key : MetricKey) (m : MetricSnapshot) : Bool :=
  m.name = key.name ∧ m.dimensions = key.dimensions

/-- A snapshot is of the metric it was made for, and of no other. -/
theorem isOf_snapshot (key key' : MetricKey) (bounds : Time × Time) (st : Bucket) :
    (key'.snapshot bounds st).isOf key = true ↔ key' = key := by
  rw [MetricSnapshot.isOf, decide_eq_true_eq]
  constructor
  · rintro ⟨hname, hdims⟩
    exact dimensions_injective hname hdims
  · rintro rfl
    exact ⟨rfl, rfl⟩

/-- The `(count, sum, min, max)` of a snapshot. -/
def MetricSnapshot.stats (m : MetricSnapshot) : Bucket :=
  { count := m.count, sum := m.sum, min := m.min, max := m.max }

/-- What snapshots show of a metric. -/
def showing (key : MetricKey) (snaps : List MetricSnapshot) : List Bucket :=
  (snaps.filter (MetricSnapshot.isOf key)).map MetricSnapshot.stats

/-- What the sink has been shown of a metric. -/
def State.showed (key : MetricKey) (s : State) : List Bucket := showing key s.exports.flatten

theorem showing_append (key : MetricKey) (snaps snaps' : List MetricSnapshot) :
    showing key (snaps ++ snaps') = showing key snaps ++ showing key snaps' := by
  simp [showing]

theorem showing_cons_snapshot (key key' : MetricKey) (bounds : Time × Time) (st : Bucket)
    (snaps : List MetricSnapshot) :
    showing key (key'.snapshot bounds st :: snaps) =
      if key' = key then st :: showing key snaps else showing key snaps := by
  by_cases hkey : key' = key
  · have hown := (isOf_snapshot key key' bounds st).mpr hkey
    rw [if_pos hkey, showing, List.filter_cons_of_pos hown]
    rfl
  · have hother : ¬(key'.snapshot bounds st).isOf key = true :=
      fun h => hkey ((isOf_snapshot ..).mp h)
    rw [if_neg hkey, showing, List.filter_cons_of_neg hother]
    rfl

theorem showing_snapshotOf (key key' : MetricKey) (acc : Accumulator) :
    showing key (snapshotOf key' acc).toList = if key' = key then acc.stats.toList else [] := by
  cases hstats : acc.stats with
  | none => simp [snapshotOf, hstats, showing]
  | some st =>
    rw [snapshotOf, hstats, Option.map_some, Option.toList_some, showing_cons_snapshot]
    rfl

/-- What the snapshots of a registry show of a metric. -/
theorem showing_snapshots (key : MetricKey) (registry : Dict MetricKey Accumulator) :
    showing key (snapshots registry) = ((registry.get? key).getD {}).stats.toList := by
  have hentries : ∀ entries : List (MetricKey × Accumulator),
      showing key (entries.filterMap fun e => snapshotOf e.1 e.2) =
        (entries.filter fun e => e.1 = key).flatMap fun e => e.2.stats.toList := by
    intro entries
    induction entries with
    | nil => rfl
    | cons e rest ih =>
      have hcons : (e :: rest).filterMap (fun e => snapshotOf e.1 e.2) =
          (snapshotOf e.1 e.2).toList ++ rest.filterMap fun e => snapshotOf e.1 e.2 := by
        cases hsnap : snapshotOf e.1 e.2 <;> simp [hsnap]
      rw [hcons, showing_append, showing_snapshotOf, ih]
      by_cases hkey : e.1 = key <;> simp [hkey]
  rw [snapshots, hentries, Dict.filter_key]
  cases registry.get? key with
  | none => rfl
  | some acc => simp

/-! ## What an operation does to a metric -/

/-- The clock reading on this metric, if the operation reads it. -/
def Op.reading (cfg : Config) (key : MetricKey) : Op → Option Time
  | .put now _ name _ stream shardId errorCode =>
    if cfg.keyOf name stream shardId errorCode = key then some now else none
  | .snapshots clock => some (clock key)
  | .flush clock => some (clock key)
  | .wake _ clock => some (clock key)
  | .exit clock => some (clock key)
  | _ => none

/-- What the operation does to the window of this metric, if anything that shows. -/
def Op.event (cfg : Config) (key : MetricKey) : Op → Option (Event Int ℚ)
  | .put now _ name value stream shardId errorCode =>
    if cfg.keyOf name stream shardId errorCode = key then some (.observed (toSeconds now) value)
    else none
  | .flush clock => some (.read (cutoff (toSeconds (clock key))))
  | .wake _ clock => some (.read (cutoff (toSeconds (clock key))))
  | .exit clock => some (.read (cutoff (toSeconds (clock key))))
  | _ => none

/-- What the events show of a metric, after the observations of the log. -/
def showings (log : List (Int × ℚ)) (events : List (Event Int ℚ)) : List Bucket :=
  (windows log events).filterMap fun w => figuresOver (w.2.map Prod.snd)

theorem showings_read (log : List (Int × ℚ)) (cutoff : Int) :
    showings log [.read cutoff] = (figuresOver ((since cutoff log).map Prod.snd)).toList := by
  rw [showings, windows, windows, List.filterMap_cons]
  cases figuresOver ((since cutoff log).map Prod.snd) <;> rfl

/-- The buckets of the metric are those of the log at each time still to come. -/
def State.Mirrored (s : State) (key : MetricKey) (log : List (Int × ℚ)) (future : List Time) :
    Prop :=
  ∀ t ∈ future, ((s.registry.get? key).getD {}).Mirrors log t

theorem getD_evictAll (clock : MetricKey → Time) (registry : Dict MetricKey Accumulator)
    (key : MetricKey) :
    ((evictAll clock registry).get? key).getD {} =
      ((registry.get? key).getD {}).evict (toSeconds (clock key)) := by
  rw [evictAll, Dict.get?_mapValues]
  cases registry.get? key <;> rfl

/-- Moving the windows keeps the agreement. -/
theorem mirrored_evictAll {s : State} {key : MetricKey} {log : List (Int × ℚ)}
    {future : List Time} {clock : MetricKey → Time}
    (h : s.Mirrored key log (clock key :: future)) (hordered : ∀ t ∈ future, clock key ≤ t) :
    State.Mirrored { s with registry := evictAll clock s.registry } key log future ∧
      showing key (snapshots (evictAll clock s.registry)) =
        showings log [.read (cutoff (toSeconds (clock key)))] := by
  have hnow := h (clock key) List.mem_cons_self
  constructor
  · intro t ht
    rw [getD_evictAll]
    exact hnow.evict.later (hordered t ht)
  · rw [showing_snapshots, getD_evictAll, hnow.stats_evict, shownAt, showings_read]

theorem flush_mirrored {cfg : Config} (hlevel : cfg.level ≠ .none) {s : State} {key : MetricKey}
    {log : List (Int × ℚ)} {future : List Time} {clock : MetricKey → Time}
    (h : s.Mirrored key log (clock key :: future)) (hordered : ∀ t ∈ future, clock key ≤ t)
    (loop : Loop) (phase : Phase) :
    State.Mirrored { flush cfg clock s with loop, phase } key log future ∧
      State.showed key { flush cfg clock s with loop, phase } = s.showed key ++
        showings log [.read (cutoff (toSeconds (clock key)))] := by
  obtain ⟨hmirrored, hshowing⟩ := mirrored_evictAll h hordered
  rw [flush, if_neg hlevel]
  refine ⟨hmirrored, ?_⟩
  rw [← hshowing]
  by_cases hempty : snapshots (evictAll clock s.registry) = []
  · simp [State.showed, hempty, showing]
  · simp [State.showed, hempty, showing_append]

theorem put_mirrored {cfg : Config} {s : State} {key : MetricKey} {log : List (Int × ℚ)}
    {future : List Time} {now : Time} (h : s.Mirrored key log (now :: future))
    (hordered : ∀ t ∈ future, now ≤ t) (stamp : Time) (value : ℚ) :
    (put cfg now stamp key value s).Mirrored key (log ++ [(toSeconds now, value)]) future := by
  intro t ht
  rw [put, Dict.get?_set_self, Option.getD_some]
  exact ((h now List.mem_cons_self).put value).later (hordered t ht)

/-- What one step does: it puts an observation, moves the windows, flushes, or touches
    neither the registry nor the exports. -/
inductive Turn (cfg : Config) (s : State) (op : Op) : State → Prop
  | puts {now stamp name value stream shardId errorCode} : cfg.level ≠ .none →
      op = .put now stamp name value stream shardId errorCode →
      Turn cfg s op (put cfg now stamp (cfg.keyOf name stream shardId errorCode) value s)
  | inspects {clock : MetricKey → Time} : op = .snapshots clock →
      Turn cfg s op { s with registry := evictAll clock s.registry }
  | flushes {clock : MetricKey → Time} (loop : Loop) (phase : Phase) :
      (∀ key, op.reading cfg key = some (clock key)) →
      (∀ key, op.event cfg key = some (.read (cutoff (toSeconds (clock key))))) →
      Turn cfg s op { flush cfg clock s with loop, phase }
  | idles (loop : Loop) (phase : Phase) :
      (cfg.level ≠ .none → ∀ key, op.reading cfg key = none ∧ op.event cfg key = none) →
      Turn cfg s op { s with loop, phase }

theorem step_turn {cfg : Config} {s s' : State} {op : Op} (hstep : s.step cfg op = some s') :
    Turn cfg s op s' := by
  cases op with
  | put now stamp name value stream shardId errorCode =>
    simp only [State.step] at hstep
    split at hstep
    · rename_i hnone
      rw [← Option.some.inj hstep]
      exact .idles s.loop s.phase fun hlevel => absurd hnone hlevel
    · rename_i hlevel
      rw [← Option.some.inj hstep]
      exact .puts hlevel rfl
  | snapshots clock =>
    rw [← Option.some.inj hstep]
    exact .inspects rfl
  | flush clock =>
    rw [← Option.some.inj hstep]
    exact .flushes (flush cfg clock s).loop (flush cfg clock s).phase (fun _ => rfl) fun _ => rfl
  | wake now clock =>
    simp only [State.step] at hstep
    split at hstep
    · rw [Option.ite_none_right_eq_some, Option.some.injEq] at hstep
      rw [← hstep.2]
      exact .flushes .exporting (flush cfg clock s).phase (fun _ => rfl) fun _ => rfl
    · cases hstep
  | exit clock =>
    simp only [State.step] at hstep
    split at hstep
    · rw [← Option.some.inj hstep]
      exact .flushes (flush cfg clock s).loop .exiting (fun _ => rfl) fun _ => rfl
    · cases hstep
  | asleep now | exportRaises | exited =>
    simp only [State.step] at hstep
    split at hstep
    · rw [← Option.some.inj hstep]
      exact .idles _ _ fun _ _ => ⟨rfl, rfl⟩
    · cases hstep

/-- What an operation adds to the log of a metric, and what it shows of it. -/
theorem step_mirrored {cfg : Config} (hlevel : cfg.level ≠ .none) {s s' : State} {op : Op}
    (hstep : s.step cfg op = some s') {key : MetricKey} {log : List (Int × ℚ)} {future : List Time}
    (h : s.Mirrored key log ((op.reading cfg key).toList ++ future))
    (hordered : ∀ now ∈ op.reading cfg key, ∀ t ∈ future, now ≤ t) :
    s'.Mirrored key (log ++ (op.event cfg key).toList.flatMap Event.logged) future ∧
      s'.showed key = s.showed key ++ showings log (op.event cfg key).toList := by
  cases step_turn hstep with
  | @puts now stamp name value stream shardId errorCode _ hop =>
    subst hop
    by_cases hkey : cfg.keyOf name stream shardId errorCode = key
    · simp only [Op.reading, Op.event, if_pos hkey, Option.toList_some, List.singleton_append,
        Option.mem_some_iff, forall_eq'] at h hordered ⊢
      rw [hkey]
      constructor
      · exact put_mirrored h hordered stamp value
      · simp [showings, windows, put, State.showed]
    · simp only [Op.reading, Op.event, if_neg hkey, Option.toList_none, List.nil_append] at h ⊢
      have hother : (put cfg now stamp (cfg.keyOf name stream shardId errorCode) value
          s).registry.get? key = s.registry.get? key :=
        Dict.get?_set_ne _ _ (Ne.symm hkey)
      constructor
      · rw [List.flatMap_nil, List.append_nil, State.Mirrored, hother]
        exact h
      · simp [showings, windows, put, State.showed]
  | @inspects clock hop =>
    subst hop
    have hmirrored := (mirrored_evictAll h (hordered (clock key) rfl)).1
    simp only [Op.event, Option.toList_none, List.flatMap_nil, List.append_nil, showings, windows,
      List.filterMap_nil]
    exact ⟨hmirrored, rfl⟩
  | @flushes clock loop phase hreading hevent =>
    rw [hreading] at h hordered
    rw [hevent, Option.toList_some, List.flatMap_singleton, Event.logged, List.append_nil]
    exact flush_mirrored hlevel h (hordered (clock key) rfl) loop phase
  | idles loop phase hquiet =>
    obtain ⟨hreading, hevent⟩ := hquiet hlevel key
    rw [hreading] at h
    rw [hevent, Option.toList_none, List.flatMap_nil, List.append_nil, showings, windows,
      List.filterMap_nil, List.append_nil]
    exact ⟨h, rfl⟩

/-! ## Whole runs -/

/-- The observations put for this metric, with their seconds. -/
def logged (cfg : Config) (key : MetricKey) (ops : List Op) : List (Int × ℚ) :=
  (ops.filterMap (Op.event cfg key)).flatMap Event.logged

theorem showings_append (log : List (Int × ℚ)) (events events' : List (Event Int ℚ)) :
    showings log (events ++ events') =
      showings log events ++ showings (log ++ events.flatMap Event.logged) events' := by
  rw [showings, windows_append, List.filterMap_append]
  rfl

/-- **What a run makes of a metric** whose clock readings do not decrease: the buckets are
    those of its log, and the sink has been shown its windows. -/
theorem exec_mirrored {cfg : Config} (hlevel : cfg.level ≠ .none) {key : MetricKey} {s s' : State}
    {ops : List Op} {log : List (Int × ℚ)} {future : List Time}
    (hrun : Lib.exec (State.step cfg) anyStep s ops = some s')
    (h : s.Mirrored key log (ops.filterMap (Op.reading cfg key) ++ future))
    (hordered : (ops.filterMap (Op.reading cfg key) ++ future).Pairwise (· ≤ ·)) :
    s'.Mirrored key (log ++ logged cfg key ops) future ∧
      s'.showed key = s.showed key ++ showings log (ops.filterMap (Op.event cfg key)) := by
  induction ops generalizing s log with
  | nil =>
    rw [← Option.some.inj hrun]
    simp only [logged, List.filterMap_nil, List.flatMap_nil, List.append_nil, List.nil_append,
      showings, windows] at h ⊢
    exact ⟨h, trivial⟩
  | cons op rest ih =>
    have hreadings : (op :: rest).filterMap (Op.reading cfg key) =
        (op.reading cfg key).toList ++ rest.filterMap (Op.reading cfg key) := by
      cases hreading : op.reading cfg key <;> simp [hreading]
    have hevents : (op :: rest).filterMap (Op.event cfg key) =
        (op.event cfg key).toList ++ rest.filterMap (Op.event cfg key) := by
      cases hevent : op.event cfg key <;> simp [hevent]
    have hany : anyStep s op := trivial
    rw [Lib.exec, if_pos hany, Option.bind_eq_some_iff] at hrun
    obtain ⟨mid, hstep, hrest⟩ := hrun
    rw [hreadings, List.append_assoc] at h hordered
    rw [List.pairwise_append] at hordered
    obtain ⟨_, hlater, hboth⟩ := hordered
    obtain ⟨hmid, hshowed⟩ := step_mirrored hlevel hstep h fun now hnow t ht =>
      hboth now (Option.mem_toList.mpr hnow) t ht
    obtain ⟨hlast, hall⟩ := ih hrest hmid hlater
    rw [logged, hevents, List.flatMap_append, ← List.append_assoc, showings_append,
      ← List.append_assoc, ← hshowed]
    exact ⟨hlast, hall⟩

theorem entered_mirrored {cfg : Config} {enteredAt : Time} {key : MetricKey} (future : List Time) :
    (entered cfg enteredAt).Mirrored key [] future :=
  fun t _ => mirrors_empty t

/-- The runs of a manager that has just been entered. -/
theorem run_mirrored {cfg : Config} (hlevel : cfg.level ≠ .none) {enteredAt : Time} {s : State}
    {ops : List Op} (hrun : Lib.exec (State.step cfg) anyStep (entered cfg enteredAt) ops = some s)
    {key : MetricKey} {future : List Time}
    (hordered : (ops.filterMap (Op.reading cfg key) ++ future).Pairwise (· ≤ ·)) :
    s.Mirrored key (logged cfg key ops) future ∧
      s.showed key = showings [] (ops.filterMap (Op.event cfg key)) :=
  exec_mirrored hlevel hrun (entered_mirrored _) hordered

/-! ## What the exports are made of -/

/-- A snapshot of some metric. -/
def Made (m : MetricSnapshot) : Prop :=
  ∃ (key : MetricKey) (bounds : Time × Time) (st : Bucket), m = key.snapshot bounds st

theorem made_of_mem_snapshots {registry : Dict MetricKey Accumulator} {m : MetricSnapshot}
    (h : m ∈ snapshots registry) : Made m := by
  obtain ⟨e, _, hsnap⟩ := List.mem_filterMap.mp h
  obtain ⟨st, _, rfl⟩ := Option.map_eq_some_iff.mp hsnap
  exact ⟨e.1, e.2.windowBounds, st, rfl⟩

theorem flush_exports {cfg : Config} {clock : MetricKey → Time} {s : State}
    {snaps : List MetricSnapshot} (h : snaps ∈ (flush cfg clock s).exports) :
    snaps ∈ s.exports ∨ ∃ registry, snaps = snapshots registry := by
  unfold flush at h
  split at h
  · exact .inl h
  · dsimp only at h
    split at h
    · exact .inl h
    · rcases List.mem_append.mp h with h | h
      · exact .inl h
      · exact .inr ⟨_, List.mem_singleton.mp h⟩

/-- What a step exports are the snapshots of a registry. -/
theorem step_exports {cfg : Config} {s s' : State} {op : Op} (hstep : s.step cfg op = some s')
    {snaps : List MetricSnapshot} (h : snaps ∈ s'.exports) :
    snaps ∈ s.exports ∨ ∃ registry, snaps = snapshots registry := by
  cases step_turn hstep with
  | puts | inspects | idles => exact .inl h
  | flushes => exact flush_exports h

/-- Every snapshot handed over in a run is one of a metric. -/
theorem exports_made {cfg : Config} {enteredAt : Time} {s : State} {ops : List Op}
    (hrun : Lib.exec (State.step cfg) anyStep (entered cfg enteredAt) ops = some s) :
    ∀ m ∈ s.exports.flatten, Made m := by
  have hreach : Reachable (Eq (entered cfg enteredAt)) (State.step cfg) anyStep s :=
    (Reachable.start rfl).exec hrun
  apply hreach.invariant
  · rintro _ rfl m hm
    cases hm
  · intro s op s' hinv _ hstep m hm
    obtain ⟨snaps, hsnaps, hm⟩ := List.mem_flatten.mp hm
    rcases step_exports hstep hsnaps with hold | ⟨registry, rfl⟩
    · exact hinv m (List.mem_flatten_of_mem hold hm)
    · exact made_of_mem_snapshots hm

/-! ## The windows that are shown -/

/-- The windows of a metric that the flushes of a run show, with their cutoffs: those
    with an observation. -/
def shownIn (log : List (Int × ℚ)) (events : List (Event Int ℚ)) : List (Int × List (Int × ℚ)) :=
  (windows log events).filter fun w => w.2 ≠ []

theorem shownIn_read (log : List (Int × ℚ)) (cutoff : Int) (rest : List (Event Int ℚ)) :
    shownIn log (.read cutoff :: rest) =
      if since cutoff log = [] then shownIn log rest
      else (cutoff, since cutoff log) :: shownIn log rest := by
  by_cases hempty : since cutoff log = [] <;> simp [shownIn, windows, hempty]

theorem shownIn_isPrefix (log : List (Int × ℚ)) {before events : List (Event Int ℚ)}
    (h : before <+: events) : shownIn log before <+: shownIn log events := by
  obtain ⟨rest, rfl⟩ := h
  rw [shownIn, shownIn, windows_append, List.filter_append]
  exact List.prefix_append _ _

/-- A run can be stopped after any of the windows that it shows. -/
theorem exists_of_isPrefix_shownIn {events : List (Event Int ℚ)} {log : List (Int × ℚ)}
    {shown : List (Int × List (Int × ℚ))} (h : shown <+: shownIn log events) :
    ∃ before, before <+: events ∧ shownIn log before = shown := by
  induction events generalizing log shown with
  | nil => exact ⟨[], List.prefix_refl _, (List.prefix_nil.mp h).symm⟩
  | cons event rest ih =>
    cases event with
    | observed stamp value =>
      obtain ⟨before, hbefore, hshown⟩ := @ih (log ++ [(stamp, value)]) shown h
      exact ⟨.observed stamp value :: before, List.cons_prefix_cons.mpr ⟨rfl, hbefore⟩, hshown⟩
    | read cutoff =>
      rw [shownIn_read] at h
      split at h
      · rename_i hempty
        obtain ⟨before, hbefore, hshown⟩ := ih h
        refine ⟨.read cutoff :: before, List.cons_prefix_cons.mpr ⟨rfl, hbefore⟩, ?_⟩
        rw [shownIn_read, if_pos hempty, hshown]
      · rename_i hne
        rcases List.prefix_cons_iff.mp h with rfl | ⟨shown', rfl, h'⟩
        · exact ⟨[], List.nil_prefix, rfl⟩
        · obtain ⟨before, hbefore, hshown⟩ := ih h'
          refine ⟨.read cutoff :: before, List.cons_prefix_cons.mpr ⟨rfl, hbefore⟩, ?_⟩
          rw [shownIn_read, if_neg hne, hshown]

theorem showings_eq (log : List (Int × ℚ)) (events : List (Event Int ℚ)) :
    showings log events = (shownIn log events).map fun w =>
      { count := w.2.length, sum := total id w.2
        min := (w.2.map Prod.snd).minimum, max := (w.2.map Prod.snd).maximum } := by
  rw [showings, shownIn]
  induction windows log events with
  | nil => rfl
  | cons w rest ih =>
    by_cases hempty : w.2 = []
    · have hnone : figuresOver (w.2.map Prod.snd) = none := by
        rw [hempty]
        rfl
      simp only [List.filterMap_cons, hnone, ih]
      rw [List.filter_cons_of_neg (by simp [hempty])]
    · have hsome : figuresOver (w.2.map Prod.snd) = some
          { count := w.2.length, sum := total id w.2
            min := (w.2.map Prod.snd).minimum, max := (w.2.map Prod.snd).maximum } := by
        rw [figuresOver, if_neg (by simpa using hempty), List.length_map]
        rfl
      simp only [List.filterMap_cons, hsome, ih]
      rw [List.filter_cons_of_pos (by simpa using hempty), List.map_cons]

end Metrics

end Aiokpl
