import Aiokpl.OpenTelemetryTotals

/-!
# Counters

The sum of a window that no observation has left grows by what has been observed since
it was last shown, and the sum of a window that has lost all it showed is what has been
observed since, which the sink takes for a reset if it is less than before.  In every
other case an export adds too little to the counter, or shows an observation twice.
-/

namespace Aiokpl

open Lib RollingWindow Metrics

namespace OpenTelemetry

open OpenTelemetrySink

/-! ## What should be counted -/

/-- The total of the observations that an export follows. -/
def recorded : List (Event Int ℚ) → ℚ
  | [] => 0
  | .observed _ value :: rest => (if rest.any Event.isRead then value else 0) + recorded rest
  | .read _ :: rest => recorded rest

/-- Every observation that an export follows is still in the window at some export. -/
def Frequent (events : List (Event Int ℚ)) : Prop :=
  ∀ before stamp value after, events = before ++ .observed stamp value :: after →
    after.any Event.isRead → ∃ cutoff, .read cutoff ∈ after ∧ cutoff ≤ stamp

/-- Between these two windows, nothing that adds to the sum has left, or all of it has and
    the sum is now less. -/
def Settled (earlier later : Int × List (Int × ℚ)) : Prop :=
  let kept := total id (since later.1 earlier.2)
  kept = total id earlier.2 ∨ kept = 0 ∧ total id later.2 < total id earlier.2

instance (earlier later : Int × List (Int × ℚ)) : Decidable (Settled earlier later) :=
  inferInstanceAs (Decidable (_ ∨ _))

/-- What has been observed and not been exported yet adds to what will have been. -/
def pending (unseen : List (Int × ℚ)) (events : List (Event Int ℚ)) : ℚ :=
  (if events.any Event.isRead then total id unseen else 0) + recorded events

theorem pending_observed (unseen : List (Int × ℚ)) (stamp : Int) (value : ℚ)
    (rest : List (Event Int ℚ)) :
    pending unseen (.observed stamp value :: rest) = pending (unseen ++ [(stamp, value)]) rest := by
  rw [pending, pending, recorded, total_append]
  by_cases hread : rest.any Event.isRead
  · have htotal : total id [(stamp, value)] = value := by
      simp [total]
    simp [Event.isRead, hread, htotal, add_assoc]
  · simp [Event.isRead, hread]

theorem pending_read (unseen : List (Int × ℚ)) (cutoff : Int) (rest : List (Event Int ℚ)) :
    pending unseen (.read cutoff :: rest) = total id unseen + pending [] rest := by
  simp [pending, recorded, Event.isRead]

theorem frequent_nil : Frequent [] := by
  intro before stamp value after hsplit
  simp at hsplit

theorem Frequent.tail {event : Event Int ℚ} {rest : List (Event Int ℚ)}
    (h : Frequent (event :: rest)) : Frequent rest := by
  intro before stamp value after hsplit
  exact h (event :: before) stamp value after (by rw [hsplit, List.cons_append])

theorem frequent_observed {stamp : Int} {value : ℚ} {rest : List (Event Int ℚ)} :
    Frequent (.observed stamp value :: rest) ↔
      (rest.any Event.isRead → ∃ cutoff, .read cutoff ∈ rest ∧ cutoff ≤ stamp) ∧ Frequent rest := by
  constructor
  · intro h
    exact ⟨h [] stamp value rest rfl, h.tail⟩
  · rintro ⟨hfirst, hrest⟩ before stamp' value' after hsplit
    rcases List.cons_eq_append_iff.mp hsplit with ⟨_, heq⟩ | ⟨before', _, heq⟩
    · cases heq
      exact hfirst
    · exact hrest before' stamp' value' after heq

theorem frequent_read {cutoff : Int} {rest : List (Event Int ℚ)} :
    Frequent (.read cutoff :: rest) ↔ Frequent rest := by
  constructor
  · exact Frequent.tail
  · intro hrest before stamp value after hsplit
    rcases List.cons_eq_append_iff.mp hsplit with ⟨_, heq⟩ | ⟨before', _, heq⟩
    · cases heq
    · exact hrest before' stamp value after heq

/-- What an export adds is what is new exactly if the window is settled. -/
theorem delta_eq_iff {kept prev new : ℚ} (hnew : 0 ≤ new) :
    delta prev (kept + new) = new ↔ kept = prev ∨ kept = 0 ∧ kept + new < prev := by
  unfold delta
  split
  · rename_i hneg
    constructor
    · intro h
      exact .inr ⟨by linarith, by linarith⟩
    · rintro (h | ⟨h, _⟩) <;> linarith
  · rename_i hpos
    constructor
    · intro h
      exact .inl (by linarith)
    · rintro (h | ⟨_, h⟩) <;> linarith

/-! ## One metric -/

/-- The cutoffs of the exports do not decrease. -/
def Ordered (events : List (Event Int ℚ)) : Prop :=
  events.Pairwise fun event event' => ∀ cutoff cutoff', event = .read cutoff →
    event' = .read cutoff' → cutoff ≤ cutoff'

/-- The sums that the exports show, from the log on. -/
def sums (log : List (Int × ℚ)) (events : List (Event Int ℚ)) : List ℚ :=
  (shownIn log events).map fun w => total id w.2

theorem deltas_none (prev : ℚ) (log unseen : List (Int × ℚ)) :
    deltas prev (sums log []) = pending unseen [] := by
  simp [sums, shownIn, windows, deltas, pending, recorded]

/-- Where an account stands between two exports: `seen` is the window that the last one
    showed, `unseen` what has been observed since, and the exports to come are those that
    keep every observation of theirs in time. -/
structure Standing (log seen unseen : List (Int × ℚ)) (events : List (Event Int ℚ)) : Prop where
  agrees : ∀ cutoff, .read cutoff ∈ events → since cutoff log = since cutoff (seen ++ unseen)
  ordered : Ordered events
  nonneg : ∀ e ∈ unseen, 0 ≤ e.2
  later : ∀ stamp value, .observed stamp value ∈ events → 0 ≤ value
  kept : ∀ e ∈ unseen, events.any Event.isRead → ∃ cutoff, .read cutoff ∈ events ∧ cutoff ≤ e.1
  frequent : Frequent events

section Standing

variable {log seen unseen : List (Int × ℚ)} {rest : List (Event Int ℚ)}

theorem Standing.observed {stamp : Int} {value : ℚ}
    (h : Standing log seen unseen (.observed stamp value :: rest)) :
    Standing (log ++ [(stamp, value)]) seen (unseen ++ [(stamp, value)]) rest := by
  constructor
  · intro cutoff hcutoff
    rw [since_append, h.agrees cutoff (List.mem_cons_of_mem _ hcutoff), ← since_append,
      List.append_assoc]
  · exact (List.pairwise_cons.mp h.ordered).2
  · intro e he
    rcases List.mem_append.mp he with he | he
    · exact h.nonneg e he
    · rw [List.mem_singleton.mp he]
      exact h.later stamp value List.mem_cons_self
  · intro stamp' value' hmem
    exact h.later stamp' value' (List.mem_cons_of_mem _ hmem)
  · intro e he hread
    rcases List.mem_append.mp he with he | he
    · obtain ⟨cutoff, hcutoff, hle⟩ := h.kept e he (by simp [hread])
      rcases List.mem_cons.mp hcutoff with hne | hcutoff
      · cases hne
      · exact ⟨cutoff, hcutoff, hle⟩
    · rw [List.mem_singleton.mp he]
      exact (frequent_observed.mp h.frequent).1 hread
  · exact h.frequent.tail

variable {cutoff : Int}

theorem Standing.le (h : Standing log seen unseen (.read cutoff :: rest)) {cutoff' : Int}
    (hmem : .read cutoff' ∈ rest) : cutoff ≤ cutoff' :=
  (List.pairwise_cons.mp h.ordered).1 _ hmem cutoff cutoff' rfl rfl

/-- All that is new is in the window of the next export. -/
theorem Standing.window (h : Standing log seen unseen (.read cutoff :: rest)) :
    since cutoff log = since cutoff seen ++ unseen := by
  have hinside : since cutoff unseen = unseen := by
    apply since_eq_self
    intro e he
    obtain ⟨cutoff', hcutoff', hle⟩ := h.kept e he (by simp [Event.isRead])
    rcases List.mem_cons.mp hcutoff' with heq | hmem
    · cases heq
      exact hle
    · exact (h.le hmem).trans hle
  rw [h.agrees cutoff List.mem_cons_self, since_append, hinside]

/-- After an export that does not show the metric, the last window shown is still the same. -/
theorem Standing.unshown (h : Standing log seen unseen (.read cutoff :: rest))
    (hempty : since cutoff log = []) : unseen = [] ∧ Standing log seen [] rest := by
  have hnone : unseen = [] := by
    rw [h.window, List.append_eq_nil_iff] at hempty
    exact hempty.2
  subst hnone
  refine ⟨rfl, ?_, (List.pairwise_cons.mp h.ordered).2, by simp, ?_, by simp, h.frequent.tail⟩
  · intro cutoff' hcutoff'
    exact h.agrees cutoff' (List.mem_cons_of_mem _ hcutoff')
  · intro stamp value hmem
    exact h.later stamp value (List.mem_cons_of_mem _ hmem)

theorem Standing.shown (h : Standing log seen unseen (.read cutoff :: rest)) :
    Standing log (since cutoff log) [] rest := by
  refine ⟨?_, (List.pairwise_cons.mp h.ordered).2, by simp, ?_, by simp, h.frequent.tail⟩
  · intro cutoff' hcutoff'
    rw [List.append_nil, since_since (h.le hcutoff')]
  · intro stamp value hmem
    exact h.later stamp value (List.mem_cons_of_mem _ hmem)

/-- An export adds what is new exactly if its window is settled. -/
theorem Standing.delta_iff (h : Standing log seen unseen (.read cutoff :: rest)) (cut : Int) :
    delta (total id seen) (total id (since cutoff log)) = total id unseen ↔
      Settled (cut, seen) (cutoff, since cutoff log) := by
  have hnew : 0 ≤ total id unseen := by
    apply List.sum_nonneg
    intro x hx
    obtain ⟨e, he, rfl⟩ := List.mem_map.mp hx
    exact h.nonneg e he
  rw [Settled, h.window, total_append, delta_eq_iff hnew]

end Standing

/-- Of one metric, from where its account stands: the counter is right after every export
    exactly if every window that is shown is settled after the one before. -/
theorem deltas_eq_iff {events : List (Event Int ℚ)} {log seen unseen : List (Int × ℚ)} {cut : Int}
    (h : Standing log seen unseen events) :
    (∀ before, before <+: events →
      deltas (total id seen) (sums log before) = pending unseen before) ↔
      ((cut, seen) :: shownIn log events).IsChain Settled := by
  induction events generalizing log seen unseen cut with
  | nil =>
    constructor
    · intro _
      exact List.isChain_singleton _
    · intro _ before hbefore
      rw [List.prefix_nil.mp hbefore]
      exact deltas_none _ _ _
  | cons event rest ih =>
    rw [forall_isPrefix_cons (deltas_none _ _ _)]
    cases event with
    | observed stamp value =>
      simp only [pending_observed]
      exact ih h.observed
    | read cutoff =>
      simp only [pending_read]
      by_cases hempty : since cutoff log = []
      · obtain ⟨rfl, hstanding⟩ := h.unshown hempty
        simp only [sums, shownIn_read, if_pos hempty, total_nil, zero_add]
        exact ih hstanding
      · simp only [sums, shownIn_read, if_neg hempty, List.map_cons, deltas]
        rw [List.isChain_cons_cons, ← h.delta_iff cut, ← ih h.shown]
        constructor
        · intro hright
          have hfirst := hright [] List.nil_prefix
          have hdelta : delta (total id seen) (total id (since cutoff log)) = total id unseen := by
            simpa [shownIn, windows, deltas, pending, recorded] using hfirst
          refine ⟨hdelta, ?_⟩
          intro before hbefore
          have hstep := hright before hbefore
          rw [hdelta] at hstep
          exact add_left_cancel hstep
        · rintro ⟨hdelta, hright⟩ before hbefore
          have hstep := hright before hbefore
          rw [sums] at hstep
          rw [hdelta, hstep]

/-! ## Runs -/

theorem reading_of_event {cfg : Config} {key : MetricKey} {op : Op} {cutoff' : Int}
    (h : op.event cfg key = some (.read cutoff')) :
    ∃ t, op.reading cfg key = some t ∧ cutoff' = cutoff (toSeconds t) := by
  cases op with
  | put now stamp name value stream shardId errorCode =>
    rw [Op.event, Option.ite_none_right_eq_some] at h
    cases h.2
  | flush clock | wake now clock | exit clock =>
    cases h
    exact ⟨clock key, rfl, rfl⟩
  | snapshots clock | asleep now | exportRaises | exited => cases h

/-- Clock readings that do not decrease move the window forward only. -/
theorem ordered_events {cfg : Config} {key : MetricKey} {ops : List Op}
    (hordered : (ops.filterMap (Op.reading cfg key)).Pairwise (· ≤ ·)) :
    Ordered (ops.filterMap (Op.event cfg key)) := by
  rw [List.pairwise_filterMap] at hordered
  rw [Ordered, List.pairwise_filterMap]
  refine hordered.imp ?_
  intro op op' hle event hevent event' hevent' cutoff₁ cutoff₂ hread hread'
  obtain ⟨t, ht, rfl⟩ := reading_of_event (hread ▸ hevent)
  obtain ⟨t', ht', rfl⟩ := reading_of_event (hread' ▸ hevent')
  have hsec := toSeconds_mono (hle t ht t' ht')
  unfold cutoff
  omega

/-- **Counters.**  When every observation is in the window at some export, the counter of a
    metric is at the total of what was observed before the last export, in every state
    of a run, exactly if each window that an export shows is settled after the one
    that was shown before. -/
theorem counter_faithful_iff {cfg : Config} (hlevel : cfg.level ≠ .none) {enteredAt : Time}
    {s : State} {ops : List Op}
    (hrun : Lib.exec (State.step cfg) anyStep (entered cfg enteredAt) ops = some s)
    {key : MetricKey} (hkey : kindOf key.name = .counter)
    (hordered : (ops.filterMap (Op.reading cfg key)).Pairwise (· ≤ ·))
    (hnonneg : ∀ e ∈ logged cfg key ops, 0 ≤ e.2)
    (hfrequent : Frequent (ops.filterMap (Op.event cfg key))) (instrumentPrefix : String) :
    (∀ before s', before <+: ops →
      Lib.exec (State.step cfg) anyStep (entered cfg enteredAt) before = some s' →
        (handed { instrumentPrefix } s').added key =
          ((recorded (before.filterMap (Op.event cfg key)) : ℚ) : WithBot ℚ)) ↔
      (shownWindows cfg key ops).IsChain Settled := by
  have hadded : ∀ before s', before <+: ops →
      Lib.exec (State.step cfg) anyStep (entered cfg enteredAt) before = some s' →
        (handed { instrumentPrefix } s').added key =
          ((deltas 0 (sums [] (before.filterMap (Op.event cfg key))) : ℚ) : WithBot ℚ) := by
    intro before s' hbefore hrun'
    exact counter_added hlevel hrun' (hordered.sublist (hbefore.filterMap _).sublist) _ hkey
  have hobserved : ∀ stamp value, .observed stamp value ∈ ops.filterMap (Op.event cfg key) →
      0 ≤ value := by
    intro stamp value hmem
    exact hnonneg (stamp, value) (List.mem_flatMap.mpr ⟨_, hmem, List.mem_singleton_self _⟩)
  have hstanding : Standing [] [] [] (ops.filterMap (Op.event cfg key)) :=
    ⟨fun _ _ => rfl, ordered_events hordered, by simp, hobserved, by simp, hfrequent⟩
  have hevents := @deltas_eq_iff _ [] [] [] 0 hstanding
  have hpending : ∀ events, pending [] events = recorded events := by
    intro events
    simp [pending]
  have hfirst : ∀ later, Settled (0, []) later := fun _ => .inl rfl
  rw [List.isChain_cons, and_iff_right fun later _ => hfirst later] at hevents
  rw [shownWindows, ← hevents]
  constructor
  · intro h events hbefore
    obtain ⟨before, hops, rfl⟩ := List.prefix_filterMap_iff.mp hbefore
    obtain ⟨s', hrun'⟩ := exec_of_isPrefix hops hrun
    rw [hpending]
    exact WithBot.coe_inj.mp ((hadded before s' hops hrun').symm.trans (h before s' hops hrun'))
  · intro h before s' hbefore hrun'
    rw [hadded before s' hbefore hrun', ← hpending]
    exact congrArg _ (h _ (hbefore.filterMap _))

/-! ### Two exports -/

def summaryLevel : Config := { level := .summary }

def puts (now : Time) (value : ℚ) : Op := .put now now "UserRecordsPut" value (some "s") none none

def putsKey : MetricKey := { name := "UserRecordsPut", stream := some "s" }

/-- Two exports in one window: the second one adds what has come in between. -/
theorem counter_faithful_iff_close :
    ∃ s, Lib.exec (State.step summaryLevel) anyStep (entered summaryLevel 0)
        [puts 0 5, .flush fun _ => 1, puts 2 3, .flush fun _ => 3] = some s ∧
      (handed {} s).added putsKey = ((8 : ℚ) : WithBot ℚ) := by
  have hsome : (Lib.exec (State.step summaryLevel) anyStep (entered summaryLevel 0)
      [puts 0 5, .flush fun _ => 1, puts 2 3, .flush fun _ => 3]).isSome = true := by
    decide +kernel
  obtain ⟨s, hrun⟩ := Option.isSome_iff_exists.mp hsome
  have hevents : [puts 0 5, .flush fun _ => 1, puts 2 3, .flush fun _ => 3].filterMap
      (Op.event summaryLevel putsKey) =
        [.observed 0 5, .read (-58), .observed 2 3, .read (-56)] := by
    decide +kernel
  have hfrequent : Frequent ([puts 0 5, .flush fun _ => 1, puts 2 3, .flush fun _ => 3].filterMap
      (Op.event summaryLevel putsKey)) := by
    rw [hevents, frequent_observed, frequent_read, frequent_observed, frequent_read]
    exact ⟨fun _ => ⟨-58, by decide, by decide⟩, fun _ => ⟨-56, by decide, by decide⟩, frequent_nil⟩
  have hsettled : (shownWindows summaryLevel putsKey
      [puts 0 5, .flush fun _ => 1, puts 2 3, .flush fun _ => 3]).IsChain Settled := by
    decide +kernel
  have hkey : kindOf putsKey.name = .counter := by
    decide +kernel
  have hfaithful := (counter_faithful_iff (by decide) hrun hkey (by decide +kernel)
    (by decide +kernel) hfrequent "aiokpl.").mpr hsettled
  refine ⟨s, hrun, (hfaithful _ s (List.prefix_refl _) hrun).trans ?_⟩
  rw [hevents]
  decide +kernel

/-- The second export shows nothing that the first one showed, and more: the counter gets
    the difference, 5, for the 10 that are new. -/
theorem counter_loses_after_rollover :
    ∃ s, Lib.exec (State.step summaryLevel) anyStep (entered summaryLevel 0)
        [puts 0 5, .flush fun _ => 1, puts 60 10, .flush fun _ => 61] = some s ∧
      ([puts 0 5, .flush fun _ => 1, puts 60 10, .flush fun _ => 61].filterMap
        (Op.reading summaryLevel putsKey)).Pairwise (· ≤ ·) ∧
      (∀ e ∈ logged summaryLevel putsKey
        [puts 0 5, .flush fun _ => 1, puts 60 10, .flush fun _ => 61], 0 ≤ e.2) ∧
      Frequent ([puts 0 5, .flush fun _ => 1, puts 60 10, .flush fun _ => 61].filterMap
        (Op.event summaryLevel putsKey)) ∧
      (handed {} s).added putsKey = ((10 : ℚ) : WithBot ℚ) ∧
      recorded ([puts 0 5, .flush fun _ => 1, puts 60 10, .flush fun _ => 61].filterMap
        (Op.event summaryLevel putsKey)) = 15 := by
  have hadded : (Lib.exec (State.step summaryLevel) anyStep (entered summaryLevel 0)
      [puts 0 5, .flush fun _ => 1, puts 60 10, .flush fun _ => 61]).map
        (fun s => (handed {} s).added putsKey) = some ((10 : ℚ) : WithBot ℚ) := by
    decide +kernel
  obtain ⟨s, hrun, hten⟩ := Option.map_eq_some_iff.mp hadded
  have hevents : [puts 0 5, .flush fun _ => 1, puts 60 10, .flush fun _ => 61].filterMap
      (Op.event summaryLevel putsKey) =
        [.observed 0 5, .read (-58), .observed 60 10, .read 2] := by
    decide +kernel
  refine ⟨s, hrun, by decide +kernel, by decide +kernel, ?_, hten, ?_⟩
  · rw [hevents, frequent_observed, frequent_read, frequent_observed, frequent_read]
    exact ⟨fun _ => ⟨-58, by decide, by decide⟩, fun _ => ⟨2, by decide, by decide⟩, frequent_nil⟩
  · rw [hevents]
    decide +kernel

end OpenTelemetry

end Aiokpl
