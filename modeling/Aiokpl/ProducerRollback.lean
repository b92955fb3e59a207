import Aiokpl.ProducerCancellation

/-!
# A `put_record` call that fails

The `except` branch of `put_record` gives the permit of the call back and strikes it
from `_outstanding`.  That is all there is to undo until the call has registered its
record; from then on the record has its own way to the callback that does the same.
-/

namespace Aiokpl

open Lib Aggregation

namespace Producer

/-! ## What a failed call leaves behind -/

/-- Nothing is left of the record of the call, and its permit has been given back once. -/
structure RolledBack (s : State) (id : Nat) : Prop where
  pending : ∀ stream, s.shared.pendingAt (stream, id) = none
  held : ∀ e ∈ s.locations, e.2.2 ≠ id
  released : s.shared.released.count id = 1

variable {maxOutstanding : Nat}

/-- A call has failed after it registered its record exactly if that was its phase. -/
theorem Sound.accepted_of_failed {s : State} (hs : Sound s) {id : Nat} {phase : PutPhase}
    (h : (id, phase) ∈ s.shared.failed) : id ∈ acceptedIds s.shared ↔ phase = .registered := by
  have hcall := hs.calls id
  generalize s.tasks.get? id = t at hcall
  cases hcall with
  | failed hiff hstanding =>
    obtain rfl := Option.some.inj ((hstanding.failed phase).mp h)
    rw [hstanding.accepted, hiff]
  | entering _ _ _ hstanding => cases (hstanding.failed phase).mp h
  | handing _ hstanding => cases (hstanding.failed phase).mp h
  | background _ hstanding => cases (hstanding.failed phase).mp h
  | returned hstanding => cases (hstanding.failed phase).mp h
  | absent hstanding => cases (hstanding.failed phase).mp h

theorem Sound.failedHolding_nodup {s : State} (hs : Sound s) :
    (failedHolding s.shared.failed).Nodup :=
  hs.failed.sublist (List.filter_sublist.map Prod.fst)

theorem mem_failedHolding {failed : List (Nat × PutPhase)} {id : Nat} :
    id ∈ failedHolding failed ↔ ∃ phase, (id, phase) ∈ failed ∧ phase ≠ .waiting := by
  simp [failedHolding]

theorem Ledger.accepted_of_located {s : State} (h : Ledger maxOutstanding s) {e : Place × Token}
    (he : e ∈ s.locations) : e.2 ∈ s.shared.accepted := by
  have hpos := List.count_pos_iff.mpr (List.mem_map_of_mem (f := Prod.snd) he)
  have haccounts := h.accounts e.2
  apply List.count_pos_iff.mp
  omega

theorem Ledger.accepted_of_finished {s : State} (h : Ledger maxOutstanding s) {id : Nat}
    (hid : id ∈ s.shared.finished.map Prod.snd) : id ∈ acceptedIds s.shared := by
  obtain ⟨k, hk, rfl⟩ := List.mem_map.mp hid
  have hpos := List.count_pos_iff.mpr hk
  have haccounts := h.accounts k
  apply List.mem_map_of_mem
  apply List.count_pos_iff.mp
  omega

/-- The permit of a failed call is given back by the call, and by its record if that
    finishes. -/
theorem Ledger.released_of_failed {s : State} (h : Ledger maxOutstanding s) (hs : Sound s)
    {id : Nat} {phase : PutPhase} (hfailed : (id, phase) ∈ s.shared.failed)
    (hphase : phase ≠ .waiting) :
    s.shared.released.count id = (s.shared.finished.map Prod.snd).count id + 1 := by
  rw [h.released.count_eq, List.count_append]
  congr 1
  apply List.count_eq_one_of_mem hs.failedHolding_nodup
  exact mem_failedHolding.mpr ⟨phase, hfailed, hphase⟩

/-- **A failed call** has been undone exactly if it failed before it registered its
    record. -/
theorem Ledger.rolledBack_iff {s : State} (h : Ledger maxOutstanding s) (hs : Sound s) {id : Nat}
    {phase : PutPhase} (hfailed : (id, phase) ∈ s.shared.failed) (hphase : phase ≠ .waiting) :
    RolledBack s id ↔ phase ≠ .registered := by
  have hreleased := h.released_of_failed hs hfailed hphase
  have haccepted := hs.accepted_of_failed hfailed
  constructor
  · intro hback hregistered
    obtain ⟨k, hk, rfl⟩ := List.mem_map.mp (haccepted.mpr hregistered)
    by_cases hfinished : k ∈ s.shared.finished
    · have hpos := List.count_pos_iff.mpr (List.mem_map_of_mem (f := Prod.snd) hfinished)
      have honce := hback.released
      omega
    · have hpending := h.pending k
      rw [if_pos ⟨hk, hfinished⟩] at hpending
      have hnone := hback.pending k.1
      rw [hpending] at hnone
      cases hnone
  · intro hearly
    have hnot : id ∉ acceptedIds s.shared := fun hmem => hearly (haccepted.mp hmem)
    constructor
    · intro stream
      rw [h.pending, if_neg]
      rintro ⟨hmem, _⟩
      exact hnot (List.mem_map_of_mem (f := Prod.snd) hmem)
    · rintro e he rfl
      exact hnot (List.mem_map_of_mem (h.accepted_of_located he))
    · rw [hreleased, List.count_eq_zero.mpr fun hmem => hnot (h.accepted_of_finished hmem)]

/-! ## Calls that fail early -/

/-- A `put_record` call that fails has not registered its record. -/
def failsEarly (sys : System) (s : State) (op : Op) : Prop :=
  ∀ e ∈ failedBy (s.failing sys op), e.2 ≠ .registered

instance (sys : System) (s : State) (op : Op) : Decidable (failsEarly sys s op) :=
  inferInstanceAs (Decidable (∀ e ∈ failedBy (s.failing sys op), e.2 ≠ .registered))

theorem failsEarly_failed {sys : System} {s : State}
    (h : Reachable (State.start sys) (State.step sys) (failsEarly sys) s) :
    ∀ e ∈ s.shared.failed, e.2 ≠ .registered := by
  induction h with
  | start h0 =>
    rw [h0]
    intro e he
    cases he
  | next hprev hok hstep ih =>
    rw [step_failed (reachable_sound hprev) hstep]
    intro e he
    rcases List.mem_append.mp he with hold | hnew
    · exact ih e hold
    · exact hok e hnew

/-- If no call fails late, no permit is given back twice. -/
theorem Ledger.released_nodup {s : State} (h : Ledger maxOutstanding s) (hs : Sound s)
    (hearly : ∀ e ∈ s.shared.failed, e.2 ≠ .registered) : s.shared.released.Nodup := by
  rw [h.released.nodup_iff, List.nodup_append]
  refine ⟨h.finished_nodup hs, hs.failedHolding_nodup, ?_⟩
  rintro id hfinished _ hholding rfl
  obtain ⟨phase, hfailed, _⟩ := mem_failedHolding.mp hholding
  exact hearly _ hfailed ((hs.accepted_of_failed hfailed).mp (h.accepted_of_finished hfinished))

/-- **Failing calls.**  If every call that fails does so before it registers its record,
    each is undone, no permit is given back twice, and `_outstanding` counts the records
    that have not finished, which the permits bound; and a call with a permit that
    fails, in whatever state, is undone exactly in that case. -/
theorem failing_calls_roll_back (sys : System) :
    (∀ s, Reachable (State.start sys) (State.step sys) (failsEarly sys) s →
      (∀ id phase, (id, phase) ∈ s.shared.failed → phase ≠ .waiting → RolledBack s id) ∧
      s.shared.released.Nodup ∧ 0 ≤ s.shared.outstanding ∧
      s.live.length ≤ s.shared.outstanding ∧ s.live.length ≤ sys.cfg.maxOutstandingRecords) ∧
    ∀ s s' op id work, Reachable (State.start sys) (State.step sys) anyStep s →
      s.failing sys op = some (id, { kind := .putRecord, work }) → putPhase work ≠ .waiting →
      s.step sys op = some s' → (RolledBack s' id ↔ putPhase work ≠ .registered) := by
  constructor
  · intro s hreach
    obtain ⟨hs, hledger⟩ := reachable_ledger hreach
    have hearly := failsEarly_failed hreach
    have hlate : lateFailures s.shared.failed = 0 := by
      apply List.countP_eq_zero.mpr
      intro e he hregistered
      exact hearly e he (of_decide_eq_true hregistered)
    have hlength := hledger.live_length hs
    have hpermits := hledger.permits
    have houtstanding := hledger.outstanding
    rw [hlate] at hpermits houtstanding
    refine ⟨?_, hledger.released_nodup hs hearly, by omega, by omega, by omega⟩
    intro id phase hfailed hphase
    exact (hledger.rolledBack_iff hs hfailed hphase).mpr (hearly _ hfailed)
  · intro s s' op id work hreach hfailing hphase hstep
    obtain ⟨hs', hledger'⟩ := reachable_ledger (hreach.next trivial hstep)
    have hfailed : (id, putPhase work) ∈ s'.shared.failed := by
      rw [step_failed (reachable_sound hreach) hstep, hfailing]
      exact List.mem_append_right _ List.mem_cons_self
    exact hledger'.rolledBack_iff hs' hfailed hphase

/-- A call for whose stream no pipeline can be built. -/
theorem failing_calls_roll_back_unbuilt :
    ∃ s s' : State,
      Reachable (State.start oneStream) (State.step oneStream) (failsEarly oneStream) s' ∧
      s.step oneStream (.run 0 { buildFails := true }) = some s' ∧
      s'.shared.failed = [(0, .resumed)] ∧ RolledBack s' 0 ∧
      s'.live.length ≤ s'.shared.outstanding := by
  let fails : Op := .run 0 { buildFails := true }
  have hrun : (Lib.exec (State.step oneStream) (failsEarly oneStream) entered
      (.putRecord "a" { partitionKey := "p", data := [] } :: List.replicate 3 (.run 0 {}))).map
      (fun s => decide ((s.failing oneStream fails).map
          (fun call => (call.1, call.2.kind, putPhase call.2.work)) =
            some (0, .putRecord, .resumed) ∧
        failsEarly oneStream s fails ∧
        (s.step oneStream fails).map (fun s' => s'.shared.failed) = some [(0, .resumed)])) =
          some true := by
    decide +kernel
  obtain ⟨s, hexec, hout⟩ := Option.map_eq_some_iff.mp hrun
  obtain ⟨hfailing, hearly, hfails⟩ := of_decide_eq_true hout
  obtain ⟨⟨id, kind, work⟩, hfailing, hcall⟩ := Option.map_eq_some_iff.mp hfailing
  obtain ⟨rfl, hcall⟩ := Prod.mk.inj hcall
  obtain ⟨rfl, hphase⟩ := Prod.mk.inj hcall
  obtain ⟨s', hstep, hfailed⟩ := Option.map_eq_some_iff.mp hfails
  have hreach : Reachable (State.start oneStream) (State.step oneStream) (failsEarly oneStream) s :=
    Reachable.exec (.start rfl) hexec
  have hphase' : putPhase work = .resumed := hphase
  have hback := ((failing_calls_roll_back oneStream).2 s s' fails 0 work
    (hreach.mono fun _ _ _ => trivial) hfailing (by rw [hphase']; decide) hstep).mpr
      (by rw [hphase']; decide)
  have hreach' := hreach.next hearly hstep
  obtain ⟨_, _, _, hcounts, _⟩ := (failing_calls_roll_back oneStream).1 s' hreach'
  exact ⟨s, s', hreach', hstep, hfailed, hback, hcounts⟩

/-! ### A call that is cancelled over the batch of another -/

/-- Two records fit no batch together, and there are two permits. -/
def twoPermits : System :=
  { md5 := fun _ => .zero, u := .asciiOnly
    cfg := { aggregationMaxSize := 30, maxOutstandingRecords := 2 } }

/-- The second record closes a batch of the first, and its call is cancelled over it. -/
def cancelsSecond : List Op :=
  putsOne ++ .putRecord "a" { partitionKey := "q", data := [1, 2, 3, 4, 5, 6, 7, 8] } ::
    List.replicate 5 (.run 1 {}) ++ [.cancel 1]

/-- The second record is sent and finished. -/
def finishesSecond : List Op :=
  let slot : Sender.Slot := { sequenceNumber := some "1", shardId := some "shardId-000000000000" }
  .flush :: List.replicate 7 (.run 2 {}) ++
    [.run 4 {}, .run 4 { reply := .response [slot] }, .run 4 {}]

/-- The record of the failed call stays in its Reducer and in `pending`; when it finishes
    its permit is given back a second time, and `_outstanding` misses the record that has
    not finished. -/
theorem cancelled_call_releases_twice :
    ∃ s s', Reachable (State.start twoPermits) (State.step twoPermits) anyStep s ∧
      s.shared.failed = [(1, .registered)] ∧ s.shared.pendingAt ("a", 1) = some 1 ∧
      s.locations = [(.reducer "a" none, ("a", 1))] ∧
      Lib.exec (State.step twoPermits) anyStep s finishesSecond = some s' ∧
      s'.shared.released = [1, 1] ∧ s'.live = [("a", 0)] ∧ s'.shared.outstanding = 0 := by
  have hrun : (Lib.exec (State.step twoPermits) anyStep { shared := { permits := 2 } }
      cancelsSecond).map
      (fun s => decide (s.shared.failed = [(1, .registered)] ∧
        s.shared.pendingAt ("a", 1) = some 1 ∧ s.locations = [(.reducer "a" none, ("a", 1))] ∧
        (Lib.exec (State.step twoPermits) anyStep s finishesSecond).map
          (fun s' => decide (s'.shared.released = [1, 1] ∧ s'.live = [("a", 0)] ∧
            s'.shared.outstanding = 0)) = some true)) = some true := by
    decide +kernel
  obtain ⟨s, hexec, hout⟩ := Option.map_eq_some_iff.mp hrun
  obtain ⟨hfailed, hpending, hlocations, hfinishes⟩ := of_decide_eq_true hout
  obtain ⟨s', hexec', hout'⟩ := Option.map_eq_some_iff.mp hfinishes
  have hreach : Reachable (State.start twoPermits) (State.step twoPermits) anyStep s :=
    Reachable.exec (.start rfl) hexec
  exact ⟨s, s', hreach, hfailed, hpending, hlocations, hexec', of_decide_eq_true hout'⟩

end Producer

end Aiokpl
