import Aiokpl.ProducerConservation

/-!
# Cancelling a caller

A call that takes a batch out of one stage has it in hand until the next stage has
taken it, and awaits the locks of the stages in between.  What it has in hand when it
is cancelled is dropped; what it has not stays where it was.
-/

namespace Aiokpl

open Lib Aggregation

namespace Producer

/-! ## What a cancellation drops -/

/-- The record has finished, or it is in one place. -/
def State.keeps (s : State) (k : Token) : Prop :=
  k ∈ s.shared.finished ∨ (s.locations.map Prod.snd).count k = 1

instance (s : State) (k : Token) : Decidable (s.keeps k) :=
  inferInstanceAs (Decidable (k ∈ s.shared.finished ∨ (s.locations.map Prod.snd).count k = 1))

/-- A call that is cancelled takes with it what it has in hand, and nothing else. -/
theorem cancel_locations {sys : System} {s s' : State} {id : Nat}
    (hstep : s.step sys (.cancel id) = some s') (k : Token) :
    (s'.locations.map Prod.snd).count k + (s.inHand (.cancel id)).count k =
      (s.locations.map Prod.snd).count k ∧ s'.shared.finished = s.shared.finished := by
  cases (step_turn hstep).2 with
  | @cancelled _ kind w rest hfound =>
    have hmass := mass_fail hfound (w :: rest) k
    have hdropped := fail_dropped id kind (w :: rest) (w :: rest) s
    have hhand : s.inHand (.cancel id) = (w :: rest).flatMap Work.tokens := by
      rw [State.inHand, hfound]
      rfl
    rw [count_locations, count_locations, hhand]
    constructor
    · simp only [Shared.mass, hdropped, List.count_append] at hmass
      omega
    · exact fail_finished id kind (w :: rest) (w :: rest) s

variable {maxOutstanding : Nat}

/-- A registered record is finished, dropped, or in one of its places. -/
theorem Ledger.accounts {s : State} (h : Ledger maxOutstanding s) (k : Token) :
    s.shared.accepted.count k = s.shared.finished.count k + s.shared.dropped.count k +
      (s.locations.map Prod.snd).count k := by
  rw [h.balance k, count_locations, Shared.mass]
  omega

/-- A registered record that has not been dropped is kept. -/
theorem Ledger.keeps_of_not_dropped {s : State} (h : Ledger maxOutstanding s) (hs : Sound s)
    {k : Token} (hk : k ∈ s.shared.accepted) (hdropped : k ∉ s.shared.dropped) : s.keeps k := by
  have haccounts := h.accounts k
  have honce := hs.accepted_count k
  have hpos := List.count_pos_iff.mpr hk
  rw [List.count_eq_zero.mpr hdropped] at haccounts
  by_cases hfinished : k ∈ s.shared.finished
  · exact Or.inl hfinished
  · rw [List.count_eq_zero.mpr hfinished] at haccounts
    right
    omega

/-- What a call has in hand is in one place. -/
theorem Ledger.keeps_of_inHand {sys : System} {s s' : State} {id : Nat}
    (h : Ledger maxOutstanding s) (hs : Sound s) (hstep : s.step sys (.cancel id) = some s')
    {k : Token} (hk : k ∈ s.inHand (.cancel id)) :
    (s.locations.map Prod.snd).count k = 1 ∧ (s'.locations.map Prod.snd).count k = 0 ∧
      k ∉ s'.shared.finished := by
  obtain ⟨hcount, hfinished⟩ := cancel_locations hstep k
  have haccounts := h.accounts k
  have honce := hs.accepted_count k
  have hpos := List.count_pos_iff.mpr hk
  refine ⟨by omega, by omega, ?_⟩
  rw [hfinished]
  intro hmem
  have := List.count_pos_iff.mpr hmem
  omega

/-- A call that has returned has registered its record and has not failed. -/
theorem Sound.standing_of_returned {s : State} (hs : Sound s) {id : Nat}
    (h : id ∈ s.shared.returned) : Standing s.shared id True True none := by
  have hcall := hs.calls id
  generalize s.tasks.get? id = t at hcall
  cases hcall with
  | returned hstanding => exact hstanding
  | entering _ _ _ hstanding => exact absurd h hstanding.returned.mp
  | handing _ hstanding => exact absurd h hstanding.returned.mp
  | background _ hstanding => exact absurd h hstanding.returned.mp
  | failed _ hstanding => exact absurd h hstanding.returned.mp
  | absent hstanding => exact absurd h hstanding.returned.mp

theorem Sound.not_failed_of_returned {s : State} (hs : Sound s) {id : Nat}
    (h : id ∈ s.shared.returned) : id ∉ s.shared.failed.map Prod.fst := by
  intro hmem
  obtain ⟨⟨id', phase⟩, hfailed, hid⟩ := List.mem_map.mp hmem
  obtain rfl : id' = id := hid
  cases ((hs.standing_of_returned h).failed phase).mp hfailed

/-! ## Calls that are cancelled over their own record -/

def Op.cancels (id : Nat) : Op → Bool
  | .cancel id' => id' = id
  | _ => false

/-- No exit begins, no background task raises, and a call that is cancelled has no record
    in hand but its own or one whose call has failed. -/
def cancelsOwn (sys : System) (s : State) (op : Op) : Prop :=
  op.exits = false ∧ s.crashes sys op = false ∧
    ∀ k ∈ s.inHand op, op.cancels k.2 = true ∨ k.2 ∈ s.shared.failed.map Prod.fst

instance (sys : System) (s : State) (op : Op) : Decidable (cancelsOwn sys s op) :=
  inferInstanceAs (Decidable (op.exits = false ∧ s.crashes sys op = false ∧
    ∀ k ∈ s.inHand op, op.cancels k.2 = true ∨ k.2 ∈ s.shared.failed.map Prod.fst))

/-- A record that a call has in hand under its own number is that call's. -/
theorem failed_of_inHand {sys : System} {s s' : State} {id : Nat} (h : Ledger maxOutstanding s)
    (hs : Sound s) (hstep : s.step sys (.cancel id) = some s') {k : Token}
    (hk : k ∈ s.inHand (.cancel id)) (hid : k.2 = id) : id ∈ s'.shared.failed.map Prod.fst := by
  have honce := (h.keeps_of_inHand hs hstep hk).1
  have haccepted : k ∈ s.shared.accepted := by
    have := h.accounts k
    exact List.count_pos_iff.mp (by omega)
  have hmem : id ∈ acceptedIds s.shared := List.mem_map.mpr ⟨k, haccepted, hid⟩
  cases (step_turn hstep).2 with
  | @cancelled _ kind w rest hfound hkind =>
    obtain ⟨_, _, hfailed, _, _⟩ := fail_calls id kind (w :: rest) (w :: rest) s
    rcases hkind with rfl | rfl
    · rw [hfailed]
      simp
    · have hcall := hs.calls id
      rw [hfound] at hcall
      cases hcall with
      | background _ hstanding => exact absurd hmem hstanding.accepted.mp

theorem cancelsOwn_dropped {sys : System} {s : State}
    (h : Reachable (State.start sys) (State.step sys) (cancelsOwn sys) s) :
    Running s ∧ ∀ k ∈ s.shared.dropped, k.2 ∈ s.shared.failed.map Prod.fst := by
  induction h with
  | start h0 =>
    refine ⟨start_running h0, ?_⟩
    rw [h0]
    intro k hk
    cases hk
  | @next s s' op hprev hok hstep ih =>
    obtain ⟨hrunning, hdropped⟩ := ih
    obtain ⟨hs, hledger⟩ := reachable_ledger hprev
    obtain ⟨hexits, hcrashes, hhand⟩ := hok
    have hop := ne_exit hexits
    have hcrashed : s'.crashed = false := (crashes_eq hstep).symm.trans hcrashes
    refine ⟨hrunning.step hs hop hstep, ?_⟩
    have hstill : ∀ id ∈ s.shared.failed.map Prod.fst, id ∈ s'.shared.failed.map Prod.fst := by
      intro id hid
      rw [step_failed hs hstep, List.map_append]
      exact List.mem_append_left _ hid
    rw [hrunning.dropped hs (reachable_ordered hprev) hop hstep hcrashed]
    intro k hk
    rcases List.mem_append.mp hk with hold | hnew
    · exact hstill k.2 (hdropped k hold)
    · rcases hhand k hnew with hown | hfailed
      · cases op with
        | cancel id =>
          obtain rfl : id = k.2 := of_decide_eq_true hown
          exact failed_of_inHand hledger hs hstep hnew rfl
        | _ => cases hown
      · exact hstill k.2 hfailed

/-- **Cancelling a caller.**  If no background task raises, and no call is cancelled over
    the record of another that has not failed, every record of a call that has returned is in
    one place or has finished; and a call that is cancelled, in whatever state, leaves every
    such record where it is exactly if it has none of them in hand. -/
theorem cancelled_callers_keep_records (sys : System) :
    (∀ s, Reachable (State.start sys) (State.step sys) (cancelsOwn sys) s →
      ∀ k ∈ s.shared.accepted, k.2 ∈ s.shared.returned → s.keeps k) ∧
    ∀ s s' id, Reachable (State.start sys) (State.step sys) anyStep s →
      s.step sys (.cancel id) = some s' →
      ((∀ k, k.2 ∈ s.shared.returned → s.keeps k → s'.keeps k) ↔
        ∀ k ∈ s.inHand (.cancel id), k.2 ∉ s.shared.returned) := by
  constructor
  · intro s hreach k hk hreturned
    obtain ⟨hs, hledger⟩ := reachable_ledger hreach
    apply hledger.keeps_of_not_dropped hs hk
    intro hdropped
    exact hs.not_failed_of_returned hreturned ((cancelsOwn_dropped hreach).2 k hdropped)
  · intro s s' id hreach hstep
    obtain ⟨hs, hledger⟩ := reachable_ledger hreach
    constructor
    · intro hkept k hk hreturned
      obtain ⟨honce, hgone, hunfinished⟩ := hledger.keeps_of_inHand hs hstep hk
      rcases hkept k hreturned (Or.inr honce) with hfinished | hstill
      · exact hunfinished hfinished
      · rw [hgone] at hstill
        cases hstill
    · intro hhand k hreturned hkeeps
      obtain ⟨hcount, hfinished⟩ := cancel_locations hstep k
      have hnone : k ∉ s.inHand (.cancel id) := fun hmem => hhand k hmem hreturned
      rw [List.count_eq_zero.mpr hnone, Nat.add_zero] at hcount
      rw [State.keeps, hfinished, hcount]
      exact hkeeps

/-- A record is put, and its call returns. -/
def putsOne : List Op :=
  .putRecord "a" { partitionKey := "p", data := [] } :: List.replicate 6 (.run 0 {})

/-- A second call that is cancelled at the lock of the Reducer has its own record only. -/
theorem cancelled_callers_keep_records_own :
    ∃ s s', Reachable (State.start oneStream) (State.step oneStream) (cancelsOwn oneStream) s ∧
      s.step oneStream (.cancel 1) = some s' ∧ s.inHand (.cancel 1) = [("a", 1)] ∧
      s.keeps ("a", 0) ∧ s'.keeps ("a", 0) := by
  have hrun : (Lib.exec (State.step oneStream) (cancelsOwn oneStream) entered (putsOne ++
      .putRecord "a" { partitionKey := "p", data := [] } :: List.replicate 4 (.run 1 {}))).map
      (fun s => decide (("a", 0) ∈ s.shared.accepted ∧ s.shared.returned = [0] ∧
        s.inHand (.cancel 1) = [("a", 1)] ∧ (s.step oneStream (.cancel 1)).isSome)) =
      some true := by
    decide +kernel
  obtain ⟨s, hexec, hout⟩ := Option.map_eq_some_iff.mp hrun
  obtain ⟨haccepted, hreturned, hhand, hsteps⟩ := of_decide_eq_true hout
  obtain ⟨s', hstep⟩ := Option.isSome_iff_exists.mp hsteps
  have hreach : Reachable (State.start oneStream) (State.step oneStream) (cancelsOwn oneStream) s :=
    Reachable.exec (.start rfl) hexec
  have hmem : (("a", 0) : Token).2 ∈ s.shared.returned := by simp [hreturned]
  have hkeeps := (cancelled_callers_keep_records oneStream).1 s hreach _ haccepted hmem
  have hother : ∀ k ∈ s.inHand (.cancel 1), k.2 ∉ s.shared.returned := by
    rw [hhand, hreturned]
    decide
  have hstill := ((cancelled_callers_keep_records oneStream).2 s s' 1
    (hreach.mono fun _ _ _ => trivial) hstep).mpr hother _ hmem hkeeps
  exact ⟨s, s', hreach, hstep, hhand, hkeeps, hstill⟩

/-- A `flush` that is cancelled at the lock of the Limiter drops the batch that it has
    taken out of the Reducer. -/
theorem cancelled_flush_drops_batch :
    ∃ s s', Reachable (State.start oneStream) (State.step oneStream) anyStep s ∧
      ("a", 0) ∈ s.shared.accepted ∧ 0 ∈ s.shared.returned ∧ s.keeps ("a", 0) ∧
      s.step oneStream (.cancel 1) = some s' ∧ ¬ s'.keeps ("a", 0) := by
  have hrun : (Lib.exec (State.step oneStream) anyStep entered
      (putsOne ++ .flush :: List.replicate 3 (.run 1 {}))).map
      (fun s => decide (("a", 0) ∈ s.shared.accepted ∧ 0 ∈ s.shared.returned ∧ s.keeps ("a", 0) ∧
        (s.step oneStream (.cancel 1)).map (fun s' => decide (s'.keeps ("a", 0))) = some false)) =
          some true := by
    decide +kernel
  obtain ⟨s, hexec, hout⟩ := Option.map_eq_some_iff.mp hrun
  obtain ⟨haccepted, hreturned, hkeeps, hcancel⟩ := of_decide_eq_true hout
  obtain ⟨s', hstep, hdropped⟩ := Option.map_eq_some_iff.mp hcancel
  have hreach : Reachable (State.start oneStream) (State.step oneStream) anyStep s :=
    Reachable.exec (.start rfl) hexec
  exact ⟨s, s', hreach, haccepted, hreturned, hkeeps, hstep, of_decide_eq_false hdropped⟩

end Producer

end Aiokpl
