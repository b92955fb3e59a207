import Aiokpl.ProducerCalls

/-!
# The ledger of a producer

`Ledger` balances the accounts against where the records and the calls are: every
registered record is finished, held by a stage or a frame, or dropped; `pending`
has the registered records that have not finished; and the permits and
`_outstanding` are what the calls and the records account for.  It holds in every
run, whatever is cancelled or raises.
-/

namespace Aiokpl

open Lib Aggregation

namespace Producer

/-! ## What the calls account for -/

/-- A call that has been granted its permit and has not resumed. -/
def granted : Work → ℕ
  | .resume _ => 1
  | _ => 0

/-- A call that has resumed and has not registered its record. -/
def resumed : Work → ℕ
  | .getPipeline _ => 1
  | .buildPipeline _ => 1
  | _ => 0

theorem load_settled {weight : Work → ℕ} (hweight : ∀ w, w.call? = none → weight w = 0)
    {work : List Work} (h : Settled work) : load weight work = 0 := by
  induction work with
  | nil => rfl
  | cons w rest ih =>
    rw [load_cons, hweight w (h w (by simp)), ih fun v hv => h v (List.mem_cons_of_mem w hv)]

theorem granted_settled (w : Work) (h : w.call? = none) : granted w = 0 := by
  cases w <;> first | rfl | simp [Work.call?] at h

theorem resumed_settled (w : Work) (h : w.call? = none) : resumed w = 0 := by
  cases w <;> first | rfl | simp [Work.call?] at h

/-- The failed calls whose record was registered. -/
def lateFailures (failed : List (Nat × PutPhase)) : ℕ := failed.countP fun e => e.2 = .registered

/-- The failed calls that held a permit. -/
def failedHolding (failed : List (Nat × PutPhase)) : List Nat :=
  (failed.filter fun e => e.2 ≠ .waiting).map Prod.fst

/-- The balance of the accounts. -/
structure Ledger (maxOutstanding : Nat) (s : State) : Prop where
  balance : ∀ k, s.shared.accepted.count k =
    s.shared.finished.count k + s.shared.mass k + s.weigh (carries k)
  pending : ∀ k, s.shared.pendingAt k =
    if k ∈ s.shared.accepted ∧ k ∉ s.shared.finished then some k.2 else none
  resolved : ∀ k ∈ s.shared.finished, k.2 ∈ s.shared.resolved
  resolvedOnce : s.shared.resolved.Nodup
  permits : s.shared.permits + s.weigh granted + s.weigh resumed + s.shared.accepted.length =
    maxOutstanding + s.shared.finished.length + lateFailures s.shared.failed
  outstanding : s.shared.outstanding + s.shared.finished.length + lateFailures s.shared.failed =
    s.weigh resumed + s.shared.accepted.length
  released : s.shared.released.Perm
    (s.shared.finished.map Prod.snd ++ failedHolding s.shared.failed)

/-- Setting an Outcome forgets none. -/
theorem subset_settle (resolved : List Nat) (outcome : Option Nat) :
    resolved ⊆ settle resolved outcome := by
  cases outcome with
  | none => exact fun _ h => h
  | some outcome => by_cases hmem : outcome ∈ resolved <;> simp [settle, hmem]

theorem mem_settle (resolved : List Nat) (outcome : Nat) :
    outcome ∈ settle resolved (some outcome) := by
  by_cases hmem : outcome ∈ resolved <;> simp [settle, hmem]

/-- And sets none twice. -/
theorem nodup_settle {resolved : List Nat} (h : resolved.Nodup) (outcome : Option Nat) :
    (settle resolved outcome).Nodup := by
  cases outcome with
  | none => exact h
  | some outcome =>
    by_cases hmem : outcome ∈ resolved
    · simpa [settle, hmem] using h
    · simpa only [settle, hmem, if_false, ← List.concat_eq_append] using h.concat hmem

variable {maxOutstanding : Nat}

/-- A call that moves on before it registers its record only shifts what the permits
    and `_outstanding` account for. -/
theorem Ledger.shifts {s s' : State} (h : Ledger maxOutstanding s) (permits : Nat)
    (outstanding : Int) (returned : List Nat)
    (hbooks : s'.shared.books = { s.shared.books with permits, outstanding, returned })
    (hpending : s'.shared.pendingAt = s.shared.pendingAt)
    (hmass : ∀ k, s'.shared.mass k + s'.weigh (carries k) = s.shared.mass k + s.weigh (carries k))
    (hpermits : permits + s'.weigh granted + s'.weigh resumed =
      s.shared.permits + s.weigh granted + s.weigh resumed)
    (houtstanding : outstanding + s.weigh resumed = s.shared.outstanding + s'.weigh resumed) :
    Ledger maxOutstanding s' := by
  obtain ⟨hpermits', houtstanding', haccepted, hfinished, hreleased, hresolved, _, hfailed⟩ :=
    (Books.mk.injEq ..).mp hbooks
  simp only [Shared.books]
    at hpermits' houtstanding' haccepted hfinished hreleased hresolved hfailed
  refine ⟨fun k => ?_, fun k => ?_, ?_, ?_, ?_, ?_, ?_⟩
  · have := hmass k
    rw [haccepted, hfinished, h.balance k]
    omega
  · rw [hpending, haccepted, hfinished]
    exact h.pending k
  · rw [hfinished, hresolved]
    exact h.resolved
  · rw [hresolved]
    exact h.resolvedOnce
  · have := h.permits
    rw [hpermits', haccepted, hfinished, hfailed]
    omega
  · have := h.outstanding
    rw [houtstanding', haccepted, hfinished, hfailed]
    omega
  · rw [hreleased, hfinished, hfailed]
    exact h.released

/-- Moving records about, and returning from a call, keeps the balance. -/
theorem Ledger.keeps {s s' : State} (h : Ledger maxOutstanding s) (returned : List Nat)
    (hbooks : s'.shared.books = { s.shared.books with returned })
    (hpending : s'.shared.pendingAt = s.shared.pendingAt)
    (hmass : ∀ k, s'.shared.mass k + s'.weigh (carries k) = s.shared.mass k + s.weigh (carries k))
    (hgranted : s'.weigh granted = s.weigh granted)
    (hresumed : s'.weigh resumed = s.weigh resumed) : Ledger maxOutstanding s' :=
  h.shifts _ _ _ hbooks hpending hmass (by rw [hgranted, hresumed]; rfl) (by rw [hresumed]; rfl)

/-- So does setting an Outcome. -/
theorem Ledger.answers {s : State} (h : Ledger maxOutstanding s) (outcome : Nat) :
    Ledger maxOutstanding { s with shared := s.shared.resolve outcome } := by
  rw [resolve_eq]
  refine ⟨h.balance, h.pending, fun k hk => ?_, ?_, h.permits, h.outstanding, h.released⟩
  · exact subset_settle _ (some outcome) (h.resolved k hk)
  · exact nodup_settle h.resolvedOnce (some outcome)

/-- A registered record is registered once. -/
theorem Sound.accepted_count {s : State} (hs : Sound s) (k : Token) :
    s.shared.accepted.count k ≤ 1 :=
  List.nodup_iff_count_le_one.mp (List.Nodup.of_map Prod.snd hs.accepted) k

/-- What a frame or a stage holds has been registered and has not finished. -/
theorem Ledger.live_of_weigh {s : State} (h : Ledger maxOutstanding s) (hs : Sound s) {k : Token}
    (hk : 0 < s.shared.mass k + s.weigh (carries k)) :
    k ∈ s.shared.accepted ∧ k ∉ s.shared.finished := by
  have hbalance := h.balance k
  have honce := hs.accepted_count k
  constructor
  · exact List.count_pos_iff.mp (by omega)
  · intro hmem
    have := List.count_pos_iff.mpr hmem
    omega

/-- A call that registers a record moves from the calls that have resumed to the
    records registered. -/
theorem Ledger.accepts {s s' : State} (h : Ledger maxOutstanding s) {k : Token}
    (returned : List Nat) (hnew : k ∉ s.shared.accepted)
    (hbooks : s'.shared.books =
      { s.shared.books with accepted := s.shared.accepted ++ [k], returned })
    (hpending : ∀ k', s'.shared.pendingAt k' =
      if k' = k then some k.2 else s.shared.pendingAt k')
    (hmass : ∀ k', s'.shared.mass k' + s'.weigh (carries k') =
      s.shared.mass k' + s.weigh (carries k') + [k].count k')
    (hgranted : s'.weigh granted = s.weigh granted)
    (hresumed : s'.weigh resumed + 1 = s.weigh resumed) : Ledger maxOutstanding s' := by
  obtain ⟨hpermits, houtstanding, haccepted, hfinished, hreleased, hresolved, _, hfailed⟩ :=
    (Books.mk.injEq ..).mp hbooks
  simp only [Shared.books] at hpermits houtstanding haccepted hfinished hreleased hresolved hfailed
  have hfresh : k ∉ s.shared.finished := by
    intro hmem
    have hbalance := h.balance k
    have hpos := List.count_pos_iff.mpr hmem
    rw [List.count_eq_zero.mpr hnew] at hbalance
    omega
  refine ⟨fun k' => ?_, fun k' => ?_, ?_, ?_, ?_, ?_, ?_⟩
  · have := hmass k'
    have := h.balance k'
    rw [haccepted, hfinished, List.count_append]
    omega
  · rw [hpending k', haccepted, hfinished, h.pending k']
    by_cases hk : k' = k
    · simp [hk, hfresh]
    · simp [hk]
  · rw [hfinished, hresolved]
    exact h.resolved
  · rw [hresolved]
    exact h.resolvedOnce
  · have := h.permits
    rw [hpermits, haccepted, hfinished, hfailed, List.length_append, List.length_singleton]
    omega
  · have := h.outstanding
    rw [houtstanding, haccepted, hfinished, hfailed, List.length_append, List.length_singleton]
    omega
  · rw [hreleased, hfinished, hfailed]
    exact h.released

/-- A record that finishes gives back its permit, and sets the Outcome that waits for it. -/
theorem Ledger.finishes {s s' : State} (h : Ledger maxOutstanding s) {k : Token}
    (returned : List Nat) (hlive : k ∈ s.shared.accepted ∧ k ∉ s.shared.finished)
    (hbooks : s'.shared.books =
      { s.shared.books with
        outstanding := s.shared.outstanding - 1
        permits := s.shared.permits + 1
        released := s.shared.released ++ [k.2]
        finished := s.shared.finished ++ [k]
        resolved := settle s.shared.resolved (s.shared.pendingAt k)
        returned })
    (hpending : ∀ k', s'.shared.pendingAt k' = if k' = k then none else s.shared.pendingAt k')
    (hmass : ∀ k', s'.shared.mass k' + s'.weigh (carries k') + [k].count k' =
      s.shared.mass k' + s.weigh (carries k'))
    (hgranted : s'.weigh granted = s.weigh granted)
    (hresumed : s'.weigh resumed = s.weigh resumed) : Ledger maxOutstanding s' := by
  obtain ⟨hpermits, houtstanding, haccepted, hfinished, hreleased, hresolved, _, hfailed⟩ :=
    (Books.mk.injEq ..).mp hbooks
  simp only [Shared.books] at hpermits houtstanding haccepted hfinished hreleased hresolved hfailed
  rw [h.pending, if_pos hlive] at hresolved
  refine ⟨fun k' => ?_, fun k' => ?_, fun k' hk => ?_, ?_, ?_, ?_, ?_⟩
  · have := hmass k'
    have := h.balance k'
    rw [haccepted, hfinished, List.count_append]
    omega
  · rw [hpending k', haccepted, hfinished, h.pending k']
    by_cases hk : k' = k
    · simp [hk]
    · simp [hk]
  · rw [hfinished, List.mem_append, List.mem_singleton] at hk
    rw [hresolved]
    rcases hk with hk | rfl
    · exact subset_settle _ (some k.2) (h.resolved k' hk)
    · exact mem_settle _ k'.2
  · rw [hresolved]
    exact nodup_settle h.resolvedOnce (some k.2)
  · have := h.permits
    rw [hpermits, haccepted, hfinished, hfailed, List.length_append, List.length_singleton]
    omega
  · have := h.outstanding
    rw [houtstanding, haccepted, hfinished, hfailed, List.length_append, List.length_singleton]
    omega
  · rw [hreleased, hfinished, hfailed, List.map_append, List.append_assoc]
    exact ((h.released.append_right _).trans (by
      rw [List.append_assoc]
      exact List.perm_append_comm.append_left _))

/-- Running a frame exchanges its weight for that of the frames it pushes and starts. -/
theorem weigh_ran (sys : System) {s : State} (hs : Sound s) {id : Nat} {kind : TaskKind} {w : Work}
    {rest : List Work} (hfound : s.tasks.get? id = some { kind, work := w :: rest })
    (shared : Shared) (push : List Work) (spawn : Option Task) (weight : Work → ℕ) :
    (({ s with shared }.goOn sys id kind (push ++ rest)).spawn spawn).weigh weight + weight w =
      s.weigh weight + load weight push + load weight (spawn.toList.flatMap Task.work) := by
  have hlt := hs.lt_nextTask hfound
  have hgoes := weigh_goOn (s := { s with shared }) hfound weight sys kind (push ++ rest)
  have hsame : State.weigh weight { s with shared } = s.weigh weight := rfl
  have hfresh : ({ s with shared }.goOn sys id kind (push ++ rest)).tasks.get?
      ({ s with shared }.goOn sys id kind (push ++ rest)).nextTask = none := by
    rw [nextTask_goOn, get?_goOn, if_neg (by simp; omega)]
    exact (hs.fresh _ le_rfl).1
  rw [weigh_spawn hfresh]
  simp only [load_cons, load_append] at hgoes
  omega

/-- Running a frame keeps the balance. -/
theorem Ledger.ran {sys : System} {s : State} (h : Ledger maxOutstanding s) (hs : Sound s)
    {id : Nat} {kind : TaskKind} {w : Work} {rest push : List Work} {shared : Shared}
    {spawn : Option Task} (hfound : s.tasks.get? id = some { kind, work := w :: rest })
    (heffect : Effect id s.shared w shared push spawn) :
    Ledger maxOutstanding (({ s with shared }.goOn sys id kind (push ++ rest)).spawn spawn) := by
  have hweigh := weigh_ran sys hs hfound shared push spawn
  obtain ⟨hbooks, hsteady⟩ := goOn_accounts sys id kind (push ++ rest) { s with shared }
  have hshared := shared_spawn spawn ({ s with shared }.goOn sys id kind (push ++ rest))
  rw [← hshared] at hbooks hsteady
  dsimp only at hbooks hsteady
  generalize (({ s with shared }.goOn sys id kind (push ++ rest)).spawn spawn) = s' at *
  generalize shared.returned ++ (if push ++ rest = [] ∧ kind = .putRecord then [id] else []) =
    returned at hbooks
  cases heffect with
  | moved hw hstages hpush hspawn hmass =>
    have hsettled : Settled (spawn.toList.flatMap Task.work) := by
      intro v hv
      obtain ⟨t, ht, hv⟩ := List.mem_flatMap.mp hv
      exact (hspawn t (by simpa using ht)).settled v hv
    refine h.keeps returned (by rw [hbooks, hstages.books])
      (hsteady.pending.trans hstages.pending) (fun k => ?_) ?_ ?_
    · have := hmass k
      have := hweigh (carries k)
      rw [hsteady.mass k]
      omega
    · have := hweigh granted
      rw [granted_settled w hw, load_settled granted_settled hpush,
        load_settled granted_settled hsettled] at this
      exact this
    · have := hweigh resumed
      rw [resumed_settled w hw, load_settled resumed_settled hpush,
        load_settled resumed_settled hsettled] at this
      exact this
  | acquired call hsome =>
    refine h.shifts (s.shared.permits - 1) s.shared.outstanding returned hbooks hsteady.pending
      (fun k => ?_) ?_ ?_
    · rw [hsteady.mass k]
      exact congrArg (s.shared.mass k + ·) (hweigh (carries k))
    · have hg : s'.weigh granted = s.weigh granted + 1 := hweigh granted
      have hr : s'.weigh resumed = s.weigh resumed := hweigh resumed
      omega
    · have hr : s'.weigh resumed = s.weigh resumed := hweigh resumed
      rw [hr]
  | resumed call =>
    have hg : s'.weigh granted + 1 = s.weigh granted := hweigh granted
    have hr : s'.weigh resumed = s.weigh resumed + 1 := hweigh resumed
    refine h.shifts s.shared.permits (s.shared.outstanding + 1) returned hbooks hsteady.pending
      (fun k => ?_) (by omega) (by omega)
    rw [hsteady.mass k]
    exact congrArg (s.shared.mass k + ·) (hweigh (carries k))
  | building call hlock hmissing =>
    have hg : s'.weigh granted = s.weigh granted := hweigh granted
    have hr : s'.weigh resumed + 1 = s.weigh resumed + 1 := hweigh resumed
    refine h.shifts s.shared.permits s.shared.outstanding returned hbooks hsteady.pending
      (fun k => ?_) (by omega) (by omega)
    rw [hsteady.mass k]
    exact congrArg (s.shared.mass k + ·) (hweigh (carries k))
  | @accepted _ call _ shardKey buffered hw hident hfrom hbooks' hpending hlock hstreams hmass =>
    obtain ⟨rfl, rfl, rfl, hstanding⟩ := hs.entering hfound hw
    have hg : s'.weigh granted + granted w = s.weigh granted := hweigh granted
    have hr : s'.weigh resumed + resumed w = s.weigh resumed := hweigh resumed
    have hphase : granted w = 0 ∧ resumed w = 1 := by
      rcases hfrom with ⟨rfl, _⟩ | rfl <;> exact ⟨rfl, rfl⟩
    refine h.accepts (k := (call.stream, call.number)) returned ?_ (hbooks.trans (by rw [hbooks']))
      (fun k => ?_) (fun k => ?_) (by omega) (by omega)
    · exact fun hmem => hstanding.accepted.mp (List.mem_map.mpr ⟨_, hmem, rfl⟩)
    · rw [hsteady.pending, hpending k]
    · have hk := hweigh (carries k)
      have hheld : carries k w = 0 := by rcases hfrom with ⟨rfl, _⟩ | rfl <;> rfl
      simp only [load_cons, load_nil, Option.toList_none, List.flatMap_nil, carries, Work.tokens,
        tokensOf, List.map_cons, List.map_nil, hident] at hk hheld
      rw [hsteady.mass k, hmass k]
      omega
  | @finished stream buffered result _ hfinish =>
    have hcarries : ∀ k, s'.weigh (carries k) + [(stream, buffered.ident)].count k =
        s.weigh (carries k) := fun k => hweigh (carries k)
    have hlive := h.live_of_weigh hs (k := (stream, buffered.ident)) (by
      have := hcarries (stream, buffered.ident)
      rw [List.count_singleton_self] at this
      omega)
    refine h.finishes returned hlive (hbooks.trans (by rw [hfinish.books]))
      (fun k => ?_) (fun k => ?_) (hweigh granted) (hweigh resumed)
    · rw [hsteady.pending, hfinish.pending k]
    · rw [hsteady.mass k, hfinish.mass k, Nat.add_assoc, hcarries k]

/-! ## Failures -/

theorem rollBack_books (id : Nat) (phase : PutPhase) (s : Shared) :
    (rollBack id phase s).books =
      { s.books with
        permits := s.permits + if phase = .waiting then 0 else 1
        outstanding := s.outstanding - if phase = .waiting ∨ phase = .granted then 0 else 1
        released := s.released ++ if phase = .waiting then [] else [id] } := by
  cases phase <;> simp [rollBack, Shared.books]

/-- The frames of a call are those of its phase. -/
theorem Sound.load_phase {s : State} (hs : Sound s) {id : Nat} {work : List Work}
    (hfound : s.tasks.get? id = some { kind := .putRecord, work }) :
    load granted work = (if putPhase work = .granted then 1 else 0) ∧
      load resumed work = if putPhase work = .resumed then 1 else 0 := by
  have hcall := hs.calls id
  rw [hfound] at hcall
  cases hcall with
  | @entering w call hw _ _ _ => cases w <;> simp [Work.call?] at hw <;> exact ⟨rfl, rfl⟩
  | handing hsettled _ =>
    rw [load_settled granted_settled hsettled, load_settled resumed_settled hsettled,
      putPhase_settled hsettled]
    exact ⟨rfl, rfl⟩
  | background ht _ => exact absurd rfl ht.kind

/-- A failed call gives its permit back and is struck from `_outstanding`, whether or
    not its record was registered. -/
theorem Ledger.fail_putRecord {s s' : State} (h : Ledger maxOutstanding s) (id : Nat)
    (phase : PutPhase)
    (hbooks : s'.shared.books =
      { (rollBack id phase s.shared).books with failed := s.shared.failed ++ [(id, phase)] })
    (hpending : s'.shared.pendingAt = s.shared.pendingAt)
    (hmass : ∀ k, s'.shared.mass k + s'.weigh (carries k) = s.shared.mass k + s.weigh (carries k))
    (hgranted : s'.weigh granted + (if phase = .granted then 1 else 0) = s.weigh granted)
    (hresumed : s'.weigh resumed + (if phase = .resumed then 1 else 0) = s.weigh resumed) :
    Ledger maxOutstanding s' := by
  rw [rollBack_books] at hbooks
  obtain ⟨hpermits, houtstanding, haccepted, hfinished, hreleased, hresolved, _, hfailed⟩ :=
    (Books.mk.injEq ..).mp hbooks
  simp only [Shared.books] at hpermits houtstanding haccepted hfinished hreleased hresolved hfailed
  have hlate : lateFailures s'.shared.failed =
      lateFailures s.shared.failed + if phase = .registered then 1 else 0 := by
    simp [hfailed, lateFailures, List.countP_singleton]
  have hholding : failedHolding s'.shared.failed =
      failedHolding s.shared.failed ++ if phase = .waiting then [] else [id] := by
    cases phase <;> simp [hfailed, failedHolding]
  refine ⟨fun k => ?_, fun k => ?_, ?_, ?_, ?_, ?_, ?_⟩
  · have := hmass k
    rw [haccepted, hfinished, h.balance k]
    omega
  · rw [hpending, haccepted, hfinished]
    exact h.pending k
  · rw [hfinished, hresolved]
    exact h.resolved
  · rw [hresolved]
    exact h.resolvedOnce
  · have := h.permits
    rw [hpermits, haccepted, hfinished, hlate]
    cases phase <;> simp at hgranted hresumed ⊢ <;> omega
  · have := h.outstanding
    rw [houtstanding, haccepted, hfinished, hlate]
    cases phase <;> simp at hresumed ⊢ <;> omega
  · rw [hreleased, hfinished, hholding, ← List.append_assoc]
    exact h.released.append_right _

/-- A failure keeps the balance. -/
theorem Ledger.fail {s : State} (h : Ledger maxOutstanding s) (hs : Sound s) {id : Nat}
    {kind : TaskKind} {work left : List Work} {shared : Shared}
    (hfound : s.tasks.get? id = some { kind, work }) (hbooks : shared.books = s.shared.books)
    (hpending : shared.pendingAt = s.shared.pendingAt)
    (hmass : ∀ k, shared.mass k + load (carries k) left =
      s.shared.mass k + load (carries k) work) :
    Ledger maxOutstanding ({ s with shared }.fail id { kind, work } left) := by
  have hweigh := fun weight => weigh_fail (s := { s with shared }) hfound weight left
  have hsum := mass_fail (s := { s with shared }) hfound left
  obtain ⟨_, _, _, _, hpipelines⟩ := fail_calls id kind work left { s with shared }
  have hpending' : ({ s with shared }.fail id { kind, work } left).shared.pendingAt =
      s.shared.pendingAt := by
    rw [← hpending]
    funext k
    simp only [Shared.pendingAt, hpipelines]
  have hmass' : ∀ k, ({ s with shared }.fail id { kind, work } left).shared.mass k +
      ({ s with shared }.fail id { kind, work } left).weigh (carries k) =
        s.shared.mass k + s.weigh (carries k) := by
    intro k
    have hk := hmass k
    have hk' := hsum k
    have hsame : State.weigh (carries k) { s with shared } = s.weigh (carries k) := rfl
    dsimp only at hk'
    omega
  by_cases hkind : kind = .putRecord
  · subst hkind
    obtain ⟨hgranted, hresumed⟩ := hs.load_phase hfound
    refine h.fail_putRecord id (putPhase work) ?_ hpending' hmass' ?_ ?_
    · have hfail : ({ s with shared }.fail id { kind := .putRecord, work } left).shared.books =
          { (rollBack id (putPhase work) shared).books with
            failed :=
              (rollBack id (putPhase work) shared).books.failed ++ [(id, putPhase work)] } :=
        rfl
      obtain ⟨hpermits, houtstanding, _, _, hreleased, _, _, hfailed⟩ :=
        (Books.mk.injEq ..).mp hbooks
      rw [hfail, rollBack_books, rollBack_books, hbooks, hpermits, houtstanding, hreleased]
      rfl
    · have := hweigh granted
      rw [hgranted] at this
      exact this
    · have := hweigh resumed
      rw [hresumed] at this
      exact this
  · have hsettled : Settled work := by
      have hcall := hs.calls id
      rw [hfound] at hcall
      cases hcall with
      | entering => exact absurd rfl hkind
      | handing => exact absurd rfl hkind
      | background ht _ => exact ht.settled
    refine h.keeps s.shared.returned ?_ hpending' hmass' ?_ ?_
    · have hfail : ({ s with shared }.fail id { kind, work } left).shared.books = shared.books := by
        cases kind <;> first | rfl | exact absurd rfl hkind
      exact hfail.trans hbooks
    · have := hweigh granted
      rw [load_settled granted_settled hsettled] at this
      exact this
    · have := hweigh resumed
      rw [load_settled resumed_settled hsettled] at this
      exact this

/-! ## Whole runs -/

/-- A step of a stage outside any task, whose task, if it starts one, takes what it
    hands out. -/
theorem Ledger.stages {s : State} (h : Ledger maxOutstanding s) (hs : Sound s) {shared : Shared}
    {spawn : Option Task} (hstages : StagesOnly s.shared shared)
    (hspawn : ∀ t, spawn = some t → Background t)
    (hmass : ∀ k, shared.mass k + load (carries k) (spawn.toList.flatMap Task.work) =
      s.shared.mass k) :
    Ledger maxOutstanding ({ s with shared }.spawn spawn) := by
  have hweigh := fun weight =>
    weigh_spawn (s := { s with shared }) (hs.fresh _ le_rfl).1 weight spawn
  have hsettled : Settled (spawn.toList.flatMap Task.work) := by
    intro v hv
    obtain ⟨t, ht, hv⟩ := List.mem_flatMap.mp hv
    exact (hspawn t (by simpa using ht)).settled v hv
  have hsame : ∀ weight, State.weigh weight { s with shared } = s.weigh weight := fun _ => rfl
  refine h.keeps s.shared.returned (by rw [shared_spawn, hstages.books]; rfl)
    (by rw [shared_spawn, hstages.pending]) (fun k => ?_) ?_ ?_
  · have := hmass k
    rw [shared_spawn, hweigh, hsame]
    dsimp only
    omega
  · rw [hweigh, hsame, load_settled granted_settled hsettled, Nat.add_zero]
  · rw [hweigh, hsame, load_settled resumed_settled hsettled, Nat.add_zero]

/-- A new task that holds no record. -/
theorem Ledger.spawn {s : State} (h : Ledger maxOutstanding s) (hs : Sound s) {t : Task}
    (hcarries : ∀ k, load (carries k) t.work = 0) (hgranted : load granted t.work = 0)
    (hresumed : load resumed t.work = 0) : Ledger maxOutstanding (s.spawn (some t)) := by
  have hweigh := fun weight => weigh_spawn (s := s) (hs.fresh _ le_rfl).1 weight (some t)
  simp only [Option.toList_some, List.flatMap_singleton] at hweigh
  exact h.keeps s.shared.returned rfl rfl
    (fun k => by rw [hweigh, hcarries, shared_spawn, Nat.add_zero])
    (by rw [hweigh, hgranted, Nat.add_zero]) (by rw [hweigh, hresumed, Nat.add_zero])

/-- A timer adds nothing to its Reducer. -/
theorem timerOp_adds {op : Reducer.Op BufferedRecord} (h : timerOp op = true) :
    op ≠ .aclose ∧ op.adds = [] := by
  cases op <;> simp [timerOp, Reducer.Op.adds] at h ⊢

/-- What a timer takes out of its Reducer its task holds. -/
theorem onReducer_timer (k : Token) (stream : String) {cfg : Aggregator.Config}
    {shardKey : Option ShardId} {op : Reducer.Op BufferedRecord} {a a' : Aggregator.State}
    {closed : Option AggregatedBatch} (htimer : timerOp op = true)
    (h : Aggregator.onReducer cfg shardKey op a = some (a', closed)) :
    inAggregator k stream a' + load (carries k)
        ((timerTask stream shardKey op closed).toList.flatMap Task.work) =
      inAggregator k stream a := by
  have hop := timerOp_adds htimer
  have hsum := inAggregator_onReducer k stream hop.1 h
  have hload : load (carries k) ((timerTask stream shardKey op closed).toList.flatMap Task.work) =
      inBatches k stream closed.toList := by
    cases closed with
    | none => cases op <;> rfl
    | some batch =>
      obtain ⟨r, r', closed', _, hstep, hout⟩ := Aggregator.onReducer_eq_some h
      obtain ⟨_, rfl⟩ := Prod.mk.inj hout
      cases op with
      | fire now scope => simp [timerTask, carries, Work.tokens]
      | wake now scope | cancelled scope =>
        simp [Reducer.step] at hstep
      | add now item | flush now | aclose | dispatched scope => simp [timerOp] at htimer
  rw [hop.2, tokensOf_nil, List.count_nil] at hsum
  omega

/-- **Every step keeps the balance.** -/
theorem Ledger.step {sys : System} {s s' : State} {op : Op} (h : Ledger maxOutstanding s)
    (hs : Sound s) (hstep : s.step sys op = some s') : Ledger maxOutstanding s' := by
  cases (step_turn hstep).2 with
  | refused stream userRecord => exact h
  | entered stream userRecord _ => exact h.spawn hs (fun _ => rfl) rfl rfl
  | flushes => exact h.spawn hs (fun _ => rfl) rfl rfl
  | exits _ =>
    have h' : Ledger maxOutstanding { s with exiting := true } :=
      ⟨h.balance, h.pending, h.resolved, h.resolvedOnce, h.permits, h.outstanding, h.released⟩
    exact h'.spawn ⟨hs.calls, hs.fresh, hs.accepted, hs.failed⟩ (fun _ => rfl) rfl rfl
  | ran hfound _ hexec =>
    exact h.ran hs hfound (exec_next (fun _ hw => (hs.building hfound hw).2) hexec)
  | raised hfound _ hexec =>
    have hraised := exec_raises (fun _ hw => (hs.building hfound hw).2) hexec
    refine h.fail hs hfound hraised.books hraised.pending fun k => ?_
    have := hraised.mass k
    rw [load_append, load_cons]
    omega
  | @reducerTimer stream shardKey op p aggregator closed htimer hp hop =>
    refine h.stages hs (stagesOnly_setPipeline hp rfl) (fun t => timerTask_background) fun k => ?_
    have hset := Shared.mass_setPipeline hp k { p with aggregator }
    have hsum := onReducer_timer k stream htimer hop
    simp only [Pipeline.holds] at hset
    omega
  | @collectorTimer stream op p collector closed _ _ _ hadds hop hp hreducer hbatch =>
    obtain ⟨rfl, _, hspawn, hload⟩ := collectorBatch_next hbatch
    refine h.stages hs (stagesOnly_setPipeline hp rfl) (fun t ht => (hspawn t ht).1) fun k => ?_
    have hset := Shared.mass_setPipeline hp k { p with collector }
    have hsum := inCollector_step k stream hop hreducer
    simp only [Pipeline.holds] at hset
    rw [hadds, inBatches_nil] at hsum
    rw [hload]
    omega
  | @overrun stream op p collector closed _ left hadds hop hp hreducer hbatch =>
    obtain ⟨rfl, _, hload⟩ := collectorBatch_raises hbatch
    have hstages : StagesOnly s.shared (s.shared.setPipeline stream { p with collector }) :=
      stagesOnly_setPipeline hp rfl
    refine h.keeps s.shared.returned rfl hstages.pending (fun k => ?_) rfl rfl
    have hset := Shared.mass_setPipeline hp k { p with collector }
    have hsum := inCollector_step k stream hop hreducer
    simp only [Pipeline.holds] at hset
    rw [hadds, inBatches_nil] at hsum
    have hlost := hload k
    rw [load_carries] at hlost
    simp only [Shared.mass, State.weigh, List.count_append] at hset ⊢
    omega
  | answered _ => exact h.answers _
  | cancelled hfound _ _ => exact h.fail hs hfound rfl rfl fun _ => rfl
  | @stopped id stream work p hfound hp _ =>
    have hsettled : Settled work := by
      have hcall := hs.calls id
      rw [hfound] at hcall
      cases hcall with
      | background ht _ => exact ht.settled
    have herase := fun weight => Dict.total_of_get? (fun _ (t : Task) => load weight t.work) hfound
    refine h.keeps s.shared.returned rfl rfl (fun k => ?_) ?_ ?_
    · have := herase (carries k)
      simp only [Shared.mass, State.weigh, List.count_append, load_carries] at this ⊢
      omega
    · have := herase granted
      rw [load_settled granted_settled hsettled, Nat.zero_add] at this
      exact this.symm
    · have := herase resumed
      rw [load_settled resumed_settled hsettled, Nat.zero_add] at this
      exact this.symm

theorem start_ledger {sys : System} {s : State} (h : State.start sys s) :
    Ledger sys.cfg.maxOutstandingRecords s := by
  rw [h]
  refine ⟨fun k => rfl, fun k => ?_, by simp, by simp, ?_, rfl, by simp [failedHolding]⟩
  · simp [Shared.pendingAt]
  · simp [State.weigh, lateFailures]

/-- The balance holds in every state of every run. -/
theorem reachable_ledger {sys : System} {ok : State → Op → Prop} {s : State}
    (h : Reachable (State.start sys) (State.step sys) ok s) :
    Sound s ∧ Ledger sys.cfg.maxOutstandingRecords s := by
  have hstart : ∀ s, State.start sys s → Sound s ∧ Ledger sys.cfg.maxOutstandingRecords s :=
    fun _ h => ⟨start_sound h, start_ledger h⟩
  exact h.invariant hstart fun _ _ _ hinv _ hstep =>
    ⟨hinv.1.step hstep, hinv.2.step hinv.1 hstep⟩

end Producer

end Aiokpl
