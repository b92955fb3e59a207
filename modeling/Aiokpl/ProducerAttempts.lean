import Aiokpl.ProducerCancellation
import Aiokpl.ProducerHoldings

/-!
# What the attempts of a record count

A `Chronicle` is a producer with the history of a run: the records that each
`PutRecords` call carried, those of each batch that expired in the Limiter's queue,
those that a reply refused with the code of an expired record, and the results.
The Retrier adds one attempt for each of the first two, and one more to a record it
gives up past its TTL.
-/

namespace Aiokpl

open Lib Aggregation

namespace Producer

/-! ## Histories -/

/-- A reply may itself refuse a record with the code of an expired one. -/
def saysExpired : Retrier.Verdict → Bool
  | .accepted _ _ => false
  | .refused code _ => code == Retrier.expiredErrorCode

/-- The records of the `PutRecords` call that this frame makes. -/
def Work.sends : Work → List Token
  | .send stream batch => tokensOf stream (Retrier.records batch)
  | _ => []

/-- The records of a batch that has expired in the Limiter's queue. -/
def Work.expiries : Work → List Token
  | .limiterExpired stream batch => tokensOf stream batch.items
  | _ => []

/-- The records that the reply refuses as expired. -/
def Work.refusals (sys : System) (input : Input) : Work → List Token
  | .inFlight stream _ batch => tokensOf stream
      (((Retrier.verdicts sys.u input.env batch input.reply).filter fun bv =>
        saysExpired bv.2).map Prod.fst)
  | _ => []

def Work.results : Work → List (Token × RecordResult)
  | .callback stream (.onFinish buffered result) => [((stream, buffered.ident), result)]
  | _ => []

/-- A producer and its history. -/
structure Chronicle where
  producer : State
  sends : List Token := []
  expiries : List Token := []
  refusals : List Token := []
  results : List (Token × RecordResult) := []

/-- What is noted of a frame that has run. -/
def Chronicle.note (sys : System) (input : Input) (w : Work) (c : Chronicle) : Chronicle :=
  { c with
    sends := c.sends ++ w.sends
    expiries := c.expiries ++ w.expiries
    refusals := c.refusals ++ w.refusals sys input
    results := c.results ++ w.results }

def Chronicle.step (sys : System) (c : Chronicle) (op : Op) : Option Chronicle :=
  (c.producer.step sys op).map fun producer =>
    match c.producer.ran sys op with
    | none => { c with producer }
    | some (input, w) => { c.note sys input w with producer }

def Chronicle.start (sys : System) (c : Chronicle) : Prop :=
  c = { producer := { shared := { permits := sys.cfg.maxOutstandingRecords } } }

/-! ## Counting attempts -/

/-- The entries with the code of an expired record. -/
def expiredEntries (attempts : List Attempt) : ℕ :=
  attempts.countP fun a => a.errorCode = some Retrier.expiredErrorCode

/-- The record was given up past its TTL: the last attempt is the one that
    `_retry_not_expired` adds then. -/
def endedByTtl (result : RecordResult) : Bool :=
  result.attempts.getLast?.any fun a => a = Retrier.expiredAttempt a.startedAt

def lastCode (result : RecordResult) : Option String :=
  result.attempts.getLast?.bind Attempt.errorCode

/-- A result with an attempt for each trip, and with one more if the TTL ended it;
    `marks` of the attempts before the last have the code of an expired record. -/
structure Recorded (trips marks : ℕ) (result : RecordResult) : Prop where
  length : result.attempts.length = trips + if endedByTtl result then 1 else 0
  early : expiredEntries result.attempts.dropLast = marks
  last : lastCode result = some Retrier.expiredErrorCode ↔ endedByTtl result = true

/-- A record in a request has no attempt for it yet, and gets none if it is not judged. -/
def Holding.Counts (trips marks : ℕ) : Holding → Prop
  | .waiting b => b.attempts.length = trips ∧ expiredEntries b.attempts = marks
  | .sent b => b.attempts.length + 1 = trips ∧ expiredEntries b.attempts = marks
  | .ended _ result => Recorded trips marks result
  | .unjudged b => b.attempts.length + 1 = trips

theorem expiredEntries_concat (attempts : List Attempt) (a : Attempt) :
    expiredEntries (attempts ++ [a]) =
      expiredEntries attempts + if a.errorCode = some Retrier.expiredErrorCode then 1 else 0 := by
  simp [expiredEntries, List.countP_append, List.countP_singleton]

/-- A result of which no TTL is the cause. -/
theorem recorded_answer {result : RecordResult} {attempts : List Attempt} {a : Attempt}
    (h : result.attempts = attempts ++ [a]) (hcode : a.errorCode ≠ some Retrier.expiredErrorCode) :
    Recorded (attempts.length + 1) (expiredEntries attempts) result := by
  have hget : result.attempts.getLast? = some a := by rw [h, List.getLast?_concat]
  have hended : endedByTtl result = false := by
    have hne : a ≠ Retrier.expiredAttempt a.startedAt := fun heq => hcode (heq ▸ rfl)
    simp [endedByTtl, hget, hne]
  refine ⟨?_, ?_, ?_⟩
  · rw [h, hended, List.length_append, List.length_singleton]
    rfl
  · rw [h, List.dropLast_concat]
  · rw [hended, lastCode, hget]
    simpa using hcode

/-- A result of which the TTL is the cause. -/
theorem recorded_ttl {result : RecordResult} {attempts : List Attempt} {now : Time}
    (h : result.attempts = attempts ++ [Retrier.expiredAttempt now]) :
    Recorded attempts.length (expiredEntries attempts) result := by
  have hget : result.attempts.getLast? = some (Retrier.expiredAttempt now) := by
    rw [h, List.getLast?_concat]
  have hended : endedByTtl result = true := by
    simp [endedByTtl, hget, Retrier.expiredAttempt]
  refine ⟨?_, ?_, ?_⟩
  · rw [h, hended, List.length_append, List.length_singleton]
    rfl
  · rw [h, List.dropLast_concat]
  · rw [hended, lastCode, hget]
    simp [Retrier.expiredAttempt]

/-- **A callback of the Retrier** counts one attempt more, which has the code of an
    expired record if the verdict says so. -/
theorem judged_counts {cfg : Retrier.Config} {outcome : SendOutcome} {b : BufferedRecord}
    {v : Retrier.Verdict} {call : Retrier.Call} {held : Holding}
    (h : Retrier.Judged cfg outcome b v call) (hheld : callHolding call = some held) :
    held.ident = b.ident ∧ held.Counts (b.attempts.length + 1)
      (expiredEntries b.attempts + if saysExpired v then 1 else 0) := by
  cases h with
  | accepted perRecord =>
    obtain rfl := Option.some.inj hheld
    refine ⟨rfl, ?_⟩
    simp only [saysExpired, Bool.false_eq_true, if_false, Nat.add_zero]
    exact recorded_answer rfl (by simp)
  | throttled message =>
    obtain rfl := Option.some.inj hheld
    refine ⟨rfl, ?_⟩
    have hne : Retrier.provisionedThroughputExceeded ≠ Retrier.expiredErrorCode := by decide
    have hcode : saysExpired (.refused Retrier.provisionedThroughputExceeded message) = false :=
      beq_false_of_ne hne
    simp only [hcode, Bool.false_eq_true, if_false, Nat.add_zero]
    exact recorded_answer rfl fun hsome => hne (Option.some.inj hsome)
  | refused code message now =>
    -- the attempt of the refusal comes first, whatever the TTL says
    have hearly : expiredEntries (b.attempts ++ [Retrier.failedAttempt outcome code message]) =
        expiredEntries b.attempts + if saysExpired (.refused code message) then 1 else 0 := by
      rw [expiredEntries_concat]
      simp [Retrier.failedAttempt, saysExpired]
    have hlength : (b.attempts ++ [Retrier.failedAttempt outcome code message]).length =
        b.attempts.length + 1 := by
      rw [List.length_append, List.length_singleton]
    rw [← hearly, ← hlength]
    unfold Retrier.retryNotExpired at hheld
    dsimp only at hheld
    split at hheld
    · obtain rfl := Option.some.inj hheld
      exact ⟨rfl, recorded_ttl rfl⟩
    · obtain rfl := Option.some.inj hheld
      exact ⟨rfl, rfl, rfl⟩

/-! ## The law of a run -/

def Chronicle.trips (k : Token) (c : Chronicle) : ℕ := c.sends.count k + c.expiries.count k

def Chronicle.marks (k : Token) (c : Chronicle) : ℕ := c.expiries.count k + c.refusals.count k

/-- Every record that the producer has, and every result, counts its trips. -/
structure Chronicle.Counted (c : Chronicle) : Prop where
  finished : c.results.map Prod.fst = c.producer.shared.finished
  known : ∀ k, k ∈ c.sends ∨ k ∈ c.expiries ∨ k ∈ c.refusals → k ∈ c.producer.shared.accepted
  held : ∀ x, c.producer.Has x →
    x.2.Counts (c.trips (tokenOf x)) (c.marks (tokenOf x))
  recorded : ∀ k result, (k, result) ∈ c.results → Recorded (c.trips k) (c.marks k) result

/-- What is noted of a frame is about the records it has. -/
theorem noted_tokens (sys : System) (input : Input) (w : Work) {k : Token}
    (h : k ∈ w.sends ∨ k ∈ w.expiries ∨ k ∈ w.refusals sys input) : k ∈ w.tokens := by
  cases w with
  | send stream batch => simpa [Work.sends, Work.expiries, Work.refusals, Work.tokens] using h
  | limiterExpired stream batch =>
    simpa [Work.sends, Work.expiries, Work.refusals, Work.tokens] using h
  | inFlight stream startedAt batch =>
    simp only [Work.sends, Work.expiries, Work.refusals, List.not_mem_nil, false_or] at h
    obtain ⟨b, hb, rfl⟩ := List.mem_map.mp h
    obtain ⟨bv, hbv, rfl⟩ := List.mem_map.mp hb
    apply List.mem_map_of_mem
    rw [← Retrier.verdicts_fst sys.u input.env batch input.reply]
    exact List.mem_map_of_mem (List.mem_of_mem_filter hbv)
  | _ => simp [Work.sends, Work.expiries, Work.refusals] at h

/-- Nothing is noted of the records of a frame at which nothing happens to them. -/
theorem noted_nil (sys : System) (input : Input) {w : Work} (h : w.settles = false) :
    w.sends = [] ∧ w.expiries = [] ∧ w.refusals sys input = [] ∧ w.results = [] := by
  cases w with
  | callback stream call =>
    cases call with
    | onFinish buffered result => simp [Work.settles] at h
    | _ => exact ⟨rfl, rfl, rfl, rfl⟩
  | send | limiterExpired | inFlight => simp [Work.settles] at h
  | _ => exact ⟨rfl, rfl, rfl, rfl⟩

theorem results_finishes (w : Work) : w.results.map Prod.fst = w.finishes := by
  cases w with
  | callback stream call => cases call <;> rfl
  | _ => rfl

section Note

variable (sys : System) (input : Input) {w : Work} {c : Chronicle} {k : Token}

theorem trips_note : (c.note sys input w).trips k =
    c.trips k + w.sends.count k + w.expiries.count k := by
  simp only [Chronicle.trips, Chronicle.note, List.count_append]
  omega

theorem marks_note : (c.note sys input w).marks k =
    c.marks k + w.expiries.count k + (w.refusals sys input).count k := by
  simp only [Chronicle.marks, Chronicle.note, List.count_append]
  omega

/-- The history of a record that the frame does not have stays as it was. -/
theorem note_other (h : k ∉ w.tokens) :
    (c.note sys input w).trips k = c.trips k ∧ (c.note sys input w).marks k = c.marks k := by
  have hsends : w.sends.count k = 0 :=
    List.count_eq_zero.mpr fun hmem => h (noted_tokens sys input w (Or.inl hmem))
  have hexpiries : w.expiries.count k = 0 :=
    List.count_eq_zero.mpr fun hmem => h (noted_tokens sys input w (Or.inr (Or.inl hmem)))
  have hrefusals : (w.refusals sys input).count k = 0 :=
    List.count_eq_zero.mpr fun hmem => h (noted_tokens sys input w (Or.inr (Or.inr hmem)))
  rw [trips_note, marks_note, hsends, hexpiries, hrefusals]
  exact ⟨rfl, rfl⟩

/-- So does that of a record to which nothing happens. -/
theorem note_same (h : w.settles = false) :
    (c.note sys input w).trips k = c.trips k ∧ (c.note sys input w).marks k = c.marks k := by
  obtain ⟨hsends, hexpiries, hrefusals, _⟩ := noted_nil sys input h
  rw [trips_note, marks_note, hsends, hexpiries, hrefusals]
  exact ⟨rfl, rfl⟩

end Note

/-- One of a list whose image occurs once is counted by whether it is kept. -/
theorem count_map_filter {α β : Type} [BEq β] [LawfulBEq β] (f : α → β)
    (keep : α → Bool) {xs : List α} {x : α} (hx : x ∈ xs)
    (honce : (xs.map f).count (f x) ≤ 1) :
    ((xs.filter keep).map f).count (f x) = if keep x then 1 else 0 := by
  have hsplit : ((xs.filter keep).map f).count (f x) +
      ((xs.filter fun y => !keep y).map f).count (f x) = (xs.map f).count (f x) := by
    rw [← List.count_append, ← List.map_append]
    exact ((List.filter_append_perm keep xs).map f).count_eq (f x)
  by_cases hkeep : keep x = true
  · have hmem : f x ∈ (xs.filter keep).map f :=
      List.mem_map_of_mem (List.mem_filter.mpr ⟨hx, hkeep⟩)
    have hpos := List.count_pos_iff.mpr hmem
    rw [if_pos hkeep]
    omega
  · have hmem : f x ∈ (xs.filter fun y => !keep y).map f :=
      List.mem_map_of_mem (List.mem_filter.mpr ⟨hx, by simpa using hkeep⟩)
    have hpos := List.count_pos_iff.mpr hmem
    rw [if_neg hkeep]
    omega

theorem count_eq_one {k : Token} {ks : List Token} (hmem : k ∈ ks) (honce : ks.count k ≤ 1) :
    ks.count k = 1 :=
  le_antisymm honce (List.count_pos_iff.mpr hmem)

/-- **What a frame hands on** counts what has been noted of it, if what it had did. -/
theorem handed_counts {sys : System} {input : Input} {w : Work} {c : Chronicle} {x : Held}
    (hheld : ∀ y ∈ w.holdings, y.2.Counts (c.trips (tokenOf y)) (c.marks (tokenOf y)))
    (hfresh : ∀ call, w.call? = some call →
      c.trips (call.stream, call.number) = 0 ∧ c.marks (call.stream, call.number) = 0)
    (honce : ∀ k, w.tokens.count k ≤ 1) (hx : Handed sys input w x) :
    x.2.Counts ((c.note sys input w).trips (tokenOf x))
      ((c.note sys input w).marks (tokenOf x)) := by
  cases hx with
  | same hw hmem =>
    obtain ⟨htrips, hmarks⟩ := note_same sys input (c := c) (k := tokenOf x) hw
    rw [htrips, hmarks]
    exact hheld x hmem
  | @registered _ call buffered hcall hident hattempts =>
    have hw : w.settles = false := by
      cases w <;> first | rfl | simp [Work.call?] at hcall
    have htoken : tokenOf (call.stream, .waiting buffered) = (call.stream, call.number) := by
      rw [← hident]
      rfl
    obtain ⟨htrips, hmarks⟩ := hfresh call hcall
    obtain ⟨htrips', hmarks'⟩ := note_same sys input (c := c)
      (k := (call.stream, call.number)) hw
    rw [htoken, htrips', hmarks', htrips, hmarks]
    exact ⟨by rw [hattempts]; rfl, by rw [hattempts]; rfl⟩
  | @sent stream batch b hb =>
    have hmem : (stream, b.ident) ∈ tokensOf stream (Retrier.records batch) :=
      List.mem_map_of_mem hb
    obtain ⟨hlength, hexpired⟩ := hheld (stream, .waiting b) (List.mem_map_of_mem hb)
    have hone := count_eq_one hmem (honce (stream, b.ident))
    refine ⟨?_, ?_⟩
    · rw [trips_note]
      simp only [Work.sends, Work.expiries, List.count_nil, Nat.add_zero]
      exact congrArg₂ (· + ·) hlength hone.symm
    · rw [marks_note]
      exact hexpired
  | @expired stream batch b call held hb hjudged hcall =>
    obtain ⟨hident, hcounts⟩ := judged_counts hjudged hcall
    have htoken : tokenOf (stream, held) = (stream, b.ident) := by
      rw [← hident]
      rfl
    have hmem : (stream, b.ident) ∈ tokensOf stream batch.items := List.mem_map_of_mem hb
    obtain ⟨hlength, hexpired⟩ := hheld (stream, .waiting b) (List.mem_map_of_mem hb)
    have hone := count_eq_one hmem (honce (stream, b.ident))
    rw [hlength, hexpired] at hcounts
    rw [htoken, trips_note, marks_note]
    simp only [Work.sends, Work.expiries, Work.refusals, List.count_nil, Nat.add_zero, hone]
    exact hcounts
  | @answered stream startedAt batch outcome b v call held hbv hjudged hcall =>
    obtain ⟨hident, hcounts⟩ := judged_counts hjudged hcall
    have htoken : tokenOf (stream, held) = (stream, b.ident) := by
      rw [← hident]
      rfl
    have hfst := Retrier.verdicts_fst sys.u input.env batch input.reply
    have hb : b ∈ Retrier.records batch := by
      rw [← hfst]
      exact List.mem_map_of_mem hbv
    obtain ⟨hlength, hexpired⟩ := hheld (stream, .sent b) (List.mem_map_of_mem hb)
    have hrefused : ((Work.inFlight stream startedAt batch).refusals sys input).count
        (stream, b.ident) = if saysExpired v then 1 else 0 := by
      have htokens : (Retrier.verdicts sys.u input.env batch input.reply).map
          (fun bv => (stream, bv.1.ident)) = (Work.inFlight stream startedAt batch).tokens := by
        rw [Work.tokens, ← hfst, tokensOf, List.map_map]
        rfl
      have hcount := count_map_filter (fun bv : BufferedRecord × Retrier.Verdict =>
        (stream, bv.1.ident)) (fun bv => saysExpired bv.2) hbv (by rw [htokens]; exact honce _)
      rw [← hcount, Work.refusals, tokensOf, List.map_map]
      rfl
    rw [hlength, hexpired] at hcounts
    rw [htoken, trips_note, marks_note, hrefused]
    exact hcounts
  | @unjudged stream startedAt batch b hb =>
    rw [trips_note]
    exact (hheld (stream, .sent b) (List.mem_map_of_mem hb)).1

/-- The result that a frame hands over is recorded as the frame has it. -/
theorem result_recorded {sys : System} {input : Input} {w : Work} {c : Chronicle} {k : Token}
    {result : RecordResult}
    (hheld : ∀ y ∈ w.holdings, y.2.Counts (c.trips (tokenOf y)) (c.marks (tokenOf y)))
    (h : (k, result) ∈ w.results) :
    Recorded ((c.note sys input w).trips k) ((c.note sys input w).marks k) result := by
  cases w with
  | callback stream call =>
    cases call with
    | onFinish buffered result' =>
      obtain ⟨rfl, rfl⟩ := Prod.mk.inj (List.mem_singleton.mp h)
      rw [trips_note, marks_note]
      exact hheld (stream, .ended buffered result) (List.mem_singleton.mpr rfl)
    | _ => cases h
  | _ => cases h

/-- A record that has not been registered has no history. -/
theorem Chronicle.Counted.fresh {c : Chronicle} (h : c.Counted) {k : Token}
    (hnew : k ∉ c.producer.shared.accepted) : c.trips k = 0 ∧ c.marks k = 0 := by
  have hzero : ∀ ks : List Token, (∀ k ∈ ks, k ∈ c.producer.shared.accepted) → ks.count k = 0 :=
    fun ks hks => List.count_eq_zero.mpr fun hmem => hnew (hks k hmem)
  rw [Chronicle.trips, Chronicle.marks, hzero c.sends fun k hk => h.known k (Or.inl hk),
    hzero c.expiries fun k hk => h.known k (Or.inr (Or.inl hk)),
    hzero c.refusals fun k hk => h.known k (Or.inr (Or.inr hk))]
  exact ⟨rfl, rfl⟩

/-- A step of the producer, and what is noted of it. -/
theorem step_cases {sys : System} {c c' : Chronicle} {op : Op} (h : c.step sys op = some c') :
    ∃ producer, c.producer.step sys op = some producer ∧
      ((c.producer.ran sys op = none ∧ c' = { c with producer }) ∨
        ∃ input w, c.producer.ran sys op = some (input, w) ∧
          c' = { c.note sys input w with producer }) := by
  obtain ⟨producer, hstep, rfl⟩ := Option.map_eq_some_iff.mp h
  refine ⟨producer, hstep, ?_⟩
  cases hran : c.producer.ran sys op with
  | none => exact Or.inl ⟨rfl, rfl⟩
  | some ran => exact Or.inr ⟨ran.1, ran.2, rfl, rfl⟩

section Step

variable {maxOutstanding : Nat} {sys : System} {c : Chronicle} {op : Op} {producer : State}

/-- A step that runs no frame to its end notes nothing. -/
theorem Chronicle.Counted.step_quiet (h : c.Counted) (hs : Sound c.producer)
    (hstep : c.producer.step sys op = some producer) (hran : c.producer.ran sys op = none) :
    Chronicle.Counted { c with producer } := by
  obtain ⟨haccepted, hfinished⟩ := step_history hs hstep
  rw [hran] at hfinished
  refine ⟨?_, fun k hk => haccepted.subset (h.known k hk), fun x hx => ?_, h.recorded⟩
  · rw [hfinished]
    simpa using h.finished
  · rcases step_has hstep hx with ⟨_, hbefore⟩ | ⟨_, _, _, _, _, _, hsome, _⟩
    · exact h.held x hbefore
    · rw [hran] at hsome
      cases hsome

/-- A step that runs a frame notes what becomes of the records that it has. -/
theorem Chronicle.Counted.step_ran (h : c.Counted) (hs : Sound c.producer)
    (hledger : Ledger maxOutstanding c.producer) {input : Input} {w : Work}
    (hstep : c.producer.step sys op = some producer)
    (hran : c.producer.ran sys op = some (input, w)) :
    Chronicle.Counted { c.note sys input w with producer } := by
  obtain ⟨haccepted, hfinished⟩ := step_history hs hstep
  rw [hran, Option.toList_some, List.flatMap_singleton] at hfinished
  obtain ⟨id, kind, rest, hfound⟩ := ran_eq_some hran
  have hheld := h.held
  have hhas : ∀ y ∈ w.holdings, c.producer.Has y := fun y hy =>
    Or.inr ⟨id, _, hfound, List.mem_append_left _ hy⟩
  have hlive : ∀ k ∈ w.tokens, k ∈ c.producer.shared.accepted ∧ k ∉ c.producer.shared.finished := by
    intro k hk
    rw [w.tokens_eq] at hk
    obtain ⟨y, hy, rfl⟩ := List.mem_map.mp hk
    exact hledger.live_of_has hs (hhas y hy)
  refine ⟨?_, ?_, ?_, ?_⟩
  · rw [hfinished, ← h.finished, ← results_finishes, ← List.map_append]
    rfl
  · intro k hk
    apply haccepted.subset
    simp only [Chronicle.note, List.mem_append] at hk
    by_cases hnoted : k ∈ w.sends ∨ k ∈ w.expiries ∨ k ∈ w.refusals sys input
    · exact (hlive k (noted_tokens sys input w hnoted)).1
    · exact h.known k (by tauto)
  · intro x hx
    rcases step_has hstep hx with ⟨hnone, _⟩ | ⟨id', input', kind', w', rest', hfound',
      hsome, hafter⟩
    · rw [hran] at hnone
      cases hnone
    · obtain ⟨rfl, rfl⟩ := Prod.mk.inj (Option.some.inj (hran.symm.trans hsome))
      rcases hafter with hbeside | hhanded
      · obtain ⟨htrips, hmarks⟩ := note_other sys input (c := c)
          (hledger.alone hs hfound' hbeside)
        have hbefore : c.producer.Has x :=
          hbeside.has hfound' fun y hy => List.mem_append_right _ hy
        have hcounts := hheld x hbefore
        rw [← htrips, ← hmarks] at hcounts
        exact hcounts
      · refine handed_counts (fun y hy => hheld y (hhas y hy)) (fun call hcall => ?_)
          (hledger.count_tokens hs hfound) hhanded
        -- the record of a call that is entering has no history yet
        obtain ⟨_, _, rfl, hstanding⟩ := hs.entering hfound hcall
        exact h.fresh fun hmem => hstanding.accepted.mp (List.mem_map.mpr ⟨_, hmem, rfl⟩)
  · intro k result hmem
    rcases List.mem_append.mp hmem with hold | hnew
    · have hdone : k ∈ c.producer.shared.finished := by
        rw [← h.finished]
        exact List.mem_map_of_mem hold
      obtain ⟨htrips, hmarks⟩ := note_other sys input (c := c)
        fun hmem => (hlive k hmem).2 hdone
      have hrecorded := h.recorded k result hold
      rw [← htrips, ← hmarks] at hrecorded
      exact hrecorded
    · exact result_recorded (fun y hy => hheld y (hhas y hy)) hnew

end Step

/-! ## Whole runs -/

theorem start_counted {sys : System} {c : Chronicle} (h : Chronicle.start sys c) :
    State.start sys c.producer ∧ c.Counted := by
  rw [h]
  refine ⟨rfl, rfl, by simp, ?_, by simp⟩
  rintro x (⟨p, hp, _⟩ | ⟨id, t, ht, _⟩)
  · cases hp
  · cases ht

theorem Chronicle.Counted.step {maxOutstanding : Nat} {sys : System} {c c' : Chronicle} {op : Op}
    (h : c.Counted) (hs : Sound c.producer) (hledger : Ledger maxOutstanding c.producer)
    (hstep : c.step sys op = some c') :
    Sound c'.producer ∧ Ledger maxOutstanding c'.producer ∧ c'.Counted := by
  obtain ⟨producer, hproducer, ⟨hran, rfl⟩ | ⟨input, w, hran, rfl⟩⟩ := step_cases hstep
  · exact ⟨hs.step hproducer, hledger.step hs hproducer, h.step_quiet hs hproducer hran⟩
  · exact ⟨hs.step hproducer, hledger.step hs hproducer, h.step_ran hs hledger hproducer hran⟩

theorem reachable_counted {sys : System} {ok : Chronicle → Op → Prop} {c : Chronicle}
    (h : Reachable (Chronicle.start sys) (Chronicle.step sys) ok c) :
    Sound c.producer ∧ Ledger sys.cfg.maxOutstandingRecords c.producer ∧ c.Counted := by
  have hstart : ∀ c, Chronicle.start sys c →
      Sound c.producer ∧ Ledger sys.cfg.maxOutstandingRecords c.producer ∧ c.Counted := by
    intro c hc
    obtain ⟨hproducer, hcounted⟩ := start_counted hc
    exact ⟨start_sound hproducer, start_ledger hproducer, hcounted⟩
  exact h.invariant hstart fun _ _ _ hinv _ hstep => hinv.2.2.step hinv.1 hinv.2.1 hstep

/-- **What the attempts count.**  In every run a finished record has one attempt for
    each `PutRecords` call that carried it, one for each time that its batch expired in
    the Limiter's queue, and one more, with the code of an expired record, if its TTL
    ended it.  Before the last attempt that code stands for the expiries of its batches
    and for refusals under the same code, so that it is at most at the end exactly if
    there was neither. -/
theorem attempts_count_trips (sys : System) (c : Chronicle)
    (h : Reachable (Chronicle.start sys) (Chronicle.step sys) anyStep c) :
    c.results.map Prod.fst = c.producer.shared.finished ∧
      ∀ k result, (k, result) ∈ c.results →
        result.attempts.length = c.sends.count k + c.expiries.count k +
          (if endedByTtl result then 1 else 0) ∧
        (lastCode result = some Retrier.expiredErrorCode ↔ endedByTtl result = true) ∧
        expiredEntries result.attempts.dropLast = c.expiries.count k + c.refusals.count k ∧
        ((∀ a ∈ result.attempts.dropLast, a.errorCode ≠ some Retrier.expiredErrorCode) ↔
          k ∉ c.expiries ∧ k ∉ c.refusals) := by
  obtain ⟨_, _, hcounted⟩ := reachable_counted h
  refine ⟨hcounted.finished, fun k result hmem => ?_⟩
  obtain ⟨hlength, hearly, hlast⟩ := hcounted.recorded k result hmem
  refine ⟨hlength, hlast, hearly, ?_⟩
  have hnone : (∀ a ∈ result.attempts.dropLast, a.errorCode ≠ some Retrier.expiredErrorCode) ↔
      expiredEntries result.attempts.dropLast = 0 := by
    simp [expiredEntries, List.countP_eq_zero]
  rw [hnone, hearly, Chronicle.marks, Nat.add_eq_zero_iff, List.count_eq_zero, List.count_eq_zero]

def begun (sys : System) : Chronicle :=
  { producer := { shared := { permits := sys.cfg.maxOutstandingRecords } } }

/-- What is read when the clock stands at 31, past the TTL of a record put at 0. -/
def late : Input :=
  { now := 31, env := { clock := fun _ => 31, seenAt := fun _ => 31, hashrange := fun _ _ => none }
    drain := fun _ => { now := 31, take := fun _ _ => 31 } }

/-- A record is put, flushed and sent, and its request fails after its TTL. -/
def failsOne : List Op :=
  putsOne ++ .flush :: List.replicate 7 (.run 1 {}) ++
    [.run 3 {}, .run 3 { late with reply := .raised { text := "timed out" } }, .run 3 {}]

theorem attempts_count_trips_late :
    ∃ c, Reachable (Chronicle.start oneStream) (Chronicle.step oneStream) anyStep c ∧
      c.sends = [("a", 0)] ∧ c.expiries = [] ∧
      ∃ result, (("a", 0), result) ∈ c.results ∧
        result.attempts.map Attempt.errorCode = [some "Internal", some "Expired"] ∧
        result.attempts.length = c.sends.count ("a", 0) + c.expiries.count ("a", 0) +
          (if endedByTtl result then 1 else 0) := by
  have hrun : (Lib.exec (Chronicle.step oneStream) anyStep (begun oneStream) failsOne).map
      (fun c => decide (c.sends = [("a", 0)] ∧ c.expiries = [] ∧ c.results.map (fun r =>
        (r.1, r.2.attempts.map Attempt.errorCode)) =
          [(("a", 0), [some "Internal", some "Expired"])])) = some true := by
    decide +kernel
  obtain ⟨c, hexec, hout⟩ := Option.map_eq_some_iff.mp hrun
  obtain ⟨hsends, hexpiries, hresults⟩ := of_decide_eq_true hout
  have hreach : Reachable (Chronicle.start oneStream) (Chronicle.step oneStream) anyStep c :=
    Reachable.exec (.start rfl) hexec
  obtain ⟨⟨k, result⟩, hmem, hresult⟩ := List.mem_map.mp
    (hresults ▸ List.mem_singleton.mpr rfl :
      (("a", 0), [some "Internal", some "Expired"]) ∈ c.results.map fun r =>
        (r.1, r.2.attempts.map Attempt.errorCode))
  obtain ⟨rfl, hcodes⟩ := Prod.mk.inj hresult
  exact ⟨c, hreach, hsends, hexpiries, result, hmem, hcodes,
    ((attempts_count_trips oneStream c hreach).2 _ result hmem).1⟩

/-- No shard is ever granted a token. -/
def stalled : System :=
  { oneStream with
    cfg := { rateLimitRecordsPerSecPerShard := 0, rateLimitBytesPerSecPerShard := 0 } }

/-- A record is put, and its batch closed by a timer and queued at 1. -/
def queuesOne : List Op :=
  putsOne ++ [.reducerTimer "a" none (.wake 1 0), .reducerTimer "a" none (.fire 1 0),
    .run 1 { put := { now := 1, take := fun _ _ => 1, created := 1, enqueued := 1 } }]

/-- A record that has never been sent, and whose batch expires in the Limiter's queue,
    has two attempts, both with the code of an expired record. -/
theorem not_every_attempt_sent :
    ¬ ∀ (sys : System) (c : Chronicle),
      Reachable (Chronicle.start sys) (Chronicle.step sys) anyStep c →
      ∀ k result, (k, result) ∈ c.results →
        result.attempts.length = c.sends.count k + (if endedByTtl result then 1 else 0) ∧
        ∀ a ∈ result.attempts.dropLast, a.errorCode ≠ some Retrier.expiredErrorCode := by
  intro hall
  have hrun : (Lib.exec (Chronicle.step stalled) anyStep (begun stalled)
      (queuesOne ++ List.replicate 3 (.run 2 late))).map
      (fun c => decide (c.sends = [] ∧ c.results.map (fun r =>
        (r.1, r.2.attempts.length)) = [(("a", 0), 2)])) = some true := by
    decide +kernel
  obtain ⟨c, hexec, hout⟩ := Option.map_eq_some_iff.mp hrun
  obtain ⟨hsends, hresults⟩ := of_decide_eq_true hout
  obtain ⟨⟨k, result⟩, hmem, hresult⟩ := List.mem_map.mp
    (hresults ▸ List.mem_singleton.mpr rfl :
      (("a", 0), 2) ∈ c.results.map fun r => (r.1, r.2.attempts.length))
  obtain ⟨rfl, htwo⟩ := Prod.mk.inj hresult
  have hlength := (hall stalled c (Reachable.exec (.start rfl) hexec) _ result hmem).1
  rw [htwo, hsends, List.count_nil] at hlength
  split at hlength <;> omega

end Producer

end Aiokpl
