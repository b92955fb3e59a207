import Aiokpl.Lib.Refill
import Aiokpl.Lib.TransitionSystem
import Aiokpl.Limiter

/-!
# The rate envelope of a shard

Each stream of a shard's token bucket is an account that refills: growth is lazy,
and a stream that is short stops the query before the next one has grown, but the
level a stream would have at the clock is that of the account.  So what drains
admit in any window of time is bounded by the capacity and the rate.
-/

namespace Aiokpl

open Lib

namespace TokenBucket

/-! ## Streams -/

/-- What a query at `t` would find. -/
def levelAt (t : Time) (s : Stream) : ℚ := min s.maxTokens (s.tokens + s.rate * (t - s.last))

/-- The stream is an account whose log is `log`. -/
structure Metered (cap rate clock : ℚ) (log : List (ℚ × ℚ)) (s : Stream) : Prop where
  rate_eq : s.rate = rate
  cap_eq : s.maxTokens = cap
  tokens_le : s.tokens ≤ s.maxTokens
  last_le : s.last ≤ clock
  envelope : Envelope cap rate clock (levelAt clock s) log

variable {cap rate clock : ℚ} {log : List (ℚ × ℚ)} {s : Stream}

theorem Metered.growth_nonneg (h : Metered cap rate clock log s) {t : Time} (ht : clock ≤ t) :
    0 ≤ s.rate * (t - s.last) := by
  have hrate : 0 ≤ s.rate := h.rate_eq ▸ h.envelope.rate_nonneg
  exact mul_nonneg hrate (sub_nonneg.mpr (h.last_le.trans ht))

/-- The level at a later time is the level now, refilled. -/
theorem Metered.levelAt_later (h : Metered cap rate clock log s) {t : Time} (ht : clock ≤ t) :
    levelAt t s = min cap (levelAt clock s + rate * (t - clock)) := by
  have hgrown : 0 ≤ rate * (t - clock) :=
    mul_nonneg h.envelope.rate_nonneg (sub_nonneg.mpr ht)
  have hsplit : s.tokens + s.rate * (t - s.last) =
      s.tokens + s.rate * (clock - s.last) + rate * (t - clock) := by
    rw [← h.rate_eq]
    ring
  rw [levelAt, levelAt, hsplit, h.cap_eq]
  rcases le_total cap (s.tokens + s.rate * (clock - s.last)) with hfull | hfull
  · rw [min_eq_left hfull, min_eq_left (by linarith), min_eq_left (by linarith)]
  · rw [min_eq_right hfull]

theorem Metered.advance (h : Metered cap rate clock log s) {t : Time} (ht : clock ≤ t) :
    Metered cap rate t log s := by
  refine ⟨h.rate_eq, h.cap_eq, h.tokens_le, h.last_le.trans ht, ?_⟩
  rw [h.levelAt_later ht]
  exact h.envelope.wait ht

/-- After a query nothing is left to grow, and the stream holds its level. -/
theorem Metered.grow (h : Metered cap rate clock log s) {t : Time} (ht : clock ≤ t) :
    Metered cap rate t log (grow t s) ∧ (grow t s).rate * (t - (grow t s).last) = 0 ∧
      levelAt t (grow t s) = (grow t s).tokens := by
  have hlater := h.advance ht
  by_cases hgrows : s.rate * (t - s.last) > 0
  · have hlevel : levelAt t (TokenBucket.grow t s) = levelAt t s := by
      simp [TokenBucket.grow, hgrows, levelAt]
    refine ⟨⟨?_, ?_, ?_, ?_, ?_⟩, ?_, ?_⟩
    · simpa [TokenBucket.grow, hgrows] using h.rate_eq
    · simpa [TokenBucket.grow, hgrows] using h.cap_eq
    · simp [TokenBucket.grow, hgrows]
    · simp [TokenBucket.grow, hgrows]
    · rw [hlevel]
      exact hlater.envelope
    · simp [TokenBucket.grow, hgrows]
    · rw [hlevel]
      simp [TokenBucket.grow, hgrows, levelAt]
  · have hnone : s.rate * (t - s.last) = 0 := le_antisymm (not_lt.mp hgrows) (h.growth_nonneg ht)
    have hsame : TokenBucket.grow t s = s := by simp [TokenBucket.grow, hgrows]
    rw [hsame]
    refine ⟨hlater, hnone, ?_⟩
    rw [levelAt, hnone, add_zero]
    exact min_eq_right h.tokens_le

theorem Metered.debit (h : Metered cap rate clock log s)
    (hgrown : s.rate * (clock - s.last) = 0) {amount : ℚ} (hnonneg : 0 ≤ amount)
    (hle : amount ≤ s.tokens) :
    Metered cap rate clock (log ++ [(clock, amount)]) { s with tokens := s.tokens - amount } := by
  have htokens := h.tokens_le
  have hlevel : levelAt clock s = s.tokens := by
    rw [levelAt, hgrown, add_zero]
    exact min_eq_right htokens
  have hafter : levelAt clock { s with tokens := s.tokens - amount } = s.tokens - amount := by
    simp only [levelAt, hgrown, add_zero]
    exact min_eq_right (by linarith)
  have hspent := h.envelope.spend hnonneg (hlevel ▸ hle)
  refine ⟨h.rate_eq, h.cap_eq, ?_, h.last_le, ?_⟩
  · change s.tokens - amount ≤ s.maxTokens
    linarith
  · rw [hafter, ← hlevel]
    exact hspent

/-! ## Buckets of two streams -/

/-- The bucket of a shard, with the logs of its two streams. -/
def MeteredPair (recordRate byteRate clock : ℚ) (records bytes : List (ℚ × ℚ))
    (b : TokenBucket) : Prop :=
  ∃ s₀ s₁, b.streams = [s₀, s₁] ∧ Metered recordRate recordRate clock records s₀ ∧
    Metered byteRate byteRate clock bytes s₁

variable {recordRate byteRate : ℚ} {records bytes : List (ℚ × ℚ)} {b b' : TokenBucket}

theorem MeteredPair.advance (h : MeteredPair recordRate byteRate clock records bytes b) {t : Time}
    (ht : clock ≤ t) : MeteredPair recordRate byteRate t records bytes b := by
  obtain ⟨s₀, s₁, hstreams, h₀, h₁⟩ := h
  exact ⟨s₀, s₁, hstreams, h₀.advance ht, h₁.advance ht⟩

/-- **One query.**  A take is logged in both streams, each at its own reading of the
    clock; a refusal leaves both logs as they are. -/
theorem tryTake_metered (h : MeteredPair recordRate byteRate clock records bytes b)
    {read : Nat → Time} (hfirst : clock ≤ read 0) (hsecond : read 0 ≤ read 1) {size : ℚ}
    (hsize : 0 ≤ size) {taken : Bool} (htake : b.tryTake read [1, size] = some (taken, b')) :
    MeteredPair recordRate byteRate (read 1)
      (records ++ if taken then [(read 0, 1)] else [])
      (bytes ++ if taken then [(read 1, size)] else []) b' := by
  obtain ⟨s₀, s₁, hstreams, h₀, h₁⟩ := h
  obtain ⟨hgrown₀, hsettled₀, -⟩ := h₀.grow hfirst
  obtain ⟨hgrown₁, hsettled₁, -⟩ := h₁.grow (hfirst.trans hsecond)
  rcases tryTake_pair hstreams read hsize with ⟨-, hout⟩ | ⟨-, -, hout⟩ | ⟨hrecords, hbytes, hout⟩
  · rw [hout] at htake
    simp only [Option.some.injEq, Prod.mk.injEq] at htake
    obtain ⟨rfl, rfl⟩ := htake
    simp only [Bool.false_eq_true, if_false, List.append_nil]
    exact ⟨_, _, rfl, hgrown₀.advance hsecond, h₁.advance (hfirst.trans hsecond)⟩
  · rw [hout] at htake
    simp only [Option.some.injEq, Prod.mk.injEq] at htake
    obtain ⟨rfl, rfl⟩ := htake
    simp only [Bool.false_eq_true, if_false, List.append_nil]
    exact ⟨_, _, rfl, hgrown₀.advance hsecond, hgrown₁⟩
  · rw [hout] at htake
    simp only [Option.some.injEq, Prod.mk.injEq] at htake
    obtain ⟨rfl, rfl⟩ := htake
    simp only [if_true]
    exact ⟨_, _, rfl, (hgrown₀.debit hsettled₀ zero_le_one hrecords).advance hsecond,
      hgrown₁.debit hsettled₁ hsize hbytes⟩

theorem init_metered {recordRate byteRate : ℚ} (hrecords : 0 ≤ recordRate) (hbytes : 0 ≤ byteRate)
    (now : Time) :
    MeteredPair recordRate byteRate now [] []
      (init now true [(recordRate, recordRate), (byteRate, byteRate)]) := by
  have hfull : ∀ rate : ℚ, 0 ≤ rate →
      Metered rate rate now [] { rate, maxTokens := rate, tokens := rate, last := now } := by
    intro rate hrate
    refine ⟨rfl, rfl, le_rfl, le_rfl, ?_⟩
    simpa [levelAt] using Envelope.full hrate hrate now
  exact ⟨_, _, rfl, hfull _ hrecords, hfull _ hbytes⟩

end TokenBucket

namespace Limiter

open TokenBucket

/-! ## Drains -/

/-- A batch that was admitted, with the two clock readings of the query that let it
    through. -/
structure Admission where
  batch : AggregatedBatch
  recordsAt : Time
  bytesAt : Time

/-- The readings of a drain: those of the k-th query come after those of the one before. -/
structure Readings.Ordered (start finish : Time) (t : Readings) : Prop where
  start_le : start ≤ t.now
  now_le : ∀ k, t.now ≤ t.take k 0
  within : ∀ k, t.take k 0 ≤ t.take k 1
  between : ∀ k, t.take k 1 ≤ t.take (k + 1) 0
  le_finish : ∀ k, t.take k 1 ≤ finish

/-- The k-th batch a drain admits is let through by its k-th query. -/
def admissions (take : Nat → Nat → Time) : (k : Nat) → List AggregatedBatch → List Admission
  | _, [] => []
  | k, batch :: rest =>
    { batch, recordsAt := take k 0, bytesAt := take k 1 } :: admissions take (k + 1) rest

theorem admissions_batches (take : Nat → Nat → Time) :
    ∀ (k : Nat) (batches : List AggregatedBatch),
      (admissions take k batches).map Admission.batch = batches
  | _, [] => rfl
  | k, batch :: rest => congrArg (batch :: ·) (admissions_batches take (k + 1) rest)

/-- The log of the records stream. -/
def recordLog (admitted : List Admission) : List (ℚ × ℚ) := admitted.map fun a => (a.recordsAt, 1)

/-- The log of the bytes stream. -/
def byteLog (admitted : List Admission) : List (ℚ × ℚ) :=
  admitted.map fun a => (a.bytesAt, (a.batch.size : ℚ))

/-- The bucket of a shard has let through these batches. -/
def Accounted (recordRate byteRate clock : ℚ) (admitted : List Admission)
    (b : TokenBucket) : Prop :=
  MeteredPair recordRate byteRate clock (recordLog admitted) (byteLog admitted) b

theorem Accounted.advance {recordRate byteRate clock t : ℚ} {admitted : List Admission}
    {b : TokenBucket} (h : Accounted recordRate byteRate clock admitted b) (ht : clock ≤ t) :
    Accounted recordRate byteRate t admitted b :=
  MeteredPair.advance h ht

/-- **The loop of `drain`**, by recursion on the queue: what holds of the clock, of what
    has been admitted and of the bucket, and is kept while time passes and by every query,
    holds when the loop is over. -/
theorem admitWhile_invariant (inv : Time → List Admission → TokenBucket → Prop) {finish : Time}
    {t : Readings} {start : Time} (hordered : t.Ordered start finish)
    (hlater : ∀ {clock clock' admitted b}, clock ≤ clock' → inv clock admitted b →
      inv clock' admitted b)
    (hquery : ∀ {clock admitted b taken b'} {read : Nat → Time} (batch : AggregatedBatch),
      clock ≤ read 0 → read 0 ≤ read 1 → inv clock admitted b →
      b.tryTake read [1, (batch.size : ℚ)] = some (taken, b') →
      inv (read 1) (admitted ++
        if taken then [{ batch, recordsAt := read 0, bytesAt := read 1 }] else []) b') :
    ∀ (k : Nat) (queue : List Pending) (b : TokenBucket) (clock : Time)
      (admitted : List Admission), clock ≤ t.take k 0 → inv clock admitted b →
      inv finish (admitted ++ admissions t.take k (admitWhile t.take k b queue).1)
        (admitWhile t.take k b queue).2.1
  | k, [], b, clock, admitted, hclock, h => by
    have hfinish := hclock.trans ((hordered.within k).trans (hordered.le_finish k))
    simpa [admitWhile, admissions] using hlater hfinish h
  | k, head :: rest, b, clock, admitted, hclock, h => by
    have hfinish := hclock.trans ((hordered.within k).trans (hordered.le_finish k))
    simp only [admitWhile]
    split
    · rename_i b' htake
      have hstep := hquery head.batch hclock (hordered.within k) h htake
      have hrest := admitWhile_invariant inv hordered hlater hquery (k + 1) rest b' _ _
        (hordered.between k) hstep
      simpa [admissions] using hrest
    · rename_i b' htake
      have hstep := hquery head.batch hclock (hordered.within k) h htake
      simpa [admissions] using hlater (hordered.le_finish k) hstep
    · simpa [admissions] using hlater hfinish h

/-- One query keeps the account. -/
theorem Accounted.query {recordRate byteRate clock : ℚ} {admitted : List Admission}
    {b b' : TokenBucket} (h : Accounted recordRate byteRate clock admitted b) {read : Nat → Time}
    (hfirst : clock ≤ read 0) (hsecond : read 0 ≤ read 1) {taken : Bool} (batch : AggregatedBatch)
    (htake : b.tryTake read [1, (batch.size : ℚ)] = some (taken, b')) :
    Accounted recordRate byteRate (read 1) (admitted ++
      if taken then [{ batch, recordsAt := read 0, bytesAt := read 1 }] else []) b' := by
  have hsize : (0 : ℚ) ≤ (batch.size : ℚ) := Nat.cast_nonneg _
  have hstep := tryTake_metered h hfirst hsecond hsize htake
  cases taken with
  | true => simpa [Accounted, recordLog, byteLog] using hstep
  | false => simpa [Accounted] using hstep

/-- The loop of `drain` keeps the account. -/
theorem admitWhile_accounted {recordRate byteRate finish : ℚ} {t : Readings} {start : Time}
    (hordered : t.Ordered start finish) (k : Nat) (queue : List Pending) (b : TokenBucket)
    (clock : Time) (admitted : List Admission) (hclock : clock ≤ t.take k 0)
    (h : Accounted recordRate byteRate clock admitted b) :
    Accounted recordRate byteRate finish
      (admitted ++ admissions t.take k (admitWhile t.take k b queue).1)
      (admitWhile t.take k b queue).2.1 :=
  admitWhile_invariant (Accounted recordRate byteRate) hordered (fun ht h => h.advance ht)
    (fun batch hfirst hsecond h htake => h.query hfirst hsecond batch htake) k queue b clock
    admitted hclock h

/-! ## Runs of one shard -/

/-- A `ShardLimiter` with the latest reading of its clock and what it was given and
    has handed out. -/
structure ShardRun where
  limiter : ShardLimiter
  clock : Time
  enqueued : List AggregatedBatch := []
  admitted : List Admission := []
  expired : List AggregatedBatch := []

/-- `finish` is no earlier than any reading of the drain. -/
inductive ShardOp
  | enqueue (batch : AggregatedBatch) (expiresAt : Time)
  | drain (t : Readings) (finish : Time)

def ShardRun.step (run : ShardRun) : ShardOp → Option ShardRun
  | .enqueue batch expiresAt =>
    some { run with
      limiter := run.limiter.enqueue batch expiresAt
      enqueued := run.enqueued ++ [batch] }
  | .drain t finish =>
    let out := run.limiter.drain t
    some { run with
      limiter := out.1
      clock := finish
      admitted := run.admitted ++ admissions t.take 0 out.2.admitted
      expired := run.expired ++ out.2.expired }

def ShardRun.start (recordsPerSec bytesPerSec : ℚ) (run : ShardRun) : Prop :=
  ∃ now, run = { limiter := .init recordsPerSec bytesPerSec now, clock := now }

/-- The clock never goes back. -/
def nonDecreasing (run : ShardRun) : ShardOp → Prop
  | .enqueue _ _ => True
  | .drain t finish => t.Ordered run.clock finish

/-- Every batch is waiting, has been admitted, or has expired. -/
def ShardRun.Conserves (run : ShardRun) : Prop :=
  (run.expired ++ run.admitted.map Admission.batch ++ run.limiter.batches).Perm run.enqueued

theorem ShardRun.step_conserves {run run' : ShardRun} {op : ShardOp} (hinv : run.Conserves)
    (h : run.step op = some run') : run'.Conserves := by
  cases op with
  | enqueue batch expiresAt =>
    obtain rfl := Option.some.inj h
    have hqueue := (run.limiter.enqueue_perm batch expiresAt).append_left
      (run.expired ++ run.admitted.map Admission.batch)
    rw [← List.append_assoc] at hqueue
    exact hqueue.trans (List.Perm.append_right _ hinv)
  | drain t finish =>
    obtain rfl := Option.some.inj h
    have hdrain := (run.limiter.drain_perm t).append_left
      (run.expired ++ run.admitted.map Admission.batch)
    refine List.Perm.trans ?_ (hdrain.trans hinv)
    rw [List.perm_iff_count]
    intro x
    simp only [Drained.batches, List.map_append, admissions_batches, List.count_append]
    omega

theorem ShardRun.step_accounted {recordRate byteRate : ℚ} {run run' : ShardRun} {op : ShardOp}
    (hinv : Accounted recordRate byteRate run.clock run.admitted run.limiter.bucket)
    (hop : nonDecreasing run op) (h : run.step op = some run') :
    Accounted recordRate byteRate run'.clock run'.admitted run'.limiter.bucket := by
  cases op with
  | enqueue batch expiresAt =>
    obtain rfl := Option.some.inj h
    exact hinv
  | drain t finish =>
    obtain rfl := Option.some.inj h
    exact admitWhile_accounted hop 0 _ _ _ _ (hop.start_le.trans (hop.now_le 0)) hinv

theorem spentIn_map {α : Type} (time amount : α → ℚ) (t₁ t₂ : ℚ) (xs : List α) :
    spentIn t₁ t₂ (xs.map fun x => (time x, amount x)) =
      ((xs.filter fun x => t₁ ≤ time x ∧ time x ≤ t₂).map amount).sum := by
  rw [spentIn, List.filter_map, List.map_map]
  rfl

/-- **The rate envelope.**  A shard made with rates `R` and `B` admits, in any window
    of time, at most `R` batches plus `R` for each second, and at most `B` bytes plus
    `B` for each second.  A batch counts at the reading of the clock at which its query
    saw the stream in question; where a drain reads one time, that is the time of the
    drain.  Batches that expired are not among those admitted. -/
theorem rate_envelope {R B : ℚ} (hR : 0 ≤ R) (hB : 0 ≤ B) {run : ShardRun}
    (h : Reachable (ShardRun.start R B) ShardRun.step nonDecreasing run) :
    (∀ t₁ t₂, t₁ ≤ t₂ →
      ((run.admitted.filter fun a => t₁ ≤ a.recordsAt ∧ a.recordsAt ≤ t₂).length : ℚ) ≤
          R + R * (t₂ - t₁) ∧
        ((run.admitted.filter fun a => t₁ ≤ a.bytesAt ∧ a.bytesAt ≤ t₂).map
          fun a => (a.batch.size : ℚ)).sum ≤ B + B * (t₂ - t₁)) ∧
      (run.expired ++ run.admitted.map Admission.batch ++ run.limiter.batches).Perm
        run.enqueued := by
  have hstart : ∀ run, ShardRun.start R B run →
      Accounted R B run.clock run.admitted run.limiter.bucket ∧ run.Conserves := by
    intro run hrun
    obtain ⟨now, rfl⟩ := hrun
    exact ⟨init_metered hR hB now, List.Perm.refl _⟩
  have hinv : Accounted R B run.clock run.admitted run.limiter.bucket ∧ run.Conserves :=
    h.invariant hstart fun _ _ _ hinv hop hstep =>
      ⟨ShardRun.step_accounted hinv.1 hop hstep, ShardRun.step_conserves hinv.2 hstep⟩
  obtain ⟨⟨s₀, s₁, _, hrecords, hbytes⟩, hconserves⟩ := hinv
  refine ⟨fun t₁ t₂ hle => ⟨?_, ?_⟩, hconserves⟩
  · have hwindow := hrecords.envelope.window t₁ t₂ hle
    rw [recordLog, spentIn_map] at hwindow
    simpa using hwindow
  · have hwindow := hbytes.envelope.window t₁ t₂ hle
    rwa [byteLog, spentIn_map] at hwindow

/-- A clock that stands still during a drain. -/
def readingsAt (t : Time) : Readings := { now := t, take := fun _ _ => t }

theorem readingsAt_ordered {start t : Time} (h : start ≤ t) : (readingsAt t).Ordered start t :=
  ⟨h, fun _ => le_rfl, fun _ => le_rfl, fun _ => le_rfl, fun _ => le_rfl⟩

def singleton (ident : Nat) : AggregatedBatch :=
  AggregatedBatch.add { predictedShard := none }
    { ident, userRecord := { partitionKey := "pk", data := [] }, deadline := 0, hashKey := 0,
      arrivalTime := 0 }

/-- Three batches at one record per second: one leaves at once, one a second later, and
    one has expired by then. -/
theorem rate_envelope_one_per_second :
    ∃ run, Reachable (ShardRun.start 1 100) ShardRun.step nonDecreasing run ∧
      run.admitted.map (fun a => (a.recordsAt, a.batch.items.map BufferedRecord.ident)) =
        [(0, [0]), (1, [2])] ∧
      run.expired.map (fun b => b.items.map BufferedRecord.ident) = [[1]] ∧
      ((run.admitted.filter fun a => 0 ≤ a.recordsAt ∧ a.recordsAt ≤ 1).length : ℚ) ≤
        1 + 1 * (1 - 0) := by
  have hstart : Reachable (ShardRun.start 1 100) ShardRun.step nonDecreasing
      { limiter := .init 1 100 0, clock := 0 } := .start ⟨0, rfl⟩
  have henqueue : ∀ run batch expiresAt, nonDecreasing run (.enqueue batch expiresAt) :=
    fun _ _ _ => trivial
  have hdrain : ∀ run : ShardRun, ∀ t, run.clock ≤ t →
      nonDecreasing run (.drain (readingsAt t) t) := fun _ _ h => readingsAt_ordered h
  have hfirst := hstart.next (henqueue _ (singleton 0) 30) rfl
  have hsecond := hfirst.next (henqueue _ (singleton 1) 1) rfl
  have hthird := hsecond.next (henqueue _ (singleton 2) 30) rfl
  have hdrained := hthird.next (hdrain _ 0 le_rfl) rfl
  have hrun := hdrained.next (hdrain _ 1 zero_le_one) rfl
  refine ⟨_, hrun, ?_, ?_, ((rate_envelope zero_le_one (by norm_num) hrun).1 0 1 zero_le_one).1⟩
  · decide +kernel
  · decide +kernel

end Limiter

end Aiokpl
