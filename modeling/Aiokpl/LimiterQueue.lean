import Aiokpl.Lib.LongestPrefix
import Aiokpl.LimiterRates

/-!
# The queue of a shard

Every batch that enters a shard's queue leaves it once, or is still there.  A drain
first takes out what has expired, free of charge, and then the longest prefix of the
rest that the bucket pays for: a query that succeeds debits both streams, and reading
the clock again at the same time grows neither.
-/

namespace Aiokpl

open Lib

namespace TokenBucket

/-! ## Queries at one time -/

/-- What `available` answers; nothing where there is no such stream. -/
def tokensAt (now : Time) (idx : Nat) (b : TokenBucket) : ℚ :=
  ((b.available now idx).map Prod.fst).getD 0

/-- One stream of records and one of bytes. -/
def IsPair (b : TokenBucket) : Prop := ∃ records bytes, b.streams = [records, bytes]

theorem tokensAt_pair (now : Time) {b : TokenBucket} {records bytes : Stream}
    (h : b.streams = [records, bytes]) :
    b.tokensAt now 0 = (grow now records).tokens ∧ b.tokensAt now 1 = (grow now bytes).tokens := by
  simp [tokensAt, available, h]

/-- A query at `now` that both streams hold enough for leaves each that much less. -/
theorem tryTake_enough {now : Time} {b : TokenBucket} (hpair : b.IsPair) {size : ℚ}
    (hsize : 0 ≤ size) (henough : 1 ≤ b.tokensAt now 0 ∧ size ≤ b.tokensAt now 1) :
    ∃ b', b.tryTake (fun _ => now) [1, size] = some (true, b') ∧ IsPair b' ∧
      b'.tokensAt now 0 = b.tokensAt now 0 - 1 ∧ b'.tokensAt now 1 = b.tokensAt now 1 - size := by
  rcases hpair with ⟨records, bytes, hstreams⟩
  rcases tokensAt_pair now hstreams with ⟨h₀, h₁⟩
  rw [h₀, h₁] at henough ⊢
  rcases tryTake_pair hstreams (fun _ => now) hsize with
    ⟨hshort, -⟩ | ⟨-, hshort, -⟩ | ⟨-, -, htake⟩
  · exact absurd henough.1 (not_le.mpr hshort)
  · exact absurd henough.2 (not_le.mpr hshort)
  · refine ⟨_, htake, ⟨_, _, rfl⟩, ?_, ?_⟩
    · simp [tokensAt, available, debit, grow_debited]
    · simp [tokensAt, available, debit, grow_debited]

/-- A query at `now` that a stream is short of takes nothing from either. -/
theorem tryTake_short {now : Time} {b : TokenBucket} (hpair : b.IsPair) {size : ℚ}
    (hsize : 0 ≤ size) (hshort : ¬ (1 ≤ b.tokensAt now 0 ∧ size ≤ b.tokensAt now 1)) :
    ∃ b', b.tryTake (fun _ => now) [1, size] = some (false, b') ∧ IsPair b' ∧
      b'.tokensAt now 0 = b.tokensAt now 0 ∧ b'.tokensAt now 1 = b.tokensAt now 1 := by
  rcases hpair with ⟨records, bytes, hstreams⟩
  rcases tokensAt_pair now hstreams with ⟨h₀, h₁⟩
  rw [h₀, h₁] at hshort ⊢
  rcases tryTake_pair hstreams (fun _ => now) hsize with
    ⟨-, htake⟩ | ⟨-, -, htake⟩ | ⟨hrecords, hbytes, -⟩
  · refine ⟨_, htake, ⟨_, _, rfl⟩, ?_, ?_⟩
    · simp [tokensAt, available, grow_grow]
    · simp [tokensAt, available]
  · refine ⟨_, htake, ⟨_, _, rfl⟩, ?_, ?_⟩
    · simp [tokensAt, available, grow_grow]
    · simp [tokensAt, available, grow_grow]
  · exact absurd ⟨hrecords, hbytes⟩ hshort

end TokenBucket

namespace Limiter

open TokenBucket

/-! ## What a drain admits -/

/-- The bytes of queued batches. -/
def bytesOf (ps : List Pending) : ℚ := (ps.map fun p => (p.batch.size : ℚ)).sum

/-- So many records and bytes pay for all of `ps`; nothing is due for no batch. -/
def Affords (records bytes : ℚ) (ps : List Pending) : Prop :=
  ps ≠ [] → (ps.length : ℚ) ≤ records ∧ bytesOf ps ≤ bytes

theorem bytesOf_nonneg (ps : List Pending) : 0 ≤ bytesOf ps := by
  refine List.sum_nonneg ?_
  intro x hx
  rcases List.mem_map.mp hx with ⟨p, -, rfl⟩
  exact Nat.cast_nonneg _

theorem affords_cons {records bytes : ℚ} {p : Pending} {ps : List Pending} :
    Affords records bytes (p :: ps) ↔
      (1 ≤ records ∧ (p.batch.size : ℚ) ≤ bytes) ∧
        Affords (records - 1) (bytes - p.batch.size) ps := by
  have hlength : (0 : ℚ) ≤ ps.length := Nat.cast_nonneg _
  have hbytes := bytesOf_nonneg ps
  have hsum : bytesOf (p :: ps) = p.batch.size + bytesOf ps := by simp [bytesOf]
  have hcount : ((p :: ps).length : ℚ) = ps.length + 1 := by simp
  constructor
  · intro h
    have hall := h (by simp)
    rw [hsum, hcount] at hall
    refine ⟨⟨by linarith, by linarith⟩, fun _ => ⟨by linarith, by linarith⟩⟩
  · rintro ⟨hhead, hrest⟩ -
    rw [hsum, hcount]
    by_cases hps : ps = []
    · subst hps
      have hnone : bytesOf [] = 0 := rfl
      rw [hnone]
      exact ⟨by simpa using hhead.1, by linarith⟩
    · have hall := hrest hps
      exact ⟨by linarith, by linarith⟩

/-- `p` is the longest prefix of `queue` that the bucket pays for at `now`, `queue'` is
    the rest of it, and `b'` the bucket after the payment. -/
structure AdmitsPrefix (now : Time) (b b' : TokenBucket)
    (queue p queue' : List Pending) : Prop where
  longest : IsLongestPrefix (Affords (b.tokensAt now 0) (b.tokensAt now 1)) queue p
  rest : p ++ queue' = queue
  records : b'.tokensAt now 0 = b.tokensAt now 0 - p.length
  bytes : b'.tokensAt now 1 = b.tokensAt now 1 - bytesOf p

/-- A head that the bucket does not pay for blocks the queue. -/
theorem AdmitsPrefix.blocked {now : Time} {b b' : TokenBucket} {queue : List Pending}
    (hhead : ∀ head ∈ queue.head?,
      ¬ (1 ≤ b.tokensAt now 0 ∧ (head.batch.size : ℚ) ≤ b.tokensAt now 1))
    (h₀ : b'.tokensAt now 0 = b.tokensAt now 0) (h₁ : b'.tokensAt now 1 = b.tokensAt now 1) :
    AdmitsPrefix now b b' queue [] queue := by
  refine ⟨⟨List.nil_prefix, fun h => absurd rfl h, ?_⟩, rfl, by simp [h₀], by simp [h₁, bytesOf]⟩
  intro q hq hfits
  cases q with
  | nil => exact le_rfl
  | cons head q =>
    rcases hq with ⟨rest, rfl⟩
    exact absurd (affords_cons.mp hfits).1 (hhead head (by simp))

/-- A head that the bucket pays for goes first. -/
theorem AdmitsPrefix.cons {now : Time} {b b₁ b' : TokenBucket} {head : Pending}
    {queue p queue' : List Pending}
    (hhead : 1 ≤ b.tokensAt now 0 ∧ (head.batch.size : ℚ) ≤ b.tokensAt now 1)
    (h₀ : b₁.tokensAt now 0 = b.tokensAt now 0 - 1)
    (h₁ : b₁.tokensAt now 1 = b.tokensAt now 1 - head.batch.size)
    (h : AdmitsPrefix now b₁ b' queue p queue') :
    AdmitsPrefix now b b' (head :: queue) (head :: p) queue' := by
  have hlongest := h.longest
  rw [h₀, h₁] at hlongest
  refine ⟨⟨(List.prefix_cons_inj head).mpr hlongest.isPrefix,
    affords_cons.mpr ⟨hhead, hlongest.holds⟩, ?_⟩, by rw [List.cons_append, h.rest], ?_, ?_⟩
  · intro q hq hfits
    cases q with
    | nil => exact Nat.zero_le _
    | cons first q =>
      rcases List.cons_prefix_cons.mp hq with ⟨rfl, hrest⟩
      have hle := hlongest.longest q hrest (affords_cons.mp hfits).2
      simpa using hle
  · rw [h.records, h₀]
    push_cast [List.length_cons]
    ring
  · have hsum : bytesOf (head :: p) = head.batch.size + bytesOf p := by simp [bytesOf]
    rw [h.bytes, h₁, hsum]
    ring

/-- **The admission loop**, by recursion on the queue. -/
theorem admitWhile_prefix (now : Time) : ∀ (k : Nat) (queue : List Pending) (b : TokenBucket),
    b.IsPair → ∃ p, p.map Pending.batch = (admitWhile (fun _ _ => now) k b queue).1 ∧
      (admitWhile (fun _ _ => now) k b queue).2.1.IsPair ∧
      AdmitsPrefix now b (admitWhile (fun _ _ => now) k b queue).2.1 queue p
        (admitWhile (fun _ _ => now) k b queue).2.2
  | _, [], b, hpair => ⟨[], rfl, hpair, .blocked (by simp) rfl rfl⟩
  | k, head :: rest, b, hpair => by
    have hsize : (0 : ℚ) ≤ (head.batch.size : ℚ) := Nat.cast_nonneg _
    by_cases hhead : 1 ≤ b.tokensAt now 0 ∧ (head.batch.size : ℚ) ≤ b.tokensAt now 1
    · rcases tryTake_enough hpair hsize hhead with ⟨b', htake, hpair', h₀, h₁⟩
      rcases admitWhile_prefix now (k + 1) rest b' hpair' with ⟨p, hbatches, hpair'', hprefix⟩
      simp only [admitWhile, htake]
      exact ⟨head :: p, congrArg (head.batch :: ·) hbatches, hpair'', .cons hhead h₀ h₁ hprefix⟩
    · rcases tryTake_short hpair hsize hhead with ⟨b', htake, hpair', h₀, h₁⟩
      simp only [admitWhile, htake]
      refine ⟨[], rfl, hpair', .blocked ?_ h₀ h₁⟩
      intro first hfirst
      obtain rfl : head = first := by simpa using hfirst
      exact hhead

/-! ## Runs with forced drains -/

/-- A `ShardLimiter` with what it was given and what it has handed out. -/
structure QueueRun where
  limiter : ShardLimiter
  enqueued : List Pending := []
  admitted : List AggregatedBatch := []
  expired : List AggregatedBatch := []

inductive QueueOp
  | enqueue (batch : AggregatedBatch) (expiresAt : Time)
  | drain (now : Time)
  | drainForce (now : Time)

/-- Take the state a drain leaves and file what it hands out. -/
def QueueRun.record (run : QueueRun) (out : ShardLimiter × Drained) : QueueRun :=
  { run with
    limiter := out.1
    admitted := run.admitted ++ out.2.admitted
    expired := run.expired ++ out.2.expired }

def QueueRun.step (run : QueueRun) : QueueOp → Option QueueRun
  | .enqueue batch expiresAt =>
    some { run with
      limiter := run.limiter.enqueue batch expiresAt
      enqueued := run.enqueued ++ [{ batch, expiresAt }] }
  | .drain now => some (run.record (run.limiter.drain (readingsAt now)))
  | .drainForce now => some (run.record (run.limiter.drainForce now))

def QueueRun.start (recordsPerSec bytesPerSec : ℚ) (run : QueueRun) : Prop :=
  ∃ now, run = { limiter := .init recordsPerSec bytesPerSec now }

/-- Nothing is lost or doubled, and what waits with one deadline waits in the order it
    came. -/
structure QueueRun.Lawful (run : QueueRun) : Prop where
  isPair : run.limiter.bucket.IsPair
  once : (run.expired ++ run.admitted ++ run.limiter.batches).Perm
    (run.enqueued.map Pending.batch)
  fifo : ∀ d, (run.limiter.queue.filter fun p => p.deadline = d).Sublist
    (run.enqueued.filter fun p => p.deadline = d)

/-- What is handed out leaves the queue, and the order of the rest stays. -/
theorem QueueRun.Lawful.record {run : QueueRun} (hinv : run.Lawful) {out : ShardLimiter × Drained}
    (hpair : out.1.bucket.IsPair)
    (hperm : (out.2.batches ++ out.1.batches).Perm run.limiter.batches)
    (hsub : out.1.queue.Sublist run.limiter.queue) : (run.record out).Lawful := by
  refine ⟨hpair, ?_, fun d => (hsub.filter _).trans (hinv.fifo d)⟩
  have hall := (hperm.append_left (run.expired ++ run.admitted)).trans hinv.once
  refine List.Perm.trans ?_ hall
  rw [List.perm_iff_count]
  intro x
  simp only [QueueRun.record, Drained.batches, List.count_append]
  omega

/-- The queue after a drain, and what it hands out, by its admission loop. -/
theorem ShardLimiter.drain_prefix (now : Time) {s : ShardLimiter} (hpair : s.bucket.IsPair) :
    ∃ p, p.map Pending.batch = (s.drain (readingsAt now)).2.admitted ∧
      (s.drain (readingsAt now)).1.bucket.IsPair ∧
      AdmitsPrefix now s.bucket (s.drain (readingsAt now)).1.bucket
        (s.queue.filter fun p => !p.expired now) p (s.drain (readingsAt now)).1.queue :=
  admitWhile_prefix now 0 _ _ hpair

theorem ShardLimiter.drain_sublist (now : Time) (s : ShardLimiter) :
    (s.drain (readingsAt now)).1.queue.Sublist s.queue :=
  (admitWhile_sublist _ _ _ _).trans List.filter_sublist

theorem QueueRun.step_lawful {run run' : QueueRun} {op : QueueOp} (hinv : run.Lawful)
    (h : run.step op = some run') : run'.Lawful := by
  cases op with
  | enqueue batch expiresAt =>
    obtain rfl := Option.some.inj h
    refine ⟨hinv.isPair, ?_, fun d => ?_⟩
    · have hqueue := (run.limiter.enqueue_perm batch expiresAt).append_left
        (run.expired ++ run.admitted)
      rw [← List.append_assoc] at hqueue
      rw [List.map_append]
      exact hqueue.trans (hinv.once.append_right _)
    · change ((sortBy Pending.deadline (run.limiter.queue ++ [⟨batch, expiresAt⟩])).filter
        fun p => p.deadline = d).Sublist _
      rw [sortBy_filter_key, List.filter_append, List.filter_append]
      exact (hinv.fifo d).append (List.Sublist.refl _)
  | drain now =>
    obtain rfl := Option.some.inj h
    rcases run.limiter.drain_prefix now hinv.isPair with ⟨-, -, hpair, -⟩
    exact hinv.record hpair (run.limiter.drain_perm _) (run.limiter.drain_sublist now)
  | drainForce now =>
    obtain rfl := Option.some.inj h
    exact hinv.record hinv.isPair (run.limiter.drainForce_perm now) (List.nil_sublist _)

theorem QueueRun.lawful {R B : ℚ} {run : QueueRun}
    (h : Reachable (QueueRun.start R B) QueueRun.step anyStep run) : run.Lawful := by
  refine h.invariant ?_ fun _ _ _ hinv _ hstep => step_lawful hinv hstep
  rintro run ⟨now, rfl⟩
  exact ⟨⟨_, _, rfl⟩, List.Perm.refl _, fun _ => List.Sublist.refl _⟩

/-- **The queue law.**  In every run of a shard, at whatever times, each batch put in
    has been handed out once, as expired or as admitted, or is still queued; the queue is
    in deadline order, and first in first out among equal deadlines.  A drain at `now`
    hands out as expired, in the order of the queue, what expires by then, and admits the
    longest prefix of the rest that the records and bytes available at `now` pay for.  The
    rest stays as it was, and the bucket has paid for what was admitted and nothing else.
    A forced drain hands out everything and leaves the bucket alone. -/
theorem queue_law {R B : ℚ} {run : QueueRun}
    (h : Reachable (QueueRun.start R B) QueueRun.step anyStep run) :
    ((run.expired ++ run.admitted ++ run.limiter.batches).Perm (run.enqueued.map Pending.batch) ∧
      run.limiter.queue.Pairwise (fun p q => p.deadline ≤ q.deadline) ∧
      ∀ d, (run.limiter.queue.filter fun p => p.deadline = d).Sublist
        (run.enqueued.filter fun p => p.deadline = d)) ∧
    (∀ now, let out := run.limiter.drain (readingsAt now)
      out.2.expired = (run.limiter.queue.filter fun p => p.expiresAt ≤ now).map Pending.batch ∧
        ∃ p, out.2.admitted = p.map Pending.batch ∧
          AdmitsPrefix now run.limiter.bucket out.1.bucket
            (run.limiter.queue.filter fun p => ¬ p.expiresAt ≤ now) p out.1.queue) ∧
    ∀ now, let out := run.limiter.drainForce now
      out.2.expired = (run.limiter.queue.filter fun p => p.expiresAt ≤ now).map Pending.batch ∧
        out.2.admitted = (run.limiter.queue.filter fun p => ¬ p.expiresAt ≤ now).map Pending.batch ∧
        out.1.queue = [] ∧ out.1.bucket = run.limiter.bucket := by
  have hlawful := QueueRun.lawful h
  have hlive : ∀ now, (run.limiter.queue.filter fun p => decide (¬ p.expiresAt ≤ now)) =
      run.limiter.queue.filter fun p => !p.expired now := by
    intro now
    apply List.filter_congr
    intro p _
    exact decide_not
  refine ⟨⟨hlawful.once, run.limiter.sorted, hlawful.fifo⟩, ?_, ?_⟩
  · intro now
    rcases run.limiter.drain_prefix now hlawful.isPair with ⟨p, hbatches, -, hprefix⟩
    rw [hlive now]
    exact ⟨rfl, p, hbatches.symm, hprefix⟩
  · intro now
    rw [hlive now]
    exact ⟨rfl, rfl, rfl, rfl⟩

/-- Two records a second: of four batches one expires, two leave together and the last,
    of the same deadline, waits. -/
theorem queue_law_of_four :
    ∃ run, Reachable (QueueRun.start 2 100) QueueRun.step anyStep run ∧
      run.expired.map (fun b => b.items.map BufferedRecord.ident) = [[1]] ∧
      run.admitted.map (fun b => b.items.map BufferedRecord.ident) = [[0], [2]] ∧
      run.limiter.batches.map (fun b => b.items.map BufferedRecord.ident) = [[3]] ∧
      (run.expired ++ run.admitted ++ run.limiter.batches).Perm
        (run.enqueued.map Pending.batch) := by
  have hstart : Reachable (QueueRun.start 2 100) QueueRun.step anyStep
      { limiter := .init 2 100 0 } := .start ⟨0, rfl⟩
  have hqueued := (((hstart.next trivial (a := .enqueue (singleton 0) 30) rfl).next trivial
    (a := .enqueue (singleton 1) 1) rfl).next trivial (a := .enqueue (singleton 2) 30) rfl).next
    trivial (a := .enqueue (singleton 3) 30) rfl
  have hrun := hqueued.next trivial (a := .drain 1) rfl
  refine ⟨_, hrun, ?_, ?_, ?_, (queue_law hrun).1.1⟩
  · decide +kernel
  · decide +kernel
  · decide +kernel

end Limiter

end Aiokpl
