import Mathlib.Tactic
import Aiokpl.Lib.Dict
import Aiokpl.Batches
import Aiokpl.TokenBucket

/-!
# The per-shard rate limiter (`aiokpl/limiter.py`)

One queue and one token bucket per predicted shard.  Every operation of the
`Limiter` is a body under its lock and has no `await`; it answers the batches to
dispatch, expired and admitted, which the caller then hands on one by one.
Metrics are left out.
-/

namespace Aiokpl

open Lib

namespace Limiter

/-- `_Pending`. -/
structure Pending where
  batch : AggregatedBatch
  expiresAt : Time
  deriving DecidableEq

/-- The key of the queue. -/
def Pending.deadline (p : Pending) : Time := Batchable.deadline p.batch

/-- `ShardLimiter`.  The queue is a `SortedKeyList`: stably sorted by deadline. -/
structure ShardLimiter where
  bucket : TokenBucket
  queue : List Pending := []
  sorted : queue.Pairwise (fun p q => p.deadline ≤ q.deadline) := by simp
  deriving DecidableEq

/-- What a drain hands to its caller. -/
structure Drained where
  admitted : List AggregatedBatch := []
  expired : List AggregatedBatch := []
  deriving DecidableEq

/-! ## One shard -/

/-- `ShardLimiter.__init__`. -/
def ShardLimiter.init (recordsPerSec bytesPerSec : ℚ) (now : Time) : ShardLimiter :=
  { bucket := .init now true [(recordsPerSec, recordsPerSec), (bytesPerSec, bytesPerSec)] }

/-- `enqueue`. -/
def ShardLimiter.enqueue (batch : AggregatedBatch) (expiresAt : Time) (s : ShardLimiter) :
    ShardLimiter :=
  { s with
    queue := sortBy Pending.deadline (s.queue ++ [{ batch, expiresAt }])
    sorted := sortBy_sorted _ _ }

/-- The clock readings of a drain: one for expiry, and those of the k-th attempt to
    take tokens. -/
structure Readings where
  now : Time
  take : Nat → Nat → Time

/-- `p.expires_at <= now`. -/
def Pending.expired (now : Time) (p : Pending) : Bool := decide (p.expiresAt ≤ now)

/-- The `while self._queue` loop: what is admitted, and the bucket and the queue it
    leaves.  The two amounts are never refused. -/
def admitWhile (take : Nat → Nat → Time) :
    (k : Nat) → TokenBucket → List Pending → List AggregatedBatch × TokenBucket × List Pending
  | _, bucket, [] => ([], bucket, [])
  | k, bucket, head :: rest =>
    match bucket.tryTake (take k) [1, (head.batch.size : ℚ)] with
    | some (true, bucket) =>
      let (admitted, bucket, queue) := admitWhile take (k + 1) bucket rest
      (head.batch :: admitted, bucket, queue)
    | some (false, bucket) => ([], bucket, head :: rest)
    | none => ([], bucket, head :: rest)

/-- The loop pops from the front. -/
theorem admitWhile_append (take : Nat → Nat → Time) : ∀ (k : Nat) (bucket : TokenBucket)
    (queue : List Pending), ∃ popped, popped ++ (admitWhile take k bucket queue).2.2 = queue ∧
      popped.map Pending.batch = (admitWhile take k bucket queue).1
  | _, _, [] => ⟨[], rfl, rfl⟩
  | k, bucket, head :: rest => by
    simp only [admitWhile]
    split
    · rename_i bucket' _
      obtain ⟨popped, hsplit, hadmitted⟩ := admitWhile_append take (k + 1) bucket' rest
      exact ⟨head :: popped, congrArg (head :: ·) hsplit, congrArg (head.batch :: ·) hadmitted⟩
    · exact ⟨[], rfl, rfl⟩
    · exact ⟨[], rfl, rfl⟩

theorem admitWhile_sublist (take : Nat → Nat → Time) (k : Nat) (bucket : TokenBucket)
    (queue : List Pending) : (admitWhile take k bucket queue).2.2.Sublist queue := by
  obtain ⟨popped, hsplit, _⟩ := admitWhile_append take k bucket queue
  have hsub := List.sublist_append_right popped (admitWhile take k bucket queue).2.2
  rwa [hsplit] at hsub

/-- `drain`. -/
def ShardLimiter.drain (t : Readings) (s : ShardLimiter) : ShardLimiter × Drained :=
  let kept := s.queue.filter fun p => !p.expired t.now
  ({ bucket := (admitWhile t.take 0 s.bucket kept).2.1
     queue := (admitWhile t.take 0 s.bucket kept).2.2
     sorted := (s.sorted.sublist List.filter_sublist).sublist (admitWhile_sublist _ _ _ _) },
   { admitted := (admitWhile t.take 0 s.bucket kept).1
     expired := (s.queue.filter (·.expired t.now)).map Pending.batch })

/-- `drain_force`. -/
def ShardLimiter.drainForce (now : Time) (s : ShardLimiter) : ShardLimiter × Drained :=
  ({ s with queue := [], sorted := .nil },
   { admitted := (s.queue.filter fun p => !p.expired now).map Pending.batch
     expired := (s.queue.filter (·.expired now)).map Pending.batch })

/-- The batches of a queue, in its order. -/
def ShardLimiter.batches (s : ShardLimiter) : List AggregatedBatch := s.queue.map Pending.batch

/-- Everything a drain hands out, in the order of dispatch. -/
def Drained.batches (d : Drained) : List AggregatedBatch := d.expired ++ d.admitted

theorem ShardLimiter.enqueue_perm (batch : AggregatedBatch) (expiresAt : Time) (s : ShardLimiter) :
    (s.enqueue batch expiresAt).batches.Perm (s.batches ++ [batch]) := by
  have hperm := (sortBy_perm Pending.deadline (s.queue ++ [⟨batch, expiresAt⟩])).map Pending.batch
  simpa [batches, enqueue] using hperm

/-- Splitting a queue by expiry loses nothing. -/
theorem split_expired_perm (now : Time) (queue : List Pending) :
    ((queue.filter (·.expired now)).map Pending.batch ++
      (queue.filter fun p => !p.expired now).map Pending.batch).Perm (queue.map Pending.batch) := by
  rw [← List.map_append]
  exact (List.filter_append_perm (Pending.expired now) queue).map Pending.batch

/-- **A drain hands out or keeps every batch of the queue.** -/
theorem ShardLimiter.drain_perm (t : Readings) (s : ShardLimiter) :
    ((s.drain t).2.batches ++ (s.drain t).1.batches).Perm s.batches := by
  let kept := s.queue.filter fun p => !p.expired t.now
  obtain ⟨popped, hsplit, hadmitted⟩ := admitWhile_append t.take 0 s.bucket kept
  have hkept : (s.drain t).2.admitted ++ (s.drain t).1.batches = kept.map Pending.batch := by
    rw [← hsplit, List.map_append, hadmitted]
    rfl
  rw [Drained.batches, List.append_assoc, hkept]
  exact split_expired_perm t.now s.queue

theorem ShardLimiter.drainForce_perm (now : Time) (s : ShardLimiter) :
    ((s.drainForce now).2.batches ++ (s.drainForce now).1.batches).Perm s.batches := by
  simpa [drainForce, Drained.batches, batches] using split_expired_perm now s.queue

/-! ## All shards -/

/-- The constructor arguments of a `Limiter`. -/
structure Config where
  recordsPerSecPerShard : ℚ := 1000
  bytesPerSecPerShard : ℚ := 1048576
  expirationMs : Time := 30000

/-- `_expiration`, in seconds. -/
def Config.expiration (cfg : Config) : Time := cfg.expirationMs / 1000

/-- The fields of a `Limiter` that has been entered. -/
structure State where
  shards : Dict (Option ShardId) ShardLimiter := .empty
  drainStarted : Bool := false
  closed : Bool := false

/-- The clock readings of `put`: for a new bucket, for the expiry of the batch, and
    those of the drain. -/
structure PutReadings extends Readings where
  created : Time
  enqueued : Time

/-- `put` under the lock: what to dispatch, and whether it starts the drain task. -/
def put (cfg : Config) (t : PutReadings) (batch : AggregatedBatch) (l : State) :
    State × Drained × Bool :=
  let limiter := (l.shards.get? batch.predictedShard).getD
    (.init cfg.recordsPerSecPerShard cfg.bytesPerSecPerShard t.created)
  let (limiter, drained) :=
    (limiter.enqueue batch (t.enqueued + cfg.expiration)).drain t.toReadings
  let starts := !l.drainStarted && !l.closed
  ({ l with
     shards := l.shards.set batch.predictedShard limiter
     drainStarted := l.drainStarted || starts },
   drained, starts)

/-- The loop over the shards, in the order of the dictionary. -/
def drainEach (drain : Option ShardId → ShardLimiter → ShardLimiter × Drained) :
    List (Option ShardId) → Dict (Option ShardId) ShardLimiter →
      Dict (Option ShardId) ShardLimiter × List Drained
  | [], shards => (shards, [])
  | key :: keys, shards =>
    match shards.get? key with
    | none => drainEach drain keys shards
    | some limiter =>
      let (limiter, drained) := drain key limiter
      let (shards, rest) := drainEach drain keys (shards.set key limiter)
      (shards, drained :: rest)

/-- One tick of `_drain_loop` under the lock. -/
def drainAll (t : Option ShardId → Readings) (l : State) : State × List Drained :=
  let (shards, drained) := drainEach (fun key => ShardLimiter.drain (t key)) l.shards.keys l.shards
  ({ l with shards }, drained)

/-- `flush` under the lock. -/
def flush (now : Option ShardId → Time) (l : State) : State × List Drained :=
  let (shards, drained) :=
    drainEach (fun key => ShardLimiter.drainForce (now key)) l.shards.keys l.shards
  ({ l with shards }, drained)

/-- `aclose`; the drain task is cancelled. -/
def aclose (l : State) : State := { l with closed := true }

end Limiter

end Aiokpl
