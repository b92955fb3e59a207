import Aiokpl.AggregatorRuns
import Aiokpl.Producer

/-!
# How old a record is when it is admitted

An Aggregator, a Limiter and a Retrier under one clock and one `record_ttl`.  The
Retrier measures age from arrival; the Limiter gives every batch a new
`expires_at` when it is enqueued.  Between the TTL of its oldest record and its own
`expires_at` a batch is overdue: a drain that finds tokens for it admits it.
-/

namespace Aiokpl

open Lib Aggregation

namespace RecordAges

/-! ## The machine -/

/-- What the steps read.  The Limiter and the Retrier take the TTL from one `Config`. -/
structure System where
  md5 : Bytes → Digest
  u : DigitClasses
  cfg : Producer.Config
  mapCfg : ShardMap.Config

def System.aggregator (sys : System) : Aggregator.System :=
  { md5 := sys.md5, u := sys.u, cfg := sys.cfg.aggregator, mapCfg := sys.mapCfg }

/-- `record_ttl`, in seconds. -/
def System.ttl (sys : System) : Time := sys.cfg.recordTtlMs / 1000

/-- A batch and the time at which it was enqueued or admitted. -/
structure Admission where
  batch : AggregatedBatch
  time : Time

/-- An Aggregator, the batches on their way to the Limiter, the Limiter, the records
    that it has handed out and whose fate is open, and the history of enqueues and
    admissions. -/
structure Run where
  clock : Time := 0
  aggregator : Aggregator.Run
  closed : List AggregatedBatch := []
  limiter : Limiter.State := {}
  undecided : List BufferedRecord := []
  enqueued : List Admission := []
  admitted : List Admission := []

/-- `failed` is a record whose batch expired, or came back with an error: the Retrier
    gives it up or sends it back.  `finished` is one that was accepted.  A tick of the
    drain loop is a `drain` of every shard. -/
inductive Op
  | aggregator (op : Aggregator.Op)
  | put (i : Nat) (t : Limiter.PutReadings)
  | drain (shardKey : Option ShardId) (t : Limiter.Readings)
  | failed (i : Nat) (outcome : SendOutcome) (code message : String) (now : Time)
  | finished (i : Nat)

/-- The clock reading of a step of the Aggregator, if it takes one. -/
def reading : Aggregator.Op → Option Time
  | .put now _ _ => some now
  | .add now _ => some now
  | .reducer _ (.flush now) => some now
  | .reducer _ (.wake now _) => some now
  | .reducer _ (.fire now _) => some now
  | _ => none

/-- What a drain hands out. -/
def Run.handOut (now : Time) (drained : Limiter.Drained) (run : Run) : Run :=
  { run with
    clock := now
    undecided := run.undecided ++ drained.batches.flatMap AggregatedBatch.items
    admitted := run.admitted ++
      drained.admitted.map fun batch => ({ batch, time := now } : Admission) }

def Run.aggregate (sys : System) (op : Aggregator.Op) (run : Run) : Option Run :=
  (Aggregator.Run.step sys.aggregator run.aggregator op).map fun aggregator =>
    { run with
      clock := (reading op).getD run.clock
      aggregator
      closed := run.closed ++ aggregator.emitted.drop run.aggregator.emitted.length }

/-- One step, `none` when it cannot happen in this state. -/
def Run.step (sys : System) (run : Run) : Op → Option Run
  | .aggregator (.putBuffered _) => none
  | .aggregator op => run.aggregate sys op
  | .put i t => do
    let batch ← run.closed[i]?
    let (limiter, drained, _) := Limiter.put sys.cfg.limiter t batch run.limiter
    let run := { run with
      closed := run.closed.eraseIdx i
      limiter
      enqueued := run.enqueued ++ [({ batch, time := t.enqueued } : Admission)] }
    some (run.handOut t.now drained)
  | .drain shardKey t => do
    let limiter ← run.limiter.shards.get? shardKey
    let (limiter, drained) := limiter.drain t
    let run := { run with
      limiter := { run.limiter with shards := run.limiter.shards.set shardKey limiter } }
    some (run.handOut t.now drained)
  | .failed i outcome code message now => do
    let buffered ← run.undecided[i]?
    let run := { run with clock := now, undecided := run.undecided.eraseIdx i }
    match Retrier.judgeFailure sys.cfg.retrier outcome buffered code message now with
    | .onRetry buffered => run.aggregate sys (.putBuffered buffered)
    | _ => some run
  | .finished i => some { run with undecided := run.undecided.eraseIdx i }

def Run.start (sys : System) (run : Run) : Prop :=
  run = { aggregator := { map := ShardMap.init sys.mapCfg } }

/-! ## Side conditions -/

/-- The clock does not go back. -/
def nonDecreasing (run : Run) : Op → Prop
  | .aggregator op => ∀ now ∈ reading op, run.clock ≤ now
  | .put _ t => run.clock ≤ t.enqueued ∧ t.enqueued ≤ t.now
  | .drain _ t => run.clock ≤ t.now
  | .failed _ _ _ _ now => run.clock ≤ now
  | .finished _ => True

instance (run : Run) (op : Op) : Decidable (nonDecreasing run op) := by
  cases op <;> unfold nonDecreasing <;> infer_instance

/-- Every record of the batch is within its TTL. -/
def Fresh (ttl now : Time) (batch : AggregatedBatch) : Prop :=
  ∀ x ∈ batch.items, now - x.arrivalTime ≤ ttl

instance (ttl now : Time) (batch : AggregatedBatch) : Decidable (Fresh ttl now batch) := by
  unfold Fresh
  infer_instance

/-- No batch that waits is overdue: it has expired, or all of it is within its TTL. -/
def NoneOverdue (ttl now : Time) (queue : List Limiter.Pending) : Prop :=
  ∀ p ∈ queue, p.expiresAt ≤ now ∨ Fresh ttl now p.batch

instance (ttl now : Time) (queue : List Limiter.Pending) :
    Decidable (NoneOverdue ttl now queue) := by
  unfold NoneOverdue
  infer_instance

/-- The queue of a shard, empty if it has none yet. -/
def queueOf (l : Limiter.State) (shardKey : Option ShardId) : List Limiter.Pending :=
  ((l.shards.get? shardKey).map Limiter.ShardLimiter.queue).getD []

/-- Moreover, a drain finds no batch overdue, nor is the batch it puts first. -/
def findsNoneOverdue (sys : System) (run : Run) (op : Op) : Prop :=
  nonDecreasing run op ∧
    match op with
    | .put i t => ∀ batch ∈ run.closed[i]?,
        NoneOverdue sys.ttl t.now
          ({ batch, expiresAt := t.enqueued + sys.ttl } :: queueOf run.limiter batch.predictedShard)
    | .drain shardKey t => NoneOverdue sys.ttl t.now (queueOf run.limiter shardKey)
    | _ => True

instance (sys : System) (run : Run) (op : Op) : Decidable (findsNoneOverdue sys run op) := by
  unfold findsNoneOverdue
  cases op <;> infer_instance

/-! ## Drains -/

/-- A drain admits batches of its queue that have not expired. -/
theorem drain_admitted {s : Limiter.ShardLimiter} {t : Limiter.Readings} {batch : AggregatedBatch}
    (h : batch ∈ (s.drain t).2.admitted) :
    ∃ p ∈ s.queue, p.batch = batch ∧ t.now < p.expiresAt := by
  obtain ⟨popped, hsplit, hbatches⟩ := Limiter.admitWhile_append t.take 0 s.bucket
    (s.queue.filter fun p => !p.expired t.now)
  have hmem : batch ∈ popped.map Limiter.Pending.batch := hbatches ▸ h
  obtain ⟨p, hp, rfl⟩ := List.mem_map.mp hmem
  have hkept : p ∈ s.queue.filter fun p => !p.expired t.now := by
    rw [← hsplit]
    exact List.mem_append_left _ hp
  obtain ⟨hqueue, halive⟩ := List.mem_filter.mp hkept
  refine ⟨p, hqueue, rfl, ?_⟩
  simpa [Limiter.Pending.expired] using halive

/-- What `put` leaves of a shard to drain. -/
theorem put_admitted {cfg : Limiter.Config} {t : Limiter.PutReadings} {batch b : AggregatedBatch}
    {l : Limiter.State} (h : b ∈ (Limiter.put cfg t batch l).2.1.admitted) :
    ∃ p ∈ ({ batch, expiresAt := t.enqueued + cfg.expiration } : Limiter.Pending) ::
        queueOf l batch.predictedShard, p.batch = b ∧ t.now < p.expiresAt := by
  obtain ⟨p, hp, hbatch, halive⟩ := drain_admitted h
  refine ⟨p, ?_, hbatch, halive⟩
  rw [Limiter.ShardLimiter.enqueue, mem_sortBy, List.mem_append, List.mem_singleton] at hp
  rw [List.mem_cons]
  rcases hp with hp | hp
  · right
    cases hget : l.shards.get? batch.predictedShard with
    | none => simp [hget, Limiter.ShardLimiter.init] at hp
    | some limiter => simpa [queueOf, hget] using hp
  · exact Or.inl hp

theorem NoneOverdue.fresh {ttl now : Time} {queue : List Limiter.Pending} {b : AggregatedBatch}
    (h : NoneOverdue ttl now queue) (hb : ∃ p ∈ queue, p.batch = b ∧ now < p.expiresAt) :
    Fresh ttl now b := by
  obtain ⟨p, hp, rfl, halive⟩ := hb
  rcases h p hp with hexpired | hfresh
  · exact absurd hexpired (not_le.mpr halive)
  · exact hfresh

/-! ### Whatever the tokens -/

/-- A stream that never refills. -/
def still (cap tokens : ℚ) : TokenBucket.Stream :=
  { rate := 0, maxTokens := cap, tokens, last := 0 }

/-- The bytes of a queue. -/
def bytesOf (queue : List Limiter.Pending) : ℕ := (queue.map fun p => p.batch.size).sum

theorem tryTake_still (read : Nat → Time) {records bytes size : ℚ} (hrecords : 1 ≤ records)
    (hsize : 0 ≤ size) (hbytes : size ≤ bytes) (capRecords capBytes : ℚ) :
    TokenBucket.tryTake read [1, size]
        { streams := [still capRecords records, still capBytes bytes] } =
      some (true,
        { streams := [still capRecords (records - 1), still capBytes (bytes - size)] }) := by
  simp [TokenBucket.tryTake, TokenBucket.growWhileEnough, TokenBucket.grow, TokenBucket.debit,
    still, not_lt.mpr hsize, not_lt.mpr hrecords, not_lt.mpr hbytes]

/-- With tokens for all of it, the whole queue is admitted. -/
theorem admitWhile_still (take : Nat → Nat → Time) (capRecords capBytes : ℚ) :
    ∀ (k : Nat) (queue : List Limiter.Pending) (records bytes : ℚ), (queue.length : ℚ) ≤ records →
      (bytesOf queue : ℚ) ≤ bytes →
      (Limiter.admitWhile take k
        { streams := [still capRecords records, still capBytes bytes] } queue).1 =
        queue.map Limiter.Pending.batch
  | _, [], _, _, _, _ => rfl
  | k, head :: rest, records, bytes, hrecords, hbytes => by
    have hsize : (0 : ℚ) ≤ (head.batch.size : ℚ) := Nat.cast_nonneg _
    have hrest : (0 : ℚ) ≤ (rest.length : ℚ) := Nat.cast_nonneg _
    have htail : (0 : ℚ) ≤ (bytesOf rest : ℚ) := Nat.cast_nonneg _
    have hsum : (bytesOf (head :: rest) : ℚ) = head.batch.size + bytesOf rest := by
      simp [bytesOf]
    rw [hsum] at hbytes
    simp only [List.length_cons, Nat.cast_add, Nat.cast_one] at hrecords
    have hone : 1 ≤ records := by linarith
    have hfits : (head.batch.size : ℚ) ≤ bytes := by linarith
    have htake := tryTake_still (take k) hone hsize hfits capRecords capBytes
    have ih := admitWhile_still take capRecords capBytes (k + 1) rest (records - 1)
      (bytes - head.batch.size) (by linarith) (by linarith)
    simp only [Limiter.admitWhile, htake, List.map_cons, ih]

/-- Whatever tokens a shard has, a drain admits fresh batches only: that is so exactly
    when no batch of the queue is overdue. -/
theorem drain_fresh_iff (ttl : Time) (s : Limiter.ShardLimiter) (now : Time) :
    (∀ bucket take, ∀ b ∈ (Limiter.ShardLimiter.drain { now, take } { s with bucket }).2.admitted,
      Fresh ttl now b) ↔ NoneOverdue ttl now s.queue := by
  constructor
  · intro h p hp
    by_cases hexpired : p.expiresAt ≤ now
    · exact Or.inl hexpired
    · let kept := s.queue.filter fun p => !p.expired now
      have hkept : p ∈ kept :=
        List.mem_filter.mpr ⟨hp, by simpa [Limiter.Pending.expired] using hexpired⟩
      have hall := admitWhile_still (fun _ _ => now) 0 0 0 kept kept.length (bytesOf kept) le_rfl
        le_rfl
      have hmem : p.batch ∈ kept.map Limiter.Pending.batch := List.mem_map_of_mem hkept
      rw [← hall] at hmem
      exact Or.inr (h { streams := [still 0 kept.length, still 0 (bytesOf kept)] } (fun _ _ => now)
        p.batch hmem)
  · intro h bucket take b hb
    exact h.fresh (drain_admitted hb)

/-! ## Runs -/

theorem drain_queue {s : Limiter.ShardLimiter} {t : Limiter.Readings} {p : Limiter.Pending}
    (h : p ∈ (s.drain t).1.queue) : p ∈ s.queue := by
  have hkept := (Limiter.admitWhile_sublist t.take 0 s.bucket _).subset h
  exact (List.mem_filter.mp hkept).1

/-- What is queued was enqueued less than a TTL before its `expires_at`, and what was
    admitted had been enqueued less than a TTL before. -/
structure Run.Timed (ttl : Time) (run : Run) : Prop where
  queued : ∀ key, ∀ p ∈ queueOf run.limiter key, ∃ e ∈ run.enqueued, e.batch = p.batch ∧
    p.expiresAt = e.time + ttl ∧ e.time ≤ run.clock
  admitted : ∀ a ∈ run.admitted, ∃ e ∈ run.enqueued, e.batch = a.batch ∧ e.time ≤ a.time ∧
    a.time < e.time + ttl

/-- All that was admitted was fresh. -/
def Run.AllFresh (ttl : Time) (run : Run) : Prop := ∀ a ∈ run.admitted, Fresh ttl a.time a.batch

theorem aggregate_eq_some {sys : System} {op : Aggregator.Op} {run run' : Run}
    (h : run.aggregate sys op = some run') :
    run'.limiter = run.limiter ∧ run'.enqueued = run.enqueued ∧ run'.admitted = run.admitted ∧
      run'.clock = (reading op).getD run.clock := by
  obtain ⟨aggregator, _, rfl⟩ := Option.map_eq_some_iff.mp h
  exact ⟨rfl, rfl, rfl, rfl⟩

/-- The steps: a batch is put, a shard is drained, or the Limiter stays as it is. -/
theorem step_cases {sys : System} {run run' : Run} {op : Op} (hclock : nonDecreasing run op)
    (h : run.step sys op = some run') :
    (∃ i t batch, op = .put i t ∧ run.closed[i]? = some batch ∧
      run'.limiter = (Limiter.put sys.cfg.limiter t batch run.limiter).1 ∧
      run'.clock = t.now ∧ run'.enqueued = run.enqueued ++ [{ batch, time := t.enqueued }] ∧
      run'.admitted = run.admitted ++
        (Limiter.put sys.cfg.limiter t batch run.limiter).2.1.admitted.map
          fun batch => { batch, time := t.now }) ∨
    (∃ key t limiter, op = .drain key t ∧ run.limiter.shards.get? key = some limiter ∧
      run'.limiter = { run.limiter with shards := run.limiter.shards.set key (limiter.drain t).1 } ∧
      run'.clock = t.now ∧ run'.enqueued = run.enqueued ∧
      run'.admitted = run.admitted ++
        (limiter.drain t).2.admitted.map fun batch => { batch, time := t.now }) ∨
    run'.limiter = run.limiter ∧ run.clock ≤ run'.clock ∧ run'.enqueued = run.enqueued ∧
      run'.admitted = run.admitted := by
  cases op with
  | aggregator op =>
    right; right
    have haggregate : run.aggregate sys op = some run' := by
      cases op with
      | putBuffered buffered => simp [Run.step] at h
      | _ => exact h
    obtain ⟨hlimiter, henqueued, hadmitted, hreading⟩ := aggregate_eq_some haggregate
    refine ⟨hlimiter, ?_, henqueued, hadmitted⟩
    rw [hreading]
    cases hread : reading op with
    | none => exact le_rfl
    | some now => exact hclock now hread
  | put i t =>
    simp only [Run.step, Option.bind_eq_bind, Option.bind_eq_some_iff, Option.some.injEq] at h
    obtain ⟨batch, hbatch, rfl⟩ := h
    exact Or.inl ⟨i, t, batch, rfl, hbatch, rfl, rfl, rfl, rfl⟩
  | drain key t =>
    simp only [Run.step, Option.bind_eq_bind, Option.bind_eq_some_iff, Option.some.injEq] at h
    obtain ⟨limiter, hget, rfl⟩ := h
    exact Or.inr (Or.inl ⟨key, t, limiter, rfl, hget, rfl, rfl, rfl, rfl⟩)
  | failed i outcome code message now =>
    right; right
    simp only [Run.step, Option.bind_eq_bind, Option.bind_eq_some_iff] at h
    obtain ⟨buffered, _, h⟩ := h
    split at h
    · obtain ⟨hlimiter, henqueued, hadmitted, hreading⟩ := aggregate_eq_some h
      exact ⟨hlimiter, hreading ▸ hclock, henqueued, hadmitted⟩
    · obtain rfl := Option.some.inj h
      exact ⟨rfl, hclock, rfl, rfl⟩
  | finished i =>
    right; right
    obtain rfl := Option.some.inj h
    exact ⟨rfl, le_rfl, rfl, rfl⟩

theorem step_allFresh {sys : System} {run run' : Run} {op : Op} (hinv : run.AllFresh sys.ttl)
    (hop : findsNoneOverdue sys run op) (h : run.step sys op = some run') :
    run'.AllFresh sys.ttl := by
  intro a ha
  obtain ⟨hclock, hnone⟩ := hop
  rcases step_cases hclock h with
    ⟨i, t, batch, rfl, hbatch, _, _, _, hadmitted⟩ |
    ⟨key, t, limiter, rfl, hget, _, _, _, hadmitted⟩ | ⟨_, _, _, hadmitted⟩
  · rw [hadmitted, List.mem_append] at ha
    rcases ha with ha | ha
    · exact hinv a ha
    · obtain ⟨b, hb, rfl⟩ := List.mem_map.mp ha
      exact (hnone batch hbatch).fresh (put_admitted hb)
  · rw [hadmitted, List.mem_append] at ha
    rcases ha with ha | ha
    · exact hinv a ha
    · obtain ⟨b, hb, rfl⟩ := List.mem_map.mp ha
      have hqueue : queueOf run.limiter key = limiter.queue := by simp [queueOf, hget]
      have hwaiting : NoneOverdue sys.ttl t.now limiter.queue := hqueue ▸ hnone
      exact hwaiting.fresh (drain_admitted hb)
  · rw [hadmitted] at ha
    exact hinv a ha

theorem queueOf_put {cfg : Limiter.Config} {t : Limiter.PutReadings} {batch : AggregatedBatch}
    {l : Limiter.State} {key : Option ShardId} {p : Limiter.Pending}
    (h : p ∈ queueOf (Limiter.put cfg t batch l).1 key) :
    p = { batch, expiresAt := t.enqueued + cfg.expiration } ∨ p ∈ queueOf l key := by
  by_cases hkey : key = batch.predictedShard
  · subst hkey
    simp only [queueOf, Limiter.put, Dict.get?_set_self, Option.map_some, Option.getD_some] at h
    have henqueued := drain_queue h
    rw [Limiter.ShardLimiter.enqueue, mem_sortBy, List.mem_append, List.mem_singleton] at henqueued
    rcases henqueued with hold | hnew
    · right
      cases hget : l.shards.get? batch.predictedShard with
      | none => simp [hget, Limiter.ShardLimiter.init] at hold
      | some limiter => simpa [queueOf, hget] using hold
    · exact Or.inl hnew
  · right
    simpa only [queueOf, Limiter.put, Dict.get?_set_ne _ _ hkey] using h

theorem queueOf_drain {t : Limiter.Readings} {l : Limiter.State} {key key' : Option ShardId}
    {limiter : Limiter.ShardLimiter} {p : Limiter.Pending} (hget : l.shards.get? key = some limiter)
    (h : p ∈ queueOf { l with shards := l.shards.set key (limiter.drain t).1 } key') :
    p ∈ queueOf l key' := by
  by_cases hkey : key' = key
  · subst hkey
    simp only [queueOf, Dict.get?_set_self, Option.map_some, Option.getD_some] at h
    simpa [queueOf, hget] using drain_queue h
  · simpa only [queueOf, Dict.get?_set_ne _ _ hkey] using h

theorem step_timed {sys : System} {run run' : Run} {op : Op} (hinv : run.Timed sys.ttl)
    (hop : nonDecreasing run op) (h : run.step sys op = some run') : run'.Timed sys.ttl := by
  obtain ⟨hqueued, hadmitted⟩ := hinv
  rcases step_cases hop h with
    ⟨i, t, batch, rfl, _, hlimiter, hclock, henqueued, hout⟩ |
    ⟨key, t, limiter, rfl, hget, hlimiter, hclock, henqueued, hout⟩ |
    ⟨hlimiter, hclock, henqueued, hout⟩
  · obtain ⟨hbefore, hwithin⟩ := hop
    have hnew : ({ batch, time := t.enqueued } : Admission) ∈ run'.enqueued := by simp [henqueued]
    have hold : ∀ e ∈ run.enqueued, e ∈ run'.enqueued := fun e he => by simp [henqueued, he]
    constructor
    · intro key p hp
      rw [hlimiter] at hp
      rw [hclock]
      rcases queueOf_put hp with rfl | hp
      · exact ⟨_, hnew, rfl, rfl, hwithin⟩
      · obtain ⟨e, he, hbatch, hexpires, htime⟩ := hqueued key p hp
        exact ⟨e, hold e he, hbatch, hexpires, htime.trans (hbefore.trans hwithin)⟩
    · intro a ha
      rw [hout, List.mem_append] at ha
      rcases ha with ha | ha
      · obtain ⟨e, he, hrest⟩ := hadmitted a ha
        exact ⟨e, hold e he, hrest⟩
      · obtain ⟨b, hb, rfl⟩ := List.mem_map.mp ha
        obtain ⟨p, hp, rfl, halive⟩ := put_admitted hb
        rcases List.mem_cons.mp hp with rfl | hp
        · exact ⟨_, hnew, rfl, hwithin, halive⟩
        · obtain ⟨e, he, hbatch, hexpires, htime⟩ := hqueued _ p hp
          exact ⟨e, hold e he, hbatch, htime.trans (hbefore.trans hwithin), hexpires ▸ halive⟩
  · have hsame : ∀ key', ∀ p ∈ queueOf run'.limiter key', p ∈ queueOf run.limiter key' := by
      intro key' p hp
      rw [hlimiter] at hp
      exact queueOf_drain hget hp
    constructor
    · intro key' p hp
      obtain ⟨e, he, hbatch, hexpires, htime⟩ := hqueued key' p (hsame key' p hp)
      exact ⟨e, henqueued ▸ he, hbatch, hexpires, hclock ▸ htime.trans hop⟩
    · intro a ha
      rw [hout, List.mem_append] at ha
      rw [henqueued]
      rcases ha with ha | ha
      · exact hadmitted a ha
      · obtain ⟨b, hb, rfl⟩ := List.mem_map.mp ha
        obtain ⟨p, hp, rfl, halive⟩ := drain_admitted hb
        have hqueue : p ∈ queueOf run.limiter key := by simpa [queueOf, hget] using hp
        obtain ⟨e, he, hbatch, hexpires, htime⟩ := hqueued key p hqueue
        exact ⟨e, he, hbatch, htime.trans hop, hexpires ▸ halive⟩
  · constructor
    · intro key p hp
      rw [hlimiter] at hp
      obtain ⟨e, he, hbatch, hexpires, htime⟩ := hqueued key p hp
      exact ⟨e, henqueued ▸ he, hbatch, hexpires, htime.trans hclock⟩
    · intro a ha
      rw [hout] at ha
      rw [henqueued]
      exact hadmitted a ha

/-- **The TTL at admission.**  A batch is admitted less than a TTL after it was
    enqueued, in every run.  Its records are within their own TTL in every run in which
    a drain finds no batch overdue; and a drain admits such records only, whatever
    tokens the shard has, exactly when none of its batches is overdue. -/
theorem admitted_within_ttl (sys : System) :
    (∀ run, Reachable (Run.start sys) (Run.step sys) nonDecreasing run →
      ∀ a ∈ run.admitted, ∃ e ∈ run.enqueued, e.batch = a.batch ∧ e.time ≤ a.time ∧
        a.time < e.time + sys.ttl) ∧
    (∀ run, Reachable (Run.start sys) (Run.step sys) (findsNoneOverdue sys) run →
      ∀ a ∈ run.admitted, ∀ x ∈ a.batch.items, a.time - x.arrivalTime ≤ sys.ttl) ∧
    ∀ (s : Limiter.ShardLimiter) now,
      (∀ bucket take, ∀ b ∈ (Limiter.ShardLimiter.drain { now, take } { s with bucket }).2.admitted,
        ∀ x ∈ b.items, now - x.arrivalTime ≤ sys.ttl) ↔
      ∀ p ∈ s.queue, p.expiresAt ≤ now ∨ ∀ x ∈ p.batch.items, now - x.arrivalTime ≤ sys.ttl := by
  refine ⟨?_, ?_, fun s now => drain_fresh_iff sys.ttl s now⟩
  · intro run hreach
    have htimed : run.Timed sys.ttl := by
      refine hreach.invariant ?_ fun _ _ _ hinv hop hstep => step_timed hinv hop hstep
      intro run hstart
      subst hstart
      refine ⟨?_, by simp⟩
      intro key p hp
      simp [queueOf] at hp
    exact htimed.admitted
  · intro run hreach
    have hfresh : run.AllFresh sys.ttl := by
      refine hreach.invariant ?_ fun _ _ _ hinv hop hstep => step_allFresh hinv hop hstep
      intro run hstart a ha
      subst hstart
      simp at ha
    exact hfresh

/-! ### A record that is retried shortly before its TTL is over -/

def demo : System := { md5 := fun _ => .zero, u := .asciiOnly, cfg := {}, mapCfg := {} }

/-- The clock stands still during a drain. -/
def readingsAt (now : Time) : Limiter.Readings := { now, take := fun _ _ => now }

def putAt (now : Time) : Limiter.PutReadings :=
  { readingsAt now with created := now, enqueued := now }

def requestError : SendOutcome :=
  { streamName := "s", startedAt := 1 / 10, endedAt := 2999 / 100
    requestError := some ("InternalFailure", "") , perRecord := [], batchItems := [] }

/-- Put at 0, buffered until its deadline, admitted at once. -/
def firstTrip : List Op :=
  [.aggregator (.put 0 0 { partitionKey := "pk", data := [] }), .aggregator (.lookup 0),
    .aggregator (.add 0 0), .aggregator (.reducer none (.wake (1 / 10) 0)),
    .aggregator (.reducer none (.fire (1 / 10) 0)), .put 0 (putAt (1 / 10))]

/-- The request fails at 29.99, and the record is admitted again at 30.015. -/
def secondTrip : List Op :=
  [.failed 0 requestError "InternalFailure" "" (2999 / 100), .aggregator (.lookup 0),
    .aggregator (.add (2999 / 100) 0), .aggregator (.reducer none (.wake (30015 / 1000) 1)),
    .aggregator (.reducer none (.fire (30015 / 1000) 1)), .put 0 (putAt (30015 / 1000))]

theorem admitted_within_ttl_first_trip :
    ∃ run, Reachable (Run.start demo) (Run.step demo) (findsNoneOverdue demo) run ∧
      run.admitted.map (fun a => (a.time, a.batch.items.map BufferedRecord.arrivalTime)) =
        [(1 / 10, [0])] ∧
      ∀ a ∈ run.admitted, ∀ x ∈ a.batch.items, a.time - x.arrivalTime ≤ demo.ttl := by
  have hrun : (exec (Run.step demo) (findsNoneOverdue demo)
      { aggregator := { map := ShardMap.init demo.mapCfg } } firstTrip).map
      (fun run => run.admitted.map fun a =>
        (a.time, a.batch.items.map BufferedRecord.arrivalTime)) = some [(1 / 10, [0])] := by
    decide +kernel
  obtain ⟨run, hexec, hadmitted⟩ := Option.map_eq_some_iff.mp hrun
  have hreach : Reachable (Run.start demo) (Run.step demo) (findsNoneOverdue demo) run :=
    Reachable.exec (.start rfl) hexec
  exact ⟨run, hreach, hadmitted, (admitted_within_ttl demo).2.1 run hreach⟩

/-- The record is 30.015 seconds old when it is admitted again; its TTL is 30. -/
theorem retried_record_admitted_overdue :
    demo.ttl = 30 ∧ ∃ run, Reachable (Run.start demo) (Run.step demo) nonDecreasing run ∧
      run.admitted.map (fun a => (a.time, a.batch.items.map BufferedRecord.arrivalTime)) =
        [(1 / 10, [0]), (30015 / 1000, [0])] := by
  have hrun : (exec (Run.step demo) nonDecreasing
      { aggregator := { map := ShardMap.init demo.mapCfg } } (firstTrip ++ secondTrip)).map
      (fun run => run.admitted.map fun a =>
        (a.time, a.batch.items.map BufferedRecord.arrivalTime)) =
        some [(1 / 10, [0]), (30015 / 1000, [0])] := by
    decide +kernel
  obtain ⟨run, hexec, hadmitted⟩ := Option.map_eq_some_iff.mp hrun
  exact ⟨by decide +kernel, run, Reachable.exec (.start rfl) hexec, hadmitted⟩

end RecordAges

end Aiokpl
