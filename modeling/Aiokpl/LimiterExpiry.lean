import Aiokpl.LimiterRates
import Aiokpl.Producer

/-!
# Batches that expire in the Limiter

The Limiter gives a batch up once `expires_at <= now`, where `expires_at` is the time of
the `put` plus the TTL; the Retrier gives a record up once its age is more than the TTL,
counted from its arrival.  A record that came with its batch, looked at by both at the
very end of the TTL, has expired for the one and not for the other: it is sent back, and
the Limiter will give it a TTL of its own.
-/

namespace Aiokpl

open Lib Aggregation

namespace LimiterExpiry

/-! ## The Retrier's side -/

/-- The record is finished with a failed result whose last attempt is `Expired`. -/
def FinishedExpired (record : BufferedRecord) (call : Retrier.Call) : Prop :=
  ∃ buffered result, call = .onFinish buffered result ∧ buffered.ident = record.ident ∧
    result.success = false ∧
    (result.attempts.getLast?.bind Attempt.errorCode) = some Retrier.expiredErrorCode

/-- The record is handed to `on_retry`. -/
def SentBack (record : BufferedRecord) (call : Retrier.Call) : Prop :=
  ∃ buffered, call = .onRetry buffered ∧ buffered.ident = record.ident

/-- The n-th record is judged at the n-th reading of the clock. -/
theorem judgeEach_getElem? (env : Retrier.Env) (judge : BufferedRecord → Time → Retrier.Call) :
    ∀ (k n : Nat) (records : List BufferedRecord),
      (Retrier.judgeEach env judge k records)[n]? =
        records[n]?.map fun buffered => judge buffered (env.clock (k + n))
  | _, _, [] => by simp [Retrier.judgeEach]
  | k, 0, buffered :: rest => by simp [Retrier.judgeEach]
  | k, n + 1, buffered :: rest => by
    have hrest := judgeEach_getElem? env judge (k + 1) n rest
    rw [Nat.add_right_comm k 1 n] at hrest
    simpa [Retrier.judgeEach, Nat.add_assoc] using hrest

/-- What `_handle_expired` has the Retrier do with the n-th record of the batch. -/
theorem handle_expiredOutcome (u : DigitClasses) (cfg : Retrier.Config) (env : Retrier.Env)
    (stream : String) (now : Time) (batch : AggregatedBatch) (n : Nat) :
    (Retrier.handle u cfg env (Producer.expiredOutcome stream now batch)).calls[n]? =
      batch.items[n]?.map fun buffered =>
        Retrier.retryNotExpired cfg (Producer.expiredOutcome stream now batch) buffered
          Retrier.expiredErrorCode (Retrier.expiredErrorMessage ++ ": Expired") (env.clock n) := by
  have hcode : ¬ (Retrier.expiredErrorCode = Retrier.provisionedThroughputExceeded ∧
      cfg.failIfThrottled) := fun h => absurd h.1 (by decide)
  have hcalls := judgeEach_getElem? env (fun b now' => Retrier.judgeFailure cfg
    (Producer.expiredOutcome stream now batch) b Retrier.expiredErrorCode
    (Retrier.expiredErrorMessage ++ ": Expired") now') 0 n batch.items
  simp only [Retrier.judgeFailure, if_neg hcode, Nat.zero_add] at hcalls
  simpa [Retrier.handle, Retrier.handleRequestError, Producer.expiredOutcome,
    Retrier.judgeFailure, if_neg hcode] using hcalls

/-- **The Retrier counts from arrival**: it gives the record up exactly when its age is
    more than the TTL, and sends it back otherwise. -/
theorem retryNotExpired_verdict (cfg : Retrier.Config) (outcome : SendOutcome)
    (record : BufferedRecord) (code message : String) (now : Time) :
    let call := Retrier.retryNotExpired cfg outcome record code message now
    (FinishedExpired record call ↔ cfg.recordTtl < now - record.arrivalTime) ∧
      (SentBack record call ↔ now - record.arrivalTime ≤ cfg.recordTtl) := by
  by_cases hold : now - record.arrivalTime > cfg.recordTtl
  · have hcall : ∃ b r, Retrier.retryNotExpired cfg outcome record code message now =
        .onFinish b r ∧ b.ident = record.ident ∧ r.success = false ∧
        (r.attempts.getLast?.bind Attempt.errorCode) = some Retrier.expiredErrorCode := by
      simp only [Retrier.retryNotExpired, if_pos hold]
      exact ⟨_, _, rfl, rfl, rfl, by simp [Retrier.failedResult, Retrier.expiredAttempt]⟩
    refine ⟨iff_of_true hcall hold, iff_of_false ?_ (not_le.mpr hold)⟩
    rintro ⟨buffered, hback, -⟩
    rcases hcall with ⟨b, r, hfinish, -⟩
    rw [hfinish] at hback
    cases hback
  · have hcall : ∃ b, Retrier.retryNotExpired cfg outcome record code message now = .onRetry b ∧
        b.ident = record.ident := by
      simp only [Retrier.retryNotExpired, if_neg hold]
      exact ⟨_, rfl, rfl⟩
    refine ⟨iff_of_false ?_ hold, iff_of_true hcall (not_lt.mp hold)⟩
    rintro ⟨buffered, result, hfinish, -⟩
    rcases hcall with ⟨b, hback, -⟩
    rw [hback] at hfinish
    cases hfinish

/-! ## Runs of a Limiter -/

/-- A batch and the time at which it was put, or by which it was handed out. -/
structure Timed where
  batch : AggregatedBatch
  time : Time
  deriving DecidableEq

/-- A Limiter with the latest reading of its clock, what it was given, and what it has
    handed out as expired. -/
structure Run where
  clock : Time := 0
  limiter : Limiter.State := {}
  enqueued : List Timed := []
  surfaced : List Timed := []

/-- `drainAll` is a tick of the drain loop.  `finish` is when the lock is released, no
    earlier than any reading under it. -/
inductive Op
  | put (batch : AggregatedBatch) (t : Limiter.PutReadings) (finish : Time)
  | drainAll (t : Option ShardId → Limiter.Readings) (finish : Time)
  | flush (now : Option ShardId → Time) (finish : Time)
  | aclose

/-- What is handed out leaves the lock at `finish`. -/
def Run.handOut (finish : Time) (limiter : Limiter.State) (drained : List Limiter.Drained)
    (run : Run) : Run :=
  { run with
    clock := finish
    limiter
    surfaced := run.surfaced ++
      (drained.flatMap Limiter.Drained.expired).map fun batch => { batch, time := finish } }

def Run.step (cfg : Producer.Config) (run : Run) : Op → Option Run
  | .put batch t finish =>
    let out := Limiter.put cfg.limiter t batch run.limiter
    let run := { run with enqueued := run.enqueued ++ [({ batch, time := t.enqueued } : Timed)] }
    some (run.handOut finish out.1 [out.2.1])
  | .drainAll t finish =>
    let out := Limiter.drainAll t run.limiter
    some (run.handOut finish out.1 out.2)
  | .flush now finish =>
    let out := Limiter.flush now run.limiter
    some (run.handOut finish out.1 out.2)
  | .aclose => some { run with limiter := Limiter.aclose run.limiter }

def Run.start (run : Run) : Prop := ∃ clock, run = { clock }

/-- The clock never goes back, and no record of a batch arrives after the batch is put. -/
def timely (run : Run) : Op → Prop
  | .put batch t finish =>
    run.clock ≤ t.created ∧ t.created ≤ t.enqueued ∧ t.toReadings.Ordered t.enqueued finish ∧
      ∀ record ∈ batch.items, record.arrivalTime ≤ t.enqueued
  | .drainAll t finish => run.clock ≤ finish ∧ ∀ key, (t key).Ordered run.clock finish
  | .flush now finish => run.clock ≤ finish ∧ ∀ key, run.clock ≤ now key ∧ now key ≤ finish
  | .aclose => True

/-! ## What is queued -/

/-- The batch was put when all its records had arrived, a TTL before it expires. -/
def PutInTime (ttl : Time) (enqueued : List Timed) (p : Limiter.Pending) : Prop :=
  ∃ e ∈ enqueued, e.batch = p.batch ∧ p.expiresAt = e.time + ttl ∧
    ∀ record ∈ p.batch.items, record.arrivalTime ≤ e.time

/-- All that waits, in any shard. -/
def AllQueued (Q : Limiter.Pending → Prop) (shards : Dict (Option ShardId) Limiter.ShardLimiter) :
    Prop :=
  ∀ key limiter, shards.get? key = some limiter → ∀ p ∈ limiter.queue, Q p

/-- A drain keeps nothing but what was queued, and what it hands out as expired was
    queued until its `expires_at` had come. -/
def Surfaces (finish : Time) (s : Limiter.ShardLimiter)
    (out : Limiter.ShardLimiter × Limiter.Drained) : Prop :=
  (∀ p ∈ out.1.queue, p ∈ s.queue) ∧
    ∀ batch ∈ out.2.expired, ∃ p ∈ s.queue, p.batch = batch ∧ p.expiresAt ≤ finish

theorem expired_queued {queue : List Limiter.Pending} {now finish : Time} (hle : now ≤ finish)
    {batch : AggregatedBatch}
    (h : batch ∈ (queue.filter (·.expired now)).map Limiter.Pending.batch) :
    ∃ p ∈ queue, p.batch = batch ∧ p.expiresAt ≤ finish := by
  rcases List.mem_map.mp h with ⟨p, hp, rfl⟩
  rcases List.mem_filter.mp hp with ⟨hqueue, hexpired⟩
  exact ⟨p, hqueue, rfl, (of_decide_eq_true hexpired).trans hle⟩

theorem drain_surfaces {t : Limiter.Readings} {finish : Time} (hle : t.now ≤ finish)
    (s : Limiter.ShardLimiter) : Surfaces finish s (s.drain t) :=
  ⟨fun _ hp => (List.mem_filter.mp ((Limiter.admitWhile_sublist _ _ _ _).subset hp)).1,
    fun _ hb => expired_queued hle hb⟩

theorem drainForce_surfaces {now finish : Time} (hle : now ≤ finish) (s : Limiter.ShardLimiter) :
    Surfaces finish s (s.drainForce now) :=
  ⟨fun _ hp => absurd hp List.not_mem_nil, fun _ hb => expired_queued hle hb⟩

/-- What holds of all that waits holds, after one shard was drained, of what is left and
    of what it handed out. -/
theorem AllQueued.set {Q : Limiter.Pending → Prop}
    {shards : Dict (Option ShardId) Limiter.ShardLimiter} (hall : AllQueued Q shards)
    {key : Option ShardId} {s : Limiter.ShardLimiter} (hs : ∀ p ∈ s.queue, Q p) :
    AllQueued Q (shards.set key s) := by
  intro key' s' hget p hp
  rw [Dict.get?_set] at hget
  split at hget
  · obtain rfl := Option.some.inj hget
    exact hs p hp
  · exact hall key' s' hget p hp

/-- **All shards, one after the other.** -/
theorem drainEach_surfaces {drain : Option ShardId → Limiter.ShardLimiter →
      Limiter.ShardLimiter × Limiter.Drained} {finish : Time}
    (hdrain : ∀ key s, Surfaces finish s (drain key s)) {Q : Limiter.Pending → Prop} :
    ∀ (keys : List (Option ShardId)) (shards : Dict (Option ShardId) Limiter.ShardLimiter),
      AllQueued Q shards →
      AllQueued Q (Limiter.drainEach drain keys shards).1 ∧
        ∀ batch ∈ (Limiter.drainEach drain keys shards).2.flatMap Limiter.Drained.expired,
          ∃ p, Q p ∧ p.batch = batch ∧ p.expiresAt ≤ finish
  | [], shards, hall => ⟨hall, by simp [Limiter.drainEach]⟩
  | key :: keys, shards, hall => by
    cases hget : shards.get? key with
    | none =>
      simp only [Limiter.drainEach, hget]
      exact drainEach_surfaces hdrain keys shards hall
    | some s =>
      simp only [Limiter.drainEach, hget]
      rcases hdrain key s with ⟨hkept, hexpired⟩
      rcases drainEach_surfaces hdrain keys _
        (hall.set fun p hp => hall key s hget p (hkept p hp)) with ⟨hleft, hrest⟩
      refine ⟨hleft, ?_⟩
      intro batch hb
      rw [List.flatMap_cons] at hb
      rcases List.mem_append.mp hb with hb | hb
      · rcases hexpired batch hb with ⟨p, hp, hbatch, hle⟩
        exact ⟨p, hall key s hget p hp, hbatch, hle⟩
      · exact hrest batch hb

/-! ## What has been handed out -/

/-- All that waits was put in time, and what was handed out as expired had been put at
    least a TTL before. -/
structure Run.Dated (ttl : Time) (run : Run) : Prop where
  queued : AllQueued (PutInTime ttl run.enqueued) run.limiter.shards
  surfaced : ∀ x ∈ run.surfaced, ∃ p, PutInTime ttl run.enqueued p ∧ p.batch = x.batch ∧
    p.expiresAt ≤ x.time

theorem PutInTime.mono {ttl : Time} {enqueued : List Timed} {p : Limiter.Pending} (e : Timed)
    (h : PutInTime ttl enqueued p) : PutInTime ttl (enqueued ++ [e]) p := by
  rcases h with ⟨e', he', hput⟩
  exact ⟨e', List.mem_append_left _ he', hput⟩

theorem Run.Dated.mono {ttl : Time} {run : Run} (h : run.Dated ttl) (e : Timed) :
    ({ run with enqueued := run.enqueued ++ [e] } : Run).Dated ttl := by
  refine ⟨fun key s hget p hp => (h.queued key s hget p hp).mono e, fun x hx => ?_⟩
  rcases h.surfaced x hx with ⟨p, hput, hrest⟩
  exact ⟨p, hput.mono e, hrest⟩

theorem Run.Dated.handOut {ttl finish : Time} {run : Run} (h : run.Dated ttl)
    {limiter : Limiter.State} {drained : List Limiter.Drained}
    (hqueued : AllQueued (PutInTime ttl run.enqueued) limiter.shards)
    (hexpired : ∀ batch ∈ drained.flatMap Limiter.Drained.expired,
      ∃ p, PutInTime ttl run.enqueued p ∧ p.batch = batch ∧ p.expiresAt ≤ finish) :
    (run.handOut finish limiter drained).Dated ttl := by
  refine ⟨hqueued, fun x hx => ?_⟩
  rcases List.mem_append.mp hx with hx | hx
  · exact h.surfaced x hx
  · rcases List.mem_map.mp hx with ⟨batch, hb, rfl⟩
    exact hexpired batch hb

theorem Run.step_dated {cfg : Producer.Config} {run run' : Run} {op : Op}
    (hinv : run.Dated cfg.limiter.expiration) (hop : timely run op)
    (h : run.step cfg op = some run') : run'.Dated cfg.limiter.expiration := by
  cases op with
  | put batch t finish =>
    obtain rfl := Option.some.inj h
    rcases hop with ⟨-, -, hordered, harrived⟩
    have hdated := hinv.mono { batch, time := t.enqueued }
    have hle : t.now ≤ finish :=
      (hordered.now_le 0).trans ((hordered.within 0).trans (hordered.le_finish 0))
    -- the queue that the drain finds: what waited, and the batch itself
    have hfound : ∀ p ∈ (((run.limiter.shards.get? batch.predictedShard).getD
        (.init cfg.limiter.recordsPerSecPerShard cfg.limiter.bytesPerSecPerShard t.created)).enqueue
          batch (t.enqueued + cfg.limiter.expiration)).queue,
        PutInTime cfg.limiter.expiration (run.enqueued ++ [{ batch, time := t.enqueued }]) p := by
      intro p hp
      rw [Limiter.ShardLimiter.enqueue, mem_sortBy, List.mem_append, List.mem_singleton] at hp
      rcases hp with hp | rfl
      · cases hget : run.limiter.shards.get? batch.predictedShard with
        | none => simp [hget, Limiter.ShardLimiter.init] at hp
        | some s =>
          rw [hget] at hp
          exact hdated.queued _ s hget p hp
      · exact ⟨_, List.mem_append_right _ (List.mem_singleton_self _), rfl, rfl, harrived⟩
    rcases drain_surfaces hle (((run.limiter.shards.get? batch.predictedShard).getD
      (.init cfg.limiter.recordsPerSecPerShard cfg.limiter.bytesPerSecPerShard t.created)).enqueue
        batch (t.enqueued + cfg.limiter.expiration)) with ⟨hkept, hexpired⟩
    have hleft : AllQueued
        (PutInTime cfg.limiter.expiration (run.enqueued ++ [{ batch, time := t.enqueued }]))
        (Limiter.put cfg.limiter t batch run.limiter).1.shards :=
      hdated.queued.set fun p hp => hfound p (hkept p hp)
    refine hdated.handOut hleft ?_
    intro b hb
    rw [List.flatMap_singleton] at hb
    rcases hexpired b hb with ⟨p, hp, hrest⟩
    exact ⟨p, hfound p hp, hrest⟩
  | drainAll t finish =>
    obtain rfl := Option.some.inj h
    have hdrain : ∀ key s, Surfaces finish s (Limiter.ShardLimiter.drain (t key) s) := by
      intro key s
      have hordered := hop.2 key
      exact drain_surfaces
        ((hordered.now_le 0).trans ((hordered.within 0).trans (hordered.le_finish 0))) s
    rcases drainEach_surfaces hdrain run.limiter.shards.keys _ hinv.queued with ⟨hleft, hexpired⟩
    exact hinv.handOut hleft hexpired
  | flush now finish =>
    obtain rfl := Option.some.inj h
    have hdrain : ∀ key s, Surfaces finish s (Limiter.ShardLimiter.drainForce (now key) s) :=
      fun key s => drainForce_surfaces (hop.2 key).2 s
    rcases drainEach_surfaces hdrain run.limiter.shards.keys _ hinv.queued with ⟨hleft, hexpired⟩
    exact hinv.handOut hleft hexpired
  | aclose =>
    obtain rfl := Option.some.inj h
    exact ⟨hinv.queued, hinv.surfaced⟩

theorem Run.dated {cfg : Producer.Config} {run : Run}
    (h : Reachable Run.start (Run.step cfg) timely run) : run.Dated cfg.limiter.expiration := by
  have hstart : ∀ run, Run.start run → run.Dated cfg.limiter.expiration := by
    rintro run ⟨clock, rfl⟩
    exact ⟨fun key s hget => by simp at hget, by simp⟩
  exact h.invariant hstart fun _ _ _ hinv hop hstep => step_dated hinv hop hstep

/-- **A batch that expired in the Limiter.**  It was put at least a TTL before, when all
    its records had arrived.  Of its records, judged at readings of the clock after it was
    handed out, the Retrier finishes as expired exactly those that arrived before the batch
    was put or are judged after the end of its TTL; the others, which arrived at the time
    of the `put` and are judged at the last instant of the TTL, it sends back. -/
theorem expired_batch_finishes_iff {cfg : Producer.Config} {run : Run}
    (h : Reachable Run.start (Run.step cfg) timely run) {x : Timed} (hx : x ∈ run.surfaced) :
    ∃ e ∈ run.enqueued, e.batch = x.batch ∧ e.time + cfg.retrier.recordTtl ≤ x.time ∧
      (∀ record ∈ x.batch.items, record.arrivalTime ≤ e.time) ∧
      ∀ (u : DigitClasses) (env : Retrier.Env) (stream : String) (now : Time),
        (∀ n, x.time ≤ env.clock n) → ∀ n record, x.batch.items[n]? = some record →
        ∃ call,
          (Retrier.handle u cfg.retrier env
            (Producer.expiredOutcome stream now x.batch)).calls[n]? =
              some call ∧
            (FinishedExpired record call ↔
              record.arrivalTime < e.time ∨ e.time + cfg.retrier.recordTtl < env.clock n) ∧
            (SentBack record call ↔
              record.arrivalTime = e.time ∧ env.clock n = e.time + cfg.retrier.recordTtl) := by
  have httl : cfg.limiter.expiration = cfg.retrier.recordTtl := rfl
  rcases (Run.dated h).surfaced x hx with
    ⟨p, ⟨e, he, hbatch, hexpires, harrived⟩, hp, hle⟩
  rw [hexpires, httl] at hle
  rw [hp] at hbatch harrived
  refine ⟨e, he, hbatch, hle, harrived, ?_⟩
  intro u env stream now hclock n record hrecord
  have harrival := harrived record (List.mem_of_getElem? hrecord)
  have hread := hle.trans (hclock n)
  refine ⟨Retrier.retryNotExpired cfg.retrier (Producer.expiredOutcome stream now x.batch) record
    Retrier.expiredErrorCode (Retrier.expiredErrorMessage ++ ": Expired") (env.clock n), ?_, ?_⟩
  · rw [handle_expiredOutcome, hrecord]
    rfl
  · rcases retryNotExpired_verdict cfg.retrier (Producer.expiredOutcome stream now x.batch) record
      Retrier.expiredErrorCode (Retrier.expiredErrorMessage ++ ": Expired") (env.clock n) with
      ⟨hfinished, hback⟩
    rw [hfinished, hback]
    constructor
    · constructor
      · intro hold
        by_contra hneither
        rw [not_or, not_lt, not_lt] at hneither
        linarith [hneither.1, hneither.2]
      · rintro (hbefore | hafter)
        · linarith
        · linarith
    · constructor
      · intro hyoung
        exact ⟨le_antisymm harrival (by linarith), le_antisymm (by linarith) hread⟩
      · rintro ⟨hwith, hlast⟩
        rw [hwith, hlast]
        linarith

/-! ## At the last instant of the TTL -/

/-- Ten bytes a second, so that no batch ever leaves; the TTL is 30 s. -/
def narrow : Producer.Config := { rateLimitBytesPerSecPerShard := 10 }

/-- A batch of two records; the second arrives as the batch is put. -/
def lateComer : AggregatedBatch :=
  [-1, 0].foldl (fun batch arrivalTime => batch.add
    { ident := batch.count, userRecord := { partitionKey := "pk", data := [] }, deadline := 0,
      hashKey := 0, arrivalTime }) { predictedShard := none }

/-- A `put` at `t`, by a clock that stands still. -/
def putAt (t : Time) : Limiter.PutReadings :=
  { Limiter.readingsAt t with created := t, enqueued := t }

/-- The batch is put at 0 and the Limiter is drained at 30. -/
theorem lateComer_surfaces :
    ∃ run, Reachable Run.start (Run.step narrow) timely run ∧ run.enqueued = [⟨lateComer, 0⟩] ∧
      run.surfaced = [⟨lateComer, 30⟩] := by
  have hstart : Reachable Run.start (Run.step narrow) timely {} := .start ⟨0, rfl⟩
  have hput : timely {} (.put lateComer (putAt 0) 0) := by
    refine ⟨le_rfl, le_rfl, Limiter.readingsAt_ordered le_rfl, ?_⟩
    decide +kernel
  have hdrain : ∀ run : Run, run.clock ≤ 30 →
      timely run (.drainAll (fun _ => Limiter.readingsAt 30) 30) :=
    fun run hclock => ⟨hclock, fun _ => Limiter.readingsAt_ordered hclock⟩
  have hrun := (hstart.next hput rfl).next (hdrain _ (by decide +kernel)) rfl
  refine ⟨_, hrun, rfl, ?_⟩
  decide +kernel

/-- The Retrier looks at both records at 30. -/
def atThirty : Retrier.Env :=
  { clock := fun _ => 30, seenAt := fun _ => 30, hashrange := fun _ _ => none }

/-- The first record, a second older than the batch, is finished. -/
theorem expired_batch_finishes_iff_lateComer :
    ∃ run, Reachable Run.start (Run.step narrow) timely run ∧ run.surfaced = [⟨lateComer, 30⟩] ∧
      ∃ record call, lateComer.items[0]? = some record ∧
        (Retrier.handle .asciiOnly narrow.retrier atThirty
          (Producer.expiredOutcome "s" 30 lateComer)).calls[0]? = some call ∧
        FinishedExpired record call := by
  rcases lateComer_surfaces with ⟨run, hrun, henqueued, hsurfaced⟩
  refine ⟨run, hrun, hsurfaced, ?_⟩
  have hx : (⟨lateComer, 30⟩ : Timed) ∈ run.surfaced := by simp [hsurfaced]
  rcases expired_batch_finishes_iff hrun hx with ⟨e, he, -, -, -, hverdict⟩
  rw [henqueued, List.mem_singleton] at he
  subst he
  rcases hverdict .asciiOnly atThirty "s" 30 (fun _ => le_rfl) 0 _ rfl with
    ⟨call, hcall, hfinished, -⟩
  exact ⟨_, call, rfl, hcall, hfinished.mpr (Or.inl (by decide +kernel))⟩

/-- The second record, which came with the batch, is sent back: its batch has expired and
    it has not. -/
theorem not_every_expired_record_finishes :
    ¬ ∀ (cfg : Producer.Config) (run : Run),
      Reachable Run.start (Run.step cfg) timely run → ∀ x : Timed, x ∈ run.surfaced →
      ∀ (u : DigitClasses) (env : Retrier.Env) (stream : String) (now : Time),
        (∀ n, x.time ≤ env.clock n) → ∀ (n : Nat) record, x.batch.items[n]? = some record →
        ∃ call,
          (Retrier.handle u cfg.retrier env
            (Producer.expiredOutcome stream now x.batch)).calls[n]? =
              some call ∧ FinishedExpired record call ∧ ¬ SentBack record call := by
  intro hterminal
  rcases lateComer_surfaces with ⟨run, hrun, -, hsurfaced⟩
  have hx : (⟨lateComer, 30⟩ : Timed) ∈ run.surfaced := by simp [hsurfaced]
  rcases hterminal narrow run hrun _ hx .asciiOnly atThirty "s" 30 (fun _ => le_rfl) 1 _ rfl with
    ⟨call, hcall, -, hnot⟩
  have hback : (Retrier.handle .asciiOnly narrow.retrier atThirty
      (Producer.expiredOutcome "s" 30 lateComer)).calls[1]? = some (Retrier.retryNotExpired
        narrow.retrier (Producer.expiredOutcome "s" 30 lateComer)
        (lateComer.items.get ⟨1, by decide⟩) Retrier.expiredErrorCode
        (Retrier.expiredErrorMessage ++ ": Expired") 30) := by
    rw [handle_expiredOutcome]
    rfl
  rw [hback] at hcall
  obtain rfl := Option.some.inj hcall
  apply hnot
  exact (retryNotExpired_verdict narrow.retrier _ _ _ _ 30).2.mpr (by decide +kernel)

end LimiterExpiry

end Aiokpl
