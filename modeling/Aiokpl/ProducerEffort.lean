import Aiokpl.ProducerMovers

/-!
# How much work is left

`effort` weighs what a producer still has to do: what is in its stages, the timer tasks
and the frames.  Every frame that runs leaves less of it than there was, or as much and
only smaller housekeeping frames, as long as the Retrier gives no record back; a tick of
a drain that finds nothing to hand on is the exception.
-/

namespace Aiokpl

open Lib Aggregation

namespace Reducer

variable {I B : Type} [Batch I B]

/-! ## The timer tasks of a Reducer -/

def Phase.effort : Phase → ℕ
  | .sleeping => 3
  | .waiting => 2
  | .dispatching => 1

def timersEffort (timers : List Timer) : ℕ := (timers.map fun t => t.phase.effort).sum

theorem Phase.effort_pos (phase : Phase) : 0 < phase.effort := by
  cases phase <;> decide

@[simp] theorem timersEffort_append (timers timers' : List Timer) :
    timersEffort (timers ++ timers') = timersEffort timers + timersEffort timers' := by
  simp [timersEffort]

@[simp] theorem timersEffort_cancelIf (scope : Nat) (timers : List Timer) :
    timersEffort (timers.map (Timer.cancelIf scope)) = timersEffort timers := by
  simp [timersEffort, Function.comp_def]

@[simp] theorem timersEffort_cancelTimerLocked (r : State B) :
    timersEffort (cancelTimerLocked r).timers = timersEffort r.timers := by
  unfold cancelTimerLocked
  split
  · exact timersEffort_cancelIf _ r.timers
  · rfl

/-- Arming takes at most one new task. -/
theorem timersEffort_rescheduleLocked (now : Time) (r : State B) :
    timersEffort (rescheduleLocked now r).timers ≤ timersEffort r.timers + 3 := by
  unfold rescheduleLocked
  dsimp only
  split
  · rw [timersEffort_cancelTimerLocked]
    exact Nat.le_add_right _ _
  · rw [timersEffort_append, timersEffort_cancelTimerLocked]
    rfl

theorem timersEffort_filter_le (p : Timer → Bool) (timers : List Timer) :
    timersEffort (timers.filter p) ≤ timersEffort timers :=
  (List.filter_sublist.map _).sum_le_sum fun _ _ => Nat.zero_le _

/-- A task that ends takes its effort along. -/
theorem timersEffort_endTimer {r : State B} {t : Timer} (ht : t ∈ r.timers) :
    timersEffort (endTimer t.scope r).timers < timersEffort r.timers := by
  obtain ⟨front, rest, hsplit⟩ := List.append_of_mem ht
  have hfront := timersEffort_filter_le (fun t' => decide (t'.scope ≠ t.scope)) front
  have hrest := timersEffort_filter_le (fun t' => decide (t'.scope ≠ t.scope)) rest
  have hpos := t.phase.effort_pos
  have hdropped : (endTimer t.scope r).timers =
      front.filter (fun t' => decide (t'.scope ≠ t.scope)) ++
        rest.filter fun t' => decide (t'.scope ≠ t.scope) := by
    simp [endTimer, hsplit]
  have hcons : timersEffort (t :: rest) = t.phase.effort + timersEffort rest := rfl
  rw [hdropped, hsplit, timersEffort_append, timersEffort_append, hcons]
  omega

/-- A task past the lock has the least effort left. -/
theorem timersEffort_dispatching (scope : Nat) (r : State B) :
    timersEffort (setPhase scope .dispatching r).timers ≤ timersEffort r.timers := by
  unfold timersEffort setPhase
  rw [List.map_map]
  refine List.sum_le_sum fun t _ => ?_
  simp only [Function.comp]
  split
  · exact t.phase.effort_pos
  · exact le_rfl

/-- A task that wakes has less to do than one that sleeps. -/
theorem timersEffort_waiting {r : State B} (hnodup : (r.timers.map Timer.scope).Nodup) {t : Timer}
    (ht : t ∈ r.timers) (hphase : t.phase = .sleeping) :
    timersEffort (setPhase t.scope .waiting r).timers < timersEffort r.timers := by
  obtain ⟨front, rest, hsplit⟩ := List.append_of_mem ht
  rw [hsplit, List.map_append, List.map_cons, List.nodup_append, List.nodup_cons] at hnodup
  obtain ⟨_, ⟨hrest, _⟩, hfront⟩ := hnodup
  have hsame : ∀ timers : List Timer, t.scope ∉ timers.map Timer.scope →
      timers.map (fun t' => if t'.scope = t.scope then { t' with phase := .waiting } else t') =
        timers := by
    intro timers hnot
    refine (List.map_congr_left fun t' ht' => if_neg ?_).trans (List.map_id _)
    rintro heq
    exact hnot (heq ▸ List.mem_map_of_mem ht')
  have hwoken : (setPhase t.scope .waiting r).timers =
      front ++ { t with phase := .waiting } :: rest := by
    have hne : t.scope ∉ front.map Timer.scope := fun hmem =>
      hfront t.scope hmem t.scope List.mem_cons_self rfl
    simp [setPhase, hsplit, hsame front hne, hsame rest hrest]
  rw [hwoken, hsplit, timersEffort_append, timersEffort_append]
  simp [timersEffort, hphase, Phase.effort]

variable [Batchable I]

theorem timersEffort_packAndSplit (cfg : Config I B) (now : Time) (r : State B) :
    timersEffort (packAndSplit cfg now r).1.timers ≤ timersEffort r.timers + 3 := by
  have hcancelled := timersEffort_cancelTimerLocked r
  simp only [packAndSplit]
  split
  · refine (timersEffort_rescheduleLocked now _).trans ?_
    exact (congrArg (· + 3) hcancelled).le
  · exact hcancelled.le.trans (Nat.le_add_right _ _)

/-- The operations of the timer tasks. -/
def Op.isTimer : Op I → Bool
  | .wake _ _ => true
  | .fire _ _ => true
  | .dispatched _ => true
  | .cancelled _ => true
  | _ => false

/-- What an operation that is given `adds` does to the timer tasks. -/
structure TimersCost (op : Op I) (before after : ℕ) (closed : Option B) : Prop where
  bound : after ≤ before + 3
  keeps : closed = none → op.adds = [] → after ≤ before
  drops : closed = none → op.isTimer = true → after < before

omit [Batch I B] [Batchable I] in
theorem TimersCost.ended {op : Op I} {before after : ℕ} {closed : Option B} (h : after < before) :
    TimersCost op before after closed :=
  ⟨by omega, fun _ _ => h.le, fun _ _ => h⟩

omit [Batch I B] [Batchable I] in
/-- A batch that is closed costs at most a new timer task. -/
theorem TimersCost.closed {op : Op I} {before after : ℕ} {b : B} (h : after ≤ before + 3) :
    TimersCost op before after (some b) :=
  ⟨h, fun hnone => (by cases hnone), fun hnone => (by cases hnone)⟩

theorem step_timersCost {cfg : Config I B} {r : State B} {op : Op I} {out : State B × Option B}
    (h : TimersSound r) (hstep : step cfg r op = some out) :
    TimersCost op (timersEffort r.timers) (timersEffort out.1.timers) out.2 := by
  cases step_turn hstep with
  | adds now item =>
    simp only [add]
    split
    · exact .closed (timersEffort_packAndSplit cfg now { r with active := Batch.add r.active item })
    · refine ⟨timersEffort_rescheduleLocked now { r with active := Batch.add r.active item },
        ?_, ?_⟩
      · intro _ hadds
        cases hadds
      · intro _ htimer
        cases htimer
  | flushes now =>
    simp only [flush]
    split
    · have hsame := timersEffort_cancelTimerLocked r
      exact ⟨hsame.le.trans (Nat.le_add_right _ _), fun _ _ => hsame.le,
        fun _ htimer => (by cases htimer)⟩
    · exact .closed (timersEffort_packAndSplit cfg now r)
  | closes =>
    have hsame := timersEffort_cancelTimerLocked { r with closed := true }
    exact ⟨hsame.le.trans (Nat.le_add_right _ _), fun _ _ => hsame.le,
      fun _ htimer => (by cases htimer)⟩
  | wakes hsleep =>
    obtain ⟨t, ht, rfl, hphase, _⟩ := hsleep
    simp only [wake]
    split
    · exact .ended (timersEffort_endTimer ht)
    · exact .ended (timersEffort_waiting h.nodup ht hphase)
  | fires now hwait =>
    obtain ⟨t, ht, rfl, _, _⟩ := hwait
    simp only [fire]
    split
    · exact .ended (timersEffort_endTimer ht)
    split
    · exact .ended (timersEffort_endTimer ht)
    split
    · exact .ended (timersEffort_endTimer (r := { r with timerScope := none }) ht)
    · refine .closed ((timersEffort_dispatching t.scope _).trans ?_)
      exact timersEffort_packAndSplit cfg now { r with timerScope := none }
  | dispatched hlive =>
    obtain ⟨t, ht, rfl, _, _⟩ := hlive
    exact .ended (timersEffort_endTimer ht)
  | cancelled ht => exact .ended (timersEffort_endTimer ht)

/-! ## The items of a Reducer -/

/-- What is in a Reducer, by the weight of its items, and its timer tasks. -/
def effort (weight : I → ℕ) (r : State B) : ℕ :=
  ((Batch.items r.active).map weight).sum + timersEffort r.timers

/-- What is in a batch that was closed. -/
def closedEffort (weight : I → ℕ) (closed : Option B) : ℕ :=
  ((closed.toList.flatMap Batch.items).map weight).sum

variable [BatchLaws I B] [CountsItems I B]

/-- **What an operation costs**: what it closes or keeps was there or is added, but for a
    new timer task. -/
theorem step_effort {cfg : Config I B} (weight : I → ℕ) {r r' : State B} {op : Op I}
    {closed : Option B} (h : TimersSound r) (hop : op ≠ .aclose)
    (hstep : step cfg r op = some (r', closed)) :
    TimersCost op (effort weight r + (op.adds.map weight).sum)
      (effort weight r' + closedEffort weight closed) closed := by
  have htimers := step_timersCost h hstep
  have hitems := ((step_items_perm hop hstep).map weight).sum_eq
  simp only [List.map_append, List.sum_append] at hitems
  have hbound := htimers.bound
  simp only at hbound
  unfold effort closedEffort
  refine ⟨by omega, fun hnone hadds => ?_, fun hnone htimer => ?_⟩
  · have hkeeps := htimers.keeps hnone hadds
    simp only at hkeeps
    omega
  · have hdrops := htimers.drops hnone htimer
    simp only at hdrops
    omega

/-- A batch that is closed has items. -/
theorem step_closed_nonempty {cfg : Config I B} {r r' : State B} {op : Op I} {b : B}
    (hop : op ≠ .aclose) (hstep : step cfg r op = some (r', some b)) : Batch.items b ≠ [] :=
  (step_packsOrKeeps hop hstep).nonempty

omit [Batchable I] [BatchLaws I B] [CountsItems I B] in
/-- `aclose` leaves the timer tasks to be cancelled. -/
theorem aclose_effort (cfg : Config I B) (weight : I → ℕ) (r : State B) :
    effort weight (aclose cfg r) ≤ effort weight r := by
  have hsame := timersEffort_cancelTimerLocked { r with closed := true }
  have hempty : Batch.items (aclose cfg r).active = [] := cfg.fresh
  unfold effort
  rw [hempty]
  exact (Nat.zero_add _).le.trans (hsame.le.trans (Nat.le_add_left _ _))

end Reducer

namespace Limiter

/-! ## The queues of a Limiter -/

/-- What the queues hold, by the weight of their batches. -/
def effort (weight : AggregatedBatch → ℕ) (l : State) : ℕ :=
  l.shards.total fun _ s => (s.batches.map weight).sum

/-- What a drain hands out. -/
def Drained.effort (weight : AggregatedBatch → ℕ) (d : Drained) : ℕ := (d.batches.map weight).sum

variable (weight : AggregatedBatch → ℕ)

/-- `put` queues or hands out what it takes in. -/
theorem put_effort (cfg : Config) (t : PutReadings) (batch : AggregatedBatch) (l : State) :
    effort weight (put cfg t batch l).1 + (put cfg t batch l).2.1.effort weight =
      effort weight l + weight batch := by
  let ofShard : Option ShardId → ShardLimiter → ℕ := fun _ s => (s.batches.map weight).sum
  have hput : ∀ limiter : ShardLimiter,
      let out := (limiter.enqueue batch (t.enqueued + cfg.expiration)).drain t.toReadings
      (out.1.batches.map weight).sum + (out.2.batches.map weight).sum =
        (limiter.batches.map weight).sum + weight batch := by
    intro limiter
    have hqueued := ((limiter.enqueue_perm batch (t.enqueued + cfg.expiration)).map weight).sum_eq
    have hdrained := ((ShardLimiter.drain_perm t.toReadings
      (limiter.enqueue batch (t.enqueued + cfg.expiration))).map weight).sum_eq
    simp only [List.map_append, List.sum_append, List.map_cons, List.map_nil, List.sum_singleton]
      at hqueued hdrained
    dsimp only
    omega
  cases hget : l.shards.get? batch.predictedShard with
  | none =>
    have hout := hput (.init cfg.recordsPerSecPerShard cfg.bytesPerSecPerShard t.created)
    have htotal := Dict.total_set_of_none ofShard hget
    have hempty : (ShardLimiter.init cfg.recordsPerSecPerShard cfg.bytesPerSecPerShard
        t.created).batches = [] := rfl
    simp only [put, effort, Drained.effort, hget, Option.getD_none, ofShard, hempty, List.map_nil,
      List.sum_nil] at htotal hout ⊢
    rw [htotal, add_right_comm, hout, add_comm, Nat.zero_add]
  | some limiter =>
    have hout := hput limiter
    have htotal := Dict.total_set_of_get? ofShard hget
      ((limiter.enqueue batch (t.enqueued + cfg.expiration)).drain t.toReadings).1
    simp only [put, effort, Drained.effort, hget, Option.getD_some, ofShard] at htotal hout ⊢
    omega

theorem drainEach_effort {drain : Option ShardId → ShardLimiter → ShardLimiter × Drained}
    (hdrain : ∀ key limiter,
      ((drain key limiter).2.batches ++ (drain key limiter).1.batches).Perm limiter.batches) :
    ∀ (keys : List (Option ShardId)) (shards : Dict (Option ShardId) ShardLimiter),
      (drainEach drain keys shards).1.total (fun _ s => (s.batches.map weight).sum) +
          ((drainEach drain keys shards).2.map (Drained.effort weight)).sum =
        shards.total fun _ s => (s.batches.map weight).sum
  | [], _ => rfl
  | key :: keys, shards => by
    simp only [drainEach]
    split
    · exact drainEach_effort hdrain keys shards
    · rename_i limiter hget
      have ih := drainEach_effort hdrain keys (shards.set key (drain key limiter).1)
      have hperm := ((hdrain key limiter).map weight).sum_eq
      have htotal := Dict.total_set_of_get? (fun _ s => (ShardLimiter.batches s |>.map weight).sum)
        hget (drain key limiter).1
      simp only [List.map_append, List.sum_append] at hperm
      simp only [List.map_cons, List.sum_cons, Drained.effort]
      omega

theorem drainAll_effort (t : Option ShardId → Readings) (l : State) :
    effort weight (drainAll t l).1 + ((drainAll t l).2.map (Drained.effort weight)).sum =
      effort weight l :=
  drainEach_effort weight (fun key limiter => limiter.drain_perm (t key)) _ _

theorem flush_effort (now : Option ShardId → Time) (l : State) :
    effort weight (flush now l).1 + ((flush now l).2.map (Drained.effort weight)).sum =
      effort weight l :=
  drainEach_effort weight (fun key limiter => limiter.drainForce_perm (now key)) _ _

end Limiter

namespace Retrier

open Sender (Slot Reply)

/-! ## The calls of the Retrier -/

/-- The record goes back to the Aggregator. -/
def Call.retries : Call → Bool
  | .onRetry _ => true
  | _ => false

/-- All that the records are judged by is past their TTL. -/
def PastTtl (cfg : Config) (env : Env) (bs : List BufferedRecord) : Prop :=
  ∀ b ∈ bs, ∀ n, cfg.recordTtl < env.clock n - b.arrivalTime

variable {cfg : Config} {env : Env}

theorem retryNotExpired_late (outcome : SendOutcome) {b : BufferedRecord} (code message : String)
    {now : Time} (h : cfg.recordTtl < now - b.arrivalTime) :
    (retryNotExpired cfg outcome b code message now).retries = false := by
  have hlate : now - b.arrivalTime > cfg.recordTtl := h
  simp [retryNotExpired, hlate, Call.retries]

theorem judgeFailure_late (outcome : SendOutcome) {b : BufferedRecord} (code message : String)
    {now : Time} (h : cfg.recordTtl < now - b.arrivalTime) :
    (judgeFailure cfg outcome b code message now).retries = false := by
  unfold judgeFailure
  split
  · rfl
  · exact retryNotExpired_late outcome code message h

theorem judgeMismatch_late (outcome : SendOutcome) (perRecord : PerRecordOutcome)
    (actualRange : Option (Nat × Nat)) {b : BufferedRecord} {now : Time}
    (h : cfg.recordTtl < now - b.arrivalTime) :
    (judgeMismatch cfg outcome perRecord actualRange b now).retries = false := by
  unfold judgeMismatch
  split
  · rfl
  · exact retryNotExpired_late outcome _ _ h

/-- The calls give nothing back, and are so many at most. -/
def Settles (calls : List Call) (bound : ℕ) : Prop :=
  (∀ call ∈ calls, call.retries = false) ∧ calls.length ≤ bound

theorem Settles.mono {calls : List Call} {bound bound' : ℕ} (h : Settles calls bound)
    (hle : bound ≤ bound') : Settles calls bound' := ⟨h.1, h.2.trans hle⟩

theorem Settles.append {calls calls' : List Call} {bound bound' : ℕ} (h : Settles calls bound)
    (h' : Settles calls' bound') : Settles (calls ++ calls') (bound + bound') := by
  refine ⟨fun call hcall => ?_, ?_⟩
  · rcases List.mem_append.mp hcall with hcall | hcall
    · exact h.1 call hcall
    · exact h'.1 call hcall
  · rw [List.length_append]
    exact Nat.add_le_add h.2 h'.2

theorem judgeEach_settles {judge : BufferedRecord → Time → Call} :
    ∀ (n : Nat) (bs : List BufferedRecord), PastTtl cfg env bs →
      (∀ b now, cfg.recordTtl < now - b.arrivalTime → (judge b now).retries = false) →
      Settles (judgeEach env judge n bs) bs.length
  | _, [], _, _ => ⟨by simp [judgeEach], le_rfl⟩
  | n, b :: bs, hlate, hjudge => by
    have hhead := hjudge b (env.clock n) (hlate b List.mem_cons_self n)
    have htail := judgeEach_settles (n + 1) bs (fun b' hb' => hlate b' (List.mem_cons_of_mem b hb'))
      hjudge
    have hone : Settles [judge b (env.clock n)] 1 := ⟨by simpa using hhead, le_rfl⟩
    exact (hone.append htail).mono (by simp [Nat.add_comm])

theorem finishAll_settles (outcome : SendOutcome) (perRecord : PerRecordOutcome)
    (bs : List BufferedRecord) :
    Settles (bs.map (finishSuccess outcome · perRecord)) (bs.length + 1) := by
  refine ⟨fun call hcall => ?_, by simp⟩
  obtain ⟨b, _, rfl⟩ := List.mem_map.mp hcall
  rfl

/-- A slot makes a call for each record, and invalidates the map once at most. -/
theorem handlePerRecord_settles {u : DigitClasses} {outcome : SendOutcome} {k n : Nat}
    {perRecord : PerRecordOutcome} {calls : List Call}
    (hlate : PastTtl cfg env perRecord.batch.items)
    (h : handlePerRecord u cfg env outcome k n perRecord = .ok calls) :
    Settles calls (perRecord.batch.items.length + 1) := by
  unfold handlePerRecord at h
  split at h
  · cases hactual : parseActualShardId u perRecord.shardId with
    | error e =>
      simp only [handleSuccess, hactual] at h
      cases h
    | ok actual =>
      simp only [handleSuccess, hactual, bind, Except.bind, pure, Except.pure] at h
      split at h
      · split at h
        · obtain rfl := Except.ok.inj h
          exact finishAll_settles outcome perRecord _
        · rename_i predicted actualInt _ _
          have hjudged : Settles (judgeEach env (judgeMismatch cfg outcome perRecord
              (env.hashrange k actualInt)) n perRecord.batch.items) perRecord.batch.items.length :=
            judgeEach_settles n _ hlate fun b now hb => judgeMismatch_late outcome perRecord _ hb
          split at h
          · obtain rfl := Except.ok.inj h
            exact ⟨by simp, by simp⟩
          · rename_i first rest hcalls
            obtain rfl := Except.ok.inj h
            rw [hcalls] at hjudged
            refine ⟨fun call hcall => ?_, by simpa using hjudged.2⟩
            rcases List.mem_cons.mp hcall with rfl | hcall
            · exact hjudged.1 call List.mem_cons_self
            rcases List.mem_cons.mp hcall with rfl | hcall
            · rfl
            · exact hjudged.1 call (List.mem_cons_of_mem first hcall)
      · obtain rfl := Except.ok.inj h
        exact finishAll_settles outcome perRecord _
  · obtain rfl := Except.ok.inj h
    exact (judgeEach_settles n _ hlate fun b now hb => judgeFailure_late outcome _ _ hb).mono
      (Nat.le_succ _)

/-- The calls give no record back, and with the exception there are `bound` of them at most. -/
def Handled.Settles (handled : Handled) (bound : ℕ) : Prop :=
  Retrier.Settles handled.calls (bound - handled.raised.toList.length) ∧
    handled.raised.toList.length ≤ bound

theorem Handled.Settles.mono {handled : Handled} {bound bound' : ℕ} (h : handled.Settles bound)
    (hle : bound ≤ bound') : handled.Settles bound' :=
  ⟨h.1.mono (Nat.sub_le_sub_right hle _), h.2.trans hle⟩

theorem handleSlots_settles (u : DigitClasses) (outcome : SendOutcome) :
    ∀ (k n : Nat) (slots : List PerRecordOutcome),
      (∀ perRecord ∈ slots, PastTtl cfg env perRecord.batch.items) →
      (handleSlots u cfg env outcome k n slots).Settles
        (slots.map fun perRecord => perRecord.batch.items.length + 1).sum
  | _, _, [], _ => ⟨⟨by simp [handleSlots], by simp [handleSlots]⟩, by simp [handleSlots]⟩
  | k, n, perRecord :: rest, hlate => by
    simp only [handleSlots, List.map_cons, List.sum_cons]
    split
    · -- the slot that raises makes no call
      refine ⟨⟨by simp, Nat.zero_le _⟩, ?_⟩
      simp only [Option.toList_some, List.length_singleton]
      omega
    · rename_i calls hcalls
      have hhead := handlePerRecord_settles (hlate perRecord List.mem_cons_self) hcalls
      obtain ⟨htail, hraised⟩ := handleSlots_settles u outcome (k + 1)
        (n + perRecord.batch.items.length) rest
        fun perRecord' h' => hlate perRecord' (List.mem_cons_of_mem perRecord h')
      refine ⟨(hhead.append htail).mono ?_, ?_⟩ <;> dsimp only <;> omega

theorem handleRequestError_settles (outcome : SendOutcome) (code message : String)
    (hlate : PastTtl cfg env (outcome.batchItems.flatMap AggregatedBatch.items)) :
    Settles (handleRequestError cfg env outcome code message)
      (outcome.batchItems.flatMap AggregatedBatch.items).length :=
  judgeEach_settles 0 _ hlate fun _ _ hb => judgeFailure_late outcome code message hb

/-- What a batch may become: a call for each record, and an `invalidate`. -/
def callsOf (batch : PutRecordsBatch) : ℕ := (batch.items.map fun ar => ar.items.length + 1).sum

theorem records_length_le (batch : PutRecordsBatch) : (records batch).length ≤ callsOf batch := by
  rw [records, List.length_flatMap]
  exact List.sum_le_sum fun ar _ => Nat.le_succ _

@[simp] theorem batch_buildPerRecord (ar : AggregatedBatch) (slot : Slot) :
    (Sender.buildPerRecord ar slot).batch = ar := by
  unfold Sender.buildPerRecord
  split <;> rfl

theorem zipWith_callsOf : ∀ (ars : List AggregatedBatch) (slots : List Slot),
    ((List.zipWith Sender.buildPerRecord ars slots).map fun perRecord =>
      perRecord.batch.items.length + 1).sum ≤ (ars.map fun ar => ar.items.length + 1).sum
  | [], _ => by simp
  | _ :: _, [] => by simp
  | ar :: ars, slot :: slots => by
    have ih := zipWith_callsOf ars slots
    simp only [List.zipWith_cons_cons, List.map_cons, List.sum_cons, batch_buildPerRecord]
    omega

theorem mem_zipWith_buildPerRecord : ∀ {ars : List AggregatedBatch} {slots : List Slot}
    {perRecord : PerRecordOutcome},
    perRecord ∈ List.zipWith Sender.buildPerRecord ars slots → perRecord.batch ∈ ars
  | [], _, _, h => by simp at h
  | _ :: _, [], _, h => by simp at h
  | ar :: ars, slot :: slots, perRecord, h => by
    rcases List.mem_cons.mp h with rfl | h
    · rw [batch_buildPerRecord]
      exact List.mem_cons_self
    · exact List.mem_cons_of_mem ar (mem_zipWith_buildPerRecord h)

/-- **Past the TTL** a trip gives no record back. -/
theorem trip_settles {md5 : Bytes → Digest} {u : DigitClasses} {streamName : String}
    {startedAt endedAt : Time} {batch : PutRecordsBatch} {reply : Reply} {outcome : SendOutcome}
    {handled : Handled} (hlate : PastTtl cfg env (records batch))
    (h : trip md5 u cfg env streamName startedAt endedAt batch reply = .ok (outcome, handled)) :
    handled.Settles (callsOf batch) := by
  obtain ⟨hne, hfull⟩ := full_of_trip_ok h
  rw [trip, Sender.send_ok md5 streamName startedAt endedAt reply hne hfull] at h
  obtain ⟨rfl, rfl⟩ := Prod.mk.inj (Except.ok.inj h)
  have hrequest : ∀ (outcome : SendOutcome) (code message : String),
      outcome.batchItems = batch.items →
      Settles (handleRequestError cfg env outcome code message) (callsOf batch) := by
    intro outcome code message hitems
    refine (handleRequestError_settles outcome code message ?_).mono ?_
    · rw [hitems]
      exact hlate
    · rw [hitems]
      exact records_length_le batch
  cases reply with
  | raised exc => exact ⟨hrequest _ _ _ rfl, Nat.zero_le _⟩
  | response slots =>
    by_cases hcount : slots.length = batch.count
    · have hslots := handleSlots_settles u
        (Sender.outcomeOf streamName startedAt endedAt batch (.response slots)) 0 0
        (List.zipWith Sender.buildPerRecord batch.items slots) fun perRecord hmem b hb => by
          exact hlate b (List.mem_flatMap.mpr ⟨_, mem_zipWith_buildPerRecord hmem, hb⟩)
      simp only [handle, Sender.outcomeOf, hcount, ne_eq, not_true_eq_false, if_false] at hslots ⊢
      exact hslots.mono (zipWith_callsOf batch.items slots)
    · simp only [handle, Sender.outcomeOf, hcount, ne_eq, not_false_eq_true, if_true]
      exact ⟨hrequest _ _ _ rfl, Nat.zero_le _⟩

end Retrier

namespace Producer

/-! ## What is left to do -/

/-- In the queue of a shard a batch has its way to the Collector before it. -/
def queuedEffort (batch : AggregatedBatch) : ℕ := batch.items.length + 12

/-- In the Collector a batch has a request before it, and what comes of that. -/
def collectedEffort (batch : AggregatedBatch) : ℕ := batch.items.length + 7

def Pipeline.effort (p : Pipeline) : ℕ :=
  (p.aggregator.reducers.total fun _ r => Reducer.effort (fun _ => 18) r) +
    Limiter.effort queuedEffort p.limiter + Reducer.effort collectedEffort p.collector

def Shared.effort (s : Shared) : ℕ :=
  (s.pipelines.total fun _ p => p.effort) + 9 * s.exitStack.length

/-- What a frame has before it, of its own and in what it hands on. -/
def Work.effort : Work → ℕ
  | .acquire _ => 36
  | .resume _ => 35
  | .getPipeline _ => 34
  | .buildPipeline _ => 33
  | .callback _ (.onRetry _) => 24
  | .callback _ _ => 1
  | .getReducer _ _ _ => 23
  | .reducerAdd _ _ _ => 22
  | .limiterPut _ batch => batch.items.length + 13
  | .limiterAdmit _ batch => batch.items.length + 11
  | .limiterExpired _ batch => batch.items.length + 1
  | .send _ batch => Retrier.callsOf batch + 2
  | .inFlight _ _ batch => Retrier.callsOf batch + 1
  | .unwind => 2
  | .flushPipelines => 0
  | .flushAggregator _ => 0
  | .flushReducer _ _ => 0
  | .flushLimiter _ => 0
  | .flushCollector _ => 0
  | .checkpoint => 0
  | .drainTick _ => 0
  | _ => 1

/-- The housekeeping of a flush: a frame makes way for frames of lower levels. -/
def Work.level : Work → ℕ
  | .flushPipelines => 3
  | .flushAggregator _ => 2
  | .flushReducer _ _ => 1
  | .flushLimiter _ => 1
  | .flushCollector _ => 1
  | .checkpoint => 1
  | _ => 0

/-- The frame has been replaced by less: by less effort, or by as much and only by
    housekeeping of lower levels. -/
def Eases (s : Shared) (w : Work) (s' : Shared) (after : List Work) : Prop :=
  s'.effort + load Work.effort after < s.effort + w.effort ∨
    s'.effort + load Work.effort after ≤ s.effort + w.effort ∧ 0 < w.level ∧
      ∀ v ∈ after, v.level < w.level

section Exec

variable {sys : System} {input : Input} {id : Nat} {s s' : Shared} {w : Work} {push : List Work}
  {spawn : Option Task}

theorem Shared.effort_stage {stream : String} {p p' : Pipeline}
    (hp : s.pipelines.get? stream = some p) (hs' : s'.pipelines = s.pipelines.set stream p')
    (hstack : s'.exitStack = s.exitStack) : s'.effort + p.effort = s.effort + p'.effort := by
  have htotal := Dict.total_set_of_get? (fun _ p => Pipeline.effort p) hp p'
  simp only [Shared.effort, hs', hstack]
  omega

theorem Shared.effort_setAggregator {s : Shared} {stream : String} {p : Pipeline}
    (hp : s.pipelines.get? stream = some p) (aggregator : Aggregator.State) :
    (s.setPipeline stream { p with aggregator }).effort + p.effort =
      s.effort + Pipeline.effort { p with aggregator } := by
  apply Shared.effort_stage hp
  · rfl
  · rfl

theorem Shared.effort_setLimiter {s : Shared} {stream : String} {p : Pipeline}
    (hp : s.pipelines.get? stream = some p) (limiter : Limiter.State) :
    (s.setPipeline stream { p with limiter }).effort + p.effort =
      s.effort + Pipeline.effort { p with limiter } := by
  apply Shared.effort_stage hp
  · rfl
  · rfl

theorem Shared.effort_setCollector {s : Shared} {stream : String} {p : Pipeline}
    (hp : s.pipelines.get? stream = some p) (collector : Reducer.State PutRecordsBatch) :
    (s.setPipeline stream { p with collector }).effort + p.effort =
      s.effort + Pipeline.effort { p with collector } := by
  apply Shared.effort_stage hp
  · rfl
  · rfl

theorem Shared.effort_same {stream : String} {p p' : Pipeline}
    (hp : s.pipelines.get? stream = some p) (hs' : s'.pipelines = s.pipelines.set stream p')
    (hstack : s'.exitStack = s.exitStack) (hsame : p'.effort = p.effort) :
    s'.effort = s.effort := by
  have hstage := Shared.effort_stage hp hs' hstack
  omega

theorem load_toLimiter_effort (stream : String) (closed : Option AggregatedBatch) :
    load Work.effort (toLimiter stream closed) =
      Reducer.closedEffort (fun _ => 1) closed + 13 * closed.toList.length := by
  cases closed with
  | none => rfl
  | some batch => simp [toLimiter, Work.effort, Reducer.closedEffort, Batch.items]

/-- What is handed on has less before it than what was queued. -/
theorem load_dispatch_effort (stream : String) (drained : Limiter.Drained) :
    load Work.effort (dispatch stream drained) + drained.batches.length ≤
      drained.effort queuedEffort := by
  have hexpired : ∀ batches : List AggregatedBatch,
      load Work.effort (batches.map (.limiterExpired stream)) + batches.length ≤
        (batches.map queuedEffort).sum := by
    intro batches
    induction batches with
    | nil => exact le_rfl
    | cons batch batches ih =>
      simp only [List.map_cons, load_cons, Work.effort, List.length_cons, List.sum_cons,
        queuedEffort]
      omega
  have hadmitted : ∀ batches : List AggregatedBatch,
      load Work.effort (batches.map (.limiterAdmit stream)) + batches.length ≤
        (batches.map queuedEffort).sum := by
    intro batches
    induction batches with
    | nil => exact le_rfl
    | cons batch batches ih =>
      simp only [List.map_cons, load_cons, Work.effort, List.length_cons, List.sum_cons,
        queuedEffort]
      omega
  have hleft := hexpired drained.expired
  have hright := hadmitted drained.admitted
  simp only [dispatch, load_append, Limiter.Drained.effort, Limiter.Drained.batches,
    List.length_append, List.map_append, List.sum_append]
  omega

theorem load_dispatchAll_effort (stream : String) (drained : List Limiter.Drained) :
    load Work.effort (drained.flatMap (dispatch stream)) +
        (drained.map fun d => d.batches.length).sum ≤
      (drained.map (Limiter.Drained.effort queuedEffort)).sum := by
  induction drained with
  | nil => exact le_rfl
  | cons d drained ih =>
    have hhead := load_dispatch_effort stream d
    simp only [List.flatMap_cons, load_append, List.map_cons, List.sum_cons]
    omega

theorem load_callbacks_effort (stream : String) {calls : List Retrier.Call} {bound : ℕ}
    (h : Retrier.Settles calls bound) :
    load Work.effort (calls.map (.callback stream)) ≤ bound := by
  refine le_trans ?_ h.2
  have hcalls := h.1
  clear h
  induction calls with
  | nil => exact le_rfl
  | cons call calls ih =>
    have hone : Work.effort (.callback stream call) = 1 := by
      have hcall := hcalls call List.mem_cons_self
      cases call with
      | onFinish buffered result => rfl
      | invalidate seenAt shard => rfl
      | onRetry buffered => cases hcall
    have hrest := ih fun call' h' => hcalls call' (List.mem_cons_of_mem call h')
    simp only [List.map_cons, load_cons, hone, List.length_cons]
    omega

theorem load_handling_effort (stream : String) (batch : PutRecordsBatch)
    {handled : Retrier.Handled} {bound : ℕ} (h : handled.Settles bound) :
    load Work.effort (handling stream batch handled) ≤ bound := by
  have hcalls := load_callbacks_effort stream h.1
  have hraises : load Work.effort (handled.raised.toList.map fun _ =>
      .handleRaises stream (unjudged batch handled.calls)) = handled.raised.toList.length := by
    cases handled.raised <;> rfl
  have hle := h.2
  rw [handling, load_append, hraises]
  omega

/-! ## What the stages hand on -/

/-- What an operation of the Aggregator or the Collector costs, with what becomes of the
    batch that it closes. -/
structure StageCost {I : Type} (op : Reducer.Op I) (adds before after : ℕ) : Prop where
  bound : after ≤ before + adds + 3
  keeps : op.adds = [] → after ≤ before
  drops : op.adds = [] → op.isTimer = true → after < before

def aggregatorEffort (a : Aggregator.State) : ℕ :=
  a.reducers.total fun _ r => Reducer.effort (fun _ => 18) r

theorem aggregator_cost {a a' : Aggregator.State} {key : Option ShardId}
    {op : Reducer.Op BufferedRecord} {closed : Option AggregatedBatch}
    (harmed : ∀ key r, a.reducers.get? key = some r → Reducer.Armed r) (hop : op ≠ .aclose)
    (h : Aggregator.onReducer sys.cfg.aggregator key op a = some (a', closed)) (stream : String) :
    StageCost op (18 * op.adds.length) (aggregatorEffort a)
      (aggregatorEffort a' + load Work.effort (toLimiter stream closed)) := by
  obtain ⟨r, r', closed', hr, hstep, hout⟩ := Aggregator.onReducer_eq_some h
  obtain ⟨rfl, rfl⟩ := Prod.mk.inj hout
  have hcost := Reducer.step_effort (fun _ => 18) (harmed key r hr).toTimersSound hop hstep
  have htotal := Dict.total_set_of_get? (fun _ r => Reducer.effort (fun _ => 18) r) hr r'
  have hadds : (op.adds.map fun _ => 18).sum = 18 * op.adds.length := by
    rw [List.map_const', List.sum_replicate, smul_eq_mul, Nat.mul_comm]
  have hbound := hcost.bound
  rw [hadds] at hbound
  rw [load_toLimiter_effort]
  unfold aggregatorEffort
  cases closed with
  | none =>
    have hnone : ∀ weight : BufferedRecord → ℕ,
        Reducer.closedEffort (B := AggregatedBatch) weight none = 0 := fun _ => rfl
    simp only [hnone, Option.toList_none, List.length_nil] at hbound ⊢
    refine ⟨by omega, fun hadds' => ?_, fun hadds' htimer => ?_⟩
    · have hkeeps := hcost.keeps rfl hadds'
      simp only [hadds', List.map_nil, List.sum_nil, hnone] at hkeeps
      omega
    · have hdrops := hcost.drops rfl htimer
      simp only [hadds', List.map_nil, List.sum_nil, hnone] at hdrops
      omega
  | some batch =>
    -- a record that leaves pays for the way of its batch
    have hpos := List.length_pos_of_ne_nil (Reducer.step_closed_nonempty hop hstep)
    have hpays : Reducer.closedEffort (fun _ => 18) (some batch) =
        18 * (Batch.items batch).length := by
      simp [Reducer.closedEffort, Nat.mul_comm]
    have hclosed : Reducer.closedEffort (fun _ => 1) (some batch) = (Batch.items batch).length := by
      simp [Reducer.closedEffort]
    simp only [Option.toList_some, List.length_singleton]
    refine ⟨by omega, fun hadds' => ?_, fun hadds' _ => ?_⟩
    · rw [hadds', List.length_nil] at hbound
      omega
    · rw [hadds', List.length_nil] at hbound
      omega

/-- The send task that a closed request is given to. -/
def sendEffort : Option PutRecordsBatch → ℕ
  | none => 0
  | some batch => Retrier.callsOf batch + 2

theorem collector_cost {c c' : Reducer.State PutRecordsBatch} {op : Reducer.Op AggregatedBatch}
    {closed : Option PutRecordsBatch} (harmed : Reducer.Armed c) (hop : op ≠ .aclose)
    (h : Reducer.step sys.cfg.collector.reducer c op = some (c', closed)) :
    StageCost op (op.adds.map collectedEffort).sum (Reducer.effort collectedEffort c)
      (Reducer.effort collectedEffort c' + sendEffort closed) := by
  have hcost := Reducer.step_effort collectedEffort harmed.toTimersSound hop h
  have hbound := hcost.bound
  cases closed with
  | none =>
    have hnone : Reducer.closedEffort (B := PutRecordsBatch) collectedEffort none = 0 := rfl
    simp only [hnone, sendEffort] at hbound ⊢
    refine ⟨by omega, fun hadds => ?_, fun hadds htimer => ?_⟩
    · have hkeeps := hcost.keeps rfl hadds
      simp only [hadds, List.map_nil, List.sum_nil, hnone] at hkeeps
      omega
    · have hdrops := hcost.drops rfl htimer
      simp only [hadds, List.map_nil, List.sum_nil, hnone] at hdrops
      omega
  | some batch =>
    have hpos := List.length_pos_of_ne_nil (Reducer.step_closed_nonempty hop h)
    have hpays : ∀ items : List AggregatedBatch,
        (items.map fun ar => ar.items.length + 1).sum + 6 * items.length =
          (items.map collectedEffort).sum := by
      intro items
      induction items with
      | nil => rfl
      | cons ar items ih =>
        simp only [List.map_cons, List.sum_cons, List.length_cons, collectedEffort] at ih ⊢
        omega
    have hclosed : Reducer.closedEffort collectedEffort (some batch) =
        ((Batch.items batch).map collectedEffort).sum := by
      simp [Reducer.closedEffort]
    have hcalls : Retrier.callsOf batch + 6 * (Batch.items batch).length =
        ((Batch.items batch).map collectedEffort).sum := hpays batch.items
    simp only [sendEffort]
    refine ⟨by omega, fun hadds => ?_, fun hadds _ => ?_⟩
    · rw [hadds, List.map_nil, List.sum_nil] at hbound
      omega
    · rw [hadds, List.map_nil, List.sum_nil] at hbound
      omega

theorem collector_add_cost (sys : System) {c : Reducer.State PutRecordsBatch} (now : Time)
    (batch : AggregatedBatch) (harmed : Reducer.Armed c) :
    Reducer.effort collectedEffort (Reducer.add sys.cfg.collector.reducer now batch c).1 +
        sendEffort (Reducer.add sys.cfg.collector.reducer now batch c).2 ≤
      Reducer.effort collectedEffort c + collectedEffort batch + 3 := by
  have hstep : Reducer.step sys.cfg.collector.reducer c (.add now batch) =
      some ((Reducer.add sys.cfg.collector.reducer now batch c).1,
        (Reducer.add sys.cfg.collector.reducer now batch c).2) := rfl
  exact (collector_cost harmed (by simp) hstep).bound

theorem collector_flush_cost (sys : System) {c : Reducer.State PutRecordsBatch} (now : Time)
    (harmed : Reducer.Armed c) :
    Reducer.effort collectedEffort (Reducer.flush sys.cfg.collector.reducer now c).1 +
        sendEffort (Reducer.flush sys.cfg.collector.reducer now c).2 ≤
      Reducer.effort collectedEffort c := by
  have hstep : Reducer.step sys.cfg.collector.reducer c (.flush now) =
      some ((Reducer.flush sys.cfg.collector.reducer now c).1,
        (Reducer.flush sys.cfg.collector.reducer now c).2) := rfl
  exact (collector_cost harmed (by simp) hstep).keeps rfl

theorem load_collectorBatch_effort {stream : String} {closed : Option PutRecordsBatch}
    (h : collectorBatch stream closed s = .next s' push spawn) :
    load Work.effort (spawn.toList.flatMap Task.work) = sendEffort closed := by
  cases closed with
  | none =>
    obtain ⟨_, _, rfl⟩ := (Ran.next.injEq ..).mp h
    rfl
  | some batch =>
    simp only [collectorBatch] at h
    split at h
    · obtain ⟨_, _, rfl⟩ := (Ran.next.injEq ..).mp h
      simp [sendEffort, Work.effort]
    · cases h

/-! ## What a frame leaves to do -/

/-- All that the frame gives to the Retrier is past its TTL. -/
def Work.late (sys : System) (input : Input) : Work → Prop
  | .limiterExpired _ batch => Retrier.PastTtl sys.cfg.retrier input.env batch.items
  | .inFlight _ _ batch => Retrier.PastTtl sys.cfg.retrier input.env (Retrier.records batch)
  | _ => True

/-- The frame is no tick that finds nothing to hand on. -/
def Work.busy (input : Input) (s : Shared) : Work → Prop
  | .drainTick stream => ∃ p, s.pipelines.get? stream = some p ∧
      ∃ d ∈ (Limiter.drainAll input.drain p.limiter).2, d.batches ≠ []
  | _ => True

/-- The pipelines and the exit stack are as they were. -/
theorem Eases.less {after : List Work} (hs' : s'.effort = s.effort)
    (h : load Work.effort after < w.effort) : Eases s w s' after :=
  Or.inl (by omega)

theorem Eases.chore {after : List Work} (hs' : s'.effort + load Work.effort after ≤ s.effort)
    (hw : 0 < w.level) (h : ∀ v ∈ after, v.level < w.level) : Eases s w s' after :=
  Or.inr ⟨hs'.trans (Nat.le_add_right _ _), hw, h⟩

theorem submit_effort {call : PutCall} {p : Pipeline} (hp : s.pipelines.get? call.stream = some p)
    (h : submit sys input call p s = .next s' push spawn) :
    s'.effort = s.effort ∧ load Work.effort (push ++ spawn.toList.flatMap Task.work) = 23 := by
  unfold submit at h
  split at h
  · cases h
  · obtain ⟨rfl, rfl, rfl⟩ := (Ran.next.injEq ..).mp h
    refine ⟨?_, rfl⟩
    exact Shared.effort_same hp rfl rfl rfl

theorem entering_effort (sys : System) (s : Shared) (stream : String) :
    (entering sys s stream).effort ≤ s.effort + 9 := by
  have hnew : (newPipeline sys.cfg).effort = 0 := rfl
  have htotal : ((entering sys s stream).pipelines.total fun _ p => p.effort) ≤
      s.pipelines.total fun _ p => p.effort := by
    cases hp : s.pipelines.get? stream with
    | none =>
      have hset := Dict.total_set_of_none (fun _ p => Pipeline.effort p) hp (newPipeline sys.cfg)
      rw [hnew, Nat.zero_add] at hset
      exact hset.le
    | some p =>
      have hset := Dict.total_set_of_get? (fun _ p => Pipeline.effort p) hp (newPipeline sys.cfg)
      rw [hnew, Nat.add_zero] at hset
      exact Nat.le.intro hset
  have hstack : (entering sys s stream).exitStack.length = s.exitStack.length + 1 := rfl
  unfold Shared.effort
  omega

theorem getOrCreateReducer_effort {cfg : Aggregator.Config} {key : Option ShardId}
    {a a' : Aggregator.State} (h : Aggregator.getOrCreateReducer cfg key a = some a') :
    aggregatorEffort a' = aggregatorEffort a := by
  unfold Aggregator.getOrCreateReducer at h
  split at h
  · obtain rfl := Option.some.inj h
    rfl
  · rename_i hnone
    split at h
    · obtain rfl := Option.some.inj h
      have hset := Dict.total_set_of_none (fun _ r => Reducer.effort (fun _ => 18) r) hnone
        (Reducer.init (cfg.reducer key))
      have hnew : Reducer.effort (fun _ => 18) (Reducer.init (cfg.reducer key)) = 0 := rfl
      rw [hnew, Nat.zero_add] at hset
      exact hset
    · cases h

theorem finish_effort (stream : String) (buffered : BufferedRecord) (s : Shared) :
    (finish stream buffered s).effort = s.effort := by
  cases hp : s.pipelines.get? stream with
  | none => simp [finish, hp, Shared.effort]
  | some p =>
    rw [finish_eq hp]
    exact Shared.effort_same hp rfl rfl rfl

/-- One record makes one batch at most. -/
theorem forgotten_effort (cfg : Aggregator.Config) (now : Time) (key : Option ShardId)
    (buffered : BufferedRecord) (stream : String) :
    load Work.effort (toLimiter stream (addToForgotten cfg now key buffered).2) ≤ 14 := by
  have hperm : ((addToForgotten cfg now key buffered).2.toList.flatMap AggregatedBatch.items ++
      (addToForgotten cfg now key buffered).1.active.items).Perm ([] ++ [buffered]) :=
    Reducer.step_items_perm (show Reducer.Op.add now buffered ≠ .aclose by simp) rfl
  have hlength := hperm.length_eq
  rw [load_toLimiter_effort]
  cases hclosed : (addToForgotten cfg now key buffered).2 with
  | none => exact Nat.zero_le _
  | some batch =>
    rw [hclosed] at hlength
    simp [Reducer.closedEffort, Batch.items] at hlength ⊢
    omega

/-- The Aggregator of a stream and the frames that are pushed. -/
theorem Eases.aggregator {stream : String} {p : Pipeline} {aggregator : Aggregator.State}
    {after : List Work} (hp : s.pipelines.get? stream = some p)
    (h : aggregatorEffort aggregator + load Work.effort after <
      aggregatorEffort p.aggregator + w.effort) :
    Eases s w (s.setPipeline stream { p with aggregator }) after := by
  have hstage := Shared.effort_setAggregator hp aggregator
  simp only [Pipeline.effort, aggregatorEffort] at hstage h
  exact Or.inl (by omega)

theorem Eases.limiter {stream : String} {p : Pipeline} {limiter : Limiter.State}
    {after : List Work} (hp : s.pipelines.get? stream = some p)
    (h : Limiter.effort queuedEffort limiter + load Work.effort after <
      Limiter.effort queuedEffort p.limiter + w.effort) :
    Eases s w (s.setPipeline stream { p with limiter }) after := by
  have hstage := Shared.effort_setLimiter hp limiter
  simp only [Pipeline.effort] at hstage
  exact Or.inl (by omega)

/-- The Collector of a stream and the send task that may be started. -/
theorem collectorBatch_effort {stream : String} {p : Pipeline}
    {collector : Reducer.State PutRecordsBatch} {closed : Option PutRecordsBatch}
    (hp : s.pipelines.get? stream = some p)
    (h : collectorBatch stream closed (s.setPipeline stream { p with collector }) =
      .next s' push spawn) :
    s'.effort + load Work.effort (push ++ spawn.toList.flatMap Task.work) +
        Reducer.effort collectedEffort p.collector =
      s.effort + (Reducer.effort collectedEffort collector + sendEffort closed) := by
  have hload := load_collectorBatch_effort h
  obtain ⟨rfl, rfl, _, _⟩ := collectorBatch_next h
  have hstage := Shared.effort_setCollector hp collector
  simp only [Pipeline.effort] at hstage
  rw [List.nil_append, hload]
  omega

theorem level_collectorBatch {stream : String} {closed : Option PutRecordsBatch}
    (h : collectorBatch stream closed s = .next s' push spawn) :
    ∀ v ∈ push ++ spawn.toList.flatMap Task.work, v.level = 0 := by
  cases closed with
  | none =>
    obtain ⟨_, rfl, rfl⟩ := (Ran.next.injEq ..).mp h
    simp
  | some batch =>
    simp only [collectorBatch] at h
    split at h
    · obtain ⟨_, rfl, rfl⟩ := (Ran.next.injEq ..).mp h
      simp [Work.level]
    · cases h

theorem level_map {α : Type} (frame : α → Work) {n : ℕ} (h : ∀ x, (frame x).level = n)
    {xs : List α} : ∀ v ∈ xs.map frame, v.level = n :=
  List.forall_mem_map.mpr fun x _ => h x

theorem level_dispatchAll (stream : String) (drained : List Limiter.Drained) :
    ∀ v ∈ drained.flatMap (dispatch stream), v.level = 0 :=
  forall_dispatchAll fun _ _ _ _ => ⟨rfl, rfl⟩

/-- **What a frame leaves to do.** -/
theorem exec_eases (harmed : s.Obeys (arming sys.cfg)) (hlate : w.late sys input)
    (hbusy : w.busy input s) (h : exec sys input id s w = some (.next s' push spawn)) :
    Eases s w s' (push ++ spawn.toList.flatMap Task.work) := by
  cases exec_runs h with
  | acquire | resume | building | onRetry | send | unwind =>
    refine .less rfl ?_
    simp [Work.effort]
  | getPipeline _ hp hsubmit =>
    obtain ⟨hsame, hload⟩ := submit_effort hp hsubmit
    refine .less hsame ?_
    rw [hload]
    simp [Work.effort]
  | @buildPipeline call _ _ _ hsubmit =>
    obtain ⟨hsame, hload⟩ := submit_effort (entering_stream sys s call.stream) hsubmit
    have hentering := entering_effort sys s call.stream
    left
    rw [hload, hsame]
    simp only [Work.effort]
    omega
  | getReducer hp hfound =>
    refine .aggregator hp ?_
    rw [getOrCreateReducer_effort hfound]
    simp [Work.effort]
  | @reducerAdd stream shardKey buffered p aggregator closed hp hadd =>
    have hcost := aggregator_cost (harmed stream p hp).reducers (by simp) hadd stream
    have hbound := hcost.bound
    refine .aggregator hp ?_
    simp only [Reducer.Op.adds, List.length_singleton] at hbound
    simp only [Option.toList_none, List.flatMap_nil, List.append_nil, Work.effort]
    omega
  | @reducerForgotten stream shardKey buffered =>
    have hbound := forgotten_effort sys.cfg.aggregator input.now shardKey buffered stream
    refine .less rfl ?_
    simp only [Option.toList_none, List.flatMap_nil, List.append_nil, Work.effort]
    omega
  | @limiterPut stream batch p hp =>
    have hput := Limiter.put_effort queuedEffort sys.cfg.limiter input.put batch p.limiter
    have hload := load_dispatch_effort stream
      (Limiter.put sys.cfg.limiter input.put batch p.limiter).2.1
    have hspawn : load Work.effort ((if (Limiter.put sys.cfg.limiter input.put batch p.limiter).2.2
        then some ({ kind := .drain stream, work := [.drainTick stream] } : Task)
        else none).toList.flatMap Task.work) = 0 := by
      split <;> rfl
    refine .limiter hp ?_
    rw [load_append, hspawn]
    simp only [Work.effort, queuedEffort] at hput ⊢
    omega
  | limiterExpired stream batch =>
    have hitems : (expiredOutcome stream input.now batch).batchItems.flatMap AggregatedBatch.items =
        batch.items := by
      simp [expiredOutcome]
    have hlate' : Retrier.PastTtl sys.cfg.retrier input.env
        ((expiredOutcome stream input.now batch).batchItems.flatMap AggregatedBatch.items) := by
      rw [hitems]
      exact hlate
    have hload := load_callbacks_effort stream
      (Retrier.handleRequestError_settles (expiredOutcome stream input.now batch)
        Retrier.expiredErrorCode (Retrier.expiredErrorMessage ++ ": Expired") hlate')
    rw [hitems] at hload
    refine .less rfl ?_
    simp only [Option.toList_none, List.flatMap_nil, List.append_nil, Work.effort]
    exact Nat.lt_succ_of_le hload
  | @limiterAdmit stream batch p _ _ _ hp hbatch =>
    have hbound := collector_add_cost sys input.now batch (harmed stream p hp).collector
    have hstage := collectorBatch_effort hp hbatch
    left
    simp only [Work.effort, collectedEffort] at hbound ⊢
    omega
  | onFinish stream buffered result =>
    refine .less (finish_effort stream buffered s) ?_
    simp [Work.effort]
  | flushPipelines =>
    refine .chore ?_ (by simp [Work.level]) ?_
    · have hframes : load Work.effort (s.pipelines.keys.flatMap fun stream =>
          [.flushAggregator stream, .flushLimiter stream, .flushCollector stream]) = 0 := by
        induction s.pipelines.keys with
        | nil => rfl
        | cons stream streams ih => simp [Work.effort, ih]
      simp [hframes, Work.effort]
    · simp only [Option.toList_none, List.flatMap_nil, List.append_nil]
      exact forall_flushPipelines (by simp [Work.level]) (by simp [Work.level])
  | @flushAggregator stream p hp =>
    refine .chore ?_ (by simp [Work.level]) ?_
    · have hframes :
          load Work.effort (p.aggregator.reducers.keys.map (.flushReducer stream)) = 0 := by
        induction p.aggregator.reducers.keys with
        | nil => rfl
        | cons key keys ih => simp [Work.effort, ih]
      simp [hframes]
    · intro v hv
      simp only [Option.toList_none, List.flatMap_nil, List.append_nil] at hv
      rw [level_map (.flushReducer stream) (fun _ => rfl) v hv]
      simp [Work.level]
  | @flushReducer stream shardKey p aggregator closed hp hflush =>
    have hcost := aggregator_cost (harmed stream p hp).reducers (by simp) hflush stream
    have hkeeps := hcost.keeps rfl
    have hstage := Shared.effort_setAggregator hp aggregator
    simp only [Pipeline.effort, aggregatorEffort] at hstage hkeeps
    simp only [Option.toList_none, List.flatMap_nil, List.append_nil]
    refine .chore (by omega) (by simp [Work.level]) fun v hv => ?_
    rw [level_map (.limiterPut stream) (fun _ => rfl) v hv]
    simp [Work.level]
  | @flushLimiter stream p hp =>
    have hflush := Limiter.flush_effort queuedEffort (fun key => (input.drain key).now) p.limiter
    have hload := load_dispatchAll_effort stream
      (Limiter.flush (fun key => (input.drain key).now) p.limiter).2
    have hstage := Shared.effort_setLimiter hp
      (Limiter.flush (fun key => (input.drain key).now) p.limiter).1
    simp only [Pipeline.effort] at hstage
    simp only [Option.toList_none, List.flatMap_nil, List.append_nil]
    refine .chore (by omega) (by simp [Work.level]) fun v hv => ?_
    rw [level_dispatchAll stream _ v hv]
    simp [Work.level]
  | @flushCollector stream p _ _ _ hp hbatch =>
    have hkeeps := collector_flush_cost sys input.now (harmed stream p hp).collector
    have hstage := collectorBatch_effort hp hbatch
    refine .chore (by omega) (by simp [Work.level]) fun v hv => ?_
    rw [level_collectorBatch hbatch v hv]
    simp [Work.level]
  | @drainTick stream p hp =>
    have hdrain := Limiter.drainAll_effort queuedEffort input.drain p.limiter
    have hload := load_dispatchAll_effort stream (Limiter.drainAll input.drain p.limiter).2
    obtain ⟨p', hp', d, hd, hne⟩ := hbusy
    obtain rfl := Option.some.inj (hp.symm.trans hp')
    have hsome :
        0 < ((Limiter.drainAll input.drain p.limiter).2.map fun d => d.batches.length).sum :=
      (List.length_pos_of_ne_nil hne).trans_le
        (List.single_le_sum (fun _ _ => Nat.zero_le _) _ (List.mem_map_of_mem hd))
    refine .limiter hp ?_
    simp only [Option.toList_none, List.flatMap_nil, List.append_nil, load_append, load_cons,
      load_nil, Work.effort]
    omega
  | @inFlight stream startedAt batch outcome calls htrip =>
    have hload := load_handling_effort stream batch (Retrier.trip_settles hlate htrip)
    refine .less rfl ?_
    simp only [Option.toList_none, List.flatMap_nil, List.append_nil, Work.effort]
    exact Nat.lt_succ_of_le hload
  | @leaveContext context exitStack hstack =>
    have hleave : load Work.effort context.leave ≤ 7 := by
      cases context <;> simp [Context.leave, Work.effort]
    left
    simp only [Shared.effort, hstack, List.length_cons, Option.toList_none, List.flatMap_nil,
      List.append_nil, load_append, load_cons, load_nil, Work.effort]
    omega
  | @closeCollector stream p hp =>
    have hclose := Reducer.aclose_effort sys.cfg.collector.reducer collectedEffort p.collector
    have hstage : Shared.effort
          { s.setPipeline stream
              { p with collector := Reducer.aclose sys.cfg.collector.reducer p.collector } with
            dropped := s.dropped ++
              p.collector.active.items.flatMap fun b => tokensOf stream b.items } + p.effort =
        s.effort + Pipeline.effort
          { p with collector := Reducer.aclose sys.cfg.collector.reducer p.collector } :=
      Shared.effort_stage hp rfl rfl
    simp only [Pipeline.effort] at hstage
    left
    simp only [Option.toList_none, List.flatMap_nil, List.append_nil, load_nil, Work.effort]
    omega
  | @closeAggregator stream p hp =>
    have hstage : Shared.effort
          { s.setPipeline stream { p with aggregator := Aggregator.aclose p.aggregator } with
            dropped := s.dropped ++
              p.aggregator.reducers.values.flatMap fun r => tokensOf stream r.active.items } +
          p.effort =
        s.effort + Pipeline.effort { p with aggregator := Aggregator.aclose p.aggregator } :=
      Shared.effort_stage hp rfl rfl
    have hnone : ((Aggregator.aclose p.aggregator).reducers.total fun _ r =>
        Reducer.effort (fun _ => 18) r) = 0 := rfl
    simp only [Pipeline.effort, hnone] at hstage
    left
    simp only [Option.toList_none, List.flatMap_nil, List.append_nil, load_nil, Work.effort]
    omega
  | closeLimiter hp | leaveAggregator hp =>
    refine .less (Shared.effort_same hp rfl rfl rfl) ?_
    simp [Work.effort]
  | nothingToFlush | checkpoint =>
    refine .chore ?_ (by simp [Work.level]) ?_
    · exact le_rfl
    · simp
  | closeClient | invalidate | leftContexts | awaitCollector | awaitLimiter | awaitAggregator
  | awaitTaskGroup =>
    refine .less rfl ?_
    simp [Work.effort]

/-- A frame that raises leaves less, too: what it held is gone with its call. -/
theorem exec_raises_eases (harmed : s.Obeys (arming sys.cfg)) {left : List Work}
    (h : exec sys input id s w = some (.raises s' left)) : Eases s w s' [] := by
  cases exec_raising h with
  | getPipeline _ _ hsubmit =>
    obtain ⟨rfl, _⟩ := submit_raises hsubmit
    refine .less rfl ?_
    simp [Work.effort]
  | buildFails | getReducer | inFlight | handleRaises =>
    refine .less rfl ?_
    simp [Work.effort]
  | @buildPipeline call _ _ hsubmit =>
    obtain ⟨rfl, _⟩ := submit_raises hsubmit
    have hentering := entering_effort sys s call.stream
    left
    simp only [load_nil, Work.effort]
    omega
  | @limiterAdmit stream batch p _ _ hp hbatch =>
    obtain ⟨rfl, _⟩ := collectorBatch_raises hbatch
    have hbound := collector_add_cost sys input.now batch (harmed stream p hp).collector
    have hstage := Shared.effort_setCollector hp
      (Reducer.add sys.cfg.collector.reducer input.now batch p.collector).1
    simp only [Pipeline.effort, collectedEffort] at hbound hstage
    left
    simp only [load_nil, Work.effort]
    omega
  | @flushCollector stream p _ _ hp hbatch =>
    obtain ⟨rfl, _⟩ := collectorBatch_raises hbatch
    have hkeeps := collector_flush_cost sys input.now (harmed stream p hp).collector
    have hstage := Shared.effort_setCollector hp
      (Reducer.flush sys.cfg.collector.reducer input.now p.collector).1
    simp only [Pipeline.effort] at hstage
    refine .chore ?_ (by simp [Work.level]) (by simp)
    simp only [load_nil]
    omega

end Exec

end Producer

end Aiokpl
