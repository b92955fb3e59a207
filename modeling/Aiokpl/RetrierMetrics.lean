import Aiokpl.Metrics
import Aiokpl.RetrierTrips

/-!
# What the Retrier reports (`aiokpl/retrier.py`)

`handle` once more, with the metrics that it puts between its calls.  The calls are
those of `handle`.  A metric that tells a figure of the attempts of a record grows, over
any outcome, by as much as the figure does.
-/

namespace Aiokpl

open Lib Aggregation

namespace Metrics

def nameUserRecordsReceived : String := "UserRecordsReceived"
def nameUserRecordsPut : String := "UserRecordsPut"
def nameUserRecordsDataPut : String := "UserRecordsDataPut"
def nameKinesisRecordsPut : String := "KinesisRecordsPut"
def nameKinesisRecordsDataPut : String := "KinesisRecordsDataPut"
def nameAllErrors : String := "AllErrors"
def nameErrorsByCode : String := "ErrorsByCode"
def nameRetriesPerRecord : String := "RetriesPerRecord"
def nameRequestTime : String := "RequestTime"
def nameExpiredRecords : String := "ExpiredRecords"

/-- The arguments of `put`. -/
structure Put where
  name : String
  value : ℚ := 1
  stream : Option String := none
  shardId : Option String := none
  errorCode : Option String := none
  deriving DecidableEq

end Metrics

namespace Retrier

/-! ## Puts and calls -/

/-- What the Retrier does to others. -/
inductive Event
  | put (p : Metrics.Put)
  | call (call : Call)

def Event.put? : Event → Option Metrics.Put
  | .put made => some made
  | .call _ => none

def Event.call? : Event → Option Call
  | .put _ => none
  | .call made => some made

def puts (events : List Event) : List Metrics.Put := events.filterMap Event.put?

def calls (events : List Event) : List Call := events.filterMap Event.call?

@[simp] theorem calls_append (events events' : List Event) :
    calls (events ++ events') = calls events ++ calls events' := List.filterMap_append

@[simp] theorem puts_append (events events' : List Event) :
    puts (events ++ events') = puts events ++ puts events' := List.filterMap_append

namespace Reporting

variable (stream : Option String)

/-- `_emit_user_record_success`. -/
def emitUserRecordSuccess (buffered : BufferedRecord) (shardId : Option String) : List Event :=
  [.put { name := Metrics.nameUserRecordsPut, stream, shardId },
    .put { name := Metrics.nameUserRecordsDataPut, value := buffered.userRecord.data.length
           stream, shardId },
    .put { name := Metrics.nameRetriesPerRecord, value := (buffered.attempts.length - 1 : ℕ)
           stream, shardId }]

/-- `_emit_kinesis_record_metrics`. -/
def emitKinesisRecordMetrics (batch : AggregatedBatch) (shardId : Option String) : List Event :=
  [.put { name := Metrics.nameKinesisRecordsPut, stream, shardId },
    .put { name := Metrics.nameKinesisRecordsDataPut, value := batch.size, stream, shardId }]

/-- `_emit_error`. -/
def emitError (code : String) : List Event :=
  [.put { name := Metrics.nameAllErrors, stream },
    .put { name := Metrics.nameErrorsByCode, stream, errorCode := some code }]

/-! ## One record -/

/-- `_finish_success`; it reports on the record that it hands over. -/
def finishSuccess (outcome : SendOutcome) (buffered : BufferedRecord)
    (perRecord : PerRecordOutcome) : List Event :=
  let call := Retrier.finishSuccess outcome buffered perRecord
  (call.buffered?.toList.flatMap fun b => emitUserRecordSuccess stream b perRecord.shardId) ++
    [.call call]

/-- `_fail`. -/
def fail (outcome : SendOutcome) (buffered : BufferedRecord) (code message : String) :
    List Event :=
  emitError stream code ++ [.call (Retrier.fail outcome buffered code message)]

/-- `_retry_not_expired`; a record past its TTL is one error more. -/
def retryNotExpired (cfg : Config) (outcome : SendOutcome) (buffered : BufferedRecord)
    (code message : String) (now : Time) : List Event :=
  emitError stream code ++
    (if now - buffered.arrivalTime > cfg.recordTtl then emitError stream expiredErrorCode
      else []) ++
    [.call (Retrier.retryNotExpired cfg outcome buffered code message now)]

def judgeFailure (cfg : Config) (outcome : SendOutcome) (buffered : BufferedRecord)
    (code message : String) (now : Time) : List Event :=
  if code = provisionedThroughputExceeded ∧ cfg.failIfThrottled then
    fail stream outcome buffered code message
  else retryNotExpired stream cfg outcome buffered code message now

/-! ## Walking an outcome -/

/-- The events for each record, the first of which is the n-th of the outcome. -/
def judgeEach (env : Env) (judge : BufferedRecord → Time → List Event) :
    Nat → List BufferedRecord → List Event
  | _, [] => []
  | n, buffered :: rest => judge buffered (env.clock n) ++ judgeEach env judge (n + 1) rest

/-- `_handle_request_error`. -/
def handleRequestError (cfg : Config) (env : Env) (outcome : SendOutcome)
    (code message : String) : List Event :=
  judgeEach env (fun b now => judgeFailure stream cfg outcome b code message now) 0
    (outcome.batchItems.flatMap AggregatedBatch.items)

/-- The loop of `_handle_success` over the records of a slot that came back from another
    shard than predicted, with its two flags. -/
def mismatchLoop (cfg : Config) (env : Env) (outcome : SendOutcome) (k : Nat)
    (perRecord : PerRecordOutcome) (actualInt : ShardId) (actualRange : Option (Nat × Nat)) :
    (invalidated emittedKinesis : Bool) → Nat → List BufferedRecord → List Event
  | _, _, _, [] => []
  | invalidated, emittedKinesis, n, buffered :: rest =>
    (if inRange actualRange buffered.hashKey then
      (if emittedKinesis then []
        else emitKinesisRecordMetrics stream perRecord.batch perRecord.shardId) ++
        finishSuccess stream outcome buffered perRecord
    else
      retryNotExpired stream cfg outcome buffered wrongShardErrorCode wrongShardErrorMessage
        (env.clock n)) ++
    (if invalidated then [] else [.call (.invalidate (env.seenAt k) (some actualInt))]) ++
    mismatchLoop cfg env outcome k perRecord actualInt actualRange true
      (emittedKinesis || inRange actualRange buffered.hashKey) (n + 1) rest

/-- `_handle_success`. -/
def handleSuccess (u : DigitClasses) (cfg : Config) (env : Env) (outcome : SendOutcome)
    (k n : Nat) (perRecord : PerRecordOutcome) : Except Hashing.Error (List Event) := do
  let actual ← parseActualShardId u perRecord.shardId
  let accepted := emitKinesisRecordMetrics stream perRecord.batch perRecord.shardId ++
    perRecord.batch.items.flatMap fun b => finishSuccess stream outcome b perRecord
  match perRecord.batch.predictedShard, actual with
  | some predicted, some actualInt =>
    if predicted = actualInt then return accepted
    else
      return mismatchLoop stream cfg env outcome k perRecord actualInt (env.hashrange k actualInt)
        false false n perRecord.batch.items
  | _, _ => return accepted

/-- `_handle_per_record`. -/
def handlePerRecord (u : DigitClasses) (cfg : Config) (env : Env) (outcome : SendOutcome)
    (k n : Nat) (perRecord : PerRecordOutcome) : Except Hashing.Error (List Event) :=
  if perRecord.success then handleSuccess stream u cfg env outcome k n perRecord
  else
    let code := orDefault perRecord.errorCode "Unknown"
    let message := orDefault perRecord.errorMessage ""
    .ok (judgeEach env (fun b now => judgeFailure stream cfg outcome b code message now) n
      perRecord.batch.items)

/-- What a call of `handle` did, and what it raised after that. -/
structure Reported where
  events : List Event
  raised : Option Hashing.Error

def handleSlots (u : DigitClasses) (cfg : Config) (env : Env) (outcome : SendOutcome) :
    (k n : Nat) → List PerRecordOutcome → Reported
  | _, _, [] => { events := [], raised := none }
  | k, n, perRecord :: rest =>
    match handlePerRecord stream u cfg env outcome k n perRecord with
    | .error e => { events := [], raised := some e }
    | .ok events =>
      let more := handleSlots u cfg env outcome (k + 1) (n + perRecord.batch.items.length) rest
      { events := events ++ more.events, raised := more.raised }

/-- `handle`. -/
def handle (u : DigitClasses) (cfg : Config) (env : Env) (outcome : SendOutcome) : Reported :=
  match outcome.requestError with
  | some (code, message) =>
    { events := handleRequestError stream cfg env outcome code message, raised := none }
  | none => handleSlots stream u cfg env outcome 0 0 outcome.perRecord

/-! ## The calls are those of `handle` -/

section Calls

variable (cfg : Config) (env : Env) (outcome : SendOutcome)

@[simp] theorem calls_finishSuccess (b : BufferedRecord) (perRecord : PerRecordOutcome) :
    calls (finishSuccess stream outcome b perRecord) =
      [Retrier.finishSuccess outcome b perRecord] := rfl

@[simp] theorem calls_retryNotExpired (b : BufferedRecord) (code message : String) (now : Time) :
    calls (retryNotExpired stream cfg outcome b code message now) =
      [Retrier.retryNotExpired cfg outcome b code message now] := by
  unfold retryNotExpired
  split <;> rfl

@[simp] theorem calls_judgeFailure (b : BufferedRecord) (code message : String) (now : Time) :
    calls (judgeFailure stream cfg outcome b code message now) =
      [Retrier.judgeFailure cfg outcome b code message now] := by
  unfold judgeFailure Retrier.judgeFailure
  split
  · rfl
  · exact calls_retryNotExpired stream cfg outcome b code message now

theorem calls_judgeEach {judge : BufferedRecord → Time → List Event}
    {plain : BufferedRecord → Time → Call} (h : ∀ b now, calls (judge b now) = [plain b now]) :
    ∀ (n : Nat) (bs : List BufferedRecord),
      calls (judgeEach env judge n bs) = Retrier.judgeEach env plain n bs
  | _, [] => rfl
  | n, b :: bs => by
    rw [judgeEach, calls_append, h, calls_judgeEach h (n + 1) bs]
    rfl

theorem calls_finishAll (perRecord : PerRecordOutcome) (bs : List BufferedRecord) :
    calls (bs.flatMap fun b => finishSuccess stream outcome b perRecord) =
      bs.map (Retrier.finishSuccess outcome · perRecord) := by
  induction bs with
  | nil => rfl
  | cons b bs ih => rw [List.flatMap_cons, calls_append, ih, calls_finishSuccess, List.map_cons,
      List.singleton_append]

/-- The flags are for the metrics and for `invalidate`. -/
theorem calls_mismatchLoop (k : Nat) (perRecord : PerRecordOutcome) (actualInt : ShardId)
    (actualRange : Option (Nat × Nat)) : ∀ (emittedKinesis : Bool) (n : Nat)
      (bs : List BufferedRecord),
      calls (mismatchLoop stream cfg env outcome k perRecord actualInt actualRange true
          emittedKinesis n bs) =
        Retrier.judgeEach env (judgeMismatch cfg outcome perRecord actualRange) n bs
  | _, _, [] => rfl
  | emittedKinesis, n, b :: bs => by
    have hrest := calls_mismatchLoop k perRecord actualInt actualRange
      (emittedKinesis || inRange actualRange b.hashKey) (n + 1) bs
    simp only [mismatchLoop, calls_append, hrest, Retrier.judgeEach, judgeMismatch]
    split
    · split <;> rfl
    · rw [calls_retryNotExpired]
      rfl

theorem calls_handleSuccess (u : DigitClasses) (k n : Nat) (perRecord : PerRecordOutcome) :
    (handleSuccess stream u cfg env outcome k n perRecord).map calls =
      Retrier.handleSuccess u cfg env outcome k n perRecord := by
  have haccepted : calls (emitKinesisRecordMetrics stream perRecord.batch perRecord.shardId ++
      perRecord.batch.items.flatMap fun b => finishSuccess stream outcome b perRecord) =
        perRecord.batch.items.map (Retrier.finishSuccess outcome · perRecord) := by
    rw [calls_append, calls_finishAll]
    rfl
  unfold handleSuccess Retrier.handleSuccess
  cases hparse : parseActualShardId u perRecord.shardId with
  | error e => rfl
  | ok actual =>
    simp only [bind, Except.bind, pure, Except.pure]
    cases hpredicted : perRecord.batch.predictedShard with
    | none => exact congrArg Except.ok haccepted
    | some predicted =>
      cases actual with
      | none => exact congrArg Except.ok haccepted
      | some actualInt =>
        dsimp only
        split
        · exact congrArg Except.ok haccepted
        · cases perRecord.batch.items with
          | nil => rfl
          | cons b bs =>
            have hrest := calls_mismatchLoop stream cfg env outcome k perRecord actualInt
              (env.hashrange k actualInt) (inRange (env.hashrange k actualInt) b.hashKey) (n + 1) bs
            simp only [Except.map, mismatchLoop, calls_append, Bool.false_or, hrest,
              Retrier.judgeEach, judgeMismatch]
            split
            · rfl
            · rw [calls_retryNotExpired]
              rfl

theorem calls_handlePerRecord (u : DigitClasses) (k n : Nat) (perRecord : PerRecordOutcome) :
    (handlePerRecord stream u cfg env outcome k n perRecord).map calls =
      Retrier.handlePerRecord u cfg env outcome k n perRecord := by
  unfold handlePerRecord Retrier.handlePerRecord
  split
  · exact calls_handleSuccess stream cfg env outcome u k n perRecord
  · exact congrArg Except.ok
      (calls_judgeEach env (fun b now => calls_judgeFailure stream cfg outcome b _ _ now) n _)

theorem calls_handleSlots (u : DigitClasses) : ∀ (k n : Nat) (slots : List PerRecordOutcome),
    ({ calls := calls (handleSlots stream u cfg env outcome k n slots).events
       raised := (handleSlots stream u cfg env outcome k n slots).raised } : Handled) =
      Retrier.handleSlots u cfg env outcome k n slots
  | _, _, [] => rfl
  | k, n, perRecord :: rest => by
    have hone := calls_handlePerRecord stream cfg env outcome u k n perRecord
    have hmore := calls_handleSlots u (k + 1) (n + perRecord.batch.items.length) rest
    simp only [handleSlots, Retrier.handleSlots, ← hone, ← hmore]
    cases handlePerRecord stream u cfg env outcome k n perRecord with
    | error e => rfl
    | ok events => simp [Except.map]

/-- **Reporting changes nothing**: the calls, and what is raised after them. -/
theorem handle_calls (u : DigitClasses) :
    ({ calls := calls (handle stream u cfg env outcome).events
       raised := (handle stream u cfg env outcome).raised } : Handled) =
      Retrier.handle u cfg env outcome := by
  unfold handle Retrier.handle
  cases outcome.requestError with
  | some error =>
    have hcalls := calls_judgeEach env
      (fun b now => calls_judgeFailure stream cfg outcome b error.1 error.2 now) 0
      (outcome.batchItems.flatMap AggregatedBatch.items)
    exact congrArg (fun calls => ({ calls, raised := none } : Handled)) hcalls
  | none => exact calls_handleSlots stream cfg env outcome u 0 0 outcome.perRecord

end Calls

/-! ## Walking the records -/

/-- The events of `handle`, record by record. -/
inductive Walks (cfg : Config) (outcome : SendOutcome) :
    List BufferedRecord → List Event → Prop
  | done : Walks cfg outcome [] []
  | kinesis {bs : List BufferedRecord} {events : List Event} (batch : AggregatedBatch)
      (shardId : Option String) : Walks cfg outcome bs events →
      Walks cfg outcome bs (emitKinesisRecordMetrics stream batch shardId ++ events)
  | invalidates {bs : List BufferedRecord} {events : List Event} (seenAt : Time)
      (shard : Option ShardId) : Walks cfg outcome bs events →
      Walks cfg outcome bs ([.call (.invalidate seenAt shard)] ++ events)
  | accepted {bs : List BufferedRecord} {events : List Event} (b : BufferedRecord)
      (perRecord : PerRecordOutcome) : Walks cfg outcome bs events →
      Walks cfg outcome (b :: bs) (finishSuccess stream outcome b perRecord ++ events)
  | failed {bs : List BufferedRecord} {events : List Event} (b : BufferedRecord)
      (code message : String) : Walks cfg outcome bs events →
      Walks cfg outcome (b :: bs) (fail stream outcome b code message ++ events)
  | retried {bs : List BufferedRecord} {events : List Event} (b : BufferedRecord)
      (code message : String) (now : Time) : Walks cfg outcome bs events →
      Walks cfg outcome (b :: bs)
        (retryNotExpired stream cfg outcome b code message now ++ events)

/-- The records that `handle` looks at. -/
def judgedRecords (outcome : SendOutcome) : List BufferedRecord :=
  match outcome.requestError with
  | some _ => outcome.batchItems.flatMap AggregatedBatch.items
  | none => outcome.perRecord.flatMap fun perRecord => perRecord.batch.items

section Walks

variable {stream : Option String} {cfg : Config} {outcome : SendOutcome}
  {bs bs' : List BufferedRecord} {events events' : List Event}

theorem Walks.append (h : Walks stream cfg outcome bs events)
    (h' : Walks stream cfg outcome bs' events') :
    Walks stream cfg outcome (bs ++ bs') (events ++ events') := by
  induction h with
  | done => exact h'
  | kinesis batch shardId _ ih =>
    rw [List.append_assoc]
    exact ih.kinesis batch shardId
  | invalidates seenAt shard _ ih =>
    rw [List.append_assoc]
    exact ih.invalidates seenAt shard
  | accepted b perRecord _ ih =>
    rw [List.append_assoc]
    exact ih.accepted b perRecord
  | failed b code message _ ih =>
    rw [List.append_assoc]
    exact ih.failed b code message
  | retried b code message now _ ih =>
    rw [List.append_assoc]
    exact ih.retried b code message now

theorem Walks.judgeFailure (h : Walks stream cfg outcome bs events) (b : BufferedRecord)
    (code message : String) (now : Time) : Walks stream cfg outcome (b :: bs)
      (Reporting.judgeFailure stream cfg outcome b code message now ++ events) := by
  unfold Reporting.judgeFailure
  split
  · exact h.failed b code message
  · exact h.retried b code message now

theorem judgeEach_walks (env : Env) (code message : String) :
    ∀ (n : Nat) (bs : List BufferedRecord),
    Walks stream cfg outcome bs
      (judgeEach env (fun b now => judgeFailure stream cfg outcome b code message now) n bs)
  | _, [] => .done
  | n, b :: bs => (judgeEach_walks env code message (n + 1) bs).judgeFailure b code message _

theorem finishAll_walks (perRecord : PerRecordOutcome) : ∀ bs : List BufferedRecord,
    Walks stream cfg outcome bs (bs.flatMap fun b => finishSuccess stream outcome b perRecord)
  | [] => .done
  | b :: bs => (finishAll_walks perRecord bs).accepted b perRecord

theorem mismatchLoop_walks (env : Env) (k : Nat) (perRecord : PerRecordOutcome)
    (actualInt : ShardId) (actualRange : Option (Nat × Nat)) :
    ∀ (invalidated emittedKinesis : Bool) (n : Nat) (bs : List BufferedRecord),
      Walks stream cfg outcome bs (mismatchLoop stream cfg env outcome k perRecord actualInt
        actualRange invalidated emittedKinesis n bs)
  | _, _, _, [] => .done
  | invalidated, emittedKinesis, n, b :: bs => by
    have hrest := mismatchLoop_walks env k perRecord actualInt actualRange true
      (emittedKinesis || inRange actualRange b.hashKey) (n + 1) bs
    have hmap : Walks stream cfg outcome bs ((if invalidated then []
        else [.call (.invalidate (env.seenAt k) (some actualInt))]) ++
          mismatchLoop stream cfg env outcome k perRecord actualInt actualRange true
            (emittedKinesis || inRange actualRange b.hashKey) (n + 1) bs) := by
      split
      · exact hrest
      · exact hrest.invalidates _ _
    rw [mismatchLoop, List.append_assoc]
    split
    · rw [List.append_assoc]
      split
      · exact hmap.accepted b perRecord
      · exact (hmap.accepted b perRecord).kinesis _ _
    · exact hmap.retried b _ _ _

theorem handlePerRecord_walks {u : DigitClasses} {env : Env} {k n : Nat}
    {perRecord : PerRecordOutcome}
    (h : handlePerRecord stream u cfg env outcome k n perRecord = .ok events) :
    Walks stream cfg outcome perRecord.batch.items events := by
  have haccepted : Walks stream cfg outcome perRecord.batch.items
      (emitKinesisRecordMetrics stream perRecord.batch perRecord.shardId ++
        perRecord.batch.items.flatMap fun b => finishSuccess stream outcome b perRecord) :=
    (finishAll_walks perRecord perRecord.batch.items).kinesis _ _
  unfold handlePerRecord at h
  split at h
  · unfold handleSuccess at h
    cases hparse : parseActualShardId u perRecord.shardId with
    | error e =>
      rw [hparse] at h
      cases h
    | ok actual =>
      simp only [hparse, bind, Except.bind, pure, Except.pure] at h
      split at h
      · split at h
        · obtain rfl := Except.ok.inj h
          exact haccepted
        · obtain rfl := Except.ok.inj h
          exact mismatchLoop_walks env k perRecord _ _ false false n _
      · obtain rfl := Except.ok.inj h
        exact haccepted
  · obtain rfl := Except.ok.inj h
    exact judgeEach_walks env _ _ n _

theorem handleSlots_walks (u : DigitClasses) (env : Env) :
    ∀ (k n : Nat) (slots : List PerRecordOutcome), ∃ bs rest,
      (slots.flatMap fun perRecord => perRecord.batch.items) = bs ++ rest ∧
        Walks stream cfg outcome bs (handleSlots stream u cfg env outcome k n slots).events ∧
        ((handleSlots stream u cfg env outcome k n slots).raised = none → rest = [])
  | _, _, [] => ⟨[], [], rfl, .done, fun _ => rfl⟩
  | k, n, perRecord :: slots => by
    cases hone : handlePerRecord stream u cfg env outcome k n perRecord with
    | error e =>
      simp only [handleSlots, hone]
      exact ⟨[], _, rfl, .done, fun hnone => by cases hnone⟩
    | ok events =>
      obtain ⟨bs, rest, hsplit, hwalks, hall⟩ :=
        handleSlots_walks u env (k + 1) (n + perRecord.batch.items.length) slots
      simp only [handleSlots, hone]
      refine ⟨perRecord.batch.items ++ bs, rest, ?_,
        (handlePerRecord_walks hone).append hwalks, hall⟩
      rw [List.flatMap_cons, hsplit, List.append_assoc]

/-- **A call of `handle`** walks its records in order, and all of them unless it raises. -/
theorem handle_walks (stream : Option String) (u : DigitClasses) (cfg : Config) (env : Env)
    (outcome : SendOutcome) : ∃ bs rest, judgedRecords outcome = bs ++ rest ∧
      Walks stream cfg outcome bs (handle stream u cfg env outcome).events ∧
      ((handle stream u cfg env outcome).raised = none → rest = []) := by
  unfold handle judgedRecords
  cases outcome.requestError with
  | some error =>
    exact ⟨_, [], (List.append_nil _).symm, judgeEach_walks env error.1 error.2 0 _, fun _ => rfl⟩
  | none => exact handleSlots_walks u env 0 0 outcome.perRecord

/-! ## What the calls hand on -/

/-- Each call hands on a record that was walked, with more attempts. -/
theorem Walks.hands (h : Walks stream cfg outcome bs events) :
    List.Forall₂ (fun b b' => b'.ident = b.ident ∧ b'.userRecord = b.userRecord) bs
      ((calls events).filterMap Call.buffered?) := by
  induction h with
  | done => exact .nil
  | kinesis batch shardId _ ih => exact ih
  | invalidates seenAt shard _ ih => exact ih
  | accepted b perRecord _ ih => exact .cons ⟨rfl, rfl⟩ ih
  | failed b code message _ ih => exact .cons ⟨rfl, rfl⟩ ih
  | @retried bs events b code message now _ ih =>
    obtain ⟨b', hcall, hsame⟩ : ∃ b',
        (Retrier.retryNotExpired cfg outcome b code message now).buffered? = some b' ∧
          b'.ident = b.ident ∧ b'.userRecord = b.userRecord := by
      unfold Retrier.retryNotExpired
      dsimp only
      split <;> exact ⟨_, rfl, rfl, rfl⟩
    rw [calls_append, calls_retryNotExpired, List.filterMap_append, List.filterMap_cons_some hcall,
      List.filterMap_nil]
    exact .cons hsame ih

end Walks

/-! ## What the metrics tell -/

def Failed (attempts : List Attempt) : Prop := ∀ a ∈ attempts, a.success = false

def total (measure : Metrics.Put → ℚ) (puts : List Metrics.Put) : ℚ := (puts.map measure).sum

/-- A figure of a record, as it stands after its attempts. -/
abbrev Figure := UserRecord → List Attempt → ℚ

/-- The figure of the record that a call hands on. -/
def handedOn (figure : Figure) (call : Call) : ℚ :=
  (call.buffered?.map fun b => figure b.userRecord b.attempts).getD 0

/-- A measure of puts grows with each attempt by as much as the figure of its record. -/
structure Tells (measure : Metrics.Put → ℚ) (figure : Figure) : Prop where
  fresh : ∀ r, figure r [] = 0
  kinesis : ∀ batch shardId,
    total measure (puts (emitKinesisRecordMetrics stream batch shardId)) = 0
  success : ∀ (b : BufferedRecord) (attempt : Attempt) (shardId : Option String),
    Failed b.attempts → attempt.success = true →
      figure b.userRecord b.attempts + total measure (puts (emitUserRecordSuccess stream
          { b with attempts := b.attempts ++ [attempt] } shardId)) =
        figure b.userRecord (b.attempts ++ [attempt])
  failure : ∀ (r : UserRecord) (attempts : List Attempt) (attempt : Attempt) (code : String),
    Failed attempts → attempt.success = false → attempt.errorCode = some code →
      figure r attempts + total measure (puts (emitError stream code)) =
        figure r (attempts ++ [attempt])

section Balance

variable {stream : Option String} {measure : Metrics.Put → ℚ} {figure : Figure}
  (cfg : Config) (outcome : SendOutcome) {bs : List BufferedRecord} {events : List Event}

theorem total_append (measure : Metrics.Put → ℚ) (puts puts' : List Metrics.Put) :
    total measure (puts ++ puts') = total measure puts + total measure puts' := by
  simp [total]

theorem failed_concat {attempts : List Attempt} {attempt : Attempt} (h : Failed attempts)
    (hattempt : attempt.success = false) : Failed (attempts ++ [attempt]) := by
  intro a ha
  rcases List.mem_append.mp ha with ha | ha
  · exact h a ha
  · rwa [List.mem_singleton.mp ha]

/-- What is put for a record that is accepted. -/
theorem tells_finishSuccess (htells : Tells stream measure figure) {b : BufferedRecord}
    (hb : Failed b.attempts) (perRecord : PerRecordOutcome) :
    figure b.userRecord b.attempts + total measure
      (puts (finishSuccess stream outcome b perRecord)) =
      handedOn figure (Retrier.finishSuccess outcome b perRecord) := by
  have hsuccess := htells.success b
    { startedAt := outcome.startedAt, endedAt := outcome.endedAt, success := true
      shardId := perRecord.shardId, sequenceNumber := perRecord.sequenceNumber }
    perRecord.shardId hb rfl
  exact hsuccess

theorem tells_fail (htells : Tells stream measure figure) {b : BufferedRecord}
    (hb : Failed b.attempts) (code message : String) :
    figure b.userRecord b.attempts + total measure (puts (fail stream outcome b code message)) =
      handedOn figure (Retrier.fail outcome b code message) :=
  htells.failure b.userRecord b.attempts (failedAttempt outcome code message) code hb rfl rfl

theorem tells_retryNotExpired (htells : Tells stream measure figure) {b : BufferedRecord}
    (hb : Failed b.attempts) (code message : String) (now : Time) :
    figure b.userRecord b.attempts +
        total measure (puts (retryNotExpired stream cfg outcome b code message now)) =
      handedOn figure (Retrier.retryNotExpired cfg outcome b code message now) := by
  have hfirst := htells.failure b.userRecord b.attempts (failedAttempt outcome code message) code hb
    rfl rfl
  have hcall : puts [.call (Retrier.retryNotExpired cfg outcome b code message now)] = [] := rfl
  by_cases hlate : now - b.arrivalTime > cfg.recordTtl
  · have hnext := htells.failure b.userRecord
      (b.attempts ++ [failedAttempt outcome code message]) (expiredAttempt now) expiredErrorCode
      (failed_concat hb rfl) rfl rfl
    rw [retryNotExpired, if_pos hlate, puts_append, hcall, List.append_nil, puts_append,
      total_append, ← add_assoc, hfirst, hnext]
    simp [Retrier.retryNotExpired, if_pos hlate, handedOn, Call.buffered?]
  · rw [retryNotExpired, if_neg hlate, puts_append, hcall, List.append_nil, List.append_nil, hfirst]
    simp [Retrier.retryNotExpired, if_neg hlate, handedOn, Call.buffered?]

/-- One record more, with the call that hands it on. -/
theorem balanced_cons {b : BufferedRecord} {call : Call} {one more : List Event}
    (hone : figure b.userRecord b.attempts + total measure (puts one) = handedOn figure call)
    (hcall : calls one = [call])
    (hmore : (bs.map fun b => figure b.userRecord b.attempts).sum + total measure (puts more) =
      ((calls more).map (handedOn figure)).sum) :
    ((b :: bs).map fun b => figure b.userRecord b.attempts).sum +
        total measure (puts (one ++ more)) =
      ((calls (one ++ more)).map (handedOn figure)).sum := by
  rw [puts_append, total_append, calls_append, hcall, List.map_append, List.sum_append,
    List.map_cons, List.sum_cons, List.map_singleton, List.sum_singleton, ← hmore, ← hone]
  ring

/-- **What a walk puts** is by how much the figures of its records grow. -/
theorem Walks.balanced (htells : Tells stream measure figure)
    (h : Walks stream cfg outcome bs events) (hbs : ∀ b ∈ bs, Failed b.attempts) :
    (bs.map fun b => figure b.userRecord b.attempts).sum + total measure (puts events) =
      ((calls events).map (handedOn figure)).sum := by
  induction h with
  | done => simp [total, puts, calls]
  | kinesis batch shardId _ ih =>
    rw [puts_append, total_append, htells.kinesis, zero_add]
    exact ih hbs
  | invalidates seenAt shard _ ih =>
    have hputs : puts [.call (.invalidate seenAt shard)] = [] := rfl
    have hcalls : calls [.call (.invalidate seenAt shard)] = [.invalidate seenAt shard] := rfl
    have hnone : handedOn figure (.invalidate seenAt shard) = 0 := rfl
    rw [puts_append, calls_append, hputs, hcalls, List.nil_append, List.singleton_append,
      List.map_cons, List.sum_cons, hnone, zero_add]
    exact ih hbs
  | accepted b perRecord _ ih =>
    exact balanced_cons (tells_finishSuccess outcome htells (hbs b List.mem_cons_self) perRecord)
      rfl (ih fun b' hb' => hbs b' (List.mem_cons_of_mem b hb'))
  | failed b code message _ ih =>
    exact balanced_cons (tells_fail outcome htells (hbs b List.mem_cons_self) code message) rfl
      (ih fun b' hb' => hbs b' (List.mem_cons_of_mem b hb'))
  | retried b code message now _ ih =>
    exact balanced_cons (tells_retryNotExpired cfg outcome htells (hbs b List.mem_cons_self) code
      message now) (calls_retryNotExpired stream cfg outcome b code message now)
      (ih fun b' hb' => hbs b' (List.mem_cons_of_mem b hb'))

end Balance

/-! ## The metrics of the Retrier -/

/-- The values put under a name for a stream. -/
def named (name : String) (stream : Option String) (p : Metrics.Put) : ℚ :=
  if p.name = name ∧ p.stream = stream then p.value else 0

/-- The errors put under a code. -/
def coded (code : String) (stream : Option String) (p : Metrics.Put) : ℚ :=
  if p.name = Metrics.nameErrorsByCode ∧ p.stream = stream ∧ p.errorCode = some code then p.value
  else 0

def succeeded : Figure := fun _ attempts => attempts.countP fun a => a.success

def deliveredBytes : Figure := fun r attempts =>
  (attempts.countP fun a => a.success) * r.data.length

/-- The attempts before the one that succeeded. -/
def retries : Figure := fun _ attempts =>
  if attempts.getLast?.any fun a => a.success then (attempts.length - 1 : ℕ) else 0

def failures : Figure := fun _ attempts => attempts.countP fun a => !a.success

def failuresWith (code : String) : Figure := fun _ attempts =>
  attempts.countP fun a => !a.success && a.errorCode == some code

section Metrics

variable (stream : Option String)

theorem tells_userRecordsPut :
    Tells stream (named Metrics.nameUserRecordsPut stream) succeeded where
  fresh _ := rfl
  kinesis batch shardId := by
    simp [total, puts, emitKinesisRecordMetrics, Event.put?, named, Metrics.nameUserRecordsPut,
      Metrics.nameKinesisRecordsPut, Metrics.nameKinesisRecordsDataPut]
  success b attempt shardId _ hattempt := by
    simp [total, puts, emitUserRecordSuccess, Event.put?, named, Metrics.nameUserRecordsPut,
      Metrics.nameUserRecordsDataPut, Metrics.nameRetriesPerRecord, succeeded, hattempt]
  failure r attempts attempt code _ hattempt _ := by
    simp [total, puts, emitError, Event.put?, named, Metrics.nameUserRecordsPut,
      Metrics.nameAllErrors, Metrics.nameErrorsByCode, succeeded, hattempt]

theorem tells_userRecordsDataPut :
    Tells stream (named Metrics.nameUserRecordsDataPut stream) deliveredBytes where
  fresh _ := by simp [deliveredBytes]
  kinesis batch shardId := by
    simp [total, puts, emitKinesisRecordMetrics, Event.put?, named, Metrics.nameUserRecordsDataPut,
      Metrics.nameKinesisRecordsPut, Metrics.nameKinesisRecordsDataPut]
  success b attempt shardId _ hattempt := by
    simp [total, puts, emitUserRecordSuccess, Event.put?, named, Metrics.nameUserRecordsPut,
      Metrics.nameUserRecordsDataPut, Metrics.nameRetriesPerRecord, deliveredBytes, hattempt,
      add_mul]
  failure r attempts attempt code _ hattempt _ := by
    simp [total, puts, emitError, Event.put?, named, Metrics.nameUserRecordsDataPut,
      Metrics.nameAllErrors, Metrics.nameErrorsByCode, deliveredBytes, hattempt]

/-- A record that has only failed has no success to count its retries from. -/
theorem retries_failed {r : UserRecord} {attempts : List Attempt} (h : Failed attempts) :
    retries r attempts = 0 := by
  unfold retries
  rw [if_neg]
  rw [Option.any_eq_true]
  rintro ⟨a, ha, hsuccess⟩
  rw [h a (List.mem_of_getLast? ha)] at hsuccess
  cases hsuccess

theorem tells_retriesPerRecord :
    Tells stream (named Metrics.nameRetriesPerRecord stream) retries where
  fresh _ := rfl
  kinesis batch shardId := by
    simp [total, puts, emitKinesisRecordMetrics, Event.put?, named, Metrics.nameRetriesPerRecord,
      Metrics.nameKinesisRecordsPut, Metrics.nameKinesisRecordsDataPut]
  success b attempt shardId hb hattempt := by
    rw [retries_failed hb, zero_add]
    simp [total, puts, emitUserRecordSuccess, Event.put?, named, Metrics.nameUserRecordsPut,
      Metrics.nameUserRecordsDataPut, Metrics.nameRetriesPerRecord, retries, hattempt]
  failure r attempts attempt code hfailed hattempt _ := by
    rw [retries_failed hfailed, retries_failed (failed_concat hfailed hattempt), zero_add]
    simp [total, puts, emitError, Event.put?, named, Metrics.nameRetriesPerRecord,
      Metrics.nameAllErrors, Metrics.nameErrorsByCode]

theorem tells_allErrors : Tells stream (named Metrics.nameAllErrors stream) failures where
  fresh _ := rfl
  kinesis batch shardId := by
    simp [total, puts, emitKinesisRecordMetrics, Event.put?, named, Metrics.nameAllErrors,
      Metrics.nameKinesisRecordsPut, Metrics.nameKinesisRecordsDataPut]
  success b attempt shardId _ hattempt := by
    simp [total, puts, emitUserRecordSuccess, Event.put?, named, Metrics.nameUserRecordsPut,
      Metrics.nameUserRecordsDataPut, Metrics.nameRetriesPerRecord, Metrics.nameAllErrors, failures,
      hattempt]
  failure r attempts attempt code _ hattempt _ := by
    simp [total, puts, emitError, Event.put?, named, Metrics.nameAllErrors,
      Metrics.nameErrorsByCode, failures, hattempt]

theorem tells_errorsByCode (code : String) :
    Tells stream (coded code stream) (failuresWith code) where
  fresh _ := rfl
  kinesis batch shardId := by
    simp [total, puts, emitKinesisRecordMetrics, Event.put?, coded, Metrics.nameErrorsByCode,
      Metrics.nameKinesisRecordsPut, Metrics.nameKinesisRecordsDataPut]
  success b attempt shardId _ hattempt := by
    simp [total, puts, emitUserRecordSuccess, Event.put?, coded, Metrics.nameUserRecordsPut,
      Metrics.nameUserRecordsDataPut, Metrics.nameRetriesPerRecord, Metrics.nameErrorsByCode,
      failuresWith, hattempt]
  failure r attempts attempt code' _ hattempt hcode := by
    by_cases hsame : code' = code
    · simp [total, puts, emitError, Event.put?, coded, Metrics.nameAllErrors,
        Metrics.nameErrorsByCode, failuresWith, hattempt, hcode, hsame]
    · simp [total, puts, emitError, Event.put?, coded, Metrics.nameAllErrors,
        Metrics.nameErrorsByCode, failuresWith, hattempt, hcode, hsame]

/-- The Retrier receives no records. -/
theorem tells_userRecordsReceived (stream' : Option String) :
    Tells stream (named Metrics.nameUserRecordsReceived stream') fun _ _ => 0 where
  fresh _ := rfl
  kinesis batch shardId := by
    simp [total, puts, emitKinesisRecordMetrics, Event.put?, named,
      Metrics.nameUserRecordsReceived, Metrics.nameKinesisRecordsPut,
      Metrics.nameKinesisRecordsDataPut]
  success b attempt shardId _ _ := by
    simp [total, puts, emitUserRecordSuccess, Event.put?, named, Metrics.nameUserRecordsReceived,
      Metrics.nameUserRecordsPut, Metrics.nameUserRecordsDataPut, Metrics.nameRetriesPerRecord]
  failure r attempts attempt code _ _ _ := by
    simp [total, puts, emitError, Event.put?, named, Metrics.nameUserRecordsReceived,
      Metrics.nameAllErrors, Metrics.nameErrorsByCode]

/-- The puts of another stream tell nothing. -/
theorem tells_other {stream : Option String} {measure : Metrics.Put → ℚ}
    (h : ∀ p : Metrics.Put, p.stream = stream → measure p = 0) :
    Tells stream measure fun _ _ => 0 where
  fresh _ := rfl
  kinesis batch shardId := by
    simp [total, puts, emitKinesisRecordMetrics, Event.put?, h]
  success b attempt shardId _ _ := by
    simp [total, puts, emitUserRecordSuccess, Event.put?, h]
  failure r attempts attempt code _ _ _ := by
    simp [total, puts, emitError, Event.put?, h]

end Metrics

end Reporting

end Retrier

end Aiokpl
