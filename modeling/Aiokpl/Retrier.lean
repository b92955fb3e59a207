import Mathlib.Tactic
import Aiokpl.Hashing
import Aiokpl.Sender

/-!
# Classifying what came back (`aiokpl/retrier.py`)

`handle` walks an outcome and calls back for every user record.  The model
answers the list of calls it makes, in order, and what it raised, if anything;
the readings of the clock and the answers of the shard map are arguments.
Metrics are left out.
-/

namespace Aiokpl

open Lib Aggregation

namespace Retrier

def provisionedThroughputExceeded : String := "ProvisionedThroughputExceededException"

def expiredErrorCode : String := "Expired"

def expiredErrorMessage : String := "Record TTL exceeded"

def wrongShardErrorCode : String := "Wrong Shard"

def wrongShardErrorMessage : String :=
  "Record landed on a shard whose hash range does not contain the record's hash key"

/-- The constructor arguments of a `Retrier`, in milliseconds as they are given. -/
structure Config where
  recordTtlMs : Time := 30000
  failIfThrottled : Bool := false
  retryDeadlineMs : Time := 50

/-- `_record_ttl`, in seconds. -/
def Config.recordTtl (cfg : Config) : Time := cfg.recordTtlMs / 1000

/-- `_retry_deadline`, in seconds: half of what was configured. -/
def Config.retryDeadline (cfg : Config) : Time := cfg.retryDeadlineMs / 1000 / 2

/-- A call the Retrier makes. -/
inductive Call
  | onFinish (buffered : BufferedRecord) (result : RecordResult)
  | onRetry (buffered : BufferedRecord)
  | invalidate (seenAt : Time) (predictedShard : Option ShardId)
  deriving DecidableEq

/-- `_parse_actual_shard_id`.  `isdigit` holds for no empty string; `int` may refuse
    what it accepts. -/
def parseActualShardId (u : DigitClasses) (shardId : Option String) :
    Except Hashing.Error (Option ShardId) :=
  match shardId with
  | none => .ok none
  | some s =>
    if s = "" ∨ ¬ "shardId-".toList.isPrefixOf s.toList then .ok none
    else
      let suffix := s.toList.drop "shardId-".length
      if suffix = [] ∨ ¬ suffix.all u.isDigit then .ok none
      else
        match Hashing.parseInt u suffix with
        | some n => .ok (some n)
        | none => .error .refusedByInt

/-! ## One record -/

/-- `_finish_success`. -/
def finishSuccess (outcome : SendOutcome) (buffered : BufferedRecord)
    (perRecord : PerRecordOutcome) : Call :=
  let attempt : Attempt :=
    { startedAt := outcome.startedAt, endedAt := outcome.endedAt, success := true,
      shardId := perRecord.shardId, sequenceNumber := perRecord.sequenceNumber }
  let buffered := { buffered with attempts := buffered.attempts ++ [attempt] }
  .onFinish buffered
    { success := true, shardId := perRecord.shardId,
      sequenceNumber := perRecord.sequenceNumber, attempts := buffered.attempts }

/-- The failed attempt that `_fail` and `_retry_not_expired` append first. -/
def failedAttempt (outcome : SendOutcome) (code message : String) : Attempt :=
  { startedAt := outcome.startedAt, endedAt := outcome.endedAt, success := false,
    errorCode := some code, errorMessage := some message }

/-- The result of a record that is given up, with its attempts. -/
def failedResult (buffered : BufferedRecord) : RecordResult :=
  { success := false, shardId := none, sequenceNumber := none, attempts := buffered.attempts }

/-- `_fail`. -/
def fail (outcome : SendOutcome) (buffered : BufferedRecord) (code message : String) : Call :=
  let buffered :=
    { buffered with attempts := buffered.attempts ++ [failedAttempt outcome code message] }
  .onFinish buffered (failedResult buffered)

/-- The attempt that `_retry_not_expired` adds to a record past its TTL. -/
def expiredAttempt (now : Time) : Attempt :=
  { startedAt := now, endedAt := now, success := false,
    errorCode := some expiredErrorCode, errorMessage := some expiredErrorMessage }

/-- `_retry_not_expired`. -/
def retryNotExpired (cfg : Config) (outcome : SendOutcome) (buffered : BufferedRecord)
    (code message : String) (now : Time) : Call :=
  let buffered :=
    { buffered with attempts := buffered.attempts ++ [failedAttempt outcome code message] }
  if now - buffered.arrivalTime > cfg.recordTtl then
    let buffered := { buffered with attempts := buffered.attempts ++ [expiredAttempt now] }
    .onFinish buffered (failedResult buffered)
  else .onRetry { buffered with deadline := now + cfg.retryDeadline }

/-- The body of the loops over failed records. -/
def judgeFailure (cfg : Config) (outcome : SendOutcome) (buffered : BufferedRecord)
    (code message : String) (now : Time) : Call :=
  if code = provisionedThroughputExceeded ∧ cfg.failIfThrottled then
    fail outcome buffered code message
  else retryNotExpired cfg outcome buffered code message now

/-- `actual_range is not None and actual_range[0] <= hash_key <= actual_range[1]`. -/
def inRange (actualRange : Option (Nat × Nat)) (hashKey : Nat) : Bool :=
  actualRange.any fun r => r.1 ≤ hashKey && hashKey ≤ r.2

/-- The body of the loop over the records of a slot that came back from another
    shard than predicted. -/
def judgeMismatch (cfg : Config) (outcome : SendOutcome) (perRecord : PerRecordOutcome)
    (actualRange : Option (Nat × Nat)) (buffered : BufferedRecord) (now : Time) : Call :=
  if inRange actualRange buffered.hashKey then finishSuccess outcome buffered perRecord
  else retryNotExpired cfg outcome buffered wrongShardErrorCode wrongShardErrorMessage now

/-! ## Walking an outcome -/

/-- What `handle` reads while it runs: the clock at the turn of the n-th user record
    and at the `invalidate` of the k-th slot, and the shard map's ranges at that slot. -/
structure Env where
  clock : Nat → Time
  seenAt : Nat → Time
  hashrange : Nat → ShardId → Option (Nat × Nat)

/-- One call for each record, the first of which is the n-th of the outcome. -/
def judgeEach (env : Env) (judge : BufferedRecord → Time → Call) :
    Nat → List BufferedRecord → List Call
  | _, [] => []
  | n, buffered :: rest => judge buffered (env.clock n) :: judgeEach env judge (n + 1) rest

/-- `_handle_request_error`. -/
def handleRequestError (cfg : Config) (env : Env) (outcome : SendOutcome)
    (code message : String) : List Call :=
  judgeEach env (fun b now => judgeFailure cfg outcome b code message now) 0
    (outcome.batchItems.flatMap AggregatedBatch.items)

/-- `_handle_success` for the k-th slot, whose first record is the n-th.  The map is
    invalidated right after the first record of a slot from another shard. -/
def handleSuccess (u : DigitClasses) (cfg : Config) (env : Env) (outcome : SendOutcome)
    (k n : Nat) (perRecord : PerRecordOutcome) : Except Hashing.Error (List Call) := do
  let actual ← parseActualShardId u perRecord.shardId
  match perRecord.batch.predictedShard, actual with
  | some predicted, some actualInt =>
    if predicted = actualInt then
      return perRecord.batch.items.map (finishSuccess outcome · perRecord)
    else
      let calls := judgeEach env
        (judgeMismatch cfg outcome perRecord (env.hashrange k actualInt)) n perRecord.batch.items
      match calls with
      | [] => return []
      | first :: rest => return first :: .invalidate (env.seenAt k) (some actualInt) :: rest
  | _, _ => return perRecord.batch.items.map (finishSuccess outcome · perRecord)

/-- `per_record.error_code or "Unknown"` and `per_record.error_message or ""`. -/
def orDefault (value : Option String) (default : String) : String :=
  (Sender.truthy value).getD default

/-- `_handle_per_record` for the k-th slot, whose first record is the n-th. -/
def handlePerRecord (u : DigitClasses) (cfg : Config) (env : Env) (outcome : SendOutcome)
    (k n : Nat) (perRecord : PerRecordOutcome) : Except Hashing.Error (List Call) :=
  if perRecord.success then handleSuccess u cfg env outcome k n perRecord
  else
    let code := orDefault perRecord.errorCode "Unknown"
    let message := orDefault perRecord.errorMessage ""
    .ok (judgeEach env (fun b now => judgeFailure cfg outcome b code message now) n
      perRecord.batch.items)

/-- What a call of `handle` did: the calls it made, and what it raised after them. -/
structure Handled where
  calls : List Call
  raised : Option Hashing.Error
  deriving DecidableEq

/-- The `for per_record in outcome.per_record` loop. -/
def handleSlots (u : DigitClasses) (cfg : Config) (env : Env) (outcome : SendOutcome) :
    (k n : Nat) → List PerRecordOutcome → Handled
  | _, _, [] => { calls := [], raised := none }
  | k, n, perRecord :: rest =>
    match handlePerRecord u cfg env outcome k n perRecord with
    | .error e => { calls := [], raised := some e }
    | .ok calls =>
      let more := handleSlots u cfg env outcome (k + 1) (n + perRecord.batch.items.length) rest
      { calls := calls ++ more.calls, raised := more.raised }

/-- `Retrier.handle`. -/
def handle (u : DigitClasses) (cfg : Config) (env : Env) (outcome : SendOutcome) : Handled :=
  match outcome.requestError with
  | some (code, message) =>
    { calls := handleRequestError cfg env outcome code message, raised := none }
  | none => handleSlots u cfg env outcome 0 0 outcome.perRecord

end Retrier

end Aiokpl
