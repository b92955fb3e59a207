import Mathlib.Tactic
import Aiokpl.Batches

/-!
# One `PutRecords` trip (`aiokpl/sender.py`)

The request built from a batch, and the outcome made of what the client
answered: an exception, or a list of slots.  What the request is timed with
and what the client answers are arguments.
-/

namespace Aiokpl

open Lib Aggregation

/-- `PerRecordOutcome`. -/
structure PerRecordOutcome where
  batch : AggregatedBatch
  success : Bool
  shardId : Option String
  sequenceNumber : Option String
  errorCode : Option String
  errorMessage : Option String
  deriving DecidableEq

/-- `SendOutcome`. -/
structure SendOutcome where
  streamName : String
  startedAt : Time
  endedAt : Time
  requestError : Option (String × String)
  perRecord : List PerRecordOutcome
  batchItems : List AggregatedBatch
  deriving DecidableEq

namespace Sender

/-- One entry of the response's `Records`; `none` where the key is missing. -/
structure Slot where
  sequenceNumber : Option String := none
  shardId : Option String := none
  errorCode : Option String := none
  errorMessage : Option String := none
  deriving DecidableEq, Repr

/-- `exc.response["Error"]`; `none` where the key is missing or no string. -/
structure ErrorFields where
  code : Option String
  message : Option String
  deriving DecidableEq, Repr

/-- An exception of the client.  `error` is `none` unless `exc.response` and its
    `Error` are dictionaries; `text` is `str(exc)`. -/
structure ClientException where
  error : Option ErrorFields := none
  text : String
  deriving DecidableEq, Repr

/-- What `put_records` does. -/
inductive Reply
  | raised (exc : ClientException)
  | response (records : List Slot)
  deriving DecidableEq, Repr

/-- One entry of the request's `Records`. -/
structure Entry where
  data : Bytes
  partitionKey : String
  explicitHashKey : Option String
  deriving DecidableEq, Repr

/-- What `send` itself raises. -/
inductive Error
  | emptyBatch
  | encoding (e : Aggregation.Error)
  deriving DecidableEq, Repr

/-- `_classify_request_exception`. -/
def classifyRequestException (exc : ClientException) : String × String :=
  match exc.error with
  | some { code := some code, message := some message } => (code, message)
  | _ => ("Internal", exc.text)

/-- A string value Python takes for true. -/
def truthy (value : Option String) : Option String := value.filter (· ≠ "")

/-- `_build_per_record`. -/
def buildPerRecord (ar : AggregatedBatch) (slot : Slot) : PerRecordOutcome :=
  match truthy slot.sequenceNumber with
  | some seq =>
    { batch := ar, success := true, shardId := slot.shardId, sequenceNumber := some seq,
      errorCode := none, errorMessage := none }
  | none =>
    { batch := ar, success := false, shardId := none, sequenceNumber := none,
      errorCode := slot.errorCode, errorMessage := slot.errorMessage }

theorem buildPerRecord_accepted {ar : AggregatedBatch} {slot : Slot} {seq : String}
    (h : truthy slot.sequenceNumber = some seq) :
    buildPerRecord ar slot =
      { batch := ar, success := true, shardId := slot.shardId, sequenceNumber := some seq,
        errorCode := none, errorMessage := none } := by
  simp only [buildPerRecord, h]

theorem buildPerRecord_refused {ar : AggregatedBatch} {slot : Slot}
    (h : truthy slot.sequenceNumber = none) :
    buildPerRecord ar slot =
      { batch := ar, success := false, shardId := none, sequenceNumber := none,
        errorCode := slot.errorCode, errorMessage := slot.errorMessage } := by
  simp only [buildPerRecord, h]

/-- The entry of one Kinesis record.  `to_blob` refuses an empty batch. -/
def buildEntry (md5 : Bytes → Digest) (ar : AggregatedBatch) : Except Aggregation.Error Entry := do
  let data ← ar.toBlob md5
  return { data, partitionKey := ar.routingPartitionKey.getD "",
           explicitHashKey := ar.routingExplicitHashKey }

/-- The outcome `send` makes of the client's answer. -/
def outcomeOf (streamName : String) (startedAt endedAt : Time) (batch : PutRecordsBatch) :
    Reply → SendOutcome
  | .raised exc =>
    { streamName, startedAt, endedAt, requestError := some (classifyRequestException exc),
      perRecord := [], batchItems := batch.items }
  | .response records =>
    let returned := records.length
    let expected := batch.count
    if returned ≠ expected then
      let msg := s!"PutRecords returned {returned} records for a batch of {expected}"
      { streamName, startedAt, endedAt, requestError := some ("RecordCountMismatch", msg),
        perRecord := [], batchItems := batch.items }
    else
      { streamName, startedAt, endedAt, requestError := none,
        perRecord := List.zipWith buildPerRecord batch.items records, batchItems := batch.items }

/-- `Sender.send`. -/
def send (md5 : Bytes → Digest) (streamName : String) (startedAt endedAt : Time)
    (batch : PutRecordsBatch) (reply : Reply) : Except Error SendOutcome :=
  if batch.count = 0 then .error .emptyBatch
  else
    match batch.items.mapM (buildEntry md5) with
    | .error e => .error (.encoding e)
    | .ok _ => .ok (outcomeOf streamName startedAt endedAt batch reply)

/-- A batch with records in it encodes. -/
theorem buildEntry_ok (md5 : Bytes → Digest) {ar : AggregatedBatch} (h : ar.items ≠ []) :
    ∃ entry, buildEntry md5 ar = .ok entry := by
  have hblob : ∃ blob, ar.toBlob md5 = .ok blob := by
    unfold AggregatedBatch.toBlob encodeAggregated
    split
    · rename_i hnil
      exact absurd (by simpa using hnil) h
    · exact ⟨_, rfl⟩
    · exact ⟨_, rfl⟩
  obtain ⟨blob, hblob⟩ := hblob
  exact ⟨_, by rw [buildEntry, hblob]; rfl⟩

/-- `send` raises on no non-empty batch of non-empty batches. -/
theorem send_ok (md5 : Bytes → Digest) (streamName : String) (startedAt endedAt : Time)
    {batch : PutRecordsBatch} (reply : Reply) (hne : batch.items ≠ [])
    (hfull : ∀ ar ∈ batch.items, ar.items ≠ []) :
    send md5 streamName startedAt endedAt batch reply =
      .ok (outcomeOf streamName startedAt endedAt batch reply) := by
  have hcount : batch.count ≠ 0 := by simpa [PutRecordsBatch.count] using hne
  have hentries : ∀ ars : List AggregatedBatch, (∀ ar ∈ ars, ar.items ≠ []) →
      ∃ entries, ars.mapM (buildEntry md5) = .ok entries := by
    intro ars
    induction ars with
    | nil => exact fun _ => ⟨[], rfl⟩
    | cons ar ars ih =>
      intro h
      obtain ⟨entry, hentry⟩ := buildEntry_ok md5 (h ar (by simp))
      obtain ⟨entries, hrest⟩ := ih fun ar' h' => h ar' (by simp [h'])
      exact ⟨entry :: entries, by rw [List.mapM_cons, hentry, hrest]; rfl⟩
  obtain ⟨entries, hok⟩ := hentries batch.items hfull
  simp only [send, hcount, if_false, hok]

/-- What `send` takes is a non-empty batch of non-empty batches. -/
theorem full_of_send_ok {md5 : Bytes → Digest} {streamName : String} {startedAt endedAt : Time}
    {batch : PutRecordsBatch} {reply : Reply} {outcome : SendOutcome}
    (h : send md5 streamName startedAt endedAt batch reply = .ok outcome) :
    batch.items ≠ [] ∧ ∀ ar ∈ batch.items, ar.items ≠ [] := by
  have hentries : ∀ (ars : List AggregatedBatch) (entries : List Entry),
      ars.mapM (buildEntry md5) = .ok entries → ∀ ar ∈ ars, ar.items ≠ [] := by
    intro ars
    induction ars with
    | nil => simp
    | cons ar ars ih =>
      intro entries hok
      rw [List.mapM_cons] at hok
      cases hentry : buildEntry md5 ar with
      | error e => simp [hentry, bind, Except.bind] at hok
      | ok entry =>
        cases hrest : ars.mapM (buildEntry md5) with
        | error e => simp [hentry, hrest, bind, Except.bind] at hok
        | ok more =>
          intro ar' h'
          rcases List.mem_cons.mp h' with rfl | htail
          · intro hempty
            have hblob : ar'.toBlob md5 =
                .error (.valueError "encode_aggregated requires at least one record") := by
              rw [AggregatedBatch.toBlob, hempty]
              rfl
            rw [buildEntry, hblob] at hentry
            simp [bind, Except.bind] at hentry
          · exact ih more hrest ar' htail
  unfold send at h
  split at h
  · simp at h
  · rename_i hcount
    refine ⟨fun hnil => hcount (by simp [PutRecordsBatch.count, hnil]), ?_⟩
    split at h
    · simp at h
    · rename_i entries hok
      exact hentries batch.items entries hok

end Sender

end Aiokpl
