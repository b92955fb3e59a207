import Aiokpl.ProducerFates

/-!
# The log of a record

A `LogLine` is what one trip does to one record: the attempt it leaves, and the receipt
if the reply acknowledges the record.  `attempts_are_the_log` reads a result off the log
of its record, and `acknowledged_once_or_misrouted` counts its receipts.

What the service stores is not modelled, only what its replies say.  A request that
raises may have stored its entries all the same, and so may one whose reply has too few
slots or too many; no receipt is read from either.  A trip logs every record of its
batch, also those behind a slot at which the Retrier raises, and such a raise ends the
run.  The times and the delay of an attempt are exact rationals.
-/

namespace Aiokpl

open Lib Aggregation

namespace Producer

/-! ## Receipts -/

/-- Where a reply says that an entry is stored. -/
structure Receipt where
  shardId : Option String
  sequenceNumber : String
  deriving DecidableEq, Repr

/-- A slot with a sequence number. -/
def slotReceipt (slot : Sender.Slot) : Option Receipt :=
  (Sender.truthy slot.sequenceNumber).map fun seq =>
    { shardId := slot.shardId, sequenceNumber := seq }

/-- The receipts of slots for the records of the batches at their positions. -/
def slotReceipts : List AggregatedBatch → List Sender.Slot → List (BufferedRecord × Option Receipt)
  | ar :: ars, slot :: slots =>
    ar.items.map (fun b => (b, slotReceipt slot)) ++ slotReceipts ars slots
  | _, _ => []

/-- The receipts of a reply.  None is read from a request that raises, or from a reply without
    a slot for each entry, whatever the service has stored. -/
def receipts (batch : PutRecordsBatch) : Sender.Reply → List (BufferedRecord × Option Receipt)
  | .raised _ => (Retrier.records batch).map fun b => (b, none)
  | .response slots =>
    if slots.length ≠ batch.count then (Retrier.records batch).map fun b => (b, none)
    else slotReceipts batch.items slots

/-- A record is accepted with the receipt of its slot.  One that is refused has no receipt,
    or went to the wrong shard. -/
def Agree : Retrier.Verdict → Option Receipt → Prop
  | .accepted shardId sequenceNumber, receipt =>
    ∃ seq, sequenceNumber = some seq ∧ receipt = some { shardId, sequenceNumber := seq }
  | .refused code _, receipt => receipt = none ∨ code = Retrier.wrongShardErrorCode

theorem slotVerdict_agrees (u : DigitClasses) (hashrange : ShardId → Option (Nat × Nat))
    (ar : AggregatedBatch) (slot : Sender.Slot) (b : BufferedRecord) :
    Agree (Retrier.slotVerdict u hashrange ar slot b) (slotReceipt slot) := by
  unfold Retrier.slotVerdict slotReceipt
  cases Sender.truthy slot.sequenceNumber with
  | none => exact Or.inl rfl
  | some seq =>
    dsimp only [Option.map_some]
    split
    · split
      · exact ⟨seq, rfl, rfl⟩
      · exact Or.inr rfl
    · exact ⟨seq, rfl, rfl⟩

/-- A verdict and a receipt of one record. -/
def Matches (bv : BufferedRecord × Retrier.Verdict) (br : BufferedRecord × Option Receipt) : Prop :=
  bv.1 = br.1 ∧ Agree bv.2 br.2

theorem matches_map {verdict : BufferedRecord → Retrier.Verdict}
    {receipt : BufferedRecord → Option Receipt} (h : ∀ b, Agree (verdict b) (receipt b))
    (bs : List BufferedRecord) :
    List.Forall₂ Matches (bs.map fun b => (b, verdict b)) (bs.map fun b => (b, receipt b)) := by
  induction bs with
  | nil => exact .nil
  | cons b bs ih => exact .cons ⟨rfl, h b⟩ ih

theorem slotReceipts_match (u : DigitClasses) (env : Retrier.Env) :
    ∀ (k : Nat) (ars : List AggregatedBatch) (slots : List Sender.Slot),
      List.Forall₂ Matches (Retrier.slotVerdicts u env k ars slots) (slotReceipts ars slots)
  | _, [], _ => .nil
  | _, _ :: _, [] => .nil
  | k, ar :: ars, slot :: slots =>
    List.rel_append (matches_map (slotVerdict_agrees u (env.hashrange k) ar slot) ar.items)
      (slotReceipts_match u env (k + 1) ars slots)

/-- **A reply has one receipt, or none, for each verdict.** -/
theorem receipts_match (u : DigitClasses) (env : Retrier.Env) (batch : PutRecordsBatch)
    (reply : Sender.Reply) :
    List.Forall₂ Matches (Retrier.verdicts u env batch reply) (receipts batch reply) := by
  have hnone : ∀ code message : String, Agree (.refused code message) none :=
    fun _ _ => Or.inl rfl
  cases reply with
  | raised exc => exact matches_map (fun _ => hnone _ _) _
  | response slots =>
    simp only [Retrier.verdicts, receipts]
    split
    · exact matches_map (fun _ => hnone _ _) _
    · exact slotReceipts_match u env 0 batch.items slots

/-! ## The log -/

structure LogLine where
  attempt : Attempt
  receipt : Option Receipt
  deriving DecidableEq, Repr

/-- What a trip logs of the records of its batch. -/
def tripLines (sys : System) (input : Input) (stream : String) (startedAt : Time)
    (batch : PutRecordsBatch) : List (BufferedRecord × LogLine) :=
  let outcome := Sender.outcomeOf stream startedAt input.endedAt batch input.reply
  List.zipWith (fun bv br => (bv.1, { attempt := bv.2.attempt outcome, receipt := br.2 }))
    (Retrier.verdicts sys.u input.env batch input.reply) (receipts batch input.reply)

/-- What is logged of a batch that has expired in the Limiter's queue. -/
def expiryLine (stream : String) (now : Time) (batch : AggregatedBatch) : LogLine :=
  { attempt := Retrier.failedAttempt (expiredOutcome stream now batch) Retrier.expiredErrorCode
      (Retrier.expiredErrorMessage ++ ": Expired")
    receipt := none }

def Work.logLines (sys : System) (input : Input) : Work → List (Token × LogLine)
  | .inFlight stream startedAt batch =>
    (tripLines sys input stream startedAt batch).map fun bl => ((stream, bl.1.ident), bl.2)
  | .limiterExpired stream batch =>
    batch.items.map fun b => ((stream, b.ident), expiryLine stream input.now batch)
  | _ => []

theorem zipWith_fst {α β γ δ : Type} {R : α × β → α × γ → Prop} (f : α × β → α × γ → δ)
    {xs : List (α × β)} {ys : List (α × γ)} (h : List.Forall₂ R xs ys) :
    (List.zipWith (fun x y => (x.1, f x y)) xs ys).map Prod.fst = xs.map Prod.fst := by
  induction h with
  | nil => rfl
  | cons _ _ ih => rw [List.zipWith_cons_cons, List.map_cons, ih, List.map_cons]

theorem tripLines_fst (sys : System) (input : Input) (stream : String) (startedAt : Time)
    (batch : PutRecordsBatch) :
    (tripLines sys input stream startedAt batch).map Prod.fst = Retrier.records batch := by
  rw [tripLines, ← Retrier.verdicts_fst sys.u input.env batch input.reply]
  exact zipWith_fst _ (receipts_match sys.u input.env batch input.reply)

/-- A line for each record that the frame has. -/
theorem logLines_tokens (sys : System) (input : Input) (w : Work) :
    (w.logLines sys input).map Prod.fst = [] ∨ (w.logLines sys input).map Prod.fst = w.tokens := by
  cases w with
  | inFlight stream startedAt batch =>
    right
    rw [Work.logLines, List.map_map, Work.tokens, tokensOf,
      ← tripLines_fst sys input stream startedAt batch, List.map_map]
    rfl
  | limiterExpired stream batch =>
    right
    rw [Work.logLines, List.map_map, Work.tokens, tokensOf]
    rfl
  | _ => exact Or.inl rfl

/-- Every trip writes one line for each record. -/
def logbook (sys : System) : Diary LogLine where
  entries := fun input w => w.logLines sys input
  own := by
    intro input w k e hmem
    have hk := List.mem_map_of_mem (f := Prod.fst) hmem
    rcases logLines_tokens sys input w with hnone | htokens
    · rw [hnone] at hk
      cases hk
    · rwa [htokens] at hk
  silent _ _ _ := rfl

/-! ## What the log says of a record -/

def Failures (log : List LogLine) : Prop := ∀ line ∈ log, line.attempt.success = false

/-- The ways a record may end: with the receipt of its last trip, given up as the last
    trip left it, or given up past its TTL. -/
inductive Concluded : List LogLine → RecordResult → Prop
  | delivered {earlier : List LogLine} {last : LogLine} : Failures earlier →
      last.attempt.success = true →
      Concluded (earlier ++ [last])
        { success := true, shardId := last.attempt.shardId,
          sequenceNumber := last.attempt.sequenceNumber,
          attempts := (earlier ++ [last]).map LogLine.attempt }
  | givenUp {log : List LogLine} : Failures log → log ≠ [] →
      Concluded log
        { success := false, shardId := none, sequenceNumber := none,
          attempts := log.map LogLine.attempt }
  | expired {log : List LogLine} (now : Time) : Failures log → log ≠ [] →
      Concluded log
        { success := false, shardId := none, sequenceNumber := none,
          attempts := log.map LogLine.attempt ++ [Retrier.expiredAttempt now] }

/-- A record that is under way has failed on every trip; one that has ended was concluded;
    and one that is not judged has no attempt for the last line. -/
def Holding.Logged (log : List LogLine) : Holding → Prop
  | .waiting b => b.attempts = log.map LogLine.attempt ∧ Failures log
  | .sent b => b.attempts = log.map LogLine.attempt ∧ Failures log
  | .ended _ result => Concluded log result
  | .unjudged b => b.attempts = log.dropLast.map LogLine.attempt ∧ Failures log.dropLast

theorem Failures.concat {log : List LogLine} (h : Failures log) {line : LogLine}
    (hline : line.attempt.success = false) : Failures (log ++ [line]) := by
  intro l hl
  rcases List.mem_append.mp hl with hold | hnew
  · exact h l hold
  · rw [List.mem_singleton.mp hnew]
    exact hline

/-- **A callback of the Retrier** is what one more line of the log says. -/
theorem judged_logged {cfg : Retrier.Config} {outcome : SendOutcome} {b : BufferedRecord}
    {v : Retrier.Verdict} {call : Retrier.Call} {held : Holding} {log : List LogLine}
    (hattempts : b.attempts = log.map LogLine.attempt) (hfailures : Failures log)
    (h : Retrier.Judged cfg outcome b v call) (hheld : callHolding call = some held)
    (receipt : Option Receipt) :
    held.ident = b.ident ∧ held.Logged (log ++ [{ attempt := v.attempt outcome, receipt }]) := by
  have hmore : ∀ attempt : Attempt, b.attempts ++ [attempt] =
      (log ++ [({ attempt, receipt } : LogLine)]).map LogLine.attempt := by
    intro attempt
    rw [hattempts, List.map_append]
    rfl
  cases h with
  | accepted perRecord =>
    obtain rfl := Option.some.inj hheld
    refine ⟨rfl, ?_⟩
    simp only [Holding.Logged, hmore]
    exact .delivered hfailures rfl
  | throttled message =>
    obtain rfl := Option.some.inj hheld
    refine ⟨rfl, ?_⟩
    simp only [Holding.Logged, Retrier.failedResult, hmore]
    exact .givenUp (hfailures.concat rfl) (by simp)
  | refused code message now =>
    have hnext : Failures (log ++ [⟨Retrier.failedAttempt outcome code message, receipt⟩]) :=
      hfailures.concat rfl
    unfold Retrier.retryNotExpired at hheld
    dsimp only at hheld
    split at hheld
    · obtain rfl := Option.some.inj hheld
      refine ⟨rfl, ?_⟩
      simp only [Holding.Logged, Retrier.failedResult, hmore]
      exact .expired now hnext (by simp)
    · obtain rfl := Option.some.inj hheld
      exact ⟨rfl, hmore _, hnext⟩

/-- What is written once about a record is all that is written about it. -/
theorem about_eq_singleton {E : Type} {k : Token} {e : E} :
    ∀ {entries : List (Token × E)}, (k, e) ∈ entries →
      (entries.map Prod.fst).count k ≤ 1 → about k entries = [e]
  | [], hmem, _ => by cases hmem
  | (k', e') :: entries, hmem, honce => by
    rw [List.map_cons, List.count_cons] at honce
    by_cases hk : k' = k
    · subst hk
      have hnone : (entries.map Prod.fst).count k' = 0 := by
        rw [beq_self_eq_true, if_pos rfl] at honce
        omega
      have hrest : ∀ e, (k', e) ∉ entries := fun e hin =>
        List.count_eq_zero.mp hnone (List.mem_map_of_mem hin)
      have hhead : e = e' := by
        rcases List.mem_cons.mp hmem with heq | hin
        · exact (Prod.mk.inj heq).2
        · exact absurd hin (hrest e)
      have htail : about k' entries = [] := about_eq_nil hrest
      simp only [about] at htail ⊢
      rw [List.filterMap_cons_some (b := e') (by simp), htail, hhead]
    · have hin : (k, e) ∈ entries := by
        rcases List.mem_cons.mp hmem with heq | hin
        · exact absurd (Prod.mk.inj heq).1.symm hk
        · exact hin
      have htail := about_eq_singleton hin (by omega)
      simp only [about] at htail ⊢
      rw [List.filterMap_cons_none (by simp [hk]), htail]

/-- A line is written for a record that the frame has. -/
theorem about_logLines {sys : System} {input : Input} {w : Work} {k : Token} {line : LogLine}
    (hmem : (k, line) ∈ w.logLines sys input) (honce : ∀ k, w.tokens.count k ≤ 1) :
    about k (w.logLines sys input) = [line] := by
  apply about_eq_singleton hmem
  rcases logLines_tokens sys input w with hnone | htokens
  · simp [hnone]
  · rw [htokens]
    exact honce k

/-- Every record of a batch has a line. -/
theorem exists_tripLine (sys : System) (input : Input) (stream : String) (startedAt : Time)
    {batch : PutRecordsBatch} {b : BufferedRecord} (h : b ∈ Retrier.records batch) :
    ∃ line, (b, line) ∈ tripLines sys input stream startedAt batch := by
  rw [← tripLines_fst sys input stream startedAt batch] at h
  obtain ⟨⟨b, line⟩, hmem, rfl⟩ := List.mem_map.mp h
  exact ⟨line, hmem⟩

/-- The line of a verdict. -/
theorem mem_tripLines {sys : System} {input : Input} (stream : String) (startedAt : Time)
    {batch : PutRecordsBatch} {b : BufferedRecord} {v : Retrier.Verdict}
    (h : (b, v) ∈ Retrier.verdicts sys.u input.env batch input.reply) :
    ∃ receipt, (b, LogLine.mk (v.attempt
        (Sender.outcomeOf stream startedAt input.endedAt batch input.reply)) receipt) ∈
      tripLines sys input stream startedAt batch := by
  have hmatch := receipts_match sys.u input.env batch input.reply
  unfold tripLines
  generalize Retrier.verdicts sys.u input.env batch input.reply = verdicts at h hmatch
  generalize receipts batch input.reply = rs at hmatch
  induction hmatch with
  | nil => cases h
  | @cons bv br _ _ _ _ ih =>
    rw [List.zipWith_cons_cons]
    rcases List.mem_cons.mp h with rfl | hrest
    · exact ⟨br.2, List.mem_cons_self⟩
    · obtain ⟨receipt, hmem⟩ := ih hrest
      exact ⟨receipt, List.mem_cons_of_mem _ hmem⟩

theorem logLines_nil (sys : System) (input : Input) {w : Work} (h : w.settles = false) :
    w.logLines sys input = [] := by
  cases w with
  | limiterExpired | inFlight => cases h
  | _ => rfl

/-- **The log of a record** says what became of it. -/
theorem logbook_keeps (sys : System) : (logbook sys).Keeps sys fun log x => x.2.Logged log := by
  intro input w x before honce hheld hfresh hfate
  cases hfate with
  | same hw hmem =>
    have hnone : (logbook sys).entries input w = [] := logLines_nil sys input hw
    rw [hnone, about, List.filterMap_nil, List.append_nil]
    exact hheld x hmem
  | @built _ call buffered hcall hbuild =>
    have hw : w.settles = false := by
      cases w <;> first | rfl | simp [Work.call?] at hcall
    have hnone : (logbook sys).entries input w = [] := logLines_nil sys input hw
    have htoken : tokenOf (call.stream, .waiting buffered) = (call.stream, call.number) := by
      rw [← ident_buildBuffered hbuild]
      rfl
    rw [hnone, htoken, hfresh call hcall]
    exact ⟨attempts_buildBuffered hbuild, by simp [Failures, about]⟩
  | @sent stream batch b hb =>
    have hwaiting := hheld (stream, .waiting b) (List.mem_map_of_mem hb)
    exact (List.append_nil (before (stream, b.ident))).symm ▸ hwaiting
  | @expired stream batch b call held hb hjudged _ hcall =>
    obtain ⟨hattempts, hfailures⟩ := hheld (stream, .waiting b) (List.mem_map_of_mem hb)
    obtain ⟨hident, hlogged⟩ := judged_logged hattempts hfailures hjudged hcall none
    have htoken : tokenOf (stream, held) = (stream, b.ident) := by
      rw [← hident]
      rfl
    have hline : ((stream, b.ident), expiryLine stream input.now batch) ∈
        (Work.limiterExpired stream batch).logLines sys input := List.mem_map_of_mem hb
    rw [htoken]
    exact (about_logLines hline honce).symm ▸ hlogged
  | @answered stream startedAt batch b v call held hbv hjudged _ hcall =>
    have hb : b ∈ Retrier.records batch := by
      rw [← Retrier.verdicts_fst sys.u input.env batch input.reply]
      exact List.mem_map_of_mem hbv
    obtain ⟨hattempts, hfailures⟩ := hheld (stream, .sent b) (List.mem_map_of_mem hb)
    obtain ⟨receipt, hmem⟩ := mem_tripLines stream startedAt hbv
    obtain ⟨hident, hlogged⟩ := judged_logged hattempts hfailures hjudged hcall receipt
    have htoken : tokenOf (stream, held) = (stream, b.ident) := by
      rw [← hident]
      rfl
    have hline : ((stream, b.ident), LogLine.mk (v.attempt (Sender.outcomeOf stream startedAt
        input.endedAt batch input.reply)) receipt) ∈
        (Work.inFlight stream startedAt batch).logLines sys input := List.mem_map_of_mem hmem
    rw [htoken]
    exact (about_logLines hline honce).symm ▸ hlogged
  | @unjudged stream startedAt batch b hunjudged =>
    have hb : b ∈ Retrier.records batch := List.mem_of_mem_drop hunjudged
    obtain ⟨line, hmem⟩ := exists_tripLine sys input stream startedAt hb
    have hline : ((stream, b.ident), line) ∈
        (Work.inFlight stream startedAt batch).logLines sys input := List.mem_map_of_mem hmem
    obtain ⟨hattempts, hfailures⟩ := hheld (stream, .sent b) (List.mem_map_of_mem hb)
    change Holding.Logged (before (stream, b.ident) ++ about (stream, b.ident)
      ((Work.inFlight stream startedAt batch).logLines sys input)) (.unjudged b)
    rw [about_logLines hline honce, Holding.Logged, List.dropLast_concat]
    exact ⟨hattempts, hfailures⟩

/-- **The attempts of a result are the log of its record.**  In every run, each finished
    record was concluded as its log says: one attempt for each trip, in order and with the
    words of its reply, all failures but the last one of a record that was delivered, and
    one more past the TTL.  A record that is under way has the attempts of its log, none
    of which has succeeded; one behind the slot at which the Retrier raises has those of
    all lines but the last. -/
theorem attempts_are_the_log (sys : System) {a : Annals LogLine}
    (h : Reachable (Annals.start sys) (Annals.step sys (logbook sys)) anyStep a) :
    a.results.map Prod.fst = a.producer.shared.finished ∧
      (∀ k result, (k, result) ∈ a.results → Concluded (about k a.entries) result) ∧
      ∀ x, a.producer.Has x → x.2.Logged (about (tokenOf x) a.entries) := by
  obtain ⟨_, _, hlawful⟩ := Annals.reachable_lawful (logbook_keeps sys) h
  refine ⟨hlawful.finished, fun k result hmem => ?_, hlawful.held⟩
  obtain ⟨_, _, hended⟩ := hlawful.recorded k result hmem
  exact hended

/-- A record is put and predicted for shard 1, and its call returns. -/
def putsForOne : List Op :=
  .putRecord "a" { partitionKey := "p", data := [] } ::
    List.replicate 6 (.run 0 { shardKey := some 1 })

/-- Every entry is stored on this shard under this number. -/
def storedOn (shardId sequenceNumber : String) : Input :=
  { shardKey := some 1
    reply := .response [{ sequenceNumber := some sequenceNumber, shardId := some shardId }] }

/-- The record is flushed and sent twice: the first time another shard stores it. -/
def strays : List Op :=
  [putsForOne,
    .flush :: List.replicate 7 (.run 1 {}) ++ [.run 3 {}] ++
      List.replicate 5 (.run 3 (storedOn "shardId-2" "s1")),
    .flush :: List.replicate 7 (.run 4 {}) ++ [.run 5 {}] ++
      List.replicate 2 (.run 5 (storedOn "shardId-1" "s2"))].flatten

def unwritten (sys : System) : Annals LogLine :=
  { producer := { shared := { permits := sys.cfg.maxOutstandingRecords } } }

/-- What the log of the record comes to. -/
theorem strays_log :
    ∃ a, Reachable (Annals.start oneStream) (Annals.step oneStream (logbook oneStream)) anyStep a ∧
      (about ("a", 0) a.entries).map (fun line => (line.attempt.success, line.receipt)) =
        [(false, some ⟨some "shardId-2", "s1"⟩), (true, some ⟨some "shardId-1", "s2"⟩)] ∧
      ∃ result, (("a", 0), result) ∈ a.results ∧ result.success = true := by
  have hrun : (Lib.exec (Annals.step oneStream (logbook oneStream)) anyStep (unwritten oneStream)
      strays).map (fun a => decide ((about ("a", 0) a.entries).map
        (fun line => (line.attempt.success, line.receipt)) =
          [(false, some ⟨some "shardId-2", "s1"⟩), (true, some ⟨some "shardId-1", "s2"⟩)] ∧
        a.results.map (fun r => (r.1, r.2.success)) = [(("a", 0), true)])) = some true := by
    decide +kernel
  obtain ⟨a, hexec, hout⟩ := Option.map_eq_some_iff.mp hrun
  obtain ⟨hlog, hresults⟩ := of_decide_eq_true hout
  obtain ⟨⟨k, result⟩, hmem, hresult⟩ := List.mem_map.mp
    (hresults ▸ List.mem_singleton.mpr rfl :
      (("a", 0), true) ∈ a.results.map fun r => (r.1, r.2.success))
  obtain ⟨rfl, hsuccess⟩ := Prod.mk.inj hresult
  exact ⟨a, Reachable.exec (.start rfl) hexec, hlog, result, hmem, hsuccess⟩

theorem attempts_are_the_log_strays :
    ∃ a, Reachable (Annals.start oneStream) (Annals.step oneStream (logbook oneStream)) anyStep a ∧
      ∃ result, (("a", 0), result) ∈ a.results ∧ result.success = true ∧
        Concluded (about ("a", 0) a.entries) result := by
  obtain ⟨a, hreach, _, result, hmem, hsuccess⟩ := strays_log
  exact ⟨a, hreach, result, hmem, hsuccess, (attempts_are_the_log oneStream hreach).2.1 _ _ hmem⟩

/-! ## How often a record is acknowledged -/

/-- The attempt of a line agrees with its receipt. -/
structure LogLine.Honest (line : LogLine) : Prop where
  delivered : line.attempt.success = true → ∃ seq, line.attempt.sequenceNumber = some seq ∧
    line.receipt = some { shardId := line.attempt.shardId, sequenceNumber := seq }
  refused : line.attempt.success = false →
    line.receipt = none ∨ line.attempt.errorCode = some Retrier.wrongShardErrorCode

/-- The record was acknowledged, and is sent again all the same. -/
def LogLine.misrouted (line : LogLine) : Bool := line.receipt.isSome && !line.attempt.success

def acknowledged (log : List LogLine) : List Receipt := log.filterMap LogLine.receipt

def wrongShards (attempts : List Attempt) : ℕ :=
  attempts.countP fun a => a.errorCode = some Retrier.wrongShardErrorCode

theorem honest_of_agree {outcome : SendOutcome} {v : Retrier.Verdict} {receipt : Option Receipt}
    (h : Agree v receipt) : LogLine.Honest { attempt := v.attempt outcome, receipt } := by
  cases v with
  | accepted shardId sequenceNumber =>
    refine ⟨fun _ => ?_, fun hfalse => by cases hfalse⟩
    exact h
  | refused code message =>
    refine ⟨fun htrue => absurd htrue Bool.false_ne_true, fun _ => ?_⟩
    rcases h with hnone | hcode
    · exact Or.inl hnone
    · exact Or.inr (congrArg some hcode)

theorem logLines_honest (sys : System) (input : Input) (w : Work) (k : Token) (line : LogLine)
    (hmem : (k, line) ∈ w.logLines sys input) : line.Honest := by
  cases w with
  | inFlight stream startedAt batch =>
    obtain ⟨⟨b, line'⟩, hline, heq⟩ := List.mem_map.mp hmem
    obtain ⟨_, rfl⟩ := Prod.mk.inj heq
    have hmatch := receipts_match sys.u input.env batch input.reply
    unfold tripLines at hline
    generalize Retrier.verdicts sys.u input.env batch input.reply = verdicts at hline hmatch
    generalize receipts batch input.reply = rs at hline hmatch
    induction hmatch with
    | nil => cases hline
    | cons hhead _ ih =>
      rw [List.zipWith_cons_cons] at hline
      rcases List.mem_cons.mp hline with hfirst | hrest
      · rw [(Prod.mk.inj hfirst).2]
        exact honest_of_agree hhead.2
      · exact ih hrest
  | limiterExpired stream batch =>
    obtain ⟨b, _, heq⟩ := List.mem_map.mp hmem
    obtain ⟨_, rfl⟩ := Prod.mk.inj heq
    exact ⟨fun htrue => absurd htrue Bool.false_ne_true, fun _ => Or.inl rfl⟩
  | _ => cases hmem

/-- What is acknowledged is delivered, or went astray. -/
theorem acknowledged_length {log : List LogLine} (h : ∀ line ∈ log, line.Honest) :
    (acknowledged log).length =
      log.countP LogLine.misrouted + log.countP fun line => line.attempt.success := by
  induction log with
  | nil => rfl
  | cons line log ih =>
    have hline := h line List.mem_cons_self
    have hrest := ih fun l hl => h l (List.mem_cons_of_mem _ hl)
    rw [acknowledged] at hrest ⊢
    rw [List.countP_cons, List.countP_cons]
    cases hsuccess : line.attempt.success with
    | true =>
      obtain ⟨seq, _, hreceipt⟩ := hline.delivered hsuccess
      rw [List.filterMap_cons_some hreceipt, List.length_cons, hrest]
      simp [LogLine.misrouted, hsuccess]
      omega
    | false =>
      cases hreceipt : line.receipt with
      | none =>
        rw [List.filterMap_cons_none hreceipt, hrest]
        simp [LogLine.misrouted, hreceipt]
      | some receipt =>
        rw [List.filterMap_cons_some hreceipt, List.length_cons, hrest]
        simp [LogLine.misrouted, hsuccess, hreceipt]
        omega

theorem Failures.countP {log : List LogLine} (h : Failures log) :
    (log.countP fun line => line.attempt.success) = 0 :=
  List.countP_eq_zero.mpr fun line hline => by simp [h line hline]

/-- A record goes astray only on attempts that say so. -/
theorem misrouted_le {log : List LogLine} (h : ∀ line ∈ log, line.Honest) :
    log.countP LogLine.misrouted ≤ wrongShards (log.map LogLine.attempt) := by
  rw [wrongShards, List.countP_map]
  refine List.countP_mono_left fun line hline hmisrouted => ?_
  simp only [LogLine.misrouted, Bool.and_eq_true, Bool.not_eq_true', Option.isSome_iff_ne_none]
    at hmisrouted
  simpa using ((h line hline).refused hmisrouted.2).resolve_left hmisrouted.1

theorem wrongShards_append (attempts attempts' : List Attempt) :
    wrongShards (attempts ++ attempts') = wrongShards attempts + wrongShards attempts' :=
  List.countP_append

/-- **How often a record is acknowledged.**  In every run a finished record has a receipt for
    each time that it went to a wrong shard, and one more if it was delivered; its result
    then has the last receipt.  Each stray is an attempt that says `Wrong Shard`.  A record
    that is under way has been acknowledged only astray. -/
theorem acknowledged_once_or_misrouted (sys : System) {a : Annals LogLine}
    (h : Reachable (Annals.start sys) (Annals.step sys (logbook sys)) anyStep a) :
    (∀ k result, (k, result) ∈ a.results →
      (acknowledged (about k a.entries)).length =
          (about k a.entries).countP LogLine.misrouted + (if result.success then 1 else 0) ∧
        (about k a.entries).countP LogLine.misrouted ≤ wrongShards result.attempts ∧
        (result.success = true → ∃ seq, result.sequenceNumber = some seq ∧
          (acknowledged (about k a.entries)).getLast? =
            some { shardId := result.shardId, sequenceNumber := seq })) ∧
      (∀ stream b, a.producer.Has (stream, .waiting b) ∨ a.producer.Has (stream, .sent b) →
        (acknowledged (about (stream, b.ident) a.entries)).length =
            (about (stream, b.ident) a.entries).countP LogLine.misrouted ∧
          (about (stream, b.ident) a.entries).countP LogLine.misrouted ≤
            wrongShards b.attempts) := by
  obtain ⟨_, _, hlawful⟩ := Annals.reachable_lawful (logbook_keeps sys) h
  have hentries := Annals.reachable_entries (logLines_honest sys) h
  have hhonest : ∀ k, ∀ line ∈ about k a.entries, line.Honest := fun k line hline =>
    hentries k line (mem_about.mp hline)
  refine ⟨fun k result hmem => ?_, fun stream b hhas => ?_⟩
  · obtain ⟨_, _, hended⟩ := hlawful.recorded k result hmem
    have hended : Concluded (about k a.entries) result := hended
    have hlength := acknowledged_length (hhonest k)
    have hastray := misrouted_le (hhonest k)
    have hline := hhonest k
    revert hended hlength hastray hline
    generalize about k a.entries = log
    intro hended hlength hastray hline
    cases hended with
    | @delivered earlier last hearlier hlast =>
      obtain ⟨seq, hseq, hreceipt⟩ := (hline last (by simp)).delivered hlast
      refine ⟨?_, hastray, fun _ => ⟨seq, hseq, ?_⟩⟩
      · have hone : ((earlier ++ [last]).countP fun line => line.attempt.success) = 1 := by
          rw [List.countP_append, hearlier.countP, List.countP_singleton, hlast]
          rfl
        rw [hlength, hone]
        rfl
      · rw [acknowledged, List.filterMap_append, List.filterMap_cons_some hreceipt,
          List.filterMap_nil, List.getLast?_concat]
    | givenUp hfailures _ =>
      rw [hfailures.countP] at hlength
      exact ⟨hlength, hastray, fun htrue => absurd htrue Bool.false_ne_true⟩
    | expired now hfailures _ =>
      rw [hfailures.countP] at hlength
      refine ⟨hlength, ?_, fun htrue => absurd htrue Bool.false_ne_true⟩
      rw [wrongShards_append]
      exact hastray.trans (Nat.le_add_right _ _)
  · have hlogged : b.attempts = (about (stream, b.ident) a.entries).map LogLine.attempt ∧
        Failures (about (stream, b.ident) a.entries) := by
      rcases hhas with hwaiting | hsent
      · exact hlawful.held _ hwaiting
      · exact hlawful.held _ hsent
    have hlength := acknowledged_length (hhonest (stream, b.ident))
    rw [hlogged.2.countP] at hlength
    rw [hlogged.1]
    exact ⟨hlength, misrouted_le (hhonest (stream, b.ident))⟩

/-- A record that went astray once is acknowledged twice. -/
theorem acknowledged_once_or_misrouted_strays :
    ∃ a, Reachable (Annals.start oneStream) (Annals.step oneStream (logbook oneStream)) anyStep a ∧
      ∃ result, (("a", 0), result) ∈ a.results ∧ result.success = true ∧
        (about ("a", 0) a.entries).countP LogLine.misrouted = 1 ∧
        (acknowledged (about ("a", 0) a.entries)).length = 1 + 1 := by
  obtain ⟨a, hreach, hlog, result, hmem, hsuccess⟩ := strays_log
  have hmisrouted : (about ("a", 0) a.entries).countP LogLine.misrouted = 1 := by
    have hmap : (about ("a", 0) a.entries).countP LogLine.misrouted =
        ((about ("a", 0) a.entries).map fun line => (line.attempt.success, line.receipt)).countP
          fun e => e.2.isSome && !e.1 := by
      rw [List.countP_map]
      rfl
    rw [hmap, hlog]
    rfl
  refine ⟨a, hreach, result, hmem, hsuccess, hmisrouted, ?_⟩
  have hreceipts := ((acknowledged_once_or_misrouted oneStream hreach).1 _ _ hmem).1
  rw [hmisrouted, hsuccess] at hreceipts
  exact hreceipts

end Producer

end Aiokpl
