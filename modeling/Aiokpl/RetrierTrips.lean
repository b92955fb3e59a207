import Mathlib.Tactic
import Aiokpl.Lib.TransitionSystem
import Aiokpl.Retrier

/-!
# Trips through Sender and Retrier

One trip is `Sender.send` followed by `Retrier.handle`.  The reply has a verdict
on every user record, found in the slot at its own batch's position, and the
trip answers every verdict with one callback, in batch order, unless `int`
refuses the shard id of a slot.  Over any sequence of trips a record's attempts
only grow, and the result that ends it has one success at most, at the end.
-/

namespace Aiokpl

open Lib Aggregation

namespace Retrier

open Sender (Slot Reply)

/-! ## Verdicts and answers -/

/-- What a reply says about one user record. -/
inductive Verdict
  | accepted (shardId sequenceNumber : Option String)
  | refused (code message : String)
  deriving DecidableEq

/-- The verdict of the slot of batch `ar` on a record of it. -/
def slotVerdict (u : DigitClasses) (hashrange : ShardId → Option (Nat × Nat))
    (ar : AggregatedBatch) (slot : Slot) (buffered : BufferedRecord) : Verdict :=
  match Sender.truthy slot.sequenceNumber with
  | none => .refused (orDefault slot.errorCode "Unknown") (orDefault slot.errorMessage "")
  | some seq =>
    match ar.predictedShard, parseActualShardId u slot.shardId with
    | some predicted, .ok (some actual) =>
      if predicted = actual ∨ inRange (hashrange actual) buffered.hashKey then
        .accepted slot.shardId (some seq)
      else .refused wrongShardErrorCode wrongShardErrorMessage
    | _, _ => .accepted slot.shardId (some seq)

/-- The verdicts of slots on the records of the batches at their positions. -/
def slotVerdicts (u : DigitClasses) (env : Env) :
    Nat → List AggregatedBatch → List Slot → List (BufferedRecord × Verdict)
  | k, ar :: ars, slot :: slots =>
    ar.items.map (fun b => (b, slotVerdict u (env.hashrange k) ar slot b)) ++
      slotVerdicts u env (k + 1) ars slots
  | _, _, _ => []

/-- The user records of a batch, in order. -/
def records (batch : PutRecordsBatch) : List BufferedRecord :=
  batch.items.flatMap AggregatedBatch.items

/-- The verdicts of a reply on every record of the batch. -/
def verdicts (u : DigitClasses) (env : Env) (batch : PutRecordsBatch) :
    Reply → List (BufferedRecord × Verdict)
  | .raised exc =>
    let error := Sender.classifyRequestException exc
    (records batch).map fun b => (b, .refused error.1 error.2)
  | .response slots =>
    let returned := slots.length
    let expected := batch.count
    if returned ≠ expected then
      (records batch).map fun b => (b, .refused "RecordCountMismatch"
        s!"PutRecords returned {returned} records for a batch of {expected}")
    else slotVerdicts u env 0 batch.items slots

/-- The attempt a verdict leaves behind. -/
def Verdict.attempt (outcome : SendOutcome) : Verdict → Attempt
  | .accepted shardId sequenceNumber =>
    { startedAt := outcome.startedAt, endedAt := outcome.endedAt, success := true, shardId,
      sequenceNumber }
  | .refused code message => failedAttempt outcome code message

/-- An attempt that did not reach a shard. -/
def FailedAttempt (a : Attempt) : Prop :=
  a.success = false ∧ a.shardId = none ∧ a.sequenceNumber = none

/-- `call` answers `verdict` on `buffered`: an accepted record is finished with its
    attempt, a refused one is finished as failed or goes round again. -/
def Answers (outcome : SendOutcome) (buffered : BufferedRecord) (verdict : Verdict) :
    Call → Prop
  | .onFinish buffered' result =>
    match verdict with
    | .accepted shardId sequenceNumber =>
      buffered' =
          { buffered with attempts := buffered.attempts ++ [verdict.attempt outcome] } ∧
        result = { success := true, shardId, sequenceNumber, attempts := buffered'.attempts }
    | .refused _ _ =>
      ∃ more : List Attempt, (∀ a ∈ more, FailedAttempt a) ∧
        buffered' =
          { buffered with attempts := buffered.attempts ++ verdict.attempt outcome :: more } ∧
        result = failedResult buffered'
  | .onRetry buffered' =>
    (∃ code message, verdict = .refused code message) ∧ ∃ deadline, buffered' =
      { buffered with attempts := buffered.attempts ++ [verdict.attempt outcome], deadline }
  | .invalidate _ _ => False

/-- The calls that are about a user record. -/
def Call.isCallback : Call → Bool
  | .invalidate _ _ => false
  | _ => true

/-- The user record a call is about. -/
def Call.buffered? : Call → Option BufferedRecord
  | .onFinish buffered _ => some buffered
  | .onRetry buffered => some buffered
  | .invalidate _ _ => none

theorem Answers.buffered? {outcome : SendOutcome} {b : BufferedRecord} {v : Verdict} {call : Call}
    (h : Answers outcome b v call) : ∃ b', call.buffered? = some b' ∧ b'.ident = b.ident := by
  cases call with
  | onFinish b' result =>
    refine ⟨b', rfl, ?_⟩
    cases v with
    | accepted shardId seq => rw [h.1]
    | refused code message =>
      obtain ⟨more, _, hb, _⟩ := h
      rw [hb]
  | onRetry b' =>
    obtain ⟨_, deadline, hb⟩ := h
    exact ⟨b', rfl, by rw [hb]⟩
  | invalidate seenAt shard => exact h.elim

theorem Answers.isCallback {outcome : SendOutcome} {b : BufferedRecord} {v : Verdict} {call : Call}
    (h : Answers outcome b v call) : call.isCallback = true := by
  cases call with
  | invalidate seenAt shard => exact h.elim
  | _ => rfl

/-- The call that a loop makes for a record, and the verdict it is made on. -/
inductive Judged (cfg : Config) (outcome : SendOutcome) (b : BufferedRecord) :
    Verdict → Call → Prop
  | accepted (perRecord : PerRecordOutcome) :
      Judged cfg outcome b (.accepted perRecord.shardId perRecord.sequenceNumber)
        (finishSuccess outcome b perRecord)
  | throttled (message : String) :
      Judged cfg outcome b (.refused provisionedThroughputExceeded message)
        (fail outcome b provisionedThroughputExceeded message)
  | refused (code message : String) (now : Time) :
      Judged cfg outcome b (.refused code message)
        (retryNotExpired cfg outcome b code message now)

theorem judgeFailure_judged (cfg : Config) (outcome : SendOutcome) (b : BufferedRecord)
    (code message : String) (now : Time) :
    Judged cfg outcome b (.refused code message) (judgeFailure cfg outcome b code message now) := by
  unfold judgeFailure
  split
  · rename_i hthrottled
    rw [hthrottled.1]
    exact .throttled message
  · exact .refused code message now

/-- Whichever helper it goes to, the call answers the verdict. -/
theorem Judged.answers {cfg : Config} {outcome : SendOutcome} {b : BufferedRecord} {v : Verdict}
    {call : Call} (h : Judged cfg outcome b v call) : Answers outcome b v call := by
  cases h with
  | accepted perRecord => exact ⟨rfl, rfl⟩
  | throttled message => exact ⟨[], by simp, rfl, rfl⟩
  | refused code message now =>
    unfold retryNotExpired
    dsimp only
    split
    · refine ⟨[expiredAttempt now], by simp [FailedAttempt, expiredAttempt], ?_, rfl⟩
      simp [Verdict.attempt]
    · exact ⟨⟨code, message, rfl⟩, now + cfg.retryDeadline, rfl⟩

/-! ## The loops answer every record -/

/-- The callbacks of a call list are due to the verdicts, one each and in order. -/
def Delivers (outcome : SendOutcome) (due : List (BufferedRecord × Verdict))
    (calls : List Call) : Prop :=
  List.Forall₂ (fun bv call => Answers outcome bv.1 bv.2 call) due
    (calls.filter Call.isCallback)

/-- The callbacks of a call list are those that the loops make on the verdicts. -/
def Judges (cfg : Config) (outcome : SendOutcome) (due : List (BufferedRecord × Verdict))
    (calls : List Call) : Prop :=
  List.Forall₂ (fun bv call => Judged cfg outcome bv.1 bv.2 call) due
    (calls.filter Call.isCallback)

section Judges

variable {cfg : Config} {outcome : SendOutcome} {due due' : List (BufferedRecord × Verdict)}
  {calls calls' : List Call}

theorem Judges.delivers (h : Judges cfg outcome due calls) : Delivers outcome due calls :=
  List.Forall₂.imp (fun _ _ => Judged.answers) h

theorem Judges.append (h : Judges cfg outcome due calls) (h' : Judges cfg outcome due' calls') :
    Judges cfg outcome (due ++ due') (calls ++ calls') := by
  rw [Judges, List.filter_append]
  exact List.rel_append h h'

/-- An `invalidate` between the callbacks changes nothing for them. -/
theorem Judges.insert_invalidate {first : Call} {rest : List Call}
    (h : Judges cfg outcome due (first :: rest)) (seenAt : Time) (shard : Option ShardId) :
    Judges cfg outcome due (first :: .invalidate seenAt shard :: rest) := by
  have hsame : (first :: .invalidate seenAt shard :: rest).filter Call.isCallback =
      (first :: rest).filter Call.isCallback := by
    rw [List.filter_cons, List.filter_cons_of_neg (by simp [Call.isCallback]), ← List.filter_cons]
  rw [Judges, hsame]
  exact h

/-- Every callback is made on one of the verdicts. -/
theorem Judges.judged (h : Judges cfg outcome due calls) {call : Call} (hmem : call ∈ calls)
    (hcall : call.isCallback = true) : ∃ bv ∈ due, Judged cfg outcome bv.1 bv.2 call := by
  have hfiltered : call ∈ calls.filter Call.isCallback := List.mem_filter.mpr ⟨hmem, hcall⟩
  unfold Judges at h
  generalize calls.filter Call.isCallback = callbacks at h hfiltered
  induction h with
  | nil => simp at hfiltered
  | cons hhead _ ih =>
    rcases List.mem_cons.mp hfiltered with rfl | htail
    · exact ⟨_, List.mem_cons_self, hhead⟩
    · obtain ⟨bv, hbv, hjudged⟩ := ih htail
      exact ⟨bv, List.mem_cons_of_mem _ hbv, hjudged⟩

end Judges

/-- The callbacks are about the records of the verdicts, one each and in order. -/
theorem Delivers.idents {outcome : SendOutcome} {due : List (BufferedRecord × Verdict)}
    {calls : List Call} (h : Delivers outcome due calls) :
    (calls.filterMap Call.buffered?).map BufferedRecord.ident =
      (due.map Prod.fst).map BufferedRecord.ident := by
  have hfilter : calls.filterMap Call.buffered? =
      (calls.filter Call.isCallback).filterMap Call.buffered? := by
    rw [List.filterMap_filter]
    congr 1
    funext call
    cases call <;> rfl
  rw [hfilter]
  unfold Delivers at h
  generalize calls.filter Call.isCallback = callbacks at h
  induction h with
  | nil => rfl
  | cons hhead _ ih =>
    obtain ⟨b, hb, hident⟩ := hhead.buffered?
    simp [List.filterMap_cons_some hb, hident, ih]

/-- A loop whose body judges a record by its verdict judges all of them. -/
theorem judgeEach_judges (cfg : Config) (outcome : SendOutcome) (env : Env)
    (judge : BufferedRecord → Time → Call) (verdict : BufferedRecord → Verdict)
    (hjudge : ∀ b now, Judged cfg outcome b (verdict b) (judge b now)) :
    ∀ (n : Nat) (bs : List BufferedRecord),
      Judges cfg outcome (bs.map fun b => (b, verdict b)) (judgeEach env judge n bs)
  | _, [] => List.Forall₂.nil
  | n, b :: bs => by
    have hhead := hjudge b (env.clock n)
    rw [Judges, judgeEach, List.filter_cons_of_pos hhead.answers.isCallback]
    exact List.Forall₂.cons hhead (judgeEach_judges cfg outcome env judge verdict hjudge (n + 1) bs)

theorem finishAll_judges {cfg : Config} {outcome : SendOutcome} {perRecord : PerRecordOutcome}
    {verdict : BufferedRecord → Verdict} (bs : List BufferedRecord)
    (hverdict : ∀ b, verdict b = .accepted perRecord.shardId perRecord.sequenceNumber) :
    Judges cfg outcome (bs.map fun b => (b, verdict b))
      (bs.map (finishSuccess outcome · perRecord)) := by
  induction bs with
  | nil => exact List.Forall₂.nil
  | cons b bs ih =>
    rw [Judges, List.map_cons, List.map_cons, List.filter_cons_of_pos rfl]
    refine List.Forall₂.cons ?_ ih
    rw [hverdict]
    exact .accepted perRecord

/-- Whether `handle` can read the shard id of a slot that reports success. -/
def Readable (u : DigitClasses) (slot : Slot) : Prop :=
  Sender.truthy slot.sequenceNumber ≠ none →
    ∃ actual, parseActualShardId u slot.shardId = .ok actual

/-- A readable slot has every record of its batch judged. -/
theorem handlePerRecord_judges (u : DigitClasses) (cfg : Config) (env : Env)
    (outcome : SendOutcome) (k n : Nat) (ar : AggregatedBatch) {slot : Slot}
    (h : Readable u slot) :
    ∃ calls, handlePerRecord u cfg env outcome k n (Sender.buildPerRecord ar slot) = .ok calls ∧
      Judges cfg outcome (ar.items.map fun b => (b, slotVerdict u (env.hashrange k) ar slot b))
        calls := by
  cases hseq : Sender.truthy slot.sequenceNumber with
  | none =>
    rw [Sender.buildPerRecord_refused hseq]
    refine ⟨_, rfl, judgeEach_judges cfg outcome env _ _ (fun b now => ?_) n ar.items⟩
    simp only [slotVerdict, hseq]
    exact judgeFailure_judged cfg outcome b _ _ now
  | some seq =>
    obtain ⟨actual, hactual⟩ := h (by simp [hseq])
    rw [Sender.buildPerRecord_accepted hseq]
    simp only [handlePerRecord, if_true, handleSuccess, hactual, bind, Except.bind, pure,
      Except.pure]
    rcases hpredicted : ar.predictedShard with _ | predicted
    · exact ⟨_, rfl, finishAll_judges ar.items fun b => by
        simp only [slotVerdict, hseq, hpredicted]⟩
    rcases actual with _ | actual
    · exact ⟨_, rfl, finishAll_judges ar.items fun b => by
        simp only [slotVerdict, hseq, hpredicted, hactual]⟩
    by_cases heq : predicted = actual
    · simp only [heq, if_true]
      exact ⟨_, rfl, finishAll_judges ar.items fun b => by
        simp only [slotVerdict, hseq, hpredicted, hactual, heq, true_or, if_true]⟩
    · -- another shard than predicted: each record is judged by the actual range
      simp only [heq, if_false]
      set perRecord : PerRecordOutcome :=
        { batch := ar, success := true, shardId := slot.shardId, sequenceNumber := some seq,
          errorCode := none, errorMessage := none } with hperRecord
      have hjudges := judgeEach_judges cfg outcome env
        (judgeMismatch cfg outcome perRecord (env.hashrange k actual))
        (slotVerdict u (env.hashrange k) ar slot) (fun b now => by
          simp only [slotVerdict, hseq, hpredicted, hactual, heq, false_or, judgeMismatch]
          split
          · exact .accepted perRecord
          · exact .refused _ _ now) n ar.items
      cases hcalls : judgeEach env
          (judgeMismatch cfg outcome perRecord (env.hashrange k actual)) n ar.items with
      | nil =>
        rw [hcalls] at hjudges
        exact ⟨_, rfl, hjudges⟩
      | cons first rest =>
        rw [hcalls] at hjudges
        exact ⟨_, rfl, hjudges.insert_invalidate _ _⟩

/-- A slot that reports success with an unreadable shard id raises. -/
theorem handlePerRecord_raises {u : DigitClasses} (cfg : Config) (env : Env)
    (outcome : SendOutcome) (k n : Nat) (ar : AggregatedBatch) {slot : Slot}
    (h : ¬ Readable u slot) :
    ∃ e, handlePerRecord u cfg env outcome k n (Sender.buildPerRecord ar slot) = .error e := by
  obtain ⟨hseq, hactual⟩ := Classical.not_imp.mp h
  obtain ⟨seq, hseq⟩ := Option.ne_none_iff_exists'.mp hseq
  rw [Sender.buildPerRecord_accepted hseq]
  cases hparse : parseActualShardId u slot.shardId with
  | ok actual => exact absurd ⟨actual, hparse⟩ hactual
  | error e => exact ⟨e, by simp [handlePerRecord, handleSuccess, hparse, bind, Except.bind]⟩

/-- The loop over the slots judges by the verdicts up to the first unreadable slot. -/
theorem handleSlots_spec (u : DigitClasses) (cfg : Config) (env : Env) (outcome : SendOutcome) :
    ∀ (k n : Nat) (ars : List AggregatedBatch) (slots : List Slot),
      ars.length = slots.length → (∀ ar ∈ ars, ar.items ≠ []) →
      ∃ done rest, slotVerdicts u env k ars slots = done ++ rest ∧
        Judges cfg outcome done (handleSlots u cfg env outcome k n
          (List.zipWith Sender.buildPerRecord ars slots)).calls ∧
        (rest = [] ↔ ∀ slot ∈ slots, Readable u slot)
  | _, _, [], [], _, _ => ⟨[], [], rfl, List.Forall₂.nil, by simp⟩
  | k, n, ar :: ars, slot :: slots, hlength, hfull => by
    by_cases hread : Readable u slot
    · obtain ⟨calls, hcalls, hjudges⟩ :=
        handlePerRecord_judges u cfg env outcome k n ar hread
      obtain ⟨done, rest, hsplit, hrest, hiff⟩ := handleSlots_spec u cfg env outcome (k + 1)
        (n + (Sender.buildPerRecord ar slot).batch.items.length) ars slots
        (by simpa using hlength) fun ar' h' => hfull ar' (by simp [h'])
      refine ⟨_, rest, by rw [slotVerdicts, hsplit, ← List.append_assoc], ?_, ?_⟩
      · simp only [List.zipWith_cons_cons, handleSlots, hcalls]
        exact hjudges.append hrest
      · simp [hiff, hread]
    · obtain ⟨e, he⟩ := handlePerRecord_raises cfg env outcome k n ar hread
      refine ⟨[], _, rfl, ?_, ?_⟩
      · simp only [List.zipWith_cons_cons, handleSlots, he]
        exact List.Forall₂.nil
      · have hne : ar.items ≠ [] := hfull ar (by simp)
        simp [hne, hread]

/-- The loop raises nothing exactly when it can read every slot. -/
theorem handleSlots_raised (u : DigitClasses) (cfg : Config) (env : Env) (outcome : SendOutcome) :
    ∀ (k n : Nat) (ars : List AggregatedBatch) (slots : List Slot), ars.length = slots.length →
      ((handleSlots u cfg env outcome k n (List.zipWith Sender.buildPerRecord ars slots)).raised =
        none ↔ ∀ slot ∈ slots, Readable u slot)
  | _, _, [], [], _ => by simp [handleSlots]
  | k, n, ar :: ars, slot :: slots, hlength => by
    by_cases hread : Readable u slot
    · obtain ⟨calls, hcalls, _⟩ := handlePerRecord_judges u cfg env outcome k n ar hread
      have ih := handleSlots_raised u cfg env outcome (k + 1)
        (n + (Sender.buildPerRecord ar slot).batch.items.length) ars slots (by simpa using hlength)
      simp only [List.zipWith_cons_cons, handleSlots, hcalls, ih]
      simp [hread]
    · obtain ⟨e, he⟩ := handlePerRecord_raises cfg env outcome k n ar hread
      simp [List.zipWith_cons_cons, handleSlots, he, hread]

/-! ## Unreadable shard ids -/

/-- A slot that reports success on a shard whose number has more digits than `int`
    takes. -/
def Overlong (slot : Slot) : Prop :=
  Sender.truthy slot.sequenceNumber ≠ none ∧
    ∃ digits : List Char, slot.shardId.map String.toList = some ("shardId-".toList ++ digits) ∧
      digits.all Char.isDigit ∧ Hashing.maxStrDigits < digits.length

/-- `int` takes every string of at most 4300 ASCII digits. -/
theorem parseInt_eq_none_iff (u : DigitClasses) {digits : List Char}
    (hascii : ∀ c ∈ digits, c.toNat < 128) (hdigits : digits.all Char.isDigit) :
    Hashing.parseInt u digits = none ↔ Hashing.maxStrDigits < digits.length := by
  have hdecimal : ∀ c ∈ digits, u.decimal c ≠ none := by
    intro c hc
    rw [(u.ascii c (hascii c hc)).2, if_pos (List.all_eq_true.mp hdigits c hc)]
    simp
  rw [← not_iff_not, ← ne_eq, Hashing.parseInt_ne_none_iff, and_iff_left hdecimal, not_lt]

theorem shardId_split {s : String} {suffix : List Char}
    (hs : s.toList = "shardId-".toList ++ suffix) :
    "shardId-".toList.isPrefixOf s.toList = true ∧ s.toList.drop "shardId-".length = suffix := by
  rw [List.isPrefixOf_iff_prefix, hs]
  exact ⟨List.prefix_append _ _, List.drop_left⟩

theorem parseActualShardId_suffix (u : DigitClasses) {s : String} {suffix : List Char}
    (hs : s.toList = "shardId-".toList ++ suffix) :
    parseActualShardId u (some s) =
      if suffix = [] ∨ ¬ suffix.all u.isDigit then .ok none
      else
        match Hashing.parseInt u suffix with
        | some n => .ok (some n)
        | none => .error .refusedByInt := by
  rcases shardId_split hs with ⟨hstarts, hdrop⟩
  have hne : s ≠ "" := by
    rintro rfl
    simp at hs
  have hstart : ¬(s = "" ∨ ¬ "shardId-".toList.isPrefixOf s.toList) := by
    rintro (hempty | hnot)
    · exact hne hempty
    · exact hnot hstarts
  subst hdrop
  exact if_neg hstart

theorem parseActualShardId_not_prefix (u : DigitClasses) {s : String}
    (h : ¬ "shardId-".toList.isPrefixOf s.toList = true) :
    parseActualShardId u (some s) = .ok none := if_pos (.inr h)

theorem parseActualShardId_error_iff (u : DigitClasses) {shardId : Option String}
    (hascii : ∀ s, shardId = some s → ∀ c ∈ s.toList, c.toNat < 128) :
    (¬ ∃ actual, parseActualShardId u shardId = .ok actual) ↔
      ∃ digits : List Char, shardId.map String.toList = some ("shardId-".toList ++ digits) ∧
        digits.all Char.isDigit ∧ Hashing.maxStrDigits < digits.length := by
  cases shardId with
  | none => simp [parseActualShardId]
  | some s =>
    rw [Option.map_some]
    by_cases hstarts : "shardId-".toList.isPrefixOf s.toList = true
    · obtain ⟨suffix, hs⟩ := List.isPrefixOf_iff_prefix.mp hstarts
      have hsuffix : ∀ c ∈ suffix, c.toNat < 128 := by
        intro c hc
        apply hascii s rfl
        rw [← hs]
        exact List.mem_append_right _ hc
      have hdigits : suffix.all u.isDigit = suffix.all Char.isDigit := by
        rw [Bool.eq_iff_iff, List.all_eq_true, List.all_eq_true]
        exact forall₂_congr fun c hc => by rw [(u.ascii c (hsuffix c hc)).1]
      have honly : (∃ digits : List Char, some s.toList = some ("shardId-".toList ++ digits) ∧
            digits.all Char.isDigit ∧ Hashing.maxStrDigits < digits.length) ↔
          suffix.all Char.isDigit ∧ Hashing.maxStrDigits < suffix.length := by
        constructor
        · rintro ⟨digits, hsome, hrest⟩
          rw [← hs, Option.some.injEq] at hsome
          rw [List.append_cancel_left hsome]
          exact hrest
        · intro hrest
          exact ⟨suffix, by rw [hs], hrest⟩
      rw [honly, parseActualShardId_suffix u hs.symm, hdigits]
      by_cases hread : suffix = [] ∨ ¬ suffix.all Char.isDigit
      · rw [if_pos hread]
        rcases hread with rfl | hother
        · simp
        · simp [hother]
      · rw [if_neg hread]
        obtain ⟨_, hall⟩ := not_or.mp hread
        rw [not_not] at hall
        rw [and_iff_right hall, ← parseInt_eq_none_iff u hsuffix hall]
        cases Hashing.parseInt u suffix <;> simp
    · constructor
      · intro herror
        exact absurd ⟨none, parseActualShardId_not_prefix u hstarts⟩ herror
      · rintro ⟨digits, hsome, _⟩
        rw [Option.some.injEq] at hsome
        rw [List.isPrefixOf_iff_prefix] at hstarts
        exact absurd ⟨digits, hsome.symm⟩ hstarts

theorem not_readable_iff_overlong (u : DigitClasses) {slot : Slot}
    (hascii : ∀ s, slot.shardId = some s → ∀ c ∈ s.toList, c.toNat < 128) :
    ¬ Readable u slot ↔ Overlong slot := by
  rw [Readable, Classical.not_imp, parseActualShardId_error_iff u hascii]
  rfl

/-! ## One trip -/

/-- `Sender.send` followed by `Retrier.handle`: the outcome and what was done with it. -/
def trip (md5 : Bytes → Digest) (u : DigitClasses) (cfg : Config) (env : Env)
    (streamName : String) (startedAt endedAt : Time) (batch : PutRecordsBatch) (reply : Reply) :
    Except Sender.Error (SendOutcome × Handled) := do
  let outcome ← Sender.send md5 streamName startedAt endedAt batch reply
  return (outcome, handle u cfg env outcome)

theorem full_of_trip_ok {md5 : Bytes → Digest} {u : DigitClasses} {cfg : Config} {env : Env}
    {streamName : String} {startedAt endedAt : Time} {batch : PutRecordsBatch} {reply : Reply}
    {out : SendOutcome × Handled}
    (h : trip md5 u cfg env streamName startedAt endedAt batch reply = .ok out) :
    batch.items ≠ [] ∧ ∀ ar ∈ batch.items, ar.items ≠ [] := by
  cases hsend : Sender.send md5 streamName startedAt endedAt batch reply with
  | error e => simp [trip, hsend, bind, Except.bind] at h
  | ok outcome => exact Sender.full_of_send_ok hsend

/-- The slots that `handle` looks at. -/
def judgedSlots (batch : PutRecordsBatch) : Reply → List Slot
  | .raised _ => []
  | .response slots => if slots.length = batch.count then slots else []

/-- A trip judges by the verdicts in order, and all of them exactly when the shard id
    of every slot it looks at can be read. -/
theorem trip_spec (md5 : Bytes → Digest) (u : DigitClasses) (cfg : Config) (env : Env)
    (streamName : String) (startedAt endedAt : Time) {batch : PutRecordsBatch} (reply : Reply)
    (hne : batch.items ≠ []) (hfull : ∀ ar ∈ batch.items, ar.items ≠ []) :
    ∃ outcome handled, trip md5 u cfg env streamName startedAt endedAt batch reply =
        .ok (outcome, handled) ∧
      ∃ done rest, verdicts u env batch reply = done ++ rest ∧
        Judges cfg outcome done handled.calls ∧
        (rest = [] ↔ ∀ slot ∈ judgedSlots batch reply, Readable u slot) := by
  refine ⟨_, _, by rw [trip, Sender.send_ok md5 streamName startedAt endedAt reply hne hfull]; rfl,
    ?_⟩
  have hrequest : ∀ (outcome : SendOutcome) (code message : String),
      outcome.batchItems = batch.items → Judges cfg outcome
        ((records batch).map fun b => (b, .refused code message))
        (handleRequestError cfg env outcome code message) := by
    intro outcome code message hitems
    rw [handleRequestError, hitems]
    exact judgeEach_judges cfg outcome env _ (fun _ => .refused code message)
      (fun b now => judgeFailure_judged cfg outcome b code message now) 0 _
  cases reply with
  | raised exc =>
    refine ⟨_, [], (List.append_nil _).symm, ?_, by simp [judgedSlots]⟩
    exact hrequest _ _ _ rfl
  | response slots =>
    by_cases hcount : slots.length = batch.count
    · obtain ⟨done, rest, hsplit, hdone, hiff⟩ := handleSlots_spec u cfg env
        (Sender.outcomeOf streamName startedAt endedAt batch (.response slots)) 0 0
          batch.items slots
        hcount.symm hfull
      refine ⟨done, rest, ?_, ?_, ?_⟩
      · simpa only [verdicts, hcount, ne_eq, not_true_eq_false, if_false] using hsplit
      · simpa only [handle, Sender.outcomeOf, hcount, ne_eq, not_true_eq_false, if_false]
          using hdone
      · simpa only [judgedSlots, hcount, if_true] using hiff
    · refine ⟨_, [], (List.append_nil _).symm, ?_, by simp [judgedSlots, hcount]⟩
      simp only [verdicts, handle, Sender.outcomeOf, hcount, ne_eq, not_false_eq_true, if_true]
      exact hrequest _ _ _ rfl

/-- A trip judges the first records of its batch, in order and each by its verdict, and all
    of them unless it raises. -/
theorem trip_judges {md5 : Bytes → Digest} {u : DigitClasses} {cfg : Config} {env : Env}
    {streamName : String} {startedAt endedAt : Time} {batch : PutRecordsBatch} {reply : Reply}
    {outcome : SendOutcome} {handled : Handled}
    (h : trip md5 u cfg env streamName startedAt endedAt batch reply = .ok (outcome, handled)) :
    ∃ done rest, verdicts u env batch reply = done ++ rest ∧
      Judges cfg outcome done handled.calls ∧ (handled.raised = none → rest = []) := by
  obtain ⟨hne, hfull⟩ := full_of_trip_ok h
  obtain ⟨_, _, hok, done, rest, hsplit, hjudges, hiff⟩ :=
    trip_spec md5 u cfg env streamName startedAt endedAt reply hne hfull
  obtain ⟨rfl, rfl⟩ : outcome = _ ∧ handled = _ := by simpa using h.symm.trans hok
  refine ⟨done, rest, hsplit, hjudges, fun hraised => hiff.mpr ?_⟩
  cases reply with
  | raised exc => simp [judgedSlots]
  | response slots =>
    by_cases hcount : slots.length = batch.count
    · rw [trip, Sender.send_ok md5 streamName startedAt endedAt _ hne hfull] at h
      obtain ⟨rfl, rfl⟩ := Prod.mk.inj (Except.ok.inj h)
      simp only [handle, Sender.outcomeOf, hcount, ne_eq, not_true_eq_false, if_false] at hraised
      simpa only [judgedSlots, hcount, if_true] using
        (handleSlots_raised u cfg env _ 0 0 batch.items slots hcount.symm).mp hraised
    · simp [judgedSlots, hcount]

/-! ## The life of a record -/

/-- What a record's next trip meets. -/
structure TripInput where
  env : Env
  streamName : String
  startedAt : Time
  endedAt : Time
  batch : PutRecordsBatch
  reply : Reply

/-- A record between trips, or finished. -/
inductive Life
  | live (buffered : BufferedRecord)
  | finished (buffered : BufferedRecord) (result : RecordResult)
  deriving DecidableEq

def Life.attempts : Life → List Attempt
  | .live buffered => buffered.attempts
  | .finished buffered _ => buffered.attempts

/-- The call of a trip that is about the record `ident`. -/
def callAbout (ident : Nat) (calls : List Call) : Option Call :=
  calls.find? fun call => call.buffered?.any fun b => b.ident = ident

/-- One trip of a batch in which the record sits once. -/
def Life.step (md5 : Bytes → Digest) (u : DigitClasses) (cfg : Config) (life : Life)
    (input : TripInput) : Option Life :=
  match life with
  | .finished _ _ => none
  | .live buffered =>
    if (records input.batch).filter (fun b => b.ident = buffered.ident) = [buffered] then
      match trip md5 u cfg input.env input.streamName input.startedAt input.endedAt input.batch
          input.reply with
      | .error _ => none
      | .ok (_, handled) =>
        match callAbout buffered.ident handled.calls with
        | some (.onRetry buffered') => some (.live buffered')
        | some (.onFinish buffered' result) => some (.finished buffered' result)
        | _ => none
    else none

/-- A record that has made no trip yet. -/
def Life.fresh (life : Life) : Prop := ∃ buffered, life = .live buffered ∧ buffered.attempts = []

/-- The law of a record's history: only failures while it is under way, and in the
    end failures followed by the attempt the result reports. -/
def Life.Lawful : Life → Prop
  | .live buffered => ∀ a ∈ buffered.attempts, a.success = false
  | .finished buffered result =>
    result.attempts = buffered.attempts ∧
      ∃ earlier last, result.attempts = earlier ++ [last] ∧
        (∀ a ∈ earlier, a.success = false) ∧ last.success = result.success ∧
        last.shardId = result.shardId ∧ last.sequenceNumber = result.sequenceNumber

theorem slotVerdicts_fst (u : DigitClasses) (env : Env) :
    ∀ (k : Nat) (ars : List AggregatedBatch) (slots : List Slot), ars.length = slots.length →
      (slotVerdicts u env k ars slots).map Prod.fst = ars.flatMap AggregatedBatch.items
  | _, [], [], _ => rfl
  | k, ar :: ars, slot :: slots, hlength => by
    have ih := slotVerdicts_fst u env (k + 1) ars slots (by simpa using hlength)
    simp [slotVerdicts, ih, Function.comp_def]

/-- The verdicts are on the records of the batch, in batch order. -/
theorem verdicts_fst (u : DigitClasses) (env : Env) (batch : PutRecordsBatch) (reply : Reply) :
    (verdicts u env batch reply).map Prod.fst = records batch := by
  cases reply with
  | raised exc => simp [verdicts, Function.comp_def]
  | response slots =>
    by_cases hcount : slots.length = batch.count
    · simp only [verdicts, hcount, ne_eq, not_true_eq_false, if_false]
      exact slotVerdicts_fst u env 0 batch.items slots hcount.symm
    · simp [verdicts, hcount, Function.comp_def]

/-- Every callback of a trip answers the verdict on a record of the batch. -/
theorem trip_answers {md5 : Bytes → Digest} {u : DigitClasses} {cfg : Config} {env : Env}
    {streamName : String} {startedAt endedAt : Time} {batch : PutRecordsBatch} {reply : Reply}
    {outcome : SendOutcome} {handled : Handled} {call : Call}
    (h : trip md5 u cfg env streamName startedAt endedAt batch reply = .ok (outcome, handled))
    (hmem : call ∈ handled.calls) (hcall : call.isCallback = true) :
    ∃ b ∈ records batch, ∃ verdict, Answers outcome b verdict call := by
  obtain ⟨hne, hfull⟩ := full_of_trip_ok h
  obtain ⟨_, _, hok, done, rest, hsplit, hjudges, _⟩ :=
    trip_spec md5 u cfg env streamName startedAt endedAt reply hne hfull
  obtain ⟨rfl, rfl⟩ : outcome = _ ∧ handled = _ := by simpa using h.symm.trans hok
  obtain ⟨bv, hbv, hjudged⟩ := hjudges.judged hmem hcall
  refine ⟨bv.1, ?_, bv.2, hjudged.answers⟩
  rw [← verdicts_fst u env batch reply, hsplit]
  exact List.mem_map.mpr ⟨bv, List.mem_append_left _ hbv, rfl⟩

/-- A trip answers the verdict on the record. -/
theorem Life.step_answers {md5 : Bytes → Digest} {u : DigitClasses} {cfg : Config}
    {buffered : BufferedRecord} {life' : Life} {input : TripInput}
    (h : (Life.live buffered).step md5 u cfg input = some life') :
    ∃ outcome verdict call, Answers outcome buffered verdict call ∧
      ((∃ b, call = .onRetry b ∧ life' = .live b) ∨
        ∃ b r, call = .onFinish b r ∧ life' = .finished b r) := by
  simp only [Life.step] at h
  split at h
  · rename_i honce
    split at h
    · simp at h
    · rename_i outcome handled htrip
      cases hcall : callAbout buffered.ident handled.calls with
      | none => simp [hcall] at h
      | some call =>
        have hmem := List.mem_of_find?_eq_some hcall
        have habout := List.find?_some hcall
        have hcallback : call.isCallback = true := by
          cases call with
          | invalidate seenAt shard => simp [Call.buffered?] at habout
          | _ => rfl
        obtain ⟨b, hb, verdict, hanswers⟩ := trip_answers htrip hmem hcallback
        -- the record the verdict is on is the one this life is about
        have hb' : b = buffered := by
          obtain ⟨b', hb', hident⟩ := hanswers.buffered?
          have hident' : b'.ident = buffered.ident := by simpa [hb'] using habout
          have hfilter : b ∈ (records input.batch).filter fun b => b.ident = buffered.ident := by
            simp [hb, ← hident, hident']
          rw [honce] at hfilter
          exact List.mem_singleton.mp hfilter
        subst hb'
        refine ⟨outcome, verdict, call, hanswers, ?_⟩
        cases call with
        | onRetry b' =>
          simp only [hcall, Option.some.injEq] at h
          exact Or.inl ⟨b', rfl, h.symm⟩
        | onFinish b' r =>
          simp only [hcall, Option.some.injEq] at h
          exact Or.inr ⟨b', r, rfl, h.symm⟩
        | invalidate seenAt shard => simp [hcall] at h
  · simp at h

/-- A trip only appends attempts. -/
theorem Life.step_prefix {md5 : Bytes → Digest} {u : DigitClasses} {cfg : Config}
    {life life' : Life} {input : TripInput} (h : life.step md5 u cfg input = some life') :
    life.attempts <+: life'.attempts := by
  cases life with
  | finished b r => simp [Life.step] at h
  | live buffered =>
    obtain ⟨outcome, verdict, call, hanswers, ⟨b, rfl, rfl⟩ | ⟨b, r, rfl, rfl⟩⟩ :=
      Life.step_answers h
    · obtain ⟨_, deadline, rfl⟩ := hanswers
      exact List.prefix_append _ _
    · cases verdict with
      | accepted shardId seq =>
        rw [Life.attempts, Life.attempts, hanswers.1]
        exact List.prefix_append _ _
      | refused code message =>
        obtain ⟨more, _, rfl, _⟩ := hanswers
        exact List.prefix_append _ _

/-- A trip keeps the law of the record's history. -/
theorem Life.step_lawful {md5 : Bytes → Digest} {u : DigitClasses} {cfg : Config}
    {life life' : Life} {input : TripInput} (hlaw : life.Lawful)
    (h : life.step md5 u cfg input = some life') : life'.Lawful := by
  cases life with
  | finished b r => simp [Life.step] at h
  | live buffered =>
    have hfailures : ∀ a ∈ buffered.attempts, a.success = false := hlaw
    obtain ⟨outcome, verdict, call, hanswers, ⟨b, rfl, rfl⟩ | ⟨b, r, rfl, rfl⟩⟩ :=
      Life.step_answers h
    · obtain ⟨⟨code, message, rfl⟩, deadline, rfl⟩ := hanswers
      intro a ha
      rcases List.mem_append.mp ha with hold | hnew
      · exact hfailures a hold
      · rw [List.mem_singleton.mp hnew]
        rfl
    · cases verdict with
      | accepted shardId seq =>
        obtain ⟨rfl, rfl⟩ := hanswers
        exact ⟨rfl, buffered.attempts, _, rfl, hfailures, rfl, rfl, rfl⟩
      | refused code message =>
        obtain ⟨more, hmore, rfl, rfl⟩ := hanswers
        refine ⟨rfl, ?_⟩
        -- everything the trip appended failed, so the last attempt is a failure too
        have hall : ∀ a ∈ failedAttempt outcome code message :: more, FailedAttempt a := by
          intro a ha
          rcases List.mem_cons.mp ha with rfl | hin
          · exact ⟨rfl, rfl, rfl⟩
          · exact hmore a hin
        obtain ⟨front, last, hsplit⟩ := List.eq_nil_or_concat
          (failedAttempt outcome code message :: more) |>.resolve_left (by simp)
        have hlast := hall last (by rw [hsplit]; simp)
        refine ⟨buffered.attempts ++ front, last, ?_, ?_, hlast.1, hlast.2.1, hlast.2.2⟩
        · simp only [failedResult, Verdict.attempt]
          rw [hsplit, List.concat_eq_append, List.append_assoc]
        · intro a ha
          rcases List.mem_append.mp ha with hold | hnew
          · exact hfailures a hold
          · exact (hall a (by rw [hsplit]; simp [hnew])).1

/-! ## The law of trips -/

/-- `Records` whose shard ids are ASCII. -/
def AsciiShardIds (reply : Reply) : Prop :=
  ∀ slots, reply = .response slots → ∀ slot ∈ slots, ∀ s, slot.shardId = some s →
    ∀ c ∈ s.toList, c.toNat < 128

theorem ascii_of_all {s : String} (h : s.toList.all (fun c => decide (c.toNat < 128)) = true) :
    ∀ c ∈ s.toList, c.toNat < 128 := by
  simpa only [List.all_eq_true, decide_eq_true_eq] using h

/-- A trip delivers every verdict unless it looks at a slot with an overlong shard id. -/
theorem trip_delivers_iff (md5 : Bytes → Digest) (u : DigitClasses) (cfg : Config) (env : Env)
    (streamName : String) (startedAt endedAt : Time) {batch : PutRecordsBatch} {reply : Reply}
    (hne : batch.items ≠ []) (hfull : ∀ ar ∈ batch.items, ar.items ≠ [])
    (hascii : AsciiShardIds reply) :
    ∃ outcome handled, trip md5 u cfg env streamName startedAt endedAt batch reply =
        .ok (outcome, handled) ∧
      (Delivers outcome (verdicts u env batch reply) handled.calls ↔
        ¬ ∃ slot ∈ judgedSlots batch reply, Overlong slot) := by
  obtain ⟨outcome, handled, hok, done, rest, hsplit, hjudges, hiff⟩ :=
    trip_spec md5 u cfg env streamName startedAt endedAt reply hne hfull
  refine ⟨outcome, handled, hok, ?_⟩
  have hslots : ∀ slot ∈ judgedSlots batch reply, (Readable u slot ↔ ¬ Overlong slot) := by
    intro slot hslot
    have hslot' : ∀ s, slot.shardId = some s → ∀ c ∈ s.toList, c.toNat < 128 := by
      cases reply with
      | raised exc => simp [judgedSlots] at hslot
      | response slots =>
        simp only [judgedSlots] at hslot
        split at hslot
        · exact hascii slots rfl slot hslot
        · simp at hslot
    rw [← not_readable_iff_overlong u hslot', not_not]
  have hrest : Delivers outcome (verdicts u env batch reply) handled.calls ↔ rest = [] := by
    constructor
    · intro hall
      have h1 := hall.length_eq
      have h2 := hjudges.length_eq
      rw [hsplit, List.length_append] at h1
      exact List.length_eq_zero_iff.mp (by omega)
    · rintro rfl
      rw [hsplit, List.append_nil]
      exact hjudges.delivers
  rw [hrest, hiff]
  push Not
  exact forall₂_congr hslots

/-- **The trips of a record.**  A trip makes exactly one callback for each user
    record of the batch, in batch order and each on the verdict of its own slot, if
    and only if no slot that reports success names a shard with more digits than
    `int` takes.  Over any sequence of trips a record's attempts only grow; the
    result that ends it reports its last attempt, and all before that failed. -/
theorem trips_deliver_and_record (md5 : Bytes → Digest) (u : DigitClasses) (cfg : Config) :
    (∀ (env : Env) (streamName : String) (startedAt endedAt : Time) (batch : PutRecordsBatch)
        (reply : Reply), batch.items ≠ [] → (∀ ar ∈ batch.items, ar.items ≠ []) →
        AsciiShardIds reply →
      ∃ outcome handled, trip md5 u cfg env streamName startedAt endedAt batch reply =
          .ok (outcome, handled) ∧
        (verdicts u env batch reply).map Prod.fst = records batch ∧
        (Delivers outcome (verdicts u env batch reply) handled.calls ↔
          ¬ ∃ slot ∈ judgedSlots batch reply, Overlong slot)) ∧
      ∀ life, Reachable Life.fresh (Life.step md5 u cfg) anyStep life →
        life.Lawful ∧ ∀ input life', life.step md5 u cfg input = some life' →
          life.attempts <+: life'.attempts := by
  constructor
  · intro env streamName startedAt endedAt batch reply hne hfull hascii
    obtain ⟨outcome, handled, hok, hiff⟩ :=
      trip_delivers_iff md5 u cfg env streamName startedAt endedAt hne hfull hascii
    exact ⟨outcome, handled, hok, verdicts_fst u env batch reply, hiff⟩
  · intro life hlife
    refine ⟨hlife.invariant ?_ fun _ _ _ hlaw _ hstep => Life.step_lawful hlaw hstep,
      fun input life' hstep => Life.step_prefix hstep⟩
    rintro _ ⟨buffered, rfl, hempty⟩
    simp [Life.Lawful, hempty]

/-! ### One record, refused and then accepted -/

def zeroDigest : Bytes → Digest := fun _ => .zero

/-- A clock that stands at 1 and a map without ranges. -/
def stillEnv : Env := { clock := fun _ => 1, seenAt := fun _ => 1, hashrange := fun _ _ => none }

def loneRecord : BufferedRecord :=
  { ident := 7, userRecord := { partitionKey := "pk", data := [1] }, deadline := 1, hashKey := 5,
    arrivalTime := 0 }

/-- A batch of one batch of one record. -/
def batchOf (buffered : BufferedRecord) : PutRecordsBatch :=
  PutRecordsBatch.add {} (AggregatedBatch.add { predictedShard := some 3 } buffered)

def throttledReply : Reply := .response [{ errorCode := some provisionedThroughputExceeded }]

def acceptedReply : Reply := .response [{ sequenceNumber := some "1", shardId := some "shardId-3" }]

def throttledAttempt : Attempt :=
  { startedAt := 0, endedAt := 1, success := false,
    errorCode := some provisionedThroughputExceeded, errorMessage := some "" }

/-- The record after its first trip. -/
def throttledRecord : BufferedRecord :=
  { loneRecord with deadline := 1 + 1 / 40, attempts := [throttledAttempt] }

def tripOf (buffered : BufferedRecord) (reply : Reply) : TripInput :=
  { env := stillEnv, streamName := "s", startedAt := 0, endedAt := 1, batch := batchOf buffered,
    reply }

def acceptedAttempt : Attempt :=
  { startedAt := 0, endedAt := 1, success := true, shardId := some "shardId-3",
    sequenceNumber := some "1" }

def loneResult : RecordResult :=
  { success := true, shardId := some "shardId-3", sequenceNumber := some "1",
    attempts := [throttledAttempt, acceptedAttempt] }

theorem loneRecord_finishes :
    exec (Life.step zeroDigest .asciiOnly {}) anyStep (.live loneRecord)
        [tripOf loneRecord throttledReply, tripOf throttledRecord acceptedReply] =
      some (.finished { throttledRecord with attempts := loneResult.attempts } loneResult) := by
  decide +kernel

/-- Two records that travel together and one that travels alone. -/
def threeRecords : PutRecordsBatch :=
  PutRecordsBatch.add
    (PutRecordsBatch.add {} (AggregatedBatch.add
      (AggregatedBatch.add { predictedShard := some 3 } loneRecord) { loneRecord with ident := 8 }))
    (AggregatedBatch.add { predictedShard := some 4 } { loneRecord with ident := 9 })

/-- The pair is delivered, the third record refused. -/
def mixedReply : Reply :=
  .response [{ sequenceNumber := some "1", shardId := some "shardId-3" },
    { errorCode := some "InternalFailure" }]

theorem trips_deliver_and_record_mixed :
    (∃ outcome handled, trip zeroDigest .asciiOnly {} stillEnv "s" 0 1 threeRecords mixedReply =
          .ok (outcome, handled) ∧
        (verdicts .asciiOnly stillEnv threeRecords mixedReply).map Prod.fst =
          records threeRecords ∧
        (Delivers outcome (verdicts .asciiOnly stillEnv threeRecords mixedReply) handled.calls ↔
          ¬ ∃ slot ∈ judgedSlots threeRecords mixedReply, Overlong slot)) ∧
      (Life.finished { throttledRecord with attempts := loneResult.attempts }
        loneResult).Lawful := by
  refine ⟨(trips_deliver_and_record zeroDigest .asciiOnly {}).1 stillEnv "s" 0 1 _ _
    (by decide) (by decide) ?_, ?_⟩
  · rintro slots ⟨⟩ slot hslot s hs
    rcases List.mem_cons.mp hslot with rfl | hslot
    · obtain rfl := Option.some.inj hs
      exact ascii_of_all (by decide)
    · rw [List.mem_singleton.mp hslot] at hs
      cases hs
  · exact ((trips_deliver_and_record zeroDigest .asciiOnly {}).2 _
      (Reachable.exec (.start ⟨loneRecord, rfl, rfl⟩) loneRecord_finishes)).1

/-- A success on a shard whose number is written with 4301 digits. -/
def overlongSlot : Slot :=
  { sequenceNumber := some "1",
    shardId := some (String.ofList ("shardId-".toList ++ List.replicate 4301 '0')) }

def overlongReply : Reply := .response [overlongSlot]

theorem overlongReply_overlong :
    ∃ slot ∈ judgedSlots (batchOf loneRecord) overlongReply, Overlong slot := by
  refine ⟨overlongSlot, List.mem_singleton.mpr rfl, by decide, List.replicate 4301 '0', ?_, ?_, ?_⟩
  · simp only [overlongSlot, Option.map_some, String.toList_ofList]
  · rw [List.all_eq_true]
    intro c hc
    rw [(List.mem_replicate.mp hc).2]
    rfl
  · rw [List.length_replicate]
    decide

theorem overlongReply_ascii : AsciiShardIds overlongReply := by
  rintro slots ⟨⟩ slot hslot s hs c hc
  rw [List.mem_singleton.mp hslot] at hs
  obtain rfl := Option.some.inj hs
  rw [String.toList_ofList, List.mem_append] at hc
  rcases hc with hc | hc
  · exact ascii_of_all (s := "shardId-") (by decide) c hc
  · rw [(List.mem_replicate.mp hc).2]
    decide

/-- The one record of the batch gets no callback at all. -/
theorem overlong_shard_id_drops_callbacks :
    ∃ outcome handled, trip zeroDigest .asciiOnly {} stillEnv "s" 0 1 (batchOf loneRecord)
        overlongReply = .ok (outcome, handled) ∧
      handled.calls.filter Call.isCallback = [] ∧
      records (batchOf loneRecord) = [loneRecord] := by
  obtain ⟨outcome, handled, hok, done, rest, hsplit, hjudges, hiff⟩ :=
    trip_spec zeroDigest .asciiOnly {} stillEnv "s" 0 1 overlongReply
      (show (batchOf loneRecord).items ≠ [] by decide) (by decide)
  refine ⟨outcome, handled, hok, ?_, rfl⟩
  have hrest : rest ≠ [] := by
    obtain ⟨slot, hslot, hover⟩ := overlongReply_overlong
    intro hnil
    exact (not_readable_iff_overlong .asciiOnly (overlongReply_ascii _ rfl slot hslot)).mpr hover
      (hiff.mp hnil slot hslot)
  have hlength := congrArg List.length hsplit
  rw [← List.length_map Prod.fst, verdicts_fst, List.length_append] at hlength
  have hone : (records (batchOf loneRecord)).length = 1 := rfl
  have hpos : 0 < rest.length := List.length_pos_iff.mpr hrest
  have hdone : done = [] := List.length_eq_zero_iff.mp (by omega)
  rw [hdone] at hjudges
  simpa [Judges] using hjudges

end Retrier

end Aiokpl
