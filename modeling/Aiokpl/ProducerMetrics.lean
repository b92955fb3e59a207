import Aiokpl.ProducerLogs
import Aiokpl.ProducerPayloads
import Aiokpl.RetrierMetrics

/-!
# What a producer reports

The metrics that the Aggregator, the Sender, the Limiter and the Retrier of each stream
put while their frames run.  Over a whole run they add up to what the results tell: the
records taken in, the deliveries and their bytes, the retries, and every failed attempt
under its code.  `BufferedTime`, which is put before the frame that waits for the
Collector, and the gauge of the pending reporter are left out.

Modelling decision: the puts of the Retrier are taken with the reply it handles, those up
to the slot at which it raises, if it does.  They come ahead of the callbacks, which are
frames of their own; so a run that ends because a callback raises has puts that the code
has not made, and the main result, `metrics_tell_the_attempts`, leaves it out.
-/

namespace Aiokpl

open Lib Aggregation

namespace Producer

open Retrier.Reporting (Figure Tells Failed total named coded handedOn judgedRecords)

/-! ## What a frame reports -/

/-- The outcome that the frame gives to the Retrier. -/
def Work.outcome? (input : Input) : Work → Option SendOutcome
  | .limiterExpired stream batch => some (expiredOutcome stream input.now batch)
  | .inFlight stream startedAt batch =>
    some (Sender.outcomeOf stream startedAt input.endedAt batch input.reply)
  | _ => none

/-- What the Retrier of the stream does with the outcome. -/
def reportedOn (sys : System) (input : Input) (outcome : SendOutcome) : List Retrier.Event :=
  (Retrier.Reporting.handle (some outcome.streamName) sys.u sys.cfg.retrier input.env
    outcome).events

def receivedPut (stream : String) : Metrics.Put :=
  { name := Metrics.nameUserRecordsReceived, stream := some stream }

/-- `build_buffered` counts the record once its hash key has been read. -/
def received (sys : System) (input : Input) (call : PutCall) : List Metrics.Put :=
  match Aggregator.buildBuffered sys.md5 sys.u sys.cfg.aggregator input.now call.number
      call.userRecord with
  | .ok _ => [receivedPut call.stream]
  | .error _ => []

/-- `_emit_expired` of the Limiter and `_emit_request_time` of the Sender come first. -/
def Work.puts (sys : System) (input : Input) (s : Shared) (w : Work) : List Metrics.Put :=
  (match w with
    | .getPipeline call =>
      if (s.pipelines.get? call.stream).isSome then received sys input call else []
    | .buildPipeline call => received sys input call
    | .limiterExpired stream batch =>
      [{ name := Metrics.nameExpiredRecords, value := batch.count, stream := some stream
         shardId := batch.predictedShard.map toString }]
    | .inFlight stream startedAt _ =>
      [{ name := Metrics.nameRequestTime, value := (input.endedAt - startedAt) * 1000
         stream := some stream }]
    | _ => []) ++
  ((w.outcome? input).toList.flatMap fun outcome => Retrier.puts (reportedOn sys input outcome))

/-- The records that the frame hands on, each as it leaves the Retrier. -/
def Work.handsOn (sys : System) (input : Input) (w : Work) : List (Token × BufferedRecord) :=
  (w.outcome? input).toList.flatMap fun outcome =>
    ((Retrier.calls (reportedOn sys input outcome)).filterMap Retrier.Call.buffered?).map fun b =>
      ((outcome.streamName, b.ident), b)

section Frames

variable {sys : System} {input : Input} {w : Work} {outcome : SendOutcome}

theorem judgedRecords_outcomeOf (stream : String) (startedAt endedAt : Time)
    (batch : PutRecordsBatch) (reply : Sender.Reply) :
    judgedRecords (Sender.outcomeOf stream startedAt endedAt batch reply) =
      Retrier.records batch := by
  cases reply with
  | raised exc => rfl
  | response slots =>
    by_cases hcount : slots.length = batch.count
    · have hzip : ∀ (ars : List AggregatedBatch) (slots : List Sender.Slot),
          slots.length = ars.length →
            ((List.zipWith Sender.buildPerRecord ars slots).flatMap fun perRecord =>
              perRecord.batch.items) = ars.flatMap AggregatedBatch.items := by
        intro ars
        induction ars with
        | nil => simp
        | cons ar ars ih =>
          intro slots hslots
          cases slots with
          | nil => cases hslots
          | cons slot slots =>
            have hbatch : (Sender.buildPerRecord ar slot).batch = ar := by
              unfold Sender.buildPerRecord
              split <;> rfl
            rw [List.zipWith_cons_cons, List.flatMap_cons, List.flatMap_cons, hbatch,
              ih slots (Nat.succ.inj hslots)]
      simp only [Sender.outcomeOf, hcount, ne_eq, not_true_eq_false, if_false, judgedRecords]
      exact hzip batch.items slots hcount
    · simp only [Sender.outcomeOf, hcount, ne_eq, not_false_eq_true, if_true, judgedRecords]
      rfl

theorem streamName_outcomeOf (stream : String) (startedAt endedAt : Time) (batch : PutRecordsBatch)
    (reply : Sender.Reply) :
    (Sender.outcomeOf stream startedAt endedAt batch reply).streamName = stream := by
  unfold Sender.outcomeOf
  split
  · rfl
  · dsimp only
    split <;> rfl

/-- The frame has the records that the Retrier is given. -/
theorem tokens_of_outcome (h : w.outcome? input = some outcome) :
    w.tokens = tokensOf outcome.streamName (judgedRecords outcome) := by
  cases w with
  | limiterExpired stream batch =>
    obtain rfl := Option.some.inj h
    simp [Work.tokens, judgedRecords, expiredOutcome]
  | inFlight stream startedAt batch =>
    obtain rfl := Option.some.inj h
    rw [judgedRecords_outcomeOf, streamName_outcomeOf]
    rfl
  | _ => cases h

/-- A record that is judged is held by the frame as it is judged. -/
theorem holding_of_outcome (h : w.outcome? input = some outcome) {b : BufferedRecord}
    (hb : b ∈ judgedRecords outcome) :
    (outcome.streamName, .waiting b) ∈ w.holdings ∨ (outcome.streamName, .sent b) ∈ w.holdings := by
  cases w with
  | limiterExpired stream batch =>
    obtain rfl := Option.some.inj h
    left
    have hitems : b ∈ batch.items := by simpa [judgedRecords, expiredOutcome] using hb
    exact List.mem_map_of_mem hitems
  | inFlight stream startedAt batch =>
    obtain rfl := Option.some.inj h
    right
    rw [judgedRecords_outcomeOf] at hb
    rw [streamName_outcomeOf]
    exact List.mem_map_of_mem hb
  | _ => cases h

/-- The frame hands on its records in order, all of them if it runs to its end. -/
theorem handsOn_of_outcome (sys : System) (h : w.outcome? input = some outcome) :
    ∃ bs rest, w.tokens = tokensOf outcome.streamName (bs ++ rest) ∧
      judgedRecords outcome = bs ++ rest ∧
      Retrier.Reporting.Walks (some outcome.streamName) sys.cfg.retrier outcome bs
        (reportedOn sys input outcome) ∧
      List.Forall₂ (fun b e => e.1 = (outcome.streamName, b.ident) ∧
        e.2.userRecord = b.userRecord) bs (w.handsOn sys input) := by
  obtain ⟨bs, rest, hsplit, hwalks, _⟩ := Retrier.Reporting.handle_walks (some outcome.streamName)
    sys.u sys.cfg.retrier input.env outcome
  refine ⟨bs, rest, ?_, hsplit, hwalks, ?_⟩
  · rw [tokens_of_outcome h, hsplit]
  · rw [Work.handsOn, h, Option.toList_some, List.flatMap_singleton, List.forall₂_map_right_iff]
    refine hwalks.hands.imp ?_
    intro b b' hsame
    exact ⟨congrArg (Prod.mk outcome.streamName) hsame.1, hsame.2⟩

theorem handed_keys {stream : String} {bs : List BufferedRecord}
    {es : List (Token × BufferedRecord)}
    (h : List.Forall₂ (fun b e => e.1 = (stream, b.ident) ∧ e.2.userRecord = b.userRecord) bs es) :
    es.map Prod.fst = tokensOf stream bs := by
  induction h with
  | nil => rfl
  | cons hone _ ih => rw [List.map_cons, hone.1, ih, tokensOf, tokensOf, List.map_cons]

theorem handed_from {stream : String} {bs : List BufferedRecord}
    {es : List (Token × BufferedRecord)}
    (h : List.Forall₂ (fun b e => e.1 = (stream, b.ident) ∧ e.2.userRecord = b.userRecord) bs es)
    {e : Token × BufferedRecord} (he : e ∈ es) :
    ∃ b ∈ bs, e.1 = (stream, b.ident) ∧ e.2.userRecord = b.userRecord := by
  induction h with
  | nil => cases he
  | @cons b _ _ _ hone _ ih =>
    rcases List.mem_cons.mp he with rfl | hrest
    · exact ⟨b, List.mem_cons_self, hone⟩
    · obtain ⟨b', hb', hsame⟩ := ih hrest
      exact ⟨b', List.mem_cons_of_mem _ hb', hsame⟩

/-- Most frames hand on nothing to report. -/
theorem handsOn_silent (h : w.outcome? input = none) : w.handsOn sys input = [] := by
  rw [Work.handsOn, h]
  rfl

theorem handsOn_tokens (sys : System) (input : Input) (w : Work) :
    ((w.handsOn sys input).map Prod.fst).Sublist w.tokens := by
  cases houtcome : w.outcome? input with
  | none =>
    rw [handsOn_silent houtcome]
    exact List.nil_sublist _
  | some outcome =>
    obtain ⟨bs, rest, htokens, _, _, hhands⟩ := handsOn_of_outcome sys houtcome
    rw [handed_keys hhands, htokens, tokensOf, tokensOf, List.map_append]
    exact List.sublist_append_left _ _

end Frames

/-- What becomes of each record, trip by trip. -/
def reports (sys : System) : Diary BufferedRecord where
  entries := fun input w => w.handsOn sys input
  own := by
    intro input w k b hmem
    exact (handsOn_tokens sys input w).subset (List.mem_map_of_mem hmem)
  silent _ _ _ := rfl

/-! ## The latest word on a record -/

/-- A record that has not ended is as the Retrier left it, if it has seen it at all. -/
structure Waits (log : List BufferedRecord) (b : BufferedRecord) : Prop where
  latest : log.getLast? = some b ∨ log = [] ∧ b.attempts = []
  failed : Failed b.attempts

def Holding.Latest (log : List BufferedRecord) : Holding → Prop
  | .waiting b => Waits log b
  | .sent b => Waits log b
  | .ended b result => log.getLast? = some b ∧ result.attempts = b.attempts
  | .unjudged b => Waits log b

/-- What a call of the Retrier hands on is the latest word on the record. -/
theorem judged_latest {cfg : Retrier.Config} {outcome : SendOutcome} {b : BufferedRecord}
    {v : Retrier.Verdict} {call : Retrier.Call} {held : Holding} (hb : Failed b.attempts)
    (h : Retrier.Judged cfg outcome b v call) (hheld : callHolding call = some held)
    (log : List BufferedRecord) :
    ∃ b', call.buffered? = some b' ∧ held.ident = b'.ident ∧ held.Latest (log ++ [b']) := by
  cases h with
  | accepted perRecord =>
    obtain rfl := Option.some.inj hheld
    exact ⟨_, rfl, rfl, List.getLast?_concat, rfl⟩
  | throttled message =>
    obtain rfl := Option.some.inj hheld
    exact ⟨_, rfl, rfl, List.getLast?_concat, rfl⟩
  | refused code message now =>
    unfold Retrier.retryNotExpired at hheld ⊢
    dsimp only at hheld ⊢
    split at hheld
    · obtain rfl := Option.some.inj hheld
      rw [if_pos (by assumption)]
      exact ⟨_, rfl, rfl, List.getLast?_concat, rfl⟩
    · obtain rfl := Option.some.inj hheld
      rw [if_neg (by assumption)]
      exact ⟨_, rfl, rfl, Or.inl List.getLast?_concat, Retrier.Reporting.failed_concat hb rfl⟩

/-- A call that hands on a record is written down. -/
theorem mem_handsOn {sys : System} {input : Input} {w : Work} {outcome : SendOutcome}
    (h : w.outcome? input = some outcome) {call : Retrier.Call} {b : BufferedRecord}
    (hcall : call ∈ (Retrier.handle sys.u sys.cfg.retrier input.env outcome).calls)
    (hb : call.buffered? = some b) :
    ((outcome.streamName, b.ident), b) ∈ w.handsOn sys input := by
  have hcalls := congrArg Retrier.Handled.calls (Retrier.Reporting.handle_calls
    (some outcome.streamName) sys.cfg.retrier input.env outcome sys.u)
  rw [← hcalls] at hcall
  rw [Work.handsOn, h, Option.toList_some, List.flatMap_singleton]
  exact List.mem_map.mpr ⟨b, List.mem_filterMap.mpr ⟨call, hcall, hb⟩, rfl⟩

/-- Nothing is written of a record that the Retrier comes to no callback for. -/
theorem about_unjudged {sys : System} {input : Input} {stream : String} {startedAt : Time}
    {batch : PutRecordsBatch} {b : BufferedRecord}
    (honce : ∀ k, (Work.inFlight stream startedAt batch).tokens.count k ≤ 1)
    (hb : b ∈ unjudged batch (Retrier.handle sys.u sys.cfg.retrier input.env
      (Sender.outcomeOf stream startedAt input.endedAt batch input.reply)).calls) :
    about (stream, b.ident) ((Work.inFlight stream startedAt batch).handsOn sys input) = [] := by
  have houtcome : (Work.inFlight stream startedAt batch).outcome? input =
      some (Sender.outcomeOf stream startedAt input.endedAt batch input.reply) := rfl
  obtain ⟨bs, rest, htokens, hsplit, _, hhands⟩ := handsOn_of_outcome sys houtcome
  rw [judgedRecords_outcomeOf] at hsplit
  rw [streamName_outcomeOf] at htokens hhands
  have hcalls := congrArg Retrier.Handled.calls (Retrier.Reporting.handle_calls
    (some stream) sys.cfg.retrier input.env
    (Sender.outcomeOf stream startedAt input.endedAt batch input.reply) sys.u)
  have hlength : bs.length = ((Retrier.handle sys.u sys.cfg.retrier input.env
      (Sender.outcomeOf stream startedAt input.endedAt batch input.reply)).calls.filterMap
        Retrier.Call.buffered?).length := by
    have hsame := hhands.length_eq
    rw [← hcalls]
    simpa [Work.handsOn, Work.outcome?, reportedOn, streamName_outcomeOf] using hsame
  have hrest : b ∈ rest := by
    rwa [unjudged, ← hlength, hsplit, List.drop_left] at hb
  -- the record is among those behind the callbacks, and the frame has it once
  apply about_eq_nil
  intro b' hmem
  have hbefore : (stream, b.ident) ∈ tokensOf stream bs := by
    rw [← handed_keys hhands]
    exact List.mem_map_of_mem hmem
  have hbehind : (stream, b.ident) ∈ tokensOf stream rest := List.mem_map_of_mem hrest
  have hcount := honce (stream, b.ident)
  rw [htokens, tokensOf_append, List.count_append] at hcount
  have hpos := List.count_pos_iff.mpr hbefore
  have hpos' := List.count_pos_iff.mpr hbehind
  omega

/-- **The latest word on a record** is how it stands. -/
theorem reports_keeps (sys : System) : (reports sys).Keeps sys fun log x => x.2.Latest log := by
  intro input w x before honce hheld hfresh hfate
  have hquiet : w.outcome? input = none → about (tokenOf x) ((reports sys).entries input w) = [] :=
    fun hnone => by rw [show (reports sys).entries input w = [] from handsOn_silent hnone]; rfl
  -- a record that is judged is written down once
  have hjudge : ∀ {outcome : SendOutcome} {b : BufferedRecord} {v : Retrier.Verdict}
      {call : Retrier.Call} {held : Holding}, w.outcome? input = some outcome →
      Failed b.attempts → Retrier.Judged sys.cfg.retrier outcome b v call →
      call ∈ (Retrier.handle sys.u sys.cfg.retrier input.env outcome).calls →
      callHolding call = some held → x = (outcome.streamName, held) →
      x.2.Latest (before (tokenOf x) ++ about (tokenOf x) ((reports sys).entries input w)) := by
    rintro outcome b v call held houtcome hb hjudged hcall hholding rfl
    obtain ⟨b', hbuffered, hident, hlatest⟩ :=
      judged_latest hb hjudged hholding (before (outcome.streamName, held.ident))
    have hmem := mem_handsOn houtcome hcall hbuffered
    rw [← hident] at hmem
    have honly : ((w.handsOn sys input).map Prod.fst).count (outcome.streamName, held.ident) ≤ 1 :=
      ((handsOn_tokens sys input w).count_le _).trans (honce _)
    have hone : about (outcome.streamName, held.ident) ((reports sys).entries input w) = [b'] :=
      about_eq_singleton hmem honly
    rw [show tokenOf (outcome.streamName, held) = (outcome.streamName, held.ident) from rfl, hone]
    exact hlatest
  cases hfate with
  | same hw hmem =>
    have hnone : w.outcome? input = none := by
      cases w with
      | limiterExpired | inFlight => cases hw
      | _ => rfl
    rw [hquiet hnone, List.append_nil]
    exact hheld x hmem
  | @built _ call buffered hcall hbuild =>
    have hnone : w.outcome? input = none := by
      cases w with
      | limiterExpired | inFlight => cases hcall
      | _ => rfl
    have htoken : tokenOf (call.stream, .waiting buffered) = (call.stream, call.number) := by
      rw [← ident_buildBuffered hbuild]
      rfl
    have hattempts := attempts_buildBuffered hbuild
    rw [hquiet hnone, htoken, hfresh call hcall]
    refine ⟨Or.inr ⟨rfl, hattempts⟩, ?_⟩
    rw [hattempts]
    intro a ha
    cases ha
  | @sent stream batch b hb =>
    have hwaiting := hheld (stream, .waiting b) (List.mem_map_of_mem hb)
    rw [hquiet rfl, List.append_nil]
    exact hwaiting
  | @expired stream batch b call held hb hjudged hcall hholding =>
    have hwaits : Waits (before (stream, b.ident)) b :=
      hheld (stream, .waiting b) (List.mem_map_of_mem hb)
    exact hjudge rfl hwaits.failed hjudged hcall hholding rfl
  | @answered stream startedAt batch b v call held hbv hjudged hcall hholding =>
    have hb : b ∈ Retrier.records batch := by
      rw [← Retrier.verdicts_fst sys.u input.env batch input.reply]
      exact List.mem_map_of_mem hbv
    have hwaits : Waits (before (stream, b.ident)) b :=
      hheld (stream, .sent b) (List.mem_map_of_mem hb)
    apply hjudge rfl hwaits.failed hjudged hcall hholding
    rw [streamName_outcomeOf]
  | @unjudged stream startedAt batch b hb =>
    have hwaits : Waits (before (stream, b.ident)) b :=
      hheld (stream, .sent b) (List.mem_map_of_mem (List.mem_of_mem_drop hb))
    have hnone : about (stream, b.ident)
        ((reports sys).entries input (.inFlight stream startedAt batch)) = [] :=
      about_unjudged honce hb
    rw [show tokenOf (stream, Holding.unjudged b) = (stream, b.ident) from rfl, hnone,
      List.append_nil]
    exact hwaits

/-! ## Sums over the records -/

/-- The figure of a record by the latest word on it. -/
def figureAt (figure : Figure) (log : List BufferedRecord) : ℚ :=
  (log.getLast?.map fun b => figure b.userRecord b.attempts).getD 0

theorem figureAt_concat (figure : Figure) (log : List BufferedRecord) (b : BufferedRecord) :
    figureAt figure (log ++ [b]) = figure b.userRecord b.attempts := by
  rw [figureAt, List.getLast?_concat]
  rfl

/-- The figure of a record that waits is that of its attempts. -/
theorem Waits.figureAt {log : List BufferedRecord} {b : BufferedRecord} (h : Waits log b)
    {figure : Figure} (hfresh : ∀ r, figure r [] = 0) :
    figureAt figure log = figure b.userRecord b.attempts := by
  rcases h.latest with hlast | ⟨rfl, hnone⟩
  · rw [Producer.figureAt, hlast]
    rfl
  · rw [hnone, hfresh]
    rfl

/-- A sum over distinct keys, one of which has changed. -/
theorem sum_change {k : Token} (f g : Token → ℚ) (hsame : ∀ k', k' ≠ k → g k' = f k') :
    ∀ {ks : List Token}, ks.Nodup → k ∈ ks → (ks.map g).sum + f k = (ks.map f).sum + g k
  | k' :: ks, hnodup, hk => by
    obtain ⟨hfirst, hrest⟩ := List.nodup_cons.mp hnodup
    rw [List.map_cons, List.map_cons, List.sum_cons, List.sum_cons]
    rcases List.mem_cons.mp hk with rfl | hmem
    · have hothers : ks.map g = ks.map f := List.map_congr_left fun k' hk' =>
        hsame k' fun heq => hfirst (heq ▸ hk')
      rw [hothers]
      ring
    · have hhead := hsame k' fun heq => hfirst (heq ▸ hmem)
      have htail := sum_change f g hsame hrest hmem
      rw [hhead]
      linarith

/-- **What is written of some records** changes their figures, and no others. -/
theorem sum_written (figureOn : String → Figure) {ks : List Token} (hks : ks.Nodup) :
    ∀ (entries es : List (Token × BufferedRecord)), (∀ e ∈ es, e.1 ∈ ks) →
      (es.map Prod.fst).Nodup →
      (ks.map fun k => figureAt (figureOn k.1) (about k (entries ++ es))).sum +
          (es.map fun e => figureAt (figureOn e.1.1) (about e.1 entries)).sum =
        (ks.map fun k => figureAt (figureOn k.1) (about k entries)).sum +
          (es.map fun e => figureOn e.1.1 e.2.userRecord e.2.attempts).sum
  | entries, [], _, _ => by simp
  | entries, (k, b) :: es, hin, hnodup => by
    obtain ⟨hfirst, hrest⟩ := List.nodup_cons.mp hnodup
    have hother : ∀ k', k' ≠ k → about k' [(k, b)] = [] := by
      intro k' hne
      apply about_eq_nil
      intro e hmem
      exact hne (Prod.mk.inj (List.mem_singleton.mp hmem)).1
    have hone : about k [(k, b)] = [b] := by simp [about]
    have hhead : (ks.map fun k' => figureAt (figureOn k'.1) (about k' (entries ++ [(k, b)]))).sum +
          figureAt (figureOn k.1) (about k entries) =
        (ks.map fun k' => figureAt (figureOn k'.1) (about k' entries)).sum +
          figureAt (figureOn k.1) (about k (entries ++ [(k, b)])) := by
      refine sum_change (fun k' => figureAt (figureOn k'.1) (about k' entries))
        (fun k' => figureAt (figureOn k'.1) (about k' (entries ++ [(k, b)]))) ?_ hks
        (hin (k, b) List.mem_cons_self)
      intro k' hne
      rw [about_append, hother k' hne, List.append_nil]
    have hlast : about k (entries ++ [(k, b)]) = about k entries ++ [b] := by
      rw [about_append, hone]
    have htail := sum_written figureOn hks (entries ++ [(k, b)]) es
      (fun e he => hin e (List.mem_cons_of_mem _ he)) hrest
    have hsame : (es.map fun e => figureAt (figureOn e.1.1) (about e.1 (entries ++ [(k, b)]))) =
        es.map fun e => figureAt (figureOn e.1.1) (about e.1 entries) := by
      apply List.map_congr_left
      intro e he
      have hne : e.1 ≠ k := fun heq => hfirst (List.mem_map.mpr ⟨e, he, heq⟩)
      rw [about_append, hother e.1 hne, List.append_nil]
    rw [List.append_assoc, List.singleton_append, hsame] at htail
    rw [hlast, figureAt_concat] at hhead
    rw [List.map_cons, List.map_cons, List.sum_cons, List.sum_cons]
    linarith

/-! ## What a run puts -/

/-- The record that a frame registers. -/
def Work.accepts (s : Shared) : Work → List Token
  | .getPipeline call =>
    if (s.pipelines.get? call.stream).isSome then [(call.stream, call.number)] else []
  | .buildPipeline call => [(call.stream, call.number)]
  | _ => []

/-- A producer with what its frames put.  A frame that raises puts nothing. -/
structure Metered where
  annals : Annals BufferedRecord
  emitted : List Metrics.Put := []

def Metered.step (sys : System) (m : Metered) (op : Op) : Option Metered :=
  (m.annals.step sys (reports sys) op).map fun annals =>
    { annals
      emitted := m.emitted ++ (m.annals.producer.ran sys op).toList.flatMap fun ran =>
        ran.2.puts sys ran.1 m.annals.producer.shared }

def Metered.start (sys : System) (m : Metered) : Prop :=
  Annals.start sys m.annals ∧ m.emitted = []

section Accepts

variable {sys : System} {input : Input} {id : Nat} {s s' : Shared} {w : Work} {push : List Work}
  {spawn : Option Task}

/-- A record that is registered has been received. -/
theorem received_of_submit {call : PutCall} {p : Pipeline}
    (h : submit sys input call p s = .next s' push spawn) :
    received sys input call = [receivedPut call.stream] ∧
      s'.accepted = s.accepted ++ [(call.stream, call.number)] := by
  unfold submit at h
  unfold received
  split at h
  · cases h
  · rename_i buffered hbuild
    obtain ⟨rfl, _, _⟩ := (Ran.next.injEq ..).mp h
    rw [hbuild]
    exact ⟨rfl, rfl⟩

/-- What a frame of no call puts before the Retrier does is not measured. -/
theorem puts_settled {measure : Metrics.Put → ℚ}
    (hothers : ∀ p : Metrics.Put, p.name = Metrics.nameExpiredRecords ∨
      p.name = Metrics.nameRequestTime → measure p = 0) (hw : w.call? = none) :
    total measure (w.puts sys input s) = total measure ((w.outcome? input).toList.flatMap
      fun outcome => Retrier.puts (reportedOn sys input outcome)) := by
  have hone : ∀ p : Metrics.Put, p.name = Metrics.nameExpiredRecords ∨
      p.name = Metrics.nameRequestTime → total measure [p] = 0 := by
    intro p hp
    rw [total, List.map_singleton, List.sum_singleton, hothers p hp]
  cases w with
  | getPipeline | buildPipeline => cases hw
  | limiterExpired stream batch =>
    rw [Work.puts, Retrier.Reporting.total_append, hone _ (Or.inl rfl), zero_add]
  | inFlight stream startedAt batch =>
    rw [Work.puts, Retrier.Reporting.total_append, hone _ (Or.inr rfl), zero_add]
  | _ => rfl

/-- **What a frame registers** is what it reports as received. -/
theorem exec_accepts (hbuild : ∀ call, w = .buildPipeline call →
    s.pipelines.get? call.stream = none)
    (h : exec sys input id s w = some (.next s' push spawn)) {measure : Metrics.Put → ℚ}
    (hothers : ∀ p : Metrics.Put, p.name = Metrics.nameExpiredRecords ∨
      p.name = Metrics.nameRequestTime → measure p = 0) :
    s'.accepted = s.accepted ++ w.accepts s ∧
      total measure (w.puts sys input s) =
        total measure ((w.accepts s).map fun k => receivedPut k.1) +
          total measure ((w.outcome? input).toList.flatMap fun outcome =>
            Retrier.puts (reportedOn sys input outcome)) := by
  cases hcall : w.call? with
  | none =>
    have haccepts : w.accepts s = [] := by
      cases w with
      | getPipeline | buildPipeline => cases hcall
      | _ => rfl
    have hsame : s'.accepted = s.accepted := by
      cases exec_next hbuild h with
      | moved _ hstages => exact congrArg Books.accepted hstages.books
      | finished hfinishing => exact congrArg Books.accepted hfinishing.books
      | acquired | resumed | building => cases hcall
      | accepted _ hsome => rw [hcall] at hsome; cases hsome
    rw [haccepts, List.append_nil, puts_settled hothers hcall]
    exact ⟨hsame, (zero_add _).symm⟩
  | some call =>
    cases exec_runs h with
    | acquire | resume => exact ⟨(List.append_nil _).symm, (zero_add _).symm⟩
    | building call' _ hnone =>
      have haccepts : (Work.getPipeline call').accepts s = [] := by simp [Work.accepts, hnone]
      rw [haccepts, List.append_nil]
      refine ⟨rfl, ?_⟩
      simp [Work.puts, hnone, Work.outcome?, total]
    | @getPipeline call' _ _ _ _ _ hp hsubmit =>
      obtain ⟨hreceived, haccepted⟩ := received_of_submit hsubmit
      have haccepts : (Work.getPipeline call').accepts s = [(call'.stream, call'.number)] := by
        simp [Work.accepts, hp]
      rw [haccepts]
      refine ⟨haccepted, ?_⟩
      simp [Work.puts, hp, hreceived, Work.outcome?, total]
    | @buildPipeline call' _ _ _ hsubmit =>
      obtain ⟨hreceived, haccepted⟩ := received_of_submit hsubmit
      refine ⟨haccepted, ?_⟩
      simp [Work.puts, hreceived, Work.accepts, Work.outcome?, total]
    | _ => cases hcall

/-- What a step registers. -/
theorem step_accepts {s s' : State} {op : Op} (hs : Sound s) (hstep : s.step sys op = some s')
    (hran : s.ran sys op = some (input, w)) {measure : Metrics.Put → ℚ}
    (hothers : ∀ p : Metrics.Put, p.name = Metrics.nameExpiredRecords ∨
      p.name = Metrics.nameRequestTime → measure p = 0) :
    s'.shared.accepted = s.shared.accepted ++ w.accepts s.shared ∧
      total measure (w.puts sys input s.shared) =
        total measure ((w.accepts s.shared).map fun k => receivedPut k.1) +
          total measure ((w.outcome? input).toList.flatMap fun outcome =>
            Retrier.puts (reportedOn sys input outcome)) := by
  cases (step_turn hstep).2 with
  | @ran id input' kind w' rest push shared spawn hfound _ hexec =>
    rw [ran_next hfound hexec] at hran
    obtain ⟨rfl, rfl⟩ := Prod.mk.inj (Option.some.inj hran)
    obtain ⟨haccepted, hputs⟩ :=
      exec_accepts (fun _ hw => (hs.building hfound hw).2) hexec hothers
    have hbooks := congrArg Books.accepted
      (goOn_accounts sys id kind (push ++ rest) { s with shared }).1
    simp only [Shared.books] at hbooks
    rw [shared_spawn, hbooks]
    exact ⟨haccepted, hputs⟩
  | raised hfound _ hexec =>
    rw [ran_raises hfound hexec] at hran
    cases hran
  | _ => cases hran

/-- A step that runs no frame to its end registers nothing. -/
theorem step_accepts_none {s s' : State} {op : Op} (hs : Sound s)
    (hstep : s.step sys op = some s') (hran : s.ran sys op = none) :
    s'.shared.accepted = s.shared.accepted := by
  cases (step_turn hstep).2 with
  | ran hfound _ hexec =>
    rw [ran_next hfound hexec] at hran
    cases hran
  | @raised id input kind w rest left shared hfound _ hexec =>
    have hraised := exec_raises (fun _ hw => (hs.building hfound hw).2) hexec
    exact (fail_calls id kind (w :: rest) (left ++ rest) { s with shared }).1.trans
      (congrArg Books.accepted hraised.books)
  | reducerTimer =>
    rw [shared_spawn]
    rfl
  | collectorTimer _ _ _ _ hbatch =>
    obtain ⟨rfl, _⟩ := collectorBatch_next hbatch
    rw [shared_spawn]
    rfl
  | answered => rw [resolve_eq]
  | @cancelled id kind w rest => exact (fail_calls id kind (w :: rest) (w :: rest) s).1
  | overrun _ _ _ _ hbatch =>
    obtain ⟨rfl, _⟩ := collectorBatch_raises hbatch
    rfl
  | refused | entered | flushes | exits | stopped => rfl

end Accepts

/-! ## The measures and the figures -/

/-- A measure that tells a figure of the records of each stream. -/
structure Measures (measure : Metrics.Put → ℚ) (figureOn : String → Figure) : Prop where
  tells : ∀ stream, Tells (some stream) measure (figureOn stream)
  others : ∀ p : Metrics.Put, p.name = Metrics.nameExpiredRecords ∨
    p.name = Metrics.nameRequestTime → measure p = 0

/-- What was put is one put for each record that was registered, and what these records
    have come to. -/
def Metered.Balanced (measure : Metrics.Put → ℚ) (figureOn : String → Figure)
    (m : Metered) : Prop :=
  total measure m.emitted =
    total measure (m.annals.producer.shared.accepted.map fun k => receivedPut k.1) +
      (m.annals.producer.shared.accepted.map fun k =>
        figureAt (figureOn k.1) (about k m.annals.entries)).sum

section Balance

variable {sys : System} {measure : Metrics.Put → ℚ} {figureOn : String → Figure} {input : Input}
  {w : Work}

theorem figures_before {stream : String} {before : Token × BufferedRecord → ℚ}
    {figure : BufferedRecord → ℚ} {bs : List BufferedRecord} {es : List (Token × BufferedRecord)}
    (h : List.Forall₂ (fun b e => e.1 = (stream, b.ident) ∧ e.2.userRecord = b.userRecord) bs es)
    (hsame : ∀ b ∈ bs, ∀ e, e.1 = (stream, b.ident) → before e = figure b) :
    es.map before = bs.map figure := by
  induction h with
  | nil => rfl
  | @cons b e bs es hone _ ih =>
    rw [List.map_cons, List.map_cons, hsame b List.mem_cons_self e hone.1,
      ih fun b hb => hsame b (List.mem_cons_of_mem _ hb)]

theorem sum_handedOn (figure : Figure) (calls : List Retrier.Call) :
    (calls.map (handedOn figure)).sum = ((calls.filterMap Retrier.Call.buffered?).map fun b =>
      figure b.userRecord b.attempts).sum := by
  induction calls with
  | nil => rfl
  | cons call calls ih =>
    rw [List.map_cons, List.sum_cons, ih, handedOn]
    cases call with
    | invalidate => exact zero_add _
    | _ => rfl

/-- What the Retrier puts on an outcome is by how much the figures of the records grow
    that it hands on. -/
theorem outcome_balanced (sys : System) (input : Input) (hmeasures : Measures measure figureOn)
    {entries : List (Token × BufferedRecord)}
    (hlatest : ∀ y ∈ w.holdings, y.2.Latest (about (tokenOf y) entries)) :
    ((w.handsOn sys input).map fun e => figureAt (figureOn e.1.1) (about e.1 entries)).sum +
        total measure ((w.outcome? input).toList.flatMap fun outcome =>
          Retrier.puts (reportedOn sys input outcome)) =
      ((w.handsOn sys input).map fun e => figureOn e.1.1 e.2.userRecord e.2.attempts).sum := by
  cases houtcome : w.outcome? input with
  | none =>
    rw [handsOn_silent houtcome]
    simp [total]
  | some outcome =>
    obtain ⟨bs, rest, _, hsplit, hwalks, hhands⟩ := handsOn_of_outcome sys houtcome
    have htells := hmeasures.tells outcome.streamName
    have hwaits : ∀ b ∈ bs, Waits (about (outcome.streamName, b.ident) entries) b := by
      intro b hb
      have hjudged : b ∈ judgedRecords outcome := by
        rw [hsplit]
        exact List.mem_append_left _ hb
      rcases holding_of_outcome houtcome hjudged with hwaiting | hsent
      · exact hlatest _ hwaiting
      · exact hlatest _ hsent
    have hbalanced :=
      hwalks.balanced sys.cfg.retrier outcome htells fun b hb => (hwaits b hb).failed
    have hbefore : ((w.handsOn sys input).map fun e => figureAt (figureOn e.1.1)
        (about e.1 entries)) =
        bs.map fun b => figureOn outcome.streamName b.userRecord b.attempts :=
      figures_before hhands fun b hb e he => by
        rw [he]
        exact (hwaits b hb).figureAt htells.fresh
    have hafter : ((w.handsOn sys input).map fun e =>
        figureOn e.1.1 e.2.userRecord e.2.attempts).sum =
          ((Retrier.calls (reportedOn sys input outcome)).map
            (handedOn (figureOn outcome.streamName))).sum := by
      rw [sum_handedOn, Work.handsOn, houtcome, Option.toList_some, List.flatMap_singleton,
        List.map_map]
      rfl
    rw [Option.toList_some, List.flatMap_singleton, hbefore, hafter]
    exact hbalanced

/-- A frame adds to what was put as much as to the figures of its records. -/
theorem Metered.Balanced.ran (hmeasures : Measures measure figureOn) {m : Metered}
    (h : m.Balanced measure figureOn) (hs : Sound m.annals.producer)
    (hledger : Ledger sys.cfg.maxOutstandingRecords m.annals.producer)
    (hlawful : m.annals.Lawful fun log x => x.2.Latest log) {op : Op} {producer : State}
    (hstep : m.annals.producer.step sys op = some producer)
    (hran : m.annals.producer.ran sys op = some (input, w)) (submitted : List PutCall) :
    Metered.Balanced measure figureOn
      { annals := { m.annals.note (reports sys) input w with producer, submitted }
        emitted := m.emitted ++ w.puts sys input m.annals.producer.shared } := by
  obtain ⟨id, kind, rest, hfound⟩ := ran_eq_some hran
  obtain ⟨haccepted, hputs⟩ := step_accepts hs hstep hran hmeasures.others
  have hhas : ∀ y ∈ w.holdings, m.annals.producer.Has y := fun y hy =>
    Or.inr ⟨id, _, hfound, List.mem_append_left _ hy⟩
  have houtcome := outcome_balanced sys input hmeasures fun y hy =>
    hlawful.held y (hhas y hy)
  -- the records that the frame hands on were registered, and are distinct
  have htokens := handsOn_tokens sys input w
  have hlive : ∀ e ∈ w.handsOn sys input, e.1 ∈ m.annals.producer.shared.accepted := by
    intro e he
    have hmem := htokens.subset (List.mem_map_of_mem he)
    rw [w.tokens_eq] at hmem
    obtain ⟨y, hy, heq⟩ := List.mem_map.mp hmem
    rw [← heq]
    exact (hledger.live_of_has hs (hhas y hy)).1
  have hdistinct : ((w.handsOn sys input).map Prod.fst).Nodup :=
    (List.nodup_iff_count_le_one.mpr (hledger.count_tokens hs hfound)).sublist htokens
  have hnodup : m.annals.producer.shared.accepted.Nodup := hs.accepted.of_map
  have hwritten :=
    sum_written figureOn hnodup m.annals.entries (w.handsOn sys input) hlive hdistinct
  -- nothing is written of a record that is registered now
  have hnew : ((w.accepts m.annals.producer.shared).map fun k => figureAt (figureOn k.1)
      (about k (m.annals.entries ++ w.handsOn sys input))).sum = 0 := by
    apply List.sum_eq_zero
    intro x hx
    obtain ⟨k, hk, rfl⟩ := List.mem_map.mp hx
    have hafter : producer.shared.accepted.Nodup := (hs.step hstep).accepted.of_map
    rw [haccepted] at hafter
    have hfresh := (List.nodup_append'.mp hafter).2.2
    have hnone : about k (m.annals.entries ++ w.handsOn sys input) = [] := by
      apply about_eq_nil
      intro b hmem
      rcases List.mem_append.mp hmem with hold | hnow
      · exact hfresh (hlawful.known k b hold) hk
      · exact hfresh (hlive (k, b) hnow) hk
    rw [hnone]
    rfl
  have hbefore : total measure m.emitted = _ := h
  unfold Metered.Balanced
  dsimp only [Annals.note]
  rw [Retrier.Reporting.total_append, hputs, hbefore, haccepted, List.map_append,
    Retrier.Reporting.total_append, List.map_append, List.sum_append,
    show (reports sys).entries input w = w.handsOn sys input from rfl, hnew]
  linarith

/-- **The books balance** in every run. -/
theorem Metered.reachable_balanced (hmeasures : Measures measure figureOn) {m : Metered}
    (h : Reachable (Metered.start sys) (Metered.step sys) anyStep m) :
    Reachable (Annals.start sys) (Annals.step sys (reports sys)) anyStep m.annals ∧
      m.Balanced measure figureOn := by
  have hstart : ∀ m : Metered, Metered.start sys m →
      Reachable (Annals.start sys) (Annals.step sys (reports sys)) anyStep m.annals ∧
        m.Balanced measure figureOn := by
    rintro ⟨annals, emitted⟩ ⟨hannals, hnone⟩
    refine ⟨.start hannals, ?_⟩
    obtain rfl : annals = _ := hannals
    obtain rfl : emitted = [] := hnone
    simp [Metered.Balanced, total]
  refine h.invariant hstart fun m op m' hinv _ hstep => ?_
  obtain ⟨hreach, hbalanced⟩ := hinv
  obtain ⟨annals, hannals, rfl⟩ := Option.map_eq_some_iff.mp hstep
  refine ⟨hreach.next trivial hannals, ?_⟩
  obtain ⟨hs, hledger, hlawful⟩ := Annals.reachable_lawful (reports_keeps sys) hreach
  obtain ⟨producer, hproducer, ⟨hran, rfl⟩ | ⟨input, w, hran, rfl⟩⟩ := Annals.step_cases hannals
  · have haccepted := step_accepts_none hs hproducer hran
    have hbefore : total measure m.emitted = _ := hbalanced
    unfold Metered.Balanced
    rw [hran, Option.toList_none, List.flatMap_nil, List.append_nil, hbefore]
    dsimp only
    rw [haccepted]
  · rw [hran, Option.toList_some, List.flatMap_singleton]
    exact hbalanced.ran hmeasures hs hledger hlawful hproducer hran _

/-- What a record is written about is what its call has put. -/
theorem Annals.reachable_written {a : Annals BufferedRecord}
    (h : Reachable (Annals.start sys) (Annals.step sys (reports sys)) anyStep a) :
    ∀ k b, (k, b) ∈ a.entries → ∃ call ∈ a.submitted, k = (call.stream, call.number) ∧
      b.userRecord = call.userRecord := by
  have hstart : ∀ a : Annals BufferedRecord, Annals.start sys a →
      Reachable (Annals.start sys) (Annals.step sys (reports sys)) anyStep a ∧
        ∀ k b, (k, b) ∈ a.entries → ∃ call ∈ a.submitted, k = (call.stream, call.number) ∧
          b.userRecord = call.userRecord := by
    rintro _ rfl
    refine ⟨.start rfl, ?_⟩
    intro k b hmem
    cases hmem
  refine (h.invariant hstart fun a op a' hinv _ hstep => ?_).2
  obtain ⟨hreach, hwritten⟩ := hinv
  refine ⟨hreach.next trivial hstep, ?_⟩
  obtain ⟨_, hfaithful⟩ := Annals.reachable_faithful hreach
  have hold : ∀ k b, (k, b) ∈ a.entries → ∃ call ∈ a.submitted ++ a.producer.submits op,
      k = (call.stream, call.number) ∧ b.userRecord = call.userRecord := by
    intro k b hmem
    obtain ⟨call, hcall, hsame⟩ := hwritten k b hmem
    exact ⟨call, List.mem_append_left _ hcall, hsame⟩
  obtain ⟨producer, hproducer, ⟨_, rfl⟩ | ⟨input, w, hran, rfl⟩⟩ := Annals.step_cases hstep
  · exact hold
  · intro k b hmem
    rcases List.mem_append.mp hmem with hbefore | hnew
    · exact hold k b hbefore
    · cases houtcome : w.outcome? input with
      | none =>
        have hnone : (reports sys).entries input w = [] := handsOn_silent houtcome
        rw [hnone] at hnew
        cases hnew
      | some outcome =>
        obtain ⟨id, kind, rest, hfound⟩ := ran_eq_some hran
        obtain ⟨bs, _, _, hsplit, _, hhands⟩ := handsOn_of_outcome sys houtcome
        obtain ⟨b', hb', hkey, hrecord⟩ := handed_from hhands hnew
        have hjudged : b' ∈ judgedRecords outcome := by
          rw [hsplit]
          exact List.mem_append_left _ hb'
        have hmade : ∃ call ∈ a.submitted, call.stream = outcome.streamName ∧ Made sys call b' := by
          have hhas : ∀ y ∈ w.holdings, a.producer.Has y := fun y hy =>
            Or.inr ⟨id, _, hfound, List.mem_append_left _ hy⟩
          rcases holding_of_outcome houtcome hjudged with hwaiting | hsent
          · exact hfaithful.held _ (hhas _ hwaiting)
          · exact hfaithful.held _ (hhas _ hsent)
        obtain ⟨call, hcall, hstream, hmade⟩ := hmade
        have hcalled : (outcome.streamName, b'.ident) = (call.stream, call.number) := by
          rw [hstream, hmade.ident]
        exact ⟨call, List.mem_append_left _ hcall, hkey.trans hcalled,
          hrecord.trans hmade.userRecord⟩

end Balance

/-! ## The metrics -/

def onStream (stream : String) (figure : Figure) (stream' : String) : Figure :=
  if stream' = stream then figure else fun _ _ => 0

/-- The sum of a figure over the records of a stream, by the latest word on each. -/
def Annals.sumOf (a : Annals BufferedRecord) (stream : String) (figure : Figure) : ℚ :=
  ((a.producer.shared.accepted.filter fun k => k.1 = stream).map fun k =>
    figureAt figure (about k a.entries)).sum

theorem measures_onStream {measure : Metrics.Put → ℚ} {stream : String} {figure : Figure}
    (htells : Tells (some stream) measure figure)
    (hstream : ∀ p : Metrics.Put, p.stream ≠ some stream → measure p = 0)
    (hothers : ∀ p : Metrics.Put, p.name = Metrics.nameExpiredRecords ∨
      p.name = Metrics.nameRequestTime → measure p = 0) :
    Measures measure (onStream stream figure) where
  tells stream' := by
    unfold onStream
    split
    · rename_i heq
      rw [heq]
      exact htells
    · rename_i hne
      apply Retrier.Reporting.tells_other
      intro p hp
      apply hstream p
      rw [hp]
      exact fun heq => hne (Option.some.inj heq)
  others := hothers

theorem sum_onStream (stream : String) (figure : Figure) (log : Token → List BufferedRecord)
    (ks : List Token) :
    (ks.map fun k => figureAt (onStream stream figure k.1) (log k)).sum =
      ((ks.filter fun k => k.1 = stream).map fun k => figureAt figure (log k)).sum := by
  induction ks with
  | nil => rfl
  | cons k ks ih =>
    rw [List.map_cons, List.sum_cons, ih, List.filter_cons]
    by_cases hk : k.1 = stream
    · simp [hk, onStream]
    · have hzero : figureAt (onStream stream figure k.1) (log k) = 0 := by
        rw [onStream, if_neg hk, figureAt]
        cases (log k).getLast? <;> rfl
      simp [hk, hzero]

section Named

variable {stream : String}

theorem named_others {name : String} (h : name ≠ Metrics.nameExpiredRecords)
    (h' : name ≠ Metrics.nameRequestTime) (p : Metrics.Put)
    (hp : p.name = Metrics.nameExpiredRecords ∨ p.name = Metrics.nameRequestTime) :
    named name (some stream) p = 0 := by
  unfold named
  rw [if_neg]
  rintro ⟨hname, _⟩
  rcases hp with hp | hp
  · exact h (hname.symm.trans hp)
  · exact h' (hname.symm.trans hp)

theorem named_stream {name : String} (p : Metrics.Put) (hp : p.stream ≠ some stream) :
    named name (some stream) p = 0 := by
  unfold named
  rw [if_neg fun h => hp h.2]

/-- The puts of a name are worth nothing for the records that were only received. -/
theorem total_received {measure : Metrics.Put → ℚ} (h : ∀ stream, measure (receivedPut stream) = 0)
    (ks : List Token) : total measure (ks.map fun k => receivedPut k.1) = 0 := by
  apply List.sum_eq_zero
  intro x hx
  obtain ⟨p, hp, rfl⟩ := List.mem_map.mp hx
  obtain ⟨k, _, rfl⟩ := List.mem_map.mp hp
  exact h k.1

/-- A measure of the puts for one stream tells the sum of its figure. -/
theorem Metered.tells {sys : System} {m : Metered}
    (h : Reachable (Metered.start sys) (Metered.step sys) anyStep m) {measure : Metrics.Put → ℚ}
    {figure : Figure} (htells : Tells (some stream) measure figure)
    (hstream : ∀ p : Metrics.Put, p.stream ≠ some stream → measure p = 0)
    (hothers : ∀ p : Metrics.Put, p.name = Metrics.nameExpiredRecords ∨
      p.name = Metrics.nameRequestTime → measure p = 0)
    (hreceived : ∀ stream', measure (receivedPut stream') = 0) :
    total measure m.emitted = m.annals.sumOf stream figure := by
  have hbalanced := (Metered.reachable_balanced (measures_onStream htells hstream hothers) h).2
  have hsum : total measure m.emitted = _ := hbalanced
  rw [hsum, total_received hreceived, zero_add]
  exact sum_onStream stream figure (fun k => about k m.annals.entries) _

/-- The metrics of a stream by name: what was put under each comes to the sum of a figure
    over the records that were registered for it. -/
structure Metered.Accounts (m : Metered) (stream : String) : Prop where
  received : total (named Metrics.nameUserRecordsReceived (some stream)) m.emitted =
    (m.annals.producer.shared.accepted.filter fun k => k.1 = stream).length
  delivered : total (named Metrics.nameUserRecordsPut (some stream)) m.emitted =
    m.annals.sumOf stream Retrier.Reporting.succeeded
  bytes : total (named Metrics.nameUserRecordsDataPut (some stream)) m.emitted =
    m.annals.sumOf stream Retrier.Reporting.deliveredBytes
  retried : total (named Metrics.nameRetriesPerRecord (some stream)) m.emitted =
    m.annals.sumOf stream Retrier.Reporting.retries
  failed : total (named Metrics.nameAllErrors (some stream)) m.emitted =
    m.annals.sumOf stream Retrier.Reporting.failures
  failedWith : ∀ code, total (coded code (some stream)) m.emitted =
    m.annals.sumOf stream (Retrier.Reporting.failuresWith code)

theorem total_registered (stream : String) (ks : List Token) :
    total (named Metrics.nameUserRecordsReceived (some stream)) (ks.map fun k => receivedPut k.1) =
      (ks.filter fun k => k.1 = stream).length := by
  induction ks with
  | nil => simp [total]
  | cons k ks ih =>
    rw [List.map_cons, ← List.singleton_append, Retrier.Reporting.total_append, ih,
      List.filter_cons]
    by_cases hk : k.1 = stream
    · simp [total, named, receivedPut, hk]
      ring
    · simp [total, named, receivedPut, hk]

theorem Metered.tells_received {sys : System} {m : Metered}
    (h : Reachable (Metered.start sys) (Metered.step sys) anyStep m) (stream : String) :
    total (named Metrics.nameUserRecordsReceived (some stream)) m.emitted =
      (m.annals.producer.shared.accepted.filter fun k => k.1 = stream).length := by
  have hmeasures : Measures (named Metrics.nameUserRecordsReceived (some stream))
      fun _ _ _ => 0 :=
    ⟨fun stream' => Retrier.Reporting.tells_userRecordsReceived (some stream') (some stream),
      named_others (by decide) (by decide)⟩
  have hbalanced := (Metered.reachable_balanced hmeasures h).2
  have hsum : total (named Metrics.nameUserRecordsReceived (some stream)) m.emitted = _ := hbalanced
  have hzero : (m.annals.producer.shared.accepted.map fun k =>
      figureAt (fun _ _ => 0) (about k m.annals.entries)).sum = 0 := by
    apply List.sum_eq_zero
    intro x hx
    obtain ⟨k, _, rfl⟩ := List.mem_map.mp hx
    unfold figureAt
    cases (about k m.annals.entries).getLast? <;> rfl
  rw [hsum, hzero, add_zero]
  exact total_registered stream _

/-- A name that only the Retrier puts tells the sum of its figure. -/
theorem Metered.tells_named {sys : System} {m : Metered}
    (h : Reachable (Metered.start sys) (Metered.step sys) anyStep m) {name : String}
    {figure : Figure} (htells : Tells (some stream) (named name (some stream)) figure)
    (hreceived : Metrics.nameUserRecordsReceived ≠ name)
    (hexpired : name ≠ Metrics.nameExpiredRecords)
    (htime : name ≠ Metrics.nameRequestTime) :
    total (named name (some stream)) m.emitted = m.annals.sumOf stream figure := by
  apply Metered.tells h htells named_stream (named_others hexpired htime)
  intro stream'
  exact if_neg fun heq => hreceived heq.1

/-- The accounts of every stream are right in every run. -/
theorem Metered.reachable_accounts {sys : System} {m : Metered}
    (h : Reachable (Metered.start sys) (Metered.step sys) anyStep m) (stream : String) :
    m.Accounts stream where
  received := Metered.tells_received h stream
  delivered := by
    apply Metered.tells_named h (Retrier.Reporting.tells_userRecordsPut (some stream)) <;> decide
  bytes := by
    apply Metered.tells_named h
      (Retrier.Reporting.tells_userRecordsDataPut (some stream)) <;> decide
  retried := by
    apply Metered.tells_named h (Retrier.Reporting.tells_retriesPerRecord (some stream)) <;> decide
  failed := by
    apply Metered.tells_named h (Retrier.Reporting.tells_allErrors (some stream)) <;> decide
  failedWith code := by
    apply Metered.tells h (Retrier.Reporting.tells_errorsByCode (some stream) code)
    · intro p hp
      exact if_neg fun h => hp h.2.1
    · intro p hp
      refine if_neg ?_
      rintro ⟨hname, _⟩
      rw [hname] at hp
      exact absurd hp (by decide)
    · intro stream'
      exact if_neg fun h => absurd h.1 (by decide : Metrics.nameUserRecordsReceived ≠
        Metrics.nameErrorsByCode)

/-- **The metrics tell the attempts.**  In every run that no exception has ended, over every
    stream, `UserRecordsReceived` counts the records that were registered, and
    `UserRecordsPut`, `UserRecordsDataPut`, `RetriesPerRecord`, `AllErrors` and `ErrorsByCode`
    add up to the deliveries, the bytes delivered, the retries before a delivery and the
    failed attempts of these records, as each stands.  A record that is under way stands
    with its attempts, also behind a slot at which the Retrier raises, a finished one with
    those of its result, and both with the data that its call has put. -/
theorem metrics_tell_the_attempts (sys : System) {m : Metered}
    (h : Reachable (Metered.start sys) (Metered.step sys) anyStep m)
    (_hcrashed : m.annals.producer.crashed = false) :
    (∀ stream, m.Accounts stream) ∧
      (∀ stream b, m.annals.producer.Has (stream, .waiting b) ∨
        m.annals.producer.Has (stream, .sent b) ∨ m.annals.producer.Has (stream, .unjudged b) →
          Waits (about (stream, b.ident) m.annals.entries) b) ∧
      (∀ k result, (k, result) ∈ m.annals.results → ∃ b,
        (about k m.annals.entries).getLast? = some b ∧ result.attempts = b.attempts) ∧
      ∀ k b, (k, b) ∈ m.annals.entries → ∃ call ∈ m.annals.submitted,
        k = (call.stream, call.number) ∧ b.userRecord = call.userRecord := by
  have hmeasures : Measures (fun _ => 0) fun _ _ _ => 0 :=
    ⟨fun stream => Retrier.Reporting.tells_other fun _ _ => rfl, fun _ _ => rfl⟩
  obtain ⟨hreach, _⟩ := Metered.reachable_balanced hmeasures h
  obtain ⟨_, _, hlawful⟩ := Annals.reachable_lawful (reports_keeps sys) hreach
  refine ⟨Metered.reachable_accounts h, ?_, ?_, Annals.reachable_written hreach⟩
  · intro stream b hhas
    rcases hhas with hwaiting | hsent | hunjudged
    · exact hlawful.held _ hwaiting
    · exact hlawful.held _ hsent
    · exact hlawful.held _ hunjudged
  · intro k result hmem
    obtain ⟨b, _, hended⟩ := hlawful.recorded k result hmem
    exact ⟨b, hended⟩

def unmetered (sys : System) : Metered :=
  { annals := { producer := { shared := { permits := sys.cfg.maxOutstandingRecords } } } }

/-- A record that goes astray once and is then delivered is one error and one retry. -/
theorem metrics_tell_the_attempts_strays :
    ∃ m, Reachable (Metered.start oneStream) (Metered.step oneStream) anyStep m ∧
      total (named Metrics.nameUserRecordsPut (some "a")) m.emitted = 1 ∧
      m.annals.sumOf "a" Retrier.Reporting.succeeded = 1 ∧
      m.annals.sumOf "a" Retrier.Reporting.retries = 1 ∧
      m.annals.sumOf "a" (Retrier.Reporting.failuresWith Retrier.wrongShardErrorCode) = 1 := by
  have hrun : (Lib.exec (Metered.step oneStream) anyStep (unmetered oneStream) strays).map
      (fun m => decide (m.annals.producer.crashed = false ∧
        total (named Metrics.nameUserRecordsPut (some "a")) m.emitted = 1 ∧
        total (named Metrics.nameRetriesPerRecord (some "a")) m.emitted = 1 ∧
        total (coded Retrier.wrongShardErrorCode (some "a")) m.emitted = 1)) = some true := by
    decide +kernel
  obtain ⟨m, hexec, hout⟩ := Option.map_eq_some_iff.mp hrun
  obtain ⟨hcrashed, hput, hretried, hcode⟩ := of_decide_eq_true hout
  have hstart : Metered.start oneStream (unmetered oneStream) := ⟨rfl, rfl⟩
  have hreach := Reachable.exec (.start hstart) hexec
  have haccounts := (metrics_tell_the_attempts oneStream hreach hcrashed).1 "a"
  exact ⟨m, hreach, hput, haccounts.delivered.symm.trans hput,
    haccounts.retried.symm.trans hretried, (haccounts.failedWith _).symm.trans hcode⟩

end Named

end Producer

end Aiokpl
