import Aiokpl.ProducerAttempts

/-!
# The fates of a record

`Fate` is `Handed` with all that a frame reads: the record a call builds, and the
outcome a reply comes to.  A `Diary` writes down what frames do to the records they
have.  A law that every fate keeps holds, in every run, of what the producer has and
of what it has finished, against all that was written about the record.
-/

namespace Aiokpl

open Lib Aggregation

namespace Producer

/-! ## Fates -/

/-- What a frame makes of the records it has. -/
inductive Fate (sys : System) (input : Input) : Work → Held → Prop
  | same {w : Work} {x : Held} : w.settles = false → x ∈ w.holdings → Fate sys input w x
  | built {w : Work} {call : PutCall} {buffered : BufferedRecord} : w.call? = some call →
      Aggregator.buildBuffered sys.md5 sys.u sys.cfg.aggregator input.now call.number
        call.userRecord = .ok buffered →
      Fate sys input w (call.stream, .waiting buffered)
  | sent {stream : String} {batch : PutRecordsBatch} {buffered : BufferedRecord} :
      buffered ∈ Retrier.records batch →
      Fate sys input (.send stream batch) (stream, .sent buffered)
  | expired {stream : String} {batch : AggregatedBatch} {buffered : BufferedRecord}
      {call : Retrier.Call} {held : Holding} : buffered ∈ batch.items →
      Retrier.Judged sys.cfg.retrier (expiredOutcome stream input.now batch) buffered
        (.refused Retrier.expiredErrorCode (Retrier.expiredErrorMessage ++ ": Expired")) call →
      call ∈ (Retrier.handle sys.u sys.cfg.retrier input.env
        (expiredOutcome stream input.now batch)).calls →
      callHolding call = some held → Fate sys input (.limiterExpired stream batch) (stream, held)
  | answered {stream : String} {startedAt : Time} {batch : PutRecordsBatch}
      {buffered : BufferedRecord} {verdict : Retrier.Verdict} {call : Retrier.Call}
      {held : Holding} :
      (buffered, verdict) ∈ Retrier.verdicts sys.u input.env batch input.reply →
      Retrier.Judged sys.cfg.retrier
        (Sender.outcomeOf stream startedAt input.endedAt batch input.reply) buffered verdict call →
      call ∈ (Retrier.handle sys.u sys.cfg.retrier input.env
        (Sender.outcomeOf stream startedAt input.endedAt batch input.reply)).calls →
      callHolding call = some held →
        Fate sys input (.inFlight stream startedAt batch) (stream, held)
  | unjudged {stream : String} {startedAt : Time} {batch : PutRecordsBatch}
      {buffered : BufferedRecord} :
      buffered ∈ unjudged batch (Retrier.handle sys.u sys.cfg.retrier input.env
        (Sender.outcomeOf stream startedAt input.endedAt batch input.reply)).calls →
      Fate sys input (.inFlight stream startedAt batch) (stream, .unjudged buffered)

/-- A call leaves in the stages what was there, and goes on with the record it has built. -/
theorem submit_fate {sys : System} {input : Input} {w : Work} {call : PutCall} {p : Pipeline}
    {s s' : Shared} {push : List Work} {spawn : Option Task} (hw : w.call? = some call)
    (hp : s.pipelines.get? call.stream = some p)
    (h : submit sys input call p s = .next s' push spawn) {x : Held}
    (hx : Leaves s' push spawn x) : s.Has x ∨ Fate sys input w x := by
  unfold submit at h
  split at h
  · cases h
  · rename_i buffered hbuild
    obtain ⟨rfl, rfl, rfl⟩ := (Ran.next.injEq ..).mp h
    rcases hx with hx | hx | hx
    · have hrecords : ∀ b, b ∈ ({ p with pending := p.pending.set buffered.ident call.number } :
          Pipeline).records ∨ b ∈ ([] : List BufferedRecord) →
          b ∈ p.records ∨ b ∈ ([] : List BufferedRecord) := fun _ hb => hb
      exact Or.inl ((has_stage hp hrecords (Or.inl hx)).resolve_right (by simp [waitingIn]))
    · right
      simp only [holdingsOf_cons, holdingsOf_nil, List.append_nil, Work.holdings, waitingIn,
        List.map_cons, List.map_nil, List.mem_singleton] at hx
      rw [hx]
      exact .built hw hbuild
    · simp at hx

/-- A trip handles the outcome that is made of the reply. -/
theorem outcome_of_trip {md5 : Bytes → Digest} {u : DigitClasses} {cfg : Retrier.Config}
    {env : Retrier.Env} {stream : String} {startedAt endedAt : Time} {batch : PutRecordsBatch}
    {reply : Sender.Reply} {outcome : SendOutcome} {handled : Retrier.Handled}
    (h : Retrier.trip md5 u cfg env stream startedAt endedAt batch reply = .ok (outcome, handled)) :
    outcome = Sender.outcomeOf stream startedAt endedAt batch reply ∧
      handled = Retrier.handle u cfg env outcome := by
  obtain ⟨hne, hfull⟩ := Retrier.full_of_trip_ok h
  rw [Retrier.trip, Sender.send_ok md5 stream startedAt endedAt reply hne hfull] at h
  obtain ⟨rfl, rfl⟩ := Prod.mk.inj (Except.ok.inj h)
  exact ⟨rfl, rfl⟩

/-- **The fate of a record** at a frame that raises nothing. -/
theorem exec_fate {sys : System} {input : Input} {id : Nat} {s s' : Shared} {w : Work}
    {push : List Work} {spawn : Option Task}
    (h : exec sys input id s w = some (.next s' push spawn)) {x : Held}
    (hx : Leaves s' push spawn x) : s.Has x ∨ Fate sys input w x := by
  rcases exec_leaves h hx with hold | hhanded
  · exact Or.inl hold
  cases hhanded with
  | same hw hmem => exact Or.inr (.same hw hmem)
  | sent hb => exact Or.inr (.sent hb)
  | @expired stream batch =>
    cases exec_runs h with
    | limiterExpired =>
      rcases hx with hx | hx | hx
      · exact Or.inl hx
      · obtain ⟨call, hcall, held, hheld, heq⟩ := mem_callbacks hx
        obtain ⟨⟨b, v⟩, hbv, hjudged⟩ := (expired_judges stream sys.u sys.cfg.retrier input.env
          input.now batch).judged hcall (isCallback_of_holding hheld)
        obtain ⟨b', hb, hbv⟩ := List.mem_map.mp hbv
        obtain ⟨rfl, rfl⟩ := Prod.mk.inj hbv
        rw [heq]
        exact Or.inr (.expired hb hjudged hcall hheld)
      · simp at hx
  | registered hcall =>
    -- only the two frames that hold the pipeline register a record
    cases exec_runs h with
    | getPipeline _ hp hsubmit => exact submit_fate rfl hp hsubmit hx
    | @buildPipeline call _ _ _ hsubmit =>
      exact (submit_fate (w := .buildPipeline call) rfl (entering_stream sys s call.stream) hsubmit
        hx).imp_left has_entering
    | acquire | resume | building =>
      left
      rcases hx with hx | hx | hx
      · exact hx
      · simp [Work.holdings] at hx
      · simp at hx
    | _ => cases hcall
  | answered | unjudged =>
    cases exec_runs h with
    | inFlight htrip =>
      rcases hx with hx | hx | hx
      · exact Or.inl hx
      · obtain ⟨rfl, rfl⟩ := outcome_of_trip htrip
        rcases mem_handling hx with ⟨call, hcall, held, hheld, heq⟩ | ⟨b, hb, heq⟩
        · obtain ⟨done, rest, hverdicts, hjudges, _⟩ := Retrier.trip_judges htrip
          obtain ⟨⟨b, v⟩, hbv, hjudged⟩ := hjudges.judged hcall (isCallback_of_holding hheld)
          rw [heq]
          exact Or.inr (.answered (hverdicts ▸ List.mem_append_left rest hbv) hjudged hcall hheld)
        · rw [heq]
          exact Or.inr (.unjudged hb)
      · simp at hx

/-- **What a producer has after a step** it had before, unless it is the fate of a record
    of the frame that the step ran. -/
theorem step_fate {sys : System} {s s' : State} {op : Op} (hstep : s.step sys op = some s')
    {x : Held} (hx : s'.Has x) :
    (s.ran sys op = none ∧ s.Has x) ∨
      ∃ id input kind w rest, s.tasks.get? id = some { kind, work := w :: rest } ∧
        s.ran sys op = some (input, w) ∧ (s.HasBeside id rest x ∨ Fate sys input w x) := by
  cases (step_turn hstep).2 with
  | @ran id input kind w rest push shared spawn hfound _ hexec =>
    refine Or.inr ⟨id, input, kind, w, rest, hfound, ran_next hfound hexec, ?_⟩
    have hleaves : Leaves shared push spawn x → s.HasBeside id rest x ∨ Fate sys input w x :=
      fun hx => (exec_fate hexec hx).imp_left Or.inl
    rcases has_spawn hx with hx | hx
    · rcases has_goOn hx with hx | hx | hx
      · exact hleaves (Or.inl hx)
      · rw [holdingsOf_append, List.mem_append] at hx
        rcases hx with hpush | hrest
        · exact hleaves (Or.inr (Or.inl hpush))
        · exact Or.inl (Or.inr (Or.inl hrest))
      · exact Or.inl (Or.inr (Or.inr hx))
    · exact hleaves (Or.inr (Or.inr hx))
  | raised hfound _ hexec =>
    rcases step_has hstep hx with hquiet | ⟨_, _, _, _, _, _, hran, _⟩
    · exact Or.inl hquiet
    · rw [ran_raises hfound hexec] at hran
      cases hran
  | _ =>
    rcases step_has hstep hx with hquiet | ⟨_, _, _, _, _, _, hran, _⟩
    · exact Or.inl hquiet
    · cases hran

/-! ## Diaries -/

/-- A way to write down what frames do to the records they have.  Nothing is done to a
    record while its result is handed over. -/
structure Diary (E : Type) where
  entries : Input → Work → List (Token × E)
  own : ∀ {input : Input} {w : Work} {k : Token} {e : E}, (k, e) ∈ entries input w → k ∈ w.tokens
  silent : ∀ (input : Input) (stream : String) (call : Retrier.Call),
    entries input (.callback stream call) = []

variable {E : Type}

/-- What is written about a record. -/
def about (k : Token) (entries : List (Token × E)) : List E :=
  entries.filterMap fun entry => if entry.1 = k then some entry.2 else none

theorem about_append (k : Token) (entries entries' : List (Token × E)) :
    about k (entries ++ entries') = about k entries ++ about k entries' :=
  List.filterMap_append

theorem mem_about {k : Token} {entries : List (Token × E)} {e : E} :
    e ∈ about k entries ↔ (k, e) ∈ entries := by
  simp only [about, List.mem_filterMap, Option.ite_none_right_eq_some, Option.some.injEq]
  constructor
  · rintro ⟨⟨k', e'⟩, hmem, rfl, rfl⟩
    exact hmem
  · intro hmem
    exact ⟨(k, e), hmem, rfl, rfl⟩

theorem about_eq_nil {k : Token} {entries : List (Token × E)} (h : ∀ e, (k, e) ∉ entries) :
    about k entries = [] :=
  List.eq_nil_iff_forall_not_mem.mpr fun e hmem => h e (mem_about.mp hmem)

/-- The call that a step makes. -/
def State.submits (s : State) : Op → List PutCall
  | .putRecord stream userRecord =>
    if s.shared.closed ∨ userRecord.partitionKey = "" then []
    else [{ number := s.nextTask, stream, userRecord }]
  | _ => []

/-- A producer with the calls made on it, the entries of a diary and the results. -/
structure Annals (E : Type) where
  producer : State
  submitted : List PutCall := []
  entries : List (Token × E) := []
  results : List (Token × RecordResult) := []

def Annals.note (diary : Diary E) (input : Input) (w : Work) (a : Annals E) : Annals E :=
  { a with
    entries := a.entries ++ diary.entries input w
    results := a.results ++ w.results }

def Annals.step (sys : System) (diary : Diary E) (a : Annals E) (op : Op) : Option (Annals E) :=
  (a.producer.step sys op).map fun producer =>
    let noted := match a.producer.ran sys op with
      | none => a
      | some (input, w) => a.note diary input w
    { noted with producer, submitted := a.submitted ++ a.producer.submits op }

def Annals.start (sys : System) (a : Annals E) : Prop :=
  a = { producer := { shared := { permits := sys.cfg.maxOutstandingRecords } } }

/-- A law of a record and what is written about it is kept if it passes from what a frame
    has to every fate of it. -/
def Diary.Keeps (sys : System) (diary : Diary E) (law : List E → Held → Prop) : Prop :=
  ∀ (input : Input) (w : Work) (x : Held) (before : Token → List E),
    (∀ k, w.tokens.count k ≤ 1) → (∀ y ∈ w.holdings, law (before (tokenOf y)) y) →
    (∀ call, w.call? = some call → before (call.stream, call.number) = []) →
    Fate sys input w x → law (before (tokenOf x) ++ about (tokenOf x) (diary.entries input w)) x

/-- Every record that the producer has, and every result, is as the law says. -/
structure Annals.Lawful (law : List E → Held → Prop) (a : Annals E) : Prop where
  finished : a.results.map Prod.fst = a.producer.shared.finished
  known : ∀ k e, (k, e) ∈ a.entries → k ∈ a.producer.shared.accepted
  held : ∀ x, a.producer.Has x → law (about (tokenOf x) a.entries) x
  recorded : ∀ k result, (k, result) ∈ a.results →
    ∃ b, b.ident = k.2 ∧ law (about k a.entries) (k.1, .ended b result)

section Step

variable {maxOutstanding : Nat} {sys : System} {diary : Diary E} {law : List E → Held → Prop}
  {a a' : Annals E} {op : Op}

theorem about_note (diary : Diary E) (input : Input) (w : Work) (k : Token) :
    about k (a.note diary input w).entries = about k a.entries ++ about k (diary.entries input w) :=
  about_append ..

/-- What is written about a record that the frame does not have stays as it was. -/
theorem about_note_other {input : Input} {w : Work} {k : Token} (h : k ∉ w.tokens) :
    about k (a.note diary input w).entries = about k a.entries := by
  rw [about_note, about_eq_nil fun e hmem => h (diary.own hmem), List.append_nil]

theorem Annals.step_cases (h : a.step sys diary op = some a') :
    ∃ producer, a.producer.step sys op = some producer ∧
      ((a.producer.ran sys op = none ∧
          a' = { a with producer, submitted := a.submitted ++ a.producer.submits op }) ∨
        ∃ input w, a.producer.ran sys op = some (input, w) ∧
          a' = { a.note diary input w with
            producer, submitted := a.submitted ++ a.producer.submits op }) := by
  obtain ⟨producer, hstep, rfl⟩ := Option.map_eq_some_iff.mp h
  refine ⟨producer, hstep, ?_⟩
  cases hran : a.producer.ran sys op with
  | none => exact Or.inl ⟨rfl, rfl⟩
  | some ran => exact Or.inr ⟨ran.1, ran.2, rfl, rfl⟩

/-- A step that runs no frame to its end writes nothing. -/
theorem Annals.Lawful.step_quiet (h : a.Lawful law) (hs : Sound a.producer) {producer : State}
    (hstep : a.producer.step sys op = some producer) (hran : a.producer.ran sys op = none)
    (submitted : List PutCall) : Annals.Lawful law { a with producer, submitted } := by
  obtain ⟨haccepted, hfinished⟩ := step_history hs hstep
  rw [hran] at hfinished
  refine ⟨?_, fun k e hk => haccepted.subset (h.known k e hk), fun x hx => ?_, h.recorded⟩
  · rw [hfinished]
    simpa using h.finished
  · rcases step_fate hstep hx with ⟨_, hbefore⟩ | ⟨_, _, _, _, _, _, hsome, _⟩
    · exact h.held x hbefore
    · rw [hran] at hsome
      cases hsome

/-- A step that runs a frame writes down the fate of the records that it has. -/
theorem Annals.Lawful.step_ran (hkeeps : diary.Keeps sys law) (h : a.Lawful law)
    (hs : Sound a.producer) (hledger : Ledger maxOutstanding a.producer) {producer : State}
    {input : Input} {w : Work} (hstep : a.producer.step sys op = some producer)
    (hran : a.producer.ran sys op = some (input, w)) (submitted : List PutCall) :
    Annals.Lawful law { a.note diary input w with producer, submitted } := by
  obtain ⟨haccepted, hfinished⟩ := step_history hs hstep
  rw [hran, Option.toList_some, List.flatMap_singleton] at hfinished
  obtain ⟨id, kind, rest, hfound⟩ := ran_eq_some hran
  have hheld := h.held
  have hhas : ∀ y ∈ w.holdings, a.producer.Has y := fun y hy =>
    Or.inr ⟨id, _, hfound, List.mem_append_left _ hy⟩
  have hlive : ∀ k ∈ w.tokens, k ∈ a.producer.shared.accepted ∧ k ∉ a.producer.shared.finished := by
    intro k hk
    rw [w.tokens_eq] at hk
    obtain ⟨y, hy, rfl⟩ := List.mem_map.mp hk
    exact hledger.live_of_has hs (hhas y hy)
  have hlaw : ∀ y ∈ w.holdings, law (about (tokenOf y) a.entries) y := fun y hy =>
    hheld y (hhas y hy)
  refine ⟨?_, ?_, ?_, ?_⟩
  · rw [hfinished, ← h.finished, ← results_finishes, ← List.map_append]
    rfl
  · intro k e hk
    apply haccepted.subset
    rcases List.mem_append.mp hk with hold | hnew
    · exact h.known k e hold
    · exact (hlive k (diary.own hnew)).1
  · intro x hx
    rcases step_fate hstep hx with ⟨hnone, _⟩ | ⟨id', input', kind', w', rest', hfound',
      hsome, hafter⟩
    · rw [hran] at hnone
      cases hnone
    · obtain ⟨rfl, rfl⟩ := Prod.mk.inj (Option.some.inj (hran.symm.trans hsome))
      rcases hafter with hbeside | hfate
      · have hother : about (tokenOf x) (a.note diary input w).entries =
            about (tokenOf x) a.entries := about_note_other (hledger.alone hs hfound' hbeside)
        rw [hother]
        exact hheld x (hbeside.has hfound' fun y hy => List.mem_append_right _ hy)
      · rw [about_note]
        refine hkeeps input w x (fun k => about k a.entries) (hledger.count_tokens hs hfound) hlaw
          (fun call hcall => ?_) hfate
        -- nothing has been written about the record of a call that is entering
        obtain ⟨_, _, rfl, hstanding⟩ := hs.entering hfound hcall
        exact about_eq_nil fun e hmem =>
          hstanding.accepted.mp (List.mem_map.mpr ⟨_, h.known _ e hmem, rfl⟩)
  · intro k result hmem
    rcases List.mem_append.mp hmem with hold | hnew
    · have hdone : k ∈ a.producer.shared.finished := by
        rw [← h.finished]
        exact List.mem_map_of_mem hold
      obtain ⟨b, hb, hrecorded⟩ := h.recorded k result hold
      have hother : about k (a.note diary input w).entries = about k a.entries :=
        about_note_other fun hmem => (hlive k hmem).2 hdone
      exact ⟨b, hb, hother ▸ hrecorded⟩
    · cases w with
      | callback stream call =>
        cases call with
        | onFinish buffered result' =>
          obtain ⟨rfl, rfl⟩ := Prod.mk.inj (List.mem_singleton.mp hnew)
          refine ⟨buffered, rfl, ?_⟩
          have hended := hlaw (stream, .ended buffered result) (List.mem_singleton.mpr rfl)
          rw [about_note, diary.silent]
          exact (List.append_nil (about (stream, buffered.ident) a.entries)).symm ▸ hended
        | _ => cases hnew
      | _ => cases hnew

/-! ## Whole runs -/

theorem Annals.start_lawful (h : Annals.start sys a) :
    State.start sys a.producer ∧ a.Lawful law := by
  rw [h]
  refine ⟨rfl, rfl, by simp, ?_, by simp⟩
  rintro x (⟨p, hp, _⟩ | ⟨id, t, ht, _⟩)
  · cases hp
  · cases ht

/-- **A law that every fate keeps** holds in every run of what the producer has, and of
    what it has finished. -/
theorem Annals.reachable_lawful (hkeeps : diary.Keeps sys law) {ok : Annals E → Op → Prop}
    (h : Reachable (Annals.start sys) (Annals.step sys diary) ok a) :
    Sound a.producer ∧ Ledger sys.cfg.maxOutstandingRecords a.producer ∧ a.Lawful law := by
  have hstart : ∀ a : Annals E, Annals.start sys a →
      Sound a.producer ∧ Ledger sys.cfg.maxOutstandingRecords a.producer ∧ a.Lawful law := by
    intro a ha
    obtain ⟨hproducer, hlawful⟩ := Annals.start_lawful ha
    exact ⟨start_sound hproducer, start_ledger hproducer, hlawful⟩
  refine h.invariant hstart fun a op a' hinv _ hstep => ?_
  obtain ⟨hs, hledger, hlawful⟩ := hinv
  obtain ⟨producer, hproducer, ⟨hran, rfl⟩ | ⟨input, w, hran, rfl⟩⟩ := Annals.step_cases hstep
  · exact ⟨hs.step hproducer, hledger.step hs hproducer, hlawful.step_quiet hs hproducer hran _⟩
  · exact ⟨hs.step hproducer, hledger.step hs hproducer,
      hlawful.step_ran hkeeps hs hledger hproducer hran _⟩

/-- What is true of everything that frames write is true of all entries. -/
theorem Annals.reachable_entries {P : Token → E → Prop}
    (hentries : ∀ input w k e, (k, e) ∈ diary.entries input w → P k e)
    {ok : Annals E → Op → Prop}
    (h : Reachable (Annals.start sys) (Annals.step sys diary) ok a) :
    ∀ k e, (k, e) ∈ a.entries → P k e := by
  have hstart : ∀ a : Annals E, Annals.start sys a → ∀ k e, (k, e) ∈ a.entries → P k e := by
    rintro _ rfl k e hmem
    cases hmem
  refine h.invariant hstart fun a op a' hinv _ hstep k e hmem => ?_
  obtain ⟨producer, _, ⟨_, rfl⟩ | ⟨input, w, _, rfl⟩⟩ := Annals.step_cases hstep
  · exact hinv k e hmem
  · rcases List.mem_append.mp hmem with hold | hnew
    · exact hinv k e hold
    · exact hentries input w k e hnew

end Step

end Producer

end Aiokpl
