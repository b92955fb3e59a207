import Aiokpl.AggregationTransparency
import Aiokpl.ProducerRequests

/-!
# From the caller to the consumer

What a request carries, read by a consumer that takes the entries apart again, is what the
`put_record` calls of its records were given.
-/

namespace Aiokpl

open Lib Aggregation

namespace Sender

/-! ## Entries -/

/-- What a consumer gets out of an entry that was made of these records. -/
structure Carries (md5 : Bytes → Digest) (records : List UserRecord) (entry : Entry) : Prop where
  single : ∀ r, records = [r] →
    entry = { data := r.data, partitionKey := r.partitionKey, explicitHashKey := r.explicitHashKey }
  decoded : 2 ≤ records.length → entry.data.length ≤ maxSize →
    decodeAggregated md5 entry.data = .ok (records.map UserRecord.decoded)
  recovered : entry.data.length ≤ maxSize →
    (deaggregate md5 entry.data = .ok (records.map UserRecord.data) ↔
      (records.length = 1 → isAggregated entry.data = false))

variable {md5 : Bytes → Digest}

/-- Several records are read back from their envelope. -/
theorem encodeAggregated_decodes {records : List UserRecord} {data : Bytes}
    (hmany : 2 ≤ records.length) (h : encodeAggregated md5 records = .ok data)
    (hfits : data.length ≤ maxSize) :
    isAggregated data = true ∧
      decodeAggregated md5 data = .ok (records.map UserRecord.decoded) := by
  obtain rfl := Except.ok.inj (h.symm.trans (encodeAggregated_many md5 hmany))
  refine ⟨isAggregated_blob md5 _, decodeAggregated_serialize md5 (wireSized_of_length ?_)⟩
  simp only [List.length_append, maxSize] at hfits
  omega

theorem buildEntry_eq_ok {ar : AggregatedBatch} {entry : Entry}
    (h : buildEntry md5 ar = .ok entry) :
    encodeAggregated md5 (ar.items.map BufferedRecord.userRecord) = .ok entry.data ∧
      entry.partitionKey = ar.routingPartitionKey.getD "" ∧
      entry.explicitHashKey = ar.routingExplicitHashKey := by
  unfold buildEntry at h
  cases hblob : ar.toBlob md5 with
  | error e =>
    rw [hblob] at h
    cases h
  | ok data =>
    rw [hblob] at h
    obtain rfl := Except.ok.inj h
    exact ⟨hblob, rfl, rfl⟩

/-- **An entry carries the records of its batch.** -/
theorem buildEntry_carries {ar : AggregatedBatch} {entry : Entry}
    (h : buildEntry md5 ar = .ok entry) :
    Carries md5 (ar.items.map BufferedRecord.userRecord) entry := by
  obtain ⟨hdata, hkey, hhash⟩ := buildEntry_eq_ok h
  have hdecodes := @encodeAggregated_decodes md5 (ar.items.map BufferedRecord.userRecord) entry.data
  cases hitems : ar.items with
  | nil =>
    rw [hitems] at hdata
    cases hdata
  | cons b rest =>
    rw [hitems] at hdata hdecodes
    cases rest with
    | nil =>
      have hblob : b.userRecord.data = entry.data := Except.ok.inj hdata
      refine ⟨fun r hr => ?_, fun htwo => by simp at htwo, fun _ => ?_⟩
      · obtain rfl : b.userRecord = r := by simpa using hr
        obtain ⟨data, partitionKey, explicitHashKey⟩ := entry
        simp_all [AggregatedBatch.routingPartitionKey, AggregatedBatch.routingExplicitHashKey]
      · rw [List.map_singleton, List.map_singleton, hblob, deaggregate_single_iff]
        simp
    | cons b' rest =>
      refine ⟨fun r hr => by simp at hr, fun htwo hfits => (hdecodes htwo hdata hfits).2,
        fun hfits => ?_⟩
      obtain ⟨henvelope, hdecode⟩ := hdecodes (by simp) hdata hfits
      refine iff_of_true ?_ (by simp)
      rw [deaggregate, if_pos henvelope, hdecode]
      exact congrArg Except.ok (List.map_map ..)

/-- A traversal that answers for every element. -/
theorem mapM_forall₂ {ε α β : Type} {f : α → Except ε β} {xs : List α}
    (h : ∀ x ∈ xs, ∃ y, f x = .ok y) :
    ∃ ys, xs.mapM f = .ok ys ∧ List.Forall₂ (fun x y => f x = .ok y) xs ys := by
  induction xs with
  | nil => exact ⟨[], rfl, .nil⟩
  | cons x xs ih =>
    obtain ⟨y, hy⟩ := h x List.mem_cons_self
    obtain ⟨ys, hys, hall⟩ := ih fun x' hx' => h x' (List.mem_cons_of_mem x hx')
    refine ⟨y :: ys, ?_, .cons hy hall⟩
    rw [List.mapM_cons, hy, hys]
    rfl

/-- What a consumer gets out of the entries of a request. -/
def consumed (md5 : Bytes → Digest) (entries : List Entry) :
    Except Aggregation.Error (List Bytes) :=
  (entries.mapM fun e => deaggregate md5 e.data).map List.flatten

/-- A consumer that can read every entry gets the records in their order. -/
theorem consumed_carries {batches : List AggregatedBatch} {entries : List Entry}
    (h : List.Forall₂ (fun ar e => Carries md5 (ar.items.map BufferedRecord.userRecord) e)
      batches entries)
    (hfits : ∀ e ∈ entries, e.data.length ≤ maxSize)
    (hplain : List.Forall₂ (fun ar e => ar.count = 1 → isAggregated e.data = false)
      batches entries) :
    consumed md5 entries = .ok ((batches.flatMap AggregatedBatch.items).map
      fun b => b.userRecord.data) := by
  have hread : (entries.mapM fun e => deaggregate md5 e.data) =
      .ok (batches.map fun ar => ar.items.map fun b => b.userRecord.data) := by
    induction h with
    | nil => rfl
    | cons hhead _ ih =>
      obtain ⟨hone, hrest⟩ := List.forall₂_cons.mp hplain
      have hdata := (hhead.recovered (hfits _ List.mem_cons_self)).mpr fun hlength =>
        hone (by simpa [AggregatedBatch.count] using hlength)
      rw [List.map_map] at hdata
      rw [List.mapM_cons, hdata, ih (fun e he => hfits e (List.mem_cons_of_mem _ he)) hrest]
      rfl
  rw [consumed, hread, List.map_flatMap]
  rfl

end Sender

namespace Producer

variable {E : Type}

/-- A frame holds no record twice. -/
theorem Ledger.frame_nodup {maxOutstanding : Nat} {s : State} (h : Ledger maxOutstanding s)
    (hs : Sound s) {id : Nat} {t : Task} (ht : s.tasks.get? id = some t) {w : Work}
    (hw : w ∈ t.work) : w.tokens.Nodup := by
  refine List.nodup_iff_count_le_one.mpr fun k => ?_
  have hbalance := h.balance k
  have honce := hs.accepted_count k
  have hweigh := weigh_ge (carries k) ht
  have hframe : carries k w ≤ load (carries k) t.work :=
    List.le_sum_of_mem (List.mem_map_of_mem hw)
  rw [carries] at hframe
  omega

theorem Ledger.request_nodup {maxOutstanding : Nat} {s : State} (h : Ledger maxOutstanding s)
    (hs : Sound s) {stream : String} {batch : PutRecordsBatch}
    (hrequest : s.requests stream batch) :
    ((Retrier.records batch).map BufferedRecord.ident).Nodup := by
  have htokens : (tokensOf stream (Retrier.records batch)).Nodup := by
    obtain ⟨id, t, ht, hsend | ⟨startedAt, hflight⟩⟩ := hrequest
    · exact h.frame_nodup hs ht hsend
    · exact h.frame_nodup hs ht hflight
  apply List.Nodup.of_map (fun n => (stream, n))
  rw [List.map_map]
  exact htokens

/-- **From the caller to the consumer.**  In every run a request that is about to be sent or
    under way holds records of `put_record` calls on its stream, each of another call.  Its
    entries, one for each batch, carry exactly what these calls were given, in the order of
    the batches; so a consumer gets it all back, unless an entry is longer than a `bytes`
    object can be or the data of a record that travels alone passes for an envelope. -/
theorem submitted_reaches_consumer (sys : System) (diary : Diary E) {a : Annals E}
    (h : Reachable (Annals.start sys) (Annals.step sys diary) anyStep a) {stream : String}
    {batch : PutRecordsBatch} (hrequest : a.producer.requests stream batch) :
    ((Retrier.records batch).map BufferedRecord.ident).Nodup ∧
      (∀ b ∈ Retrier.records batch, ∃ call ∈ a.submitted, call.stream = stream ∧
        call.number = b.ident ∧ call.userRecord = b.userRecord) ∧
      ∃ entries, batch.items.mapM (Sender.buildEntry sys.md5) = .ok entries ∧
        List.Forall₂ (fun ar e =>
          Sender.Carries sys.md5 (ar.items.map BufferedRecord.userRecord) e) batch.items entries ∧
        ((∀ e ∈ entries, e.data.length ≤ maxSize) →
          List.Forall₂ (fun ar e => ar.count = 1 → isAggregated e.data = false)
            batch.items entries →
          Sender.consumed sys.md5 entries =
            .ok ((Retrier.records batch).map fun b => b.userRecord.data)) := by
  obtain ⟨hsound, hfaithful⟩ := Annals.reachable_faithful h
  have hreach := Annals.reachable_producer h
  have hsealed := sealed_of_requests hreach hrequest
  refine ⟨(reachable_ledger hreach).2.request_nodup hsound hrequest, fun b hb => ?_, ?_⟩
  · obtain ⟨id, t, ht, hframe⟩ := hrequest
    obtain ⟨call, hcall, hstream, hmade⟩ : ∃ call ∈ a.submitted, call.stream = stream ∧
        Made sys call b := by
      rcases hframe with hsend | ⟨startedAt, hflight⟩
      · refine hfaithful.held (stream, .waiting b) (Or.inr ⟨id, t, ht, ?_⟩)
        exact List.mem_flatMap.mpr ⟨_, hsend, List.mem_map_of_mem hb⟩
      · refine hfaithful.held (stream, .sent b) (Or.inr ⟨id, t, ht, ?_⟩)
        exact List.mem_flatMap.mpr ⟨_, hflight, List.mem_map_of_mem hb⟩
    exact ⟨call, hcall, hstream, hmade.ident.symm, hmade.userRecord.symm⟩
  · obtain ⟨entries, hentries, hbuilt⟩ := Sender.mapM_forall₂ fun ar har =>
      Sender.buildEntry_ok sys.md5 (hsealed.2 ar har).nonempty
    have hcarries := hbuilt.imp fun ar e => Sender.buildEntry_carries
    exact ⟨entries, hentries, hcarries, Sender.consumed_carries hcarries⟩

/-- Two records in one entry come back. -/
theorem submitted_reaches_consumer_two :
    ∃ a, Reachable (Annals.start oneStream) (Annals.step oneStream wordless) anyStep a ∧
      ∃ stream batch, a.producer.requests stream batch ∧
        (∀ b ∈ Retrier.records batch, ∃ call ∈ a.submitted, call.stream = stream ∧
          call.number = b.ident ∧ call.userRecord = b.userRecord) ∧
        ∃ ar ∈ batch.items, ar.items.length = 2 := by
  obtain ⟨a, stream, startedAt, batch, hreach, hfound, ar, har, htwo⟩ := requestsTwo_run
  have hrequest : a.producer.requests stream batch :=
    ⟨4, _, hfound, Or.inr ⟨startedAt, List.mem_singleton.mpr rfl⟩⟩
  exact ⟨a, hreach, stream, batch, hrequest,
    (submitted_reaches_consumer oneStream wordless hreach hrequest).2.1, ar, har, htwo⟩

end Producer

end Aiokpl
