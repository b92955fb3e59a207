import Aiokpl.Aggregator
import Aiokpl.LimiterRates

/-!
# Progress at the head of a shard's queue

Each stream of a shard's bucket holds at most what it refills in a second, so a second
after the last admission both are full, and a drain can admit the head of the queue as
soon as it is no larger than a second's worth of bytes.  A larger head, which the
Aggregator does emit, is never admitted, and nothing behind it is before it expires.
-/

namespace Aiokpl

open Lib

namespace TokenBucket

/-! ## Streams at rest -/

/-- A stream that holds what it refills in a second, full a second after its last entry. -/
structure Filling (rate clock : ℚ) (log : List (ℚ × ℚ)) (s : Stream) : Prop where
  metered : Metered rate rate clock log s
  rested : ∀ t, clock ≤ t → (∀ e ∈ log, e.1 + 1 ≤ t) → levelAt t s = rate

variable {rate clock : ℚ} {log : List (ℚ × ℚ)} {s : Stream}

theorem Filling.advance (h : Filling rate clock log s) {t : Time} (ht : clock ≤ t) :
    Filling rate t log s :=
  ⟨h.metered.advance ht, fun t' ht' hlog => h.rested t' (ht.trans ht') hlog⟩

theorem levelAt_grow (t : Time) (s : Stream) (hle : s.tokens ≤ s.maxTokens)
    (hgrowth : 0 ≤ s.rate * (t - s.last)) : levelAt t s = (grow t s).tokens := by
  by_cases hgrows : s.rate * (t - s.last) > 0
  · simp [TokenBucket.grow, hgrows, levelAt]
  · have hnone : s.rate * (t - s.last) = 0 := le_antisymm (not_lt.mp hgrows) hgrowth
    simp [TokenBucket.grow, levelAt, hnone, hle]

/-- A query finds the level. -/
theorem Filling.level (h : Filling rate clock log s) {t : Time} (ht : clock ≤ t) :
    (grow t s).tokens = levelAt t s :=
  (levelAt_grow t s h.metered.tokens_le (h.metered.growth_nonneg ht)).symm

/-- A query finds at most what refills in a second. -/
theorem Filling.le_rate (h : Filling rate clock log s) {t : Time} (ht : clock ≤ t) :
    (grow t s).tokens ≤ rate := by
  rw [h.level ht]
  exact (h.metered.advance ht).envelope.level_le

/-- Growing a stream changes what it holds, not what it would hold later. -/
theorem Filling.grow (h : Filling rate clock log s) {t : Time} (ht : clock ≤ t) :
    Filling rate t log (grow t s) ∧ (grow t s).rate * (t - (grow t s).last) = 0 := by
  rcases h.metered.grow ht with ⟨hmetered, hsettled, hlevel⟩
  refine ⟨⟨hmetered, ?_⟩, hsettled⟩
  intro t' ht' hlog
  rw [hmetered.levelAt_later ht', hlevel, h.level ht, ← (h.metered.advance ht).levelAt_later ht']
  exact h.rested t' (ht.trans ht') hlog

/-- A second after a debit the stream is full again. -/
theorem Filling.debit (h : Filling rate clock log s) (hgrown : s.rate * (clock - s.last) = 0)
    {amount : ℚ} (hnonneg : 0 ≤ amount) (hle : amount ≤ s.tokens) :
    Filling rate clock (log ++ [(clock, amount)]) { s with tokens := s.tokens - amount } := by
  have hmetered := h.metered.debit hgrown hnonneg hle
  refine ⟨hmetered, ?_⟩
  intro t ht hlog
  have hsecond : clock + 1 ≤ t := hlog (clock, amount) (by simp)
  have hlevel := hmetered.envelope.level_nonneg
  have hrefilled : rate * 1 ≤ rate * (t - clock) :=
    mul_le_mul_of_nonneg_left (by linarith) h.metered.envelope.rate_nonneg
  rw [hmetered.levelAt_later ht]
  apply min_eq_left
  linarith

end TokenBucket

namespace Limiter

open TokenBucket

/-- Both streams of the bucket refill in a second, and have let through these batches. -/
def Refilling (recordRate byteRate clock : ℚ) (admitted : List Admission) (b : TokenBucket) :
    Prop :=
  ∃ s₀ s₁, b.streams = [s₀, s₁] ∧ Filling recordRate clock (recordLog admitted) s₀ ∧
    Filling byteRate clock (byteLog admitted) s₁

section

variable {recordRate byteRate clock : ℚ} {admitted : List Admission} {b b' : TokenBucket}

theorem Refilling.advance (h : Refilling recordRate byteRate clock admitted b) {t : Time}
    (ht : clock ≤ t) : Refilling recordRate byteRate t admitted b := by
  rcases h with ⟨s₀, s₁, hstreams, h₀, h₁⟩
  exact ⟨s₀, s₁, hstreams, h₀.advance ht, h₁.advance ht⟩

theorem Refilling.query (h : Refilling recordRate byteRate clock admitted b) {read : Nat → Time}
    (hfirst : clock ≤ read 0) (hsecond : read 0 ≤ read 1) {taken : Bool} (batch : AggregatedBatch)
    (htake : b.tryTake read [1, (batch.size : ℚ)] = some (taken, b')) :
    Refilling recordRate byteRate (read 1) (admitted ++
      if taken then [{ batch, recordsAt := read 0, bytesAt := read 1 }] else []) b' := by
  have hsize : (0 : ℚ) ≤ (batch.size : ℚ) := Nat.cast_nonneg _
  rcases h with ⟨s₀, s₁, hstreams, h₀, h₁⟩
  rcases h₀.grow hfirst with ⟨hgrown₀, hsettled₀⟩
  rcases h₁.grow (hfirst.trans hsecond) with ⟨hgrown₁, hsettled₁⟩
  rcases tryTake_pair hstreams read hsize with ⟨-, hout⟩ | ⟨-, -, hout⟩ | ⟨hrecords, hbytes, hout⟩
  · rw [hout] at htake
    simp only [Option.some.injEq, Prod.mk.injEq] at htake
    rcases htake with ⟨rfl, rfl⟩
    simp only [Bool.false_eq_true, if_false, List.append_nil]
    exact ⟨_, _, rfl, hgrown₀.advance hsecond, h₁.advance (hfirst.trans hsecond)⟩
  · rw [hout] at htake
    simp only [Option.some.injEq, Prod.mk.injEq] at htake
    rcases htake with ⟨rfl, rfl⟩
    simp only [Bool.false_eq_true, if_false, List.append_nil]
    exact ⟨_, _, rfl, hgrown₀.advance hsecond, hgrown₁⟩
  · rw [hout] at htake
    simp only [Option.some.injEq, Prod.mk.injEq] at htake
    rcases htake with ⟨rfl, rfl⟩
    have hrecords' := (hgrown₀.debit hsettled₀ zero_le_one hrecords).advance hsecond
    have hbytes' := hgrown₁.debit hsettled₁ hsize hbytes
    refine ⟨_, _, rfl, ?_, ?_⟩
    · simpa [recordLog] using hrecords'
    · simpa [byteLog] using hbytes'

theorem init_refilling {R B : ℚ} (hR : 0 ≤ R) (hB : 0 ≤ B) (now : Time) :
    Refilling R B now [] (.init now true [(R, R), (B, B)]) := by
  have hfull : ∀ rate : ℚ, 0 ≤ rate →
      Filling rate now [] { rate, maxTokens := rate, tokens := rate, last := now } := by
    intro rate hrate
    refine ⟨⟨rfl, rfl, le_rfl, le_rfl, ?_⟩, ?_⟩
    · simpa [levelAt] using Envelope.full hrate hrate now
    · intro t ht _
      have hgrown : 0 ≤ rate * (t - now) := mul_nonneg hrate (sub_nonneg.mpr ht)
      simpa [levelAt] using hgrown
  exact ⟨_, _, rfl, hfull R hR, hfull B hB⟩

end

theorem ShardRun.step_refilling {R B : ℚ} {run run' : ShardRun} {op : ShardOp}
    (hinv : Refilling R B run.clock run.admitted run.limiter.bucket) (hop : nonDecreasing run op)
    (h : run.step op = some run') :
    Refilling R B run'.clock run'.admitted run'.limiter.bucket := by
  cases op with
  | enqueue batch expiresAt =>
    obtain rfl := Option.some.inj h
    exact hinv
  | drain t finish =>
    obtain rfl := Option.some.inj h
    exact admitWhile_invariant (Refilling R B) hop (fun ht h => h.advance ht)
      (fun batch hfirst hsecond h htake => h.query hfirst hsecond batch htake) 0 _ _ _ _
      (hop.start_le.trans (hop.now_le 0)) hinv

/-- In every run the bucket refills in a second, and nothing queued is new. -/
theorem ShardRun.refilling {R B : ℚ} (hR : 0 ≤ R) (hB : 0 ≤ B) {run : ShardRun}
    (h : Reachable (ShardRun.start R B) ShardRun.step nonDecreasing run) :
    Refilling R B run.clock run.admitted run.limiter.bucket ∧
      ∀ p ∈ run.limiter.queue, p.batch ∈ run.enqueued := by
  have hstart : ∀ run, ShardRun.start R B run →
      Refilling R B run.clock run.admitted run.limiter.bucket ∧ run.Conserves := by
    rintro run ⟨now, rfl⟩
    exact ⟨init_refilling hR hB now, List.Perm.refl _⟩
  have hinv : Refilling R B run.clock run.admitted run.limiter.bucket ∧ run.Conserves :=
    h.invariant hstart fun _ _ _ hinv hop hstep =>
      ⟨step_refilling hinv.1 hop hstep, step_conserves hinv.2 hstep⟩
  refine ⟨hinv.1, fun p hp => ?_⟩
  apply hinv.2.subset
  exact List.mem_append_right _ (List.mem_map_of_mem hp)

theorem reachable_enqueue {start : ShardRun → Prop} {run : ShardRun}
    (h : Reachable start ShardRun.step nonDecreasing run) (batch : AggregatedBatch)
    (expiresAt : Time) :
    Reachable start ShardRun.step nonDecreasing
      { run with
        limiter := run.limiter.enqueue batch expiresAt
        enqueued := run.enqueued ++ [batch] } := by
  have hop : nonDecreasing run (.enqueue batch expiresAt) := trivial
  exact h.next hop rfl

theorem reachable_drain {start : ShardRun → Prop} {run : ShardRun}
    (h : Reachable start ShardRun.step nonDecreasing run) {t : Readings} {finish : Time}
    (ht : t.Ordered run.clock finish) :
    Reachable start ShardRun.step nonDecreasing
      { run with
        limiter := (run.limiter.drain t).1
        clock := finish
        admitted := run.admitted ++ admissions t.take 0 (run.limiter.drain t).2.admitted
        expired := run.expired ++ (run.limiter.drain t).2.expired } := by
  have hop : nonDecreasing run (.drain t finish) := ht
  exact h.next hop rfl

/-! ## The head of the queue -/

/-- What the first query of a drain decides: a head it lets through is admitted, and
    behind a head it refuses the queue stands still. -/
theorem admitWhile_head (take : Nat → Nat → Time) (k : Nat) {b : TokenBucket} {s₀ s₁ : Stream}
    (hstreams : b.streams = [s₀, s₁]) (head : Pending) (rest : List Pending) :
    if 1 ≤ (grow (take k 0) s₀).tokens ∧ (head.batch.size : ℚ) ≤ (grow (take k 1) s₁).tokens then
      (admitWhile take k b (head :: rest)).1 ≠ []
    else
      (admitWhile take k b (head :: rest)).1 = [] ∧
        (admitWhile take k b (head :: rest)).2.2 = head :: rest := by
  have hsize : (0 : ℚ) ≤ (head.batch.size : ℚ) := Nat.cast_nonneg _
  rcases tryTake_pair hstreams (take k) hsize with
    ⟨hshort, hout⟩ | ⟨-, hshort, hout⟩ | ⟨hrecords, hbytes, hout⟩
  · rw [if_neg fun h => absurd h.1 (not_le.mpr hshort)]
    simp [admitWhile, hout]
  · rw [if_neg fun h => absurd h.2 (not_le.mpr hshort)]
    simp [admitWhile, hout]
  · rw [if_pos ⟨hrecords, hbytes⟩]
    simp [admitWhile, hout]

theorem filter_live_cons {now : Time} {head : Pending} (rest : List Pending)
    (hlive : now < head.expiresAt) :
    ((head :: rest).filter fun p => !p.expired now) =
      head :: rest.filter fun p => !p.expired now := by
  have hhead : head.expired now = false := decide_eq_false (not_le.mpr hlive)
  rw [List.filter_cons_of_pos (by simp [hhead])]

/-- A head larger than a second's worth of bytes stands in every drain that comes before
    it expires. -/
theorem drain_behind_oversized {R B : ℚ} (hR : 0 ≤ R) (hB : 0 ≤ B) {run : ShardRun}
    (h : Reachable (ShardRun.start R B) ShardRun.step nonDecreasing run) {head : Pending}
    {rest : List Pending} (hqueue : run.limiter.queue = head :: rest)
    (hover : B < head.batch.size) {t : Readings} {finish : Time} (ht : t.Ordered run.clock finish)
    (hlive : t.now < head.expiresAt) :
    (run.limiter.drain t).2.admitted = [] ∧
      (run.limiter.drain t).1.queue = head :: rest.filter fun p => !p.expired t.now := by
  rcases (ShardRun.refilling hR hB h).1 with ⟨s₀, s₁, hstreams, -, h₁⟩
  have hclock : run.clock ≤ t.take 0 1 := ht.start_le.trans ((ht.now_le 0).trans (ht.within 0))
  have hrefused := admitWhile_head t.take 0 hstreams head (rest.filter fun p => !p.expired t.now)
  rw [if_neg fun hpaid => absurd (hpaid.2.trans (h₁.le_rate hclock)) (not_le.mpr hover)] at hrefused
  change (admitWhile t.take 0 run.limiter.bucket _).1 = [] ∧
    (admitWhile t.take 0 run.limiter.bucket _).2.2 = _
  rw [hqueue, filter_live_cons rest hlive]
  exact hrefused

/-- A head no larger than a second's worth of bytes is admitted a second after the last
    admission. -/
theorem drain_fitting {R B : ℚ} (hR : 1 ≤ R) (hB : 0 ≤ B) {run : ShardRun}
    (h : Reachable (ShardRun.start R B) ShardRun.step nonDecreasing run) {head : Pending}
    {rest : List Pending} (hqueue : run.limiter.queue = head :: rest)
    (hfits : (head.batch.size : ℚ) ≤ B) {t : Readings} {finish : Time}
    (ht : t.Ordered run.clock finish) (hlive : t.now < head.expiresAt)
    (hquiet : ∀ a ∈ run.admitted, a.recordsAt + 1 ≤ t.now ∧ a.bytesAt + 1 ≤ t.now) :
    (run.limiter.drain t).2.admitted ≠ [] := by
  rcases (ShardRun.refilling (zero_le_one.trans hR) hB h).1 with ⟨s₀, s₁, hstreams, h₀, h₁⟩
  have hfirst : t.now ≤ t.take 0 0 := ht.now_le 0
  have hsecond : t.now ≤ t.take 0 1 := hfirst.trans (ht.within 0)
  have hrecords : (grow (t.take 0 0) s₀).tokens = R := by
    rw [h₀.level (ht.start_le.trans hfirst)]
    apply h₀.rested _ (ht.start_le.trans hfirst)
    intro e he
    rcases List.mem_map.mp he with ⟨a, ha, rfl⟩
    exact (hquiet a ha).1.trans hfirst
  have hbytes : (grow (t.take 0 1) s₁).tokens = B := by
    rw [h₁.level (ht.start_le.trans hsecond)]
    apply h₁.rested _ (ht.start_le.trans hsecond)
    intro e he
    rcases List.mem_map.mp he with ⟨a, ha, rfl⟩
    exact (hquiet a ha).2.trans hsecond
  have hadmits := admitWhile_head t.take 0 hstreams head (rest.filter fun p => !p.expired t.now)
  rw [hrecords, hbytes, if_pos ⟨hR, hfits⟩, ← filter_live_cons rest hlive] at hadmits
  change (admitWhile t.take 0 run.limiter.bucket _).1 ≠ []
  rw [hqueue]
  exact hadmits

/-- **Head-of-line progress.**  In every run of a shard with `R ≥ 1` and `B > 0`, a drain
    at a time when nothing queued has expired and the last admission is a second old
    admits something if and only if the head of the queue is no larger than `B`: always,
    then, where every batch put in is no larger than `B`.  A larger head stands, with
    everything behind it, in every drain before its own expiry. -/
theorem drain_progresses_iff_head_fits {R B : ℚ} (hR : 1 ≤ R) (hB : 0 < B) {run : ShardRun}
    (h : Reachable (ShardRun.start R B) ShardRun.step nonDecreasing run) {head : Pending}
    {rest : List Pending} (hqueue : run.limiter.queue = head :: rest) :
    (∀ t finish, t.Ordered run.clock finish → (∀ p ∈ run.limiter.queue, t.now < p.expiresAt) →
      (∀ a ∈ run.admitted, a.recordsAt + 1 ≤ t.now ∧ a.bytesAt + 1 ≤ t.now) →
      ((run.limiter.drain t).2.admitted ≠ [] ↔ (head.batch.size : ℚ) ≤ B) ∧
        ((∀ batch ∈ run.enqueued, (batch.size : ℚ) ≤ B) →
          (run.limiter.drain t).2.admitted ≠ [])) ∧
    (B < head.batch.size → ∀ t finish, t.Ordered run.clock finish → t.now < head.expiresAt →
      (run.limiter.drain t).2.admitted = [] ∧
        (run.limiter.drain t).1.queue = head :: rest.filter fun p => !p.expired t.now) := by
  have hR₀ : 0 ≤ R := zero_le_one.trans hR
  refine ⟨?_, fun hover t finish ht hlive =>
    drain_behind_oversized hR₀ hB.le h hqueue hover ht hlive⟩
  intro t finish ht hlive hquiet
  have hhead : head ∈ run.limiter.queue := by simp [hqueue]
  have hfitting : (head.batch.size : ℚ) ≤ B → (run.limiter.drain t).2.admitted ≠ [] :=
    fun hfits => drain_fitting hR hB.le h hqueue hfits ht (hlive head hhead) hquiet
  refine ⟨⟨?_, hfitting⟩, fun hall =>
    hfitting (hall _ ((ShardRun.refilling hR₀ hB.le h).2 head hhead))⟩
  intro hadmits
  by_contra hover
  exact hadmits
    (drain_behind_oversized hR₀ hB.le h hqueue (not_le.mp hover) ht (hlive head hhead)).1

/-- At one record and 100 bytes a second the second of two small batches leaves a second
    after the first. -/
theorem drain_progresses_iff_head_fits_small :
    ∃ run, Reachable (ShardRun.start 1 100) ShardRun.step nonDecreasing run ∧
      (run.limiter.drain (readingsAt 1)).2.admitted ≠ [] := by
  have hstart : Reachable (ShardRun.start 1 100) ShardRun.step nonDecreasing
      { limiter := .init 1 100 0, clock := 0 } := .start ⟨0, rfl⟩
  have hqueued := reachable_enqueue (reachable_enqueue hstart (singleton 0) 30) (singleton 1) 30
  have hrun := reachable_drain hqueued (readingsAt_ordered le_rfl)
  refine ⟨_, hrun, ?_⟩
  have hqueue : (((ShardLimiter.init 1 100 0).enqueue (singleton 0) 30 |>.enqueue
      (singleton 1) 30).drain (readingsAt 0)).1.queue = [⟨singleton 1, 30⟩] := by decide +kernel
  refine (((drain_progresses_iff_head_fits le_rfl (by norm_num) hrun hqueue).1 (readingsAt 1) 1
    (readingsAt_ordered zero_le_one) ?_ ?_).1).mpr ?_
  · decide +kernel
  · decide +kernel
  · decide +kernel

/-! ## A record of one mebibyte -/

/-- A batch that a Reducer of some Aggregator closes in some run. -/
def Emitted (batch : AggregatedBatch) : Prop :=
  ∃ (cfg : Aggregator.Config) (key : Option ShardId)
    (run : Reducer.Run BufferedRecord AggregatedBatch),
    Reachable (Reducer.Run.start (cfg.reducer key))
      (Reducer.Run.step (cfg.reducer key)) anyStep run ∧
      ∃ c ∈ run.closings, c.closed = batch

/-- Packing a single item closes it, whether it fits or not. -/
theorem packLoop_alone (cfg : Aggregator.Config) (key : Option ShardId) (record : BufferedRecord) :
    (Reducer.packLoop (cfg.reducer key) (cfg.reducer key).batchFactory [record]).1 =
      Batch.add (cfg.reducer key).batchFactory record := by
  simp only [Reducer.packLoop]
  split
  · rfl
  · rfl

/-- A record that fills a fresh batch leaves at once, alone, whatever its size. -/
theorem emitted_alone (cfg : Aggregator.Config) (key : Option ShardId) (record : BufferedRecord)
    (hfull : Reducer.mustClose (cfg.reducer key) record
      (Batch.add (cfg.reducer key).batchFactory record) = true) :
    Emitted (AggregatedBatch.add { predictedShard := key } record) := by
  have hstart : Reachable (Reducer.Run.start (cfg.reducer key))
      (Reducer.Run.step (cfg.reducer key)) anyStep
      { reducer := Reducer.init (cfg.reducer key), added := [], closings := [] } := .start rfl
  have hstep : (Reducer.add (cfg.reducer key) 0 record (Reducer.init (cfg.reducer key))).2 =
      some (AggregatedBatch.add { predictedShard := key } record) := by
    have hactive : (Reducer.init (cfg.reducer key)).active = (cfg.reducer key).batchFactory := rfl
    rw [Reducer.add]
    dsimp only
    rw [hactive, if_pos hfull]
    dsimp only
    rw [Reducer.packAndSplit_closed]
    exact congrArg some (packLoop_alone cfg key record)
  refine ⟨cfg, key, _, hstart.next (a := .add 0 record) trivial rfl, ?_⟩
  simp only [Reducer.Run.record, hstep]
  exact ⟨_, List.mem_singleton_self _, rfl⟩

/-- The size of a batch of one record without an explicit hash key. -/
theorem size_alone (key : Option ShardId) (record : BufferedRecord)
    (hkey : record.userRecord.explicitHashKey = none) :
    (AggregatedBatch.add { predictedShard := key } record).size =
      record.userRecord.data.length +
        (Aggregation.encodeUtf8 record.userRecord.partitionKey).length + 11 := by
  simp only [AggregatedBatch.size, AggregatedBatch.add, Totals.count, hkey, List.not_mem_nil,
    if_false, recordFraming, fieldFraming, indexReference]
  omega

/-- A record whose data is as large as the service takes. -/
def mebibyteRecord : BufferedRecord :=
  { ident := 0, userRecord := { partitionKey := "pk", data := List.replicate 1048576 0 },
    deadline := 0, hashKey := 0, arrivalTime := 0 }

/-- The batch the Aggregator makes of it. -/
def mebibyteBatch : AggregatedBatch := AggregatedBatch.add { predictedShard := none } mebibyteRecord

theorem mebibyteBatch_size : mebibyteBatch.size = 1048589 := by
  have hdata : mebibyteRecord.userRecord.data.length = 1048576 := List.length_replicate
  rw [mebibyteBatch, size_alone none mebibyteRecord rfl, hdata]
  rfl

/-- At the default rates the batch waits at the head of its shard's queue, with a batch
    of one small record behind it, and no drain before they expire admits either. -/
theorem mebibyteBatch_blocks :
    ∃ run, Reachable (ShardRun.start 1000 1048576) ShardRun.step nonDecreasing run ∧
      run.enqueued = [mebibyteBatch, singleton 0] ∧ run.admitted = [] ∧
      run.limiter.queue = [⟨mebibyteBatch, 30⟩, ⟨singleton 0, 30⟩] ∧ run.clock = 0 ∧
      ∀ t finish, t.Ordered run.clock finish → t.now < 30 →
        (run.limiter.drain t).2.admitted = [] := by
  have hstart : Reachable (ShardRun.start 1000 1048576) ShardRun.step nonDecreasing
      { limiter := .init 1000 1048576 0, clock := 0 } := .start ⟨0, rfl⟩
  have hrun := reachable_enqueue (reachable_enqueue hstart mebibyteBatch 30) (singleton 0) 30
  have hqueue : ((ShardLimiter.init 1000 1048576 0).enqueue mebibyteBatch 30 |>.enqueue
      (singleton 0) 30).queue = [⟨mebibyteBatch, 30⟩, ⟨singleton 0, 30⟩] := by
    have hdeadline :
        (Pending.mk mebibyteBatch 30).deadline ≤ (Pending.mk (singleton 0) 30).deadline := by
      have hbig : (Pending.mk mebibyteBatch 30).deadline = 0 := rfl
      have hsmall : (Pending.mk (singleton 0) 30).deadline = 0 := rfl
      rw [hbig, hsmall]
    simp [ShardLimiter.enqueue, ShardLimiter.init, sortBy, hdeadline]
  refine ⟨_, hrun, rfl, rfl, hqueue, rfl, fun t finish ht hlive => ?_⟩
  have hover : (1048576 : ℚ) < (mebibyteBatch.size : ℚ) := by
    rw [mebibyteBatch_size]
    norm_num
  exact (drain_behind_oversized (by norm_num) (by norm_num) hrun hqueue hover ht hlive).1

/-- So a head may block its shard although nothing has expired and nothing was ever
    admitted: the Aggregator emits the batch, since a full Reducer lets an oversized
    record go alone. -/
theorem not_every_drain_progresses :
    ¬ ∀ R B : ℚ, 1 ≤ R → 0 < B → ∀ run,
      Reachable (ShardRun.start R B) ShardRun.step nonDecreasing run →
      (∀ batch ∈ run.enqueued, Emitted batch) → run.limiter.queue ≠ [] →
      ∀ t finish, t.Ordered run.clock finish → (∀ p ∈ run.limiter.queue, t.now < p.expiresAt) →
        (∀ a ∈ run.admitted, a.recordsAt + 1 ≤ t.now ∧ a.bytesAt + 1 ≤ t.now) →
        (run.limiter.drain t).2.admitted ≠ [] := by
  intro hprogress
  rcases mebibyteBatch_blocks with ⟨run, hrun, henqueued, hadmitted, hqueue, hclock, hblocked⟩
  have hbig : Emitted mebibyteBatch := by
    have hsize : (51200 : Int) ≤ mebibyteBatch.size := by
      rw [mebibyteBatch_size]
      norm_num
    refine emitted_alone {} none mebibyteRecord ?_
    rw [Reducer.mustClose, Bool.or_eq_true, decide_eq_true_eq]
    exact Or.inr hsize
  have hsmall : Emitted (singleton 0) :=
    emitted_alone { aggregationEnabled := false } none _ (by decide +kernel)
  refine hprogress 1000 1048576 (by norm_num) (by norm_num) run hrun ?_ ?_ (readingsAt 1) 1
    (hclock ▸ readingsAt_ordered zero_le_one) ?_ ?_
    (hblocked (readingsAt 1) 1 (hclock ▸ readingsAt_ordered zero_le_one) (by norm_num [readingsAt]))
  · rw [henqueued]
    simp [hbig, hsmall]
  · simp [hqueue]
  · rw [hqueue]
    simp [readingsAt]
  · simp [hadmitted]

end Limiter

end Aiokpl
