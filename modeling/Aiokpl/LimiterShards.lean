import Aiokpl.LimiterRates
import Aiokpl.Lib.Keyed

/-!
# The rates of all shards (`aiokpl/limiter.py`)

A `Toll` is a batch that a drain has let through on the tokens of its shard.  Each
operation of a Limiter keeps its shards paced: the bucket of a shard accounts for the
tolls of that shard, and of no other, so that the rate envelope holds of each shard.
-/

namespace Aiokpl

open Lib

namespace Limiter

/-! ## The loop over the shards -/

section Each

variable (drain : Option ShardId → ShardLimiter → ShardLimiter × Drained)

/-- Every shard that the loop comes to is drained, once. -/
theorem drainEach_get? :
    ∀ {keys : List (Option ShardId)} (shards : Dict (Option ShardId) ShardLimiter)
    (key : Option ShardId), keys.Nodup →
      (drainEach drain keys shards).1.get? key =
        (shards.get? key).map fun s => if key ∈ keys then (drain key s).1 else s
  | [], shards, key, _ => by simp [drainEach]
  | key' :: keys, shards, key, hnodup => by
    obtain ⟨hfirst, hrest⟩ := List.nodup_cons.mp hnodup
    cases hget : shards.get? key' with
    | none =>
      simp only [drainEach, hget]
      rw [drainEach_get? shards key hrest]
      by_cases hkey : key = key'
      · rw [hkey, hget]
        rfl
      · simp [hkey]
    | some s =>
      simp only [drainEach, hget]
      rw [drainEach_get? _ key hrest, Dict.get?_set]
      by_cases hkey : key = key'
      · subst hkey
        simp [hget, hfirst]
      · simp [hkey]

/-- The loop hands out what each drain does, in its order. -/
theorem drainEach_drained : ∀ {keys : List (Option ShardId)}
    (shards : Dict (Option ShardId) ShardLimiter), keys.Nodup →
      (drainEach drain keys shards).2 =
        keys.filterMap fun key => (shards.get? key).map fun s => (drain key s).2
  | [], _, _ => rfl
  | key :: keys, shards, hnodup => by
    obtain ⟨hfirst, hrest⟩ := List.nodup_cons.mp hnodup
    cases hget : shards.get? key with
    | none =>
      simp only [drainEach, hget]
      rw [drainEach_drained shards hrest, List.filterMap_cons_none (by rw [hget]; rfl)]
    | some s =>
      simp only [drainEach, hget]
      rw [drainEach_drained _ hrest, List.filterMap_cons_some (by rw [hget]; rfl)]
      have hsame : (keys.filterMap fun key' => ((shards.set key (drain key s).1).get? key').map
            fun s => (drain key' s).2) =
          keys.filterMap fun key' => (shards.get? key').map fun s => (drain key' s).2 := by
        apply List.filterMap_congr
        intro key' hkey'
        have hne : key' ≠ key := fun heq => hfirst (heq ▸ hkey')
        rw [Dict.get?_set_ne _ _ hne]
      rw [hsame]

end Each

/-! ## Tolls -/

abbrev Toll := Option ShardId × Admission

/-- What a drain of one shard lets through. -/
def drainTolls (key : Option ShardId) (t : Readings) (s : ShardLimiter) : List Toll :=
  (admissions t.take 0 (s.drain t).2.admitted).map fun a => (key, a)

/-- What a put lets through. -/
def putTolls (cfg : Config) (t : PutReadings) (batch : AggregatedBatch) (l : State) : List Toll :=
  (admissions t.take 0 (put cfg t batch l).2.1.admitted).map fun a => (batch.predictedShard, a)

/-- What a tick of `_drain_loop` lets through. -/
def tickTolls (t : Option ShardId → Readings) (l : State) : List Toll :=
  l.shards.keys.flatMap fun key => (l.shards.get? key).toList.flatMap (drainTolls key (t key))

theorem drainTolls_batches (key : Option ShardId) (t : Readings) (s : ShardLimiter) :
    (drainTolls key t s).map (fun toll => toll.2.batch) = (s.drain t).2.admitted := by
  rw [drainTolls, List.map_map]
  exact admissions_batches t.take 0 _

/-- The tolls of a put are what it admits. -/
theorem putTolls_batches (cfg : Config) (t : PutReadings) (batch : AggregatedBatch) (l : State) :
    (putTolls cfg t batch l).map (fun toll => toll.2.batch) = (put cfg t batch l).2.1.admitted := by
  rw [putTolls, List.map_map]
  exact admissions_batches t.take 0 _

/-- The tolls of a tick are what it admits, shard by shard. -/
theorem tickTolls_batches (t : Option ShardId → Readings) (l : State) :
    (tickTolls t l).map (fun toll => toll.2.batch) =
      (drainAll t l).2.flatMap Drained.admitted := by
  have hnodup : l.shards.keys.Nodup := l.shards.nodup
  have hdrained : (drainAll t l).2 = _ :=
    drainEach_drained (fun key => ShardLimiter.drain (t key)) l.shards hnodup
  rw [hdrained, tickTolls, List.map_flatMap]
  clear hdrained hnodup
  induction l.shards.keys with
  | nil => rfl
  | cons key keys ih =>
    rw [List.flatMap_cons, ih]
    cases hget : l.shards.get? key with
    | none => rw [List.filterMap_cons_none (by rw [hget]; rfl)]; rfl
    | some s =>
      rw [List.filterMap_cons_some (by rw [hget]; rfl), List.flatMap_cons]
      congr 1
      rw [Option.toList_some, List.flatMap_singleton]
      exact drainTolls_batches key (t key) s

/-- A shard passes in a tick what its own drain lets through. -/
theorem under_tickTolls (t : Option ShardId → Readings) (l : State) (key : Option ShardId) :
    under key (tickTolls t l) = (l.shards.get? key).toList.flatMap fun s =>
      admissions (t key).take 0 (s.drain (t key)).2.admitted := by
  have hlisted : tickTolls t l = l.shards.keys.flatMap fun key' =>
      ((l.shards.get? key').toList.flatMap fun s =>
        admissions (t key').take 0 (s.drain (t key')).2.admitted).map fun a => (key', a) := by
    rw [tickTolls]
    apply List.flatMap_congr
    intro key' _
    cases l.shards.get? key' with
    | none => rfl
    | some s =>
      rw [Option.toList_some, List.flatMap_singleton, List.flatMap_singleton]
      rfl
  have hnodup : l.shards.keys.Nodup := l.shards.nodup
  rw [hlisted, under_each key _ hnodup]
  split
  · rfl
  · rename_i hnone
    rw [Dict.get?_eq_none_iff.mpr hnone]
    rfl

/-! ## Paced shards -/

/-- The bucket of each shard accounts for what the shard has passed; a shard that has no
    bucket yet has passed nothing. -/
structure Paced (recordRate byteRate clock : ℚ) (tolls : List Toll) (l : State) : Prop where
  held : ∀ key s, l.shards.get? key = some s →
    Accounted recordRate byteRate clock (under key tolls) s.bucket
  fresh : ∀ key, l.shards.get? key = none → under key tolls = []

section Paced

variable {recordRate byteRate clock finish : ℚ} {tolls : List Toll} {l : State}

theorem paced_empty (recordRate byteRate clock : ℚ) :
    Paced recordRate byteRate clock [] ({} : State) :=
  ⟨fun _ _ hget => (by cases hget), fun _ _ => rfl⟩

theorem Paced.advance (h : Paced recordRate byteRate clock tolls l) (hle : clock ≤ finish) :
    Paced recordRate byteRate finish tolls l :=
  ⟨fun key s hget => (h.held key s hget).advance hle, h.fresh⟩

/-- A drain of one shard. -/
theorem drain_accounted {t : Readings} {start : Time} (hordered : t.Ordered start finish)
    {s : ShardLimiter} {admitted : List Admission} (hclock : clock ≤ t.now)
    (h : Accounted recordRate byteRate clock admitted s.bucket) :
    Accounted recordRate byteRate finish
      (admitted ++ admissions t.take 0 (s.drain t).2.admitted) (s.drain t).1.bucket :=
  admitWhile_accounted hordered 0 _ s.bucket clock admitted (hclock.trans (hordered.now_le 0)) h

/-- **A put** keeps every shard paced. -/
theorem Paced.put {cfg : Config} (hrecords : 0 ≤ cfg.recordsPerSecPerShard)
    (hbytes : 0 ≤ cfg.bytesPerSecPerShard)
    (h : Paced cfg.recordsPerSecPerShard cfg.bytesPerSecPerShard clock tolls l) {t : PutReadings}
    (hcreated : clock ≤ t.created) (hnow : t.created ≤ t.now)
    (hordered : t.toReadings.Ordered clock finish) (batch : AggregatedBatch) :
    Paced cfg.recordsPerSecPerShard cfg.bytesPerSecPerShard finish
      (tolls ++ putTolls cfg t batch l) (Limiter.put cfg t batch l).1 := by
  have hle : clock ≤ finish := (hordered.start_le.trans (hordered.now_le 0)).trans
    ((hordered.within 0).trans (hordered.le_finish 0))
  let s := (l.shards.get? batch.predictedShard).getD
    (.init cfg.recordsPerSecPerShard cfg.bytesPerSecPerShard t.created)
  have hshard : Accounted cfg.recordsPerSecPerShard cfg.bytesPerSecPerShard t.created
      (under batch.predictedShard tolls) s.bucket := by
    cases hget : l.shards.get? batch.predictedShard with
    | none =>
      have hs : s = .init cfg.recordsPerSecPerShard cfg.bytesPerSecPerShard t.created := by
        simp [s, hget]
      rw [hs, h.fresh _ hget]
      exact TokenBucket.init_metered hrecords hbytes t.created
    | some s' =>
      have hs : s = s' := by simp [s, hget]
      rw [hs]
      exact (h.held _ _ hget).advance hcreated
  have hdrained := drain_accounted (s := s.enqueue batch (t.enqueued + cfg.expiration)) hordered
    hnow hshard
  refine ⟨fun key s' hget => ?_, fun key hget => ?_⟩
  · rw [under_append]
    by_cases hkey : batch.predictedShard = key
    · subst hkey
      rw [putTolls, under_map_self]
      have hs' : ((s.enqueue batch (t.enqueued + cfg.expiration)).drain t.toReadings).1 = s' := by
        simpa [Limiter.put, s] using hget
      rw [← hs']
      exact hdrained
    · rw [putTolls, under_map_ne hkey, List.append_nil]
      have hold : l.shards.get? key = some s' := by
        simpa [Limiter.put, Dict.get?_set, show key ≠ batch.predictedShard from
          fun heq => hkey heq.symm] using hget
      exact (h.held key s' hold).advance hle
  · have hne : batch.predictedShard ≠ key := by
      rintro rfl
      simp [Limiter.put] at hget
    have hold : l.shards.get? key = none := by
      simpa [Limiter.put, Dict.get?_set, show key ≠ batch.predictedShard from
        fun heq => hne heq.symm] using hget
    rw [under_append, putTolls, under_map_ne hne, h.fresh key hold, List.append_nil]

/-- **A tick** keeps every shard paced. -/
theorem Paced.tick (h : Paced recordRate byteRate clock tolls l) {t : Option ShardId → Readings}
    (hordered : ∀ key, (t key).Ordered clock finish) :
    Paced recordRate byteRate finish (tolls ++ tickTolls t l) (drainAll t l).1 := by
  have hshards : ∀ key, (drainAll t l).1.shards.get? key =
      (l.shards.get? key).map fun s => if key ∈ l.shards.keys then (s.drain (t key)).1 else s :=
    fun key => drainEach_get? (fun key => ShardLimiter.drain (t key)) l.shards key l.shards.nodup
  refine ⟨fun key s' hget => ?_, fun key hget => ?_⟩
  · rw [hshards] at hget
    obtain ⟨s, hs, hs'⟩ := Option.map_eq_some_iff.mp hget
    have hkey : key ∈ l.shards.keys := by
      by_contra hnone
      rw [Dict.get?_eq_none_iff.mpr hnone] at hs
      cases hs
    rw [if_pos hkey] at hs'
    rw [← hs', under_append, under_tickTolls, hs, Option.toList_some, List.flatMap_singleton]
    exact drain_accounted (hordered key) (hordered key).start_le (h.held key s hs)
  · rw [hshards, Option.map_eq_none_iff] at hget
    rw [under_append, under_tickTolls, hget, h.fresh key hget]
    rfl

/-- A flush takes no tokens. -/
theorem Paced.flush (h : Paced recordRate byteRate clock tolls l) (now : Option ShardId → Time) :
    Paced recordRate byteRate clock tolls (Limiter.flush now l).1 := by
  have hshards : ∀ key, (Limiter.flush now l).1.shards.get? key = (l.shards.get? key).map fun s =>
      if key ∈ l.shards.keys then (s.drainForce (now key)).1 else s :=
    fun key => drainEach_get? (fun key => ShardLimiter.drainForce (now key)) l.shards key
      l.shards.nodup
  refine ⟨fun key s' hget => ?_, fun key hget => ?_⟩
  · rw [hshards] at hget
    obtain ⟨s, hs, rfl⟩ := Option.map_eq_some_iff.mp hget
    have hsame : (if key ∈ l.shards.keys then (s.drainForce (now key)).1 else s).bucket =
        s.bucket := by
      split <;> rfl
    rw [hsame]
    exact h.held key s hs
  · rw [hshards, Option.map_eq_none_iff] at hget
    exact h.fresh key hget

/-- **The envelope of a paced shard.** -/
theorem Paced.envelope (hrecords : 0 ≤ recordRate) (hbytes : 0 ≤ byteRate)
    (h : Paced recordRate byteRate clock tolls l) (key : Option ShardId) {t₁ t₂ : ℚ}
    (hle : t₁ ≤ t₂) :
    (((under key tolls).filter fun a => t₁ ≤ a.recordsAt ∧ a.recordsAt ≤ t₂).length : ℚ) ≤
        recordRate + recordRate * (t₂ - t₁) ∧
      (((under key tolls).filter fun a => t₁ ≤ a.bytesAt ∧ a.bytesAt ≤ t₂).map
        fun a => (a.batch.size : ℚ)).sum ≤ byteRate + byteRate * (t₂ - t₁) := by
  cases hget : l.shards.get? key with
  | none =>
    have hspan : 0 ≤ t₂ - t₁ := sub_nonneg.mpr hle
    rw [h.fresh key hget]
    constructor
    · simpa using add_nonneg hrecords (mul_nonneg hrecords hspan)
    · simpa using add_nonneg hbytes (mul_nonneg hbytes hspan)
  | some s =>
    obtain ⟨s₀, s₁, _, hfirst, hsecond⟩ := h.held key s hget
    constructor
    · have hwindow := hfirst.envelope.window t₁ t₂ hle
      rw [recordLog, spentIn_map] at hwindow
      simpa using hwindow
    · have hwindow := hsecond.envelope.window t₁ t₂ hle
      rwa [byteLog, spentIn_map] at hwindow

end Paced

end Limiter

end Aiokpl
