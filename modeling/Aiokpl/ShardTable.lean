import Aiokpl.ShardMapRuns

/-!
# The shard table over installs and cleanups

Three tables change together: what `predict` searches, what `hashrange` answers
from, and the closed markers.  An install looks for markers only among the shards
of the previous table, so the marker of a shard that an install has dropped for its
age survives until a cleanup; if the shard is listed again before that, the marker
ends up on an open shard.
-/

namespace Aiokpl

open Lib

namespace ShardMap

/-! ## The two operations, shard by shard -/

section Merge

variable (ttl now : Time) (fetched : Dict ShardId Shard) {sid : ShardId}
  (acc : Dict ShardId Time × Dict ShardId Shard)

theorem mergeClosed_other {entry : ShardId × Shard} (h : sid ≠ entry.1) :
    (mergeClosed ttl now fetched acc entry).1.get? sid = acc.1.get? sid ∧
      (mergeClosed ttl now fetched acc entry).2.get? sid = acc.2.get? sid := by
  simp only [mergeClosed]
  split
  · exact ⟨by rw [Dict.get?_erase, if_neg h], rfl⟩
  · split
    · exact ⟨Dict.get?_set_ne _ _ h, Dict.get?_set_ne _ _ h⟩
    · exact ⟨Dict.get?_set_ne _ _ h, rfl⟩

/-- The loop changes nothing about a shard that was not in the previous table. -/
theorem mergeClosed_absent {es : List (ShardId × Shard)} (h : sid ∉ es.map Prod.fst) :
    (es.foldl (mergeClosed ttl now fetched) acc).1.get? sid = acc.1.get? sid ∧
      (es.foldl (mergeClosed ttl now fetched) acc).2.get? sid = acc.2.get? sid := by
  induction es generalizing acc with
  | nil => exact ⟨rfl, rfl⟩
  | cons entry es ih =>
    rw [List.map_cons, List.mem_cons, not_or] at h
    obtain ⟨hclosed, hmerged⟩ := ih (mergeClosed ttl now fetched acc entry) h.2
    obtain ⟨hclosed', hmerged'⟩ := mergeClosed_other ttl now fetched acc h.1
    exact ⟨hclosed.trans hclosed', hmerged.trans hmerged'⟩

/-- The turn of a shard: its marker and its entry, from those before. -/
def turn (sid : ShardId) (shard : Shard) (marker : Option Time) (entry : Option Shard) :
    Option Time × Option Shard :=
  if (fetched.get? sid).isSome then (none, entry)
  else (some (marker.getD now), if marker.getD now + ttl > now then some shard else entry)

theorem mergeClosed_turn (shard : Shard) :
    ((mergeClosed ttl now fetched acc (sid, shard)).1.get? sid,
      (mergeClosed ttl now fetched acc (sid, shard)).2.get? sid) =
      turn ttl now fetched sid shard (acc.1.get? sid) (acc.2.get? sid) := by
  simp only [mergeClosed, turn]
  split
  · simp
  · split <;> simp

/-- A shard of the previous table has one turn. -/
theorem mergeClosed_present {es : List (ShardId × Shard)} {shard : Shard}
    (hnodup : (es.map Prod.fst).Nodup) (hmem : (sid, shard) ∈ es) :
    ((es.foldl (mergeClosed ttl now fetched) acc).1.get? sid,
      (es.foldl (mergeClosed ttl now fetched) acc).2.get? sid) =
      turn ttl now fetched sid shard (acc.1.get? sid) (acc.2.get? sid) := by
  induction es generalizing acc with
  | nil => simp at hmem
  | cons entry es ih =>
    rw [List.map_cons, List.nodup_cons] at hnodup
    rw [List.foldl_cons]
    rcases List.mem_cons.mp hmem with rfl | hrest
    · obtain ⟨hclosed, hmerged⟩ := mergeClosed_absent ttl now fetched
        (mergeClosed ttl now fetched acc (sid, shard)) hnodup.1
      rw [hclosed, hmerged]
      exact mergeClosed_turn ttl now fetched acc shard
    · have hne : sid ≠ entry.1 := by
        intro heq
        exact hnodup.1 (List.mem_map.mpr ⟨_, hrest, heq⟩)
      obtain ⟨hclosed, hmerged⟩ := mergeClosed_other ttl now fetched acc hne
      rw [ih (mergeClosed ttl now fetched acc entry) hnodup.2 hrest, hclosed, hmerged]

end Merge

theorem scheduleCleanup_kept (m : State) :
    (scheduleCleanup m).closedAt = m.closedAt ∧ (scheduleCleanup m).snapshot = m.snapshot ∧
      (scheduleCleanup m).closed = m.closed := by
  unfold scheduleCleanup
  split
  · exact ⟨rfl, rfl, rfl⟩
  · cases m.cleanupScope <;> dsimp only <;> split <;> exact ⟨rfl, rfl, rfl⟩

/-- **An install, shard by shard.** -/
theorem install_get? (cfg : Config) (now : Time) (scope : Nat) (fetched : Snapshot) (m : State)
    (sid : ShardId) :
    ((install cfg now scope fetched m).closedAt.get? sid,
      (install cfg now scope fetched m).snapshot.shards.get? sid) =
      match m.snapshot.shards.get? sid with
      | none => (m.closedAt.get? sid, fetched.shards.get? sid)
      | some shard => turn cfg.closedShardTtl now fetched.shards sid shard (m.closedAt.get? sid)
          (fetched.shards.get? sid) := by
  simp only [install, endRefresh, scheduleCleanup_kept]
  cases hget : m.snapshot.shards.get? sid with
  | none =>
    obtain ⟨hclosed, hmerged⟩ := mergeClosed_absent cfg.closedShardTtl now fetched.shards
      (m.closedAt, fetched.shards) (Dict.get?_eq_none_iff.mp hget)
    exact Prod.ext hclosed hmerged
  | some shard =>
    exact mergeClosed_present cfg.closedShardTtl now fetched.shards (m.closedAt, fetched.shards)
      m.snapshot.shards.nodup (Dict.get?_eq_some_iff.mp hget)

theorem get?_foldl_erase {κ ν : Type} [DecidableEq κ] (keys : List κ) (d : Dict κ ν) (k : κ) :
    (keys.foldl Dict.erase d).get? k = if k ∈ keys then none else d.get? k := by
  induction keys generalizing d with
  | nil => simp
  | cons key keys ih =>
    rw [List.foldl_cons, ih, Dict.get?_erase]
    by_cases hk : k = key <;> by_cases hrest : k ∈ keys <;> simp [hk, hrest]

/-- The marker of the shard is a TTL old. -/
def Outlived (cfg : Config) (now : Time) (m : State) (sid : ShardId) : Prop :=
  ∃ t, m.closedAt.get? sid = some t ∧ t + cfg.closedShardTtl ≤ now

/-- **A cleanup, shard by shard.** -/
theorem cleanup_get? {cfg : Config} {now : Time} {m : State} (hopen : m.closed = false)
    (hready : m.state = .ready) (sid : ShardId) :
    (Outlived cfg now m sid → (cleanup cfg now m).closedAt.get? sid = none ∧
      (cleanup cfg now m).snapshot.shards.get? sid = none) ∧
    (¬ Outlived cfg now m sid →
      (cleanup cfg now m).closedAt.get? sid = m.closedAt.get? sid ∧
      (cleanup cfg now m).snapshot.shards.get? sid = m.snapshot.shards.get? sid) := by
  let expired := (m.closedAt.entries.filter fun e => e.2 + cfg.closedShardTtl ≤ now).map Prod.fst
  have hexpired : sid ∈ expired ↔ Outlived cfg now m sid := by
    simp only [expired, List.mem_map, List.mem_filter, decide_eq_true_eq, Prod.exists,
      exists_and_right, exists_eq_right, Outlived, Dict.get?_eq_some_iff]
  have hget : (cleanup cfg now m).closedAt.get? sid =
        (if sid ∈ expired then none else m.closedAt.get? sid) ∧
      (cleanup cfg now m).snapshot.shards.get? sid =
        if sid ∈ expired then none else m.snapshot.shards.get? sid := by
    by_cases hnone : expired = []
    · have hsame : cleanup cfg now m = { m with cleanupScope := none } := by
        simp only [cleanup, hopen, hready]
        exact if_pos hnone
      simp [hsame, hnone]
    · have hsame : cleanup cfg now m = { m with
          cleanupScope := none
          snapshot := { m.snapshot with shards := expired.foldl Dict.erase m.snapshot.shards }
          closedAt := expired.foldl Dict.erase m.closedAt } := by
        simp only [cleanup, hopen, hready]
        exact if_neg hnone
      simp [hsame, get?_foldl_erase]
  constructor
  · intro h
    have hmem := hexpired.mpr h
    simpa [hmem] using hget
  · intro h
    have hmem : sid ∉ expired := fun hin => h (hexpired.mp hin)
    simpa [hmem] using hget

/-! ## The fetched table -/

/-- `_fetch_all_pages` on pages that list these shards in this order. -/
def fetch (shards : List Shard) : Snapshot := (shards.foldl Fetched.add {}).snapshot

theorem fetched_get? {shards : List Shard} {f : Fetched} {sid : ShardId} :
    (sid ∉ shards.map Shard.shardId →
      (shards.foldl Fetched.add f).shards.get? sid = f.shards.get? sid) ∧
    (sid ∈ shards.map Shard.shardId → ∃ s ∈ shards, s.shardId = sid ∧
      (shards.foldl Fetched.add f).shards.get? sid = some s) := by
  induction shards generalizing f with
  | nil => simp
  | cons s shards ih =>
    obtain ⟨ihabsent, ihpresent⟩ := ih (f := f.add s)
    rw [List.foldl_cons, List.map_cons, List.mem_cons]
    have hself : (f.add s).shards.get? s.shardId = some s := Dict.get?_set_self ..
    constructor
    · intro h
      rw [not_or] at h
      rw [ihabsent h.2]
      exact Dict.get?_set_ne _ _ h.1
    · intro h
      by_cases hrest : sid ∈ shards.map Shard.shardId
      · obtain ⟨t, ht, hid, hget⟩ := ihpresent hrest
        exact ⟨t, List.mem_cons_of_mem _ ht, hid, hget⟩
      · have hsid : sid = s.shardId := h.resolve_right hrest
        subst hsid
        exact ⟨s, List.mem_cons_self, rfl, (ihabsent hrest).trans hself⟩

theorem fetch_absent {shards : List Shard} {sid : ShardId} (h : sid ∉ shards.map Shard.shardId) :
    (fetch shards).shards.get? sid = none :=
  (fetched_get? (f := {})).1 h

theorem fetch_present {shards : List Shard} {sid : ShardId} (h : sid ∈ shards.map Shard.shardId) :
    ∃ s ∈ shards, s.shardId = sid ∧ (fetch shards).shards.get? sid = some s :=
  (fetched_get? (f := {})).2 h

theorem fetch_shardIds {shards : List Shard} {sid : ShardId} (h : sid ∈ (fetch shards).shardIds) :
    sid ∈ shards.map Shard.shardId := by
  obtain ⟨fetched, hperm, _, hids⟩ := tabulates_fetched shards
  have hsid : sid ∈ (sortEndings (rows fetched)).map Prod.snd := hids ▸ h
  obtain ⟨row, hrow, rfl⟩ := List.mem_map.mp hsid
  rw [sortEndings, mem_sortBy, rows, List.mem_map] at hrow
  obtain ⟨s, hs, rfl⟩ := hrow
  exact List.mem_map.mpr ⟨s, hperm.subset hs, rfl⟩

/-! ## Histories -/

/-- A shard map with the ids of the latest list and, for each shard that is not in it,
    the time of the install that last removed it. -/
structure Table where
  map : State
  listed : List ShardId := []
  removedAt : ShardId → Option Time := fun _ => none
  clock : Time

/-- A successful refresh, by the loop under `scope`, or a cleanup. -/
inductive TableOp
  | install (now : Time) (scope : Nat) (shards : List Shard)
  | cleanup (now : Time)

def Table.step (cfg : Config) (r : Table) : TableOp → Option Table
  | .install now scope shards =>
    let ids := shards.map Shard.shardId
    some
      { map := install cfg now scope (fetch shards) r.map
        listed := ids
        removedAt := fun sid =>
          if sid ∈ ids then none else if sid ∈ r.listed then some now else r.removedAt sid
        clock := now }
  | .cleanup now =>
    if r.map.state = .ready then
      some { r with map := cleanup cfg now r.map, clock := now }
    else none

/-- A map that has been entered. -/
def Table.start (cfg : Config) (r : Table) : Prop :=
  ∃ t, r = { map := enter (init cfg), clock := t }

/-- The range of a shard. -/
def rangeOf (s : Shard) : Nat × Nat := (s.startingHashKey, s.endingHashKey)

/-- Times do not go back, and an id always has the same range. -/
def timely (range : ShardId → Nat × Nat) (r : Table) : TableOp → Prop
  | .install now _ shards => r.clock ≤ now ∧ ∀ s ∈ shards, rangeOf s = range s.shardId
  | .cleanup now => r.clock ≤ now

/-- Moreover, a listed shard that has a closed marker is still in the table. -/
def findsMarked (range : ShardId → Nat × Nat) (r : Table) (op : TableOp) : Prop :=
  timely range r op ∧
    match op with
    | .install _ _ shards => ∀ s ∈ shards, (r.map.closedAt.get? s.shardId).isSome →
        (r.map.snapshot.shards.get? s.shardId).isSome
    | .cleanup _ => True

/-- What the table must answer. -/
structure Table.Answers (cfg : Config) (range : ShardId → Nat × Nat) (r : Table) : Prop where
  listed : ∀ sid ∈ r.listed, hashrange r.map sid = some (range sid)
  kept : ∀ sid ∉ r.listed, ∀ t, r.removedAt sid = some t → r.clock < t + cfg.closedShardTtl →
    hashrange r.map sid = some (range sid)
  gone : ∀ sid ∉ r.listed, ∀ t, r.removedAt sid = some t → t + cfg.closedShardTtl ≤ r.clock →
    hashrange r.map sid = none
  unknown : ∀ sid ∉ r.listed, r.removedAt sid = none → hashrange r.map sid = none
  predicted : ∀ hashKey sid, predict r.map hashKey = some sid → (hashrange r.map sid).isSome
  unmarked : ∀ sid ∈ r.listed, r.map.closedAt.get? sid = none

/-! ## The invariant -/

/-- The entry of the shard in the table has the range of its id. -/
def Ranged (range : ShardId → Nat × Nat) (sid : ShardId) (m : State) : Prop :=
  ∃ s, m.snapshot.shards.get? sid = some s ∧ rangeOf s = range sid

/-- What is known of one shard. -/
structure Table.Tracks (cfg : Config) (range : ShardId → Nat × Nat) (r : Table) (sid : ShardId) :
    Prop where
  listed : sid ∈ r.listed → Ranged range sid r.map ∧ r.map.closedAt.get? sid = none
  kept : sid ∉ r.listed → ∀ t, r.removedAt sid = some t → r.clock < t + cfg.closedShardTtl →
    Ranged range sid r.map ∧ r.map.closedAt.get? sid = some t
  gone : sid ∉ r.listed → ∀ t, r.removedAt sid = some t → t + cfg.closedShardTtl ≤ r.clock →
    r.map.snapshot.shards.get? sid = none ∧
      ∀ t' ∈ r.map.closedAt.get? sid, t' + cfg.closedShardTtl ≤ r.clock
  unknown : sid ∉ r.listed → r.removedAt sid = none →
    r.map.snapshot.shards.get? sid = none ∧ r.map.closedAt.get? sid = none

structure Table.Sound (cfg : Config) (range : ShardId → Nat × Nat) (r : Table) : Prop where
  open_ : r.map.closed = false
  searched : ∀ sid ∈ r.map.snapshot.shardIds, sid ∈ r.listed
  tracks : ∀ sid, r.Tracks cfg range sid

theorem Table.Sound.answers {cfg : Config} {range : ShardId → Nat × Nat} {r : Table}
    (h : r.Sound cfg range) : r.Answers cfg range := by
  have hranged : ∀ sid, Ranged range sid r.map → hashrange r.map sid = some (range sid) := by
    intro sid hranged
    obtain ⟨s, hget, hs⟩ := hranged
    rw [hashrange, Snapshot.hashrange, hget, ← hs]
    rfl
  have hnone : ∀ sid, r.map.snapshot.shards.get? sid = none → hashrange r.map sid = none := by
    intro sid hget
    rw [hashrange, Snapshot.hashrange, hget]
    rfl
  constructor
  · intro sid hsid
    exact hranged sid ((h.tracks sid).listed hsid).1
  · intro sid hsid t ht hclock
    exact hranged sid ((h.tracks sid).kept hsid t ht hclock).1
  · intro sid hsid t ht hclock
    exact hnone sid ((h.tracks sid).gone hsid t ht hclock).1
  · intro sid hsid ht
    exact hnone sid ((h.tracks sid).unknown hsid ht).1
  · intro hashKey sid hpredict
    rw [predict] at hpredict
    split at hpredict
    · have hsid := h.searched sid (List.mem_of_getElem? hpredict)
      rw [hranged sid ((h.tracks sid).listed hsid).1]
      rfl
    · cases hpredict
  · intro sid hsid
    exact ((h.tracks sid).listed hsid).2

theorem install_tracks {cfg : Config} {range : ShardId → Nat × Nat} {r : Table} {now : Time}
    {scope : Nat} {shards : List Shard} {sid : ShardId} (h : r.Tracks cfg range sid)
    (hclock : r.clock ≤ now) (hrange : ∀ s ∈ shards, rangeOf s = range s.shardId)
    (hmarked : sid ∈ shards.map Shard.shardId → (r.map.closedAt.get? sid).isSome →
      (r.map.snapshot.shards.get? sid).isSome) {r' : Table}
    (hstep : r.step cfg (.install now scope shards) = some r') : r'.Tracks cfg range sid := by
  obtain rfl := Option.some.inj hstep
  obtain ⟨hlisted, hkept, hgone, hunknown⟩ := h
  have hafter := install_get? cfg now scope (fetch shards) r.map sid
  by_cases hnew : sid ∈ shards.map Shard.shardId
  · -- a listed shard has its fetched entry and no marker
    obtain ⟨s, hs, rfl, hfetched⟩ := fetch_present hnew
    have hentry : (install cfg now scope (fetch shards) r.map).closedAt.get? s.shardId = none ∧
        (install cfg now scope (fetch shards) r.map).snapshot.shards.get? s.shardId = some s := by
      cases hprevious : r.map.snapshot.shards.get? s.shardId with
      | none =>
        have hunmarked : r.map.closedAt.get? s.shardId = none := by
          by_contra hmarker
          have hsome := hmarked hnew (Option.isSome_iff_ne_none.mpr hmarker)
          simp [hprevious] at hsome
        simp only [hprevious, hfetched, hunmarked, Prod.mk.injEq] at hafter
        exact hafter
      | some shard =>
        simp only [hprevious, turn, hfetched, Option.isSome_some, if_true, Prod.mk.injEq] at hafter
        exact hafter
    constructor
    · intro _
      exact ⟨⟨s, hentry.2, hrange s hs⟩, hentry.1⟩
    · intro hnot
      exact absurd hnew hnot
    · intro hnot
      exact absurd hnew hnot
    · intro hnot
      exact absurd hnew hnot
  · have hfetched := fetch_absent hnew
    by_cases hold : sid ∈ r.listed
    · -- the install removes the shard
      obtain ⟨⟨shard, hprevious, hshard⟩, hunmarked⟩ := hlisted hold
      simp only [hprevious, turn, hfetched, hunmarked, Option.isSome_none, Bool.false_eq_true,
        if_false, Option.getD_none, Prod.mk.injEq] at hafter
      obtain ⟨hmarker, hentry⟩ := hafter
      constructor
      · intro hin
        exact absurd hin hnew
      · intro _ t ht hlater
        simp only [hnew, hold, if_true, if_false, Option.some.injEq] at ht
        subst ht
        refine ⟨⟨shard, ?_, hshard⟩, hmarker⟩
        rw [hentry, if_pos hlater]
      · intro _ t ht hlater
        simp only [hnew, hold, if_true, if_false, Option.some.injEq] at ht
        subst ht
        refine ⟨?_, ?_⟩
        · rw [hentry, if_neg (not_lt.mpr hlater)]
        · intro t' ht'
          rw [hmarker] at ht'
          obtain rfl := Option.some.inj ht'
          exact hlater
      · intro _ hnone
        simp [hnew, hold] at hnone
    · have hsame : (if sid ∈ shards.map Shard.shardId then none
          else if sid ∈ r.listed then some now else r.removedAt sid) = r.removedAt sid := by
        rw [if_neg hnew, if_neg hold]
      constructor
      · intro hin
        exact absurd hin hnew
      · intro _ t ht hlater
        obtain ⟨⟨shard, hprevious, hshard⟩, hmarker⟩ :=
          hkept hold t (hsame ▸ ht) (hclock.trans_lt hlater)
        simp only [hprevious, turn, hfetched, hmarker, Option.isSome_none, Bool.false_eq_true,
          if_false, Option.getD_some, Prod.mk.injEq] at hafter
        refine ⟨⟨shard, ?_, hshard⟩, hafter.1⟩
        rw [hafter.2, if_pos hlater]
      · intro _ t ht hlater
        rcases lt_or_ge r.clock (t + cfg.closedShardTtl) with hearlier | hearlier
        · obtain ⟨⟨shard, hprevious, hshard⟩, hmarker⟩ := hkept hold t (hsame ▸ ht) hearlier
          simp only [hprevious, turn, hfetched, hmarker, Option.isSome_none, Bool.false_eq_true,
            if_false, Option.getD_some, Prod.mk.injEq] at hafter
          refine ⟨?_, ?_⟩
          · rw [hafter.2, if_neg (not_lt.mpr hlater)]
          · intro t' ht'
            rw [hafter.1] at ht'
            obtain rfl := Option.some.inj ht'
            exact hlater
        · obtain ⟨hprevious, hmarkers⟩ := hgone hold t (hsame ▸ ht) hearlier
          simp only [hprevious, hfetched, Prod.mk.injEq] at hafter
          refine ⟨hafter.2, ?_⟩
          intro t' ht'
          rw [hafter.1] at ht'
          exact (hmarkers t' ht').trans hclock
      · intro _ hnone
        obtain ⟨hprevious, hunmarked⟩ := hunknown hold (hsame ▸ hnone)
        simp only [hprevious, hfetched, hunmarked, Prod.mk.injEq] at hafter
        exact ⟨hafter.2, hafter.1⟩

theorem cleanup_tracks {cfg : Config} {range : ShardId → Nat × Nat} {r : Table} {now : Time}
    {sid : ShardId} (h : r.Tracks cfg range sid) (hopen : r.map.closed = false)
    (hready : r.map.state = .ready) (hclock : r.clock ≤ now) :
    Table.Tracks cfg range { r with map := cleanup cfg now r.map, clock := now } sid := by
  obtain ⟨hlisted, hkept, hgone, hunknown⟩ := h
  obtain ⟨hpurged, hspared⟩ := @cleanup_get? cfg now r.map hopen hready sid
  have hspares : ∀ t, r.map.closedAt.get? sid = some t → now < t + cfg.closedShardTtl →
      ¬ Outlived cfg now r.map sid := by
    intro t ht hlater hout
    obtain ⟨t', ht', hold⟩ := hout
    obtain rfl := Option.some.inj (ht.symm.trans ht')
    exact absurd hlater (not_lt.mpr hold)
  have hunmarked : r.map.closedAt.get? sid = none → ¬ Outlived cfg now r.map sid := by
    intro hnone hout
    obtain ⟨t', ht', _⟩ := hout
    rw [hnone] at ht'
    cases ht'
  constructor
  · intro hin
    obtain ⟨⟨s, hget, hs⟩, hnone⟩ := hlisted hin
    obtain ⟨hmarker, hentry⟩ := hspared (hunmarked hnone)
    exact ⟨⟨s, hentry.trans hget, hs⟩, hmarker.trans hnone⟩
  · intro hin t ht hlater
    obtain ⟨⟨s, hget, hs⟩, hsome⟩ := hkept hin t ht (hclock.trans_lt hlater)
    obtain ⟨hmarker, hentry⟩ := hspared (hspares t hsome hlater)
    exact ⟨⟨s, hentry.trans hget, hs⟩, hmarker.trans hsome⟩
  · intro hin t ht hlater
    rcases lt_or_ge r.clock (t + cfg.closedShardTtl) with hearlier | hearlier
    · -- the marker has passed its TTL since the last operation
      obtain ⟨_, hsome⟩ := hkept hin t ht hearlier
      obtain ⟨hmarker, hentry⟩ := hpurged ⟨t, hsome, hlater⟩
      refine ⟨hentry, ?_⟩
      intro t' ht'
      rw [hmarker] at ht'
      cases ht'
    · obtain ⟨hget, hmarkers⟩ := hgone hin t ht hearlier
      by_cases hout : Outlived cfg now r.map sid
      · obtain ⟨hmarker, hentry⟩ := hpurged hout
        refine ⟨hentry, ?_⟩
        intro t' ht'
        rw [hmarker] at ht'
        cases ht'
      · obtain ⟨hmarker, hentry⟩ := hspared hout
        refine ⟨hentry.trans hget, ?_⟩
        intro t' ht'
        rw [hmarker] at ht'
        exact (hmarkers t' ht').trans hclock
  · intro hin ht
    obtain ⟨hget, hnone⟩ := hunknown hin ht
    obtain ⟨hmarker, hentry⟩ := hspared (hunmarked hnone)
    exact ⟨hentry.trans hget, hmarker.trans hnone⟩

theorem install_closed (cfg : Config) (now : Time) (scope : Nat) (fetched : Snapshot) (m : State) :
    (install cfg now scope fetched m).closed = m.closed ∧
      (install cfg now scope fetched m).snapshot.shardIds = fetched.shardIds := by
  simp only [install, endRefresh, scheduleCleanup_kept]
  exact ⟨trivial, trivial⟩

theorem cleanup_closed (cfg : Config) (now : Time) (m : State) :
    (cleanup cfg now m).closed = m.closed ∧
      (cleanup cfg now m).snapshot.shardIds = m.snapshot.shardIds := by
  simp only [cleanup]
  split
  · exact ⟨rfl, rfl⟩
  · split <;> exact ⟨rfl, rfl⟩

theorem step_sound {cfg : Config} {range : ShardId → Nat × Nat} {r r' : Table} {op : TableOp}
    (h : r.Sound cfg range) (hfinds : findsMarked range r op) (hstep : r.step cfg op = some r') :
    r'.Sound cfg range := by
  cases op with
  | install now scope shards =>
    obtain ⟨⟨hclock, hrange⟩, hmarked⟩ := hfinds
    have htracks : ∀ sid, r'.Tracks cfg range sid := by
      intro sid
      apply install_tracks (h.tracks sid) hclock hrange _ hstep
      intro hnew hmarker
      obtain ⟨s, hs, rfl⟩ := List.mem_map.mp hnew
      exact hmarked s hs hmarker
    obtain rfl := Option.some.inj hstep
    obtain ⟨hclosed, hids⟩ := install_closed cfg now scope (fetch shards) r.map
    constructor
    · exact hclosed.trans h.open_
    · intro sid hsid
      exact fetch_shardIds (hids ▸ hsid)
    · exact htracks
  | cleanup now =>
    simp only [Table.step] at hstep
    split at hstep
    · rename_i hready
      obtain rfl := Option.some.inj hstep
      obtain ⟨hclosed, hids⟩ := cleanup_closed cfg now r.map
      constructor
      · exact hclosed.trans h.open_
      · intro sid hsid
        exact h.searched sid (hids ▸ hsid)
      · intro sid
        exact cleanup_tracks (h.tracks sid) h.open_ hready hfinds.1
    · cases hstep

theorem start_sound {cfg : Config} {range : ShardId → Nat × Nat} {r : Table}
    (h : r.start cfg) : r.Sound cfg range := by
  obtain ⟨t, rfl⟩ := h
  constructor
  · rfl
  · intro sid hsid
    exact absurd hsid List.not_mem_nil
  · intro sid
    constructor
    · intro hin
      exact absurd hin List.not_mem_nil
    · intro _ t ht
      cases ht
    · intro _ t ht
      cases ht
    · intro _ _
      exact ⟨rfl, rfl⟩

theorem finds_of_answers {cfg : Config} {range : ShardId → Nat × Nat} {r r' : Table} {op : TableOp}
    (htimely : timely range r op) (hstep : r.step cfg op = some r')
    (h : r'.Answers cfg range) : findsMarked range r op := by
  refine ⟨htimely, ?_⟩
  cases op with
  | cleanup now => trivial
  | install now scope shards =>
    intro s hs hmarker
    obtain rfl := Option.some.inj hstep
    have hunmarked := h.unmarked s.shardId (List.mem_map.mpr ⟨s, hs, rfl⟩)
    have hafter := install_get? cfg now scope (fetch shards) r.map s.shardId
    cases hprevious : r.map.snapshot.shards.get? s.shardId with
    | some shard => rfl
    | none =>
      simp only [hprevious, Prod.mk.injEq] at hafter
      rw [← hafter.1, hunmarked] at hmarker
      cases hmarker

/-- **What the table answers.**  It answers as it must after every install and every
    cleanup of a run whose installs find the marked shards among the previous table's;
    and the first install that does not find one of them leaves a wrong table. -/
theorem answers_iff (cfg : Config) (range : ShardId → Nat × Nat) {r : Table}
    (hreach : Reachable (Table.start cfg) (Table.step cfg) (findsMarked range) r) :
    r.Answers cfg range ∧ ∀ op r', timely range r op → r.step cfg op = some r' →
      (r'.Answers cfg range ↔ findsMarked range r op) := by
  have hsound : r.Sound cfg range := hreach.invariant
    (fun _ h => start_sound h) fun _ _ _ hinv hop hstep => step_sound hinv hop hstep
  refine ⟨hsound.answers, ?_⟩
  intro op r' htimely hstep
  constructor
  · intro h
    exact finds_of_answers htimely hstep h
  · intro hfinds
    exact (step_sound hsound hfinds hstep).answers

/-! ### Two shards, one of which comes and goes -/

instance (range : ShardId → Nat × Nat) (r : Table) (op : TableOp) :
    Decidable (timely range r op) := by
  cases op <;> unfold timely <;> infer_instance

instance (range : ShardId → Nat × Nat) (r : Table) (op : TableOp) :
    Decidable (findsMarked range r op) := by
  cases op <;> unfold findsMarked <;> infer_instance

/-- The ranges of the two halves. -/
def halfRange (sid : ShardId) : Nat × Nat :=
  if sid = lowerHalf.shardId then rangeOf lowerHalf else rangeOf upperHalf

/-- The lower half goes, comes back, goes at 40 and is forgotten at 100. -/
theorem answers_iff_reopened :
    ∃ r, Reachable (Table.start {}) (Table.step {}) (findsMarked halfRange) r ∧
      r.listed = [1] ∧ r.removedAt 0 = some 40 ∧ hashrange r.map 0 = none ∧
      (r.Answers {} halfRange ∧ ∀ op r', timely halfRange r op → r.step {} op = some r' →
        (r'.Answers {} halfRange ↔ findsMarked halfRange r op)) := by
  have hrun : (exec (Table.step {}) (findsMarked halfRange) { map := enter (init {}), clock := 0 }
      [.install 0 0 [lowerHalf, upperHalf], .install 10 1 [upperHalf],
        .install 30 2 [upperHalf, lowerHalf], .install 40 3 [upperHalf], .cleanup 100]).map
      (fun r => (r.listed, r.removedAt 0, hashrange r.map 0)) = some ([1], some 40, none) := by
    decide +kernel
  obtain ⟨r, hexec, hout⟩ := Option.map_eq_some_iff.mp hrun
  obtain ⟨hlisted, hout⟩ := Prod.mk.inj hout
  obtain ⟨hremoved, hgone⟩ := Prod.mk.inj hout
  have hreach : Reachable (Table.start {}) (Table.step {}) (findsMarked halfRange) r :=
    Reachable.exec (.start ⟨0, rfl⟩) hexec
  exact ⟨r, hreach, hlisted, hremoved, hgone, answers_iff {} halfRange hreach⟩

/-- The install at 80 drops the lower half for its age, and keeps its marker.  The
    install at 90 lists the half again, and the cleanup at 150 forgets an open shard. -/
theorem open_shard_forgotten :
    ∃ earlier r, Reachable (Table.start {}) (Table.step {}) (timely halfRange) earlier ∧
      0 ∈ earlier.listed ∧ earlier.map.closedAt.get? 0 = some 10 ∧
      Reachable (Table.start {}) (Table.step {}) (timely halfRange) r ∧
      0 ∈ r.listed ∧ predict r.map 0 = some 0 ∧ hashrange r.map 0 = none := by
  have hrun : ((exec (Table.step {}) (timely halfRange) { map := enter (init {}), clock := 0 }
      [.install 0 0 [lowerHalf, upperHalf], .install 10 1 [upperHalf], .install 50 2 [upperHalf],
        .install 80 3 [upperHalf], .install 90 4 [lowerHalf, upperHalf]]).bind fun earlier =>
      (exec (Table.step {}) (timely halfRange) earlier [.cleanup 150]).map fun r =>
        ((earlier.listed, earlier.map.closedAt.get? 0),
          (r.listed, predict r.map 0, hashrange r.map 0))) =
        some (([0, 1], some 10), ([0, 1], some 0, none)) := by
    decide +kernel
  obtain ⟨earlier, hexec, hrest⟩ := Option.bind_eq_some_iff.mp hrun
  obtain ⟨r, hcleanup, hout⟩ := Option.map_eq_some_iff.mp hrest
  obtain ⟨hbefore, hafter⟩ := Prod.mk.inj hout
  obtain ⟨hlisted, hmarker⟩ := Prod.mk.inj hbefore
  obtain ⟨hlisted', hafter⟩ := Prod.mk.inj hafter
  obtain ⟨hpredict, hgone⟩ := Prod.mk.inj hafter
  have hearlier : Reachable (Table.start {}) (Table.step {}) (timely halfRange) earlier :=
    Reachable.exec (.start ⟨0, rfl⟩) hexec
  refine ⟨earlier, r, hearlier, ?_, hmarker, Reachable.exec hearlier hcleanup, ?_, hpredict, hgone⟩
  · rw [hlisted]
    exact List.mem_cons_self
  · rw [hlisted']
    exact List.mem_cons_self

end ShardMap

end Aiokpl
