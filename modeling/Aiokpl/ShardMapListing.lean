import Aiokpl.ShardMapRefresh
import Aiokpl.ShardTable

/-!
# What the lookups answer after a refresh

The service lists its shards in decimal, in any order and over any pages.  A fetch that
succeeds has read each listed shard back as it is, whatever the pages were; the table it
installs is that of the shards, and merging closed ones into the dictionary touches neither
the table nor the entry of a listed shard.
-/

namespace Aiokpl

open Lib

/-! ## Decimals of the service -/

/-- The characters are `n` in decimal, after any number of zeros. -/
def Decimal (cs : List Char) (n : Nat) : Prop :=
  ∃ zeros, cs = List.replicate zeros '0' ++ (toString n).toList

theorem toList_toString (n : Nat) : (toString n).toList = Nat.toDigits 10 n := by
  rw [Nat.toString_eq_ofList_toDigits, String.toList_ofList]

theorem Decimal.digits {cs : List Char} {n : Nat} (h : Decimal cs n) :
    ∀ c ∈ cs, '0' ≤ c ∧ c ≤ '9' := by
  rcases h with ⟨zeros, rfl⟩
  intro c hc
  rcases List.mem_append.mp hc with hzero | hdigit
  · rw [List.eq_of_mem_replicate hzero]
    decide
  · rw [toList_toString] at hdigit
    have hisDigit := Nat.isDigit_of_mem_toDigits (by decide) (by decide) hdigit
    rw [Char.isDigit, Bool.and_eq_true, decide_eq_true_eq, decide_eq_true_eq] at hisDigit
    exact hisDigit

theorem Decimal.value {cs : List Char} {n : Nat} (h : Decimal cs n) :
    Nat.ofDigitChars 10 cs 0 = n := by
  rcases h with ⟨zeros, rfl⟩
  rw [Nat.ofDigitChars_append, Nat.ofDigitChars_replicate_zero, Nat.mul_zero,
    Hashing.ofDigitChars_toString]

/-- `int` reads a decimal, where it does not refuse it. -/
theorem Decimal.parseInt {u : DigitClasses} {cs : List Char} {n value : Nat} (h : Decimal cs n)
    (hparse : Hashing.parseInt u cs = some value) : value = n := by
  rw [Hashing.parseInt, Option.ite_none_left_eq_some] at hparse
  rw [Hashing.foldlM_decimal h.digits hparse.2, h.value]

/-- The entry of the response is that of the shard. -/
structure RawShard.Lists (raw : RawShard) (s : Shard) : Prop where
  shardId : raw.shardId = some s.rawShardId
  named : ∃ digits, s.rawShardId.toList = "shardId-".toList ++ digits ∧ Decimal digits s.shardId
  starting : ∃ cs, raw.startingHashKey = some cs ∧ Decimal cs.toList s.startingHashKey
  ending : ∃ cs, raw.endingHashKey = some cs ∧ Decimal cs.toList s.endingHashKey

theorem parseShardId_decimal {u : DigitClasses} {raw : String} {digits : List Char} {n : Nat}
    {value : ShardId} (hraw : raw.toList = "shardId-".toList ++ digits) (hdigits : Decimal digits n)
    (hparse : parseShardId u raw = some value) : value = n := by
  have hdrop : raw.toList.drop "shardId-".length = digits := by
    rw [hraw]
    exact List.drop_left
  have hlast : digits.getLast? ≠ some '\n' := by
    intro hnewline
    have hdigit := hdigits.digits '\n' (List.mem_of_getLast? hnewline)
    revert hdigit
    decide
  rw [parseShardId, hdrop] at hparse
  simp only [if_neg hlast] at hparse
  split at hparse
  · exact hdigits.parseInt hparse
  · cases hparse

theorem parseHashKey_decimal {u : DigitClasses} {s : String} {n value : Nat}
    (hdecimal : Decimal s.toList n) (hparse : parseHashKey u s = some value) :
    value = n ∧ n ≤ Hashing.uint128Max := by
  unfold parseHashKey at hparse
  split at hparse
  · cases hparse
  · rw [Option.filter_eq_some_iff, decide_eq_true_eq] at hparse
    have hvalue := hdecimal.parseInt hparse.1
    exact ⟨hvalue, hvalue ▸ hparse.2⟩

/-- An entry that is read at all is read back as the shard it lists. -/
theorem buildShard_lists {u : DigitClasses} {raw : RawShard} {s built : Shard} (h : raw.Lists s)
    (hbuild : buildShard u raw = some built) :
    built = s ∧ s.endingHashKey ≤ Hashing.uint128Max := by
  rcases h.named with ⟨digits, hnamed, hid⟩
  rcases h.starting with ⟨starting, hrawStarting, hstarting⟩
  rcases h.ending with ⟨ending, hrawEnding, hending⟩
  simp only [buildShard, h.shardId, hrawStarting, hrawEnding, Option.bind_eq_bind,
    Option.bind_some, Option.bind_eq_some_iff] at hbuild
  rcases hbuild with ⟨shardId, hshardId, start, hstart, stop, hstop, hbuilt⟩
  obtain rfl := parseShardId_decimal hnamed hid hshardId
  rcases parseHashKey_decimal hstarting hstart with ⟨rfl, _⟩
  rcases parseHashKey_decimal hending hstop with ⟨rfl, hmax⟩
  rw [dif_pos s.ordered, Option.some.injEq] at hbuilt
  exact ⟨hbuilt.symm, hmax⟩

/-! ## The pages -/

/-- The pages list these shards, in some order. -/
def Listed (pages : List ListShardsPage) (shards : List Shard) : Prop :=
  ∃ listed, listed.Perm shards ∧
    List.Forall₂ RawShard.Lists (pages.flatMap ListShardsPage.shards) listed

/-- Entries read one after the other, whatever pages they stand on. -/
theorem collected_eq_foldlM (u : DigitClasses) (pages : List ListShardsPage) :
    collected u pages = (pages.flatMap ListShardsPage.shards).foldlM
      (fun f raw => (buildShard u raw).map f.add) {} := by
  have hfrom : ∀ f : Fetched, pages.foldlM (Fetched.addPage u) f =
      (pages.flatMap ListShardsPage.shards).foldlM
        (fun f raw => (buildShard u raw).map f.add) f := by
    induction pages with
    | nil =>
      intro f
      rfl
    | cons page pages ih =>
      intro f
      rw [List.foldlM_cons, List.flatMap_cons, List.foldlM_append]
      congr 1
      funext f'
      exact ih f'
  exact hfrom {}

theorem foldlM_lists {u : DigitClasses} {raws : List RawShard} {listed : List Shard}
    (h : List.Forall₂ RawShard.Lists raws listed) {f f' : Fetched}
    (hfold : raws.foldlM (fun f raw => (buildShard u raw).map f.add) f = some f') :
    f' = listed.foldl Fetched.add f ∧ ∀ s ∈ listed, s.endingHashKey ≤ Hashing.uint128Max := by
  induction h generalizing f with
  | nil =>
    obtain rfl := Option.some.inj hfold
    exact ⟨rfl, fun s hs => absurd hs List.not_mem_nil⟩
  | @cons raw s raws listed hraw _ ih =>
    rw [List.foldlM_cons, Option.bind_eq_bind, Option.bind_eq_some_iff] at hfold
    rcases hfold with ⟨mid, hmid, hrest⟩
    rcases Option.map_eq_some_iff.mp hmid with ⟨built, hbuilt, rfl⟩
    rcases buildShard_lists hraw hbuilt with ⟨rfl, hmax⟩
    rcases ih hrest with ⟨hfetched, hall⟩
    refine ⟨hfetched, fun t ht => ?_⟩
    rcases List.mem_cons.mp ht with rfl | hold
    · exact hmax
    · exact hall t hold

/-- A fetch that succeeds has fetched the shards that were listed. -/
theorem fetchedFrom_listed {u : DigitClasses} {pages : List ListShardsPage} {snap : Snapshot}
    {shards : List Shard} (hfetched : FetchedFrom u pages snap) (h : Listed pages shards) :
    ∃ listed, listed.Perm shards ∧ snap = ShardMap.fetch listed ∧
      ∀ s ∈ shards, s.endingHashKey ≤ Hashing.uint128Max := by
  rcases hfetched with ⟨_, _, f, _, _, _, hcollected, rfl⟩
  rcases h with ⟨listed, hperm, hlists⟩
  rw [collected_eq_foldlM] at hcollected
  rcases foldlM_lists hlists hcollected with ⟨rfl, hmax⟩
  exact ⟨listed, hperm, rfl, fun s hs => hmax s (hperm.symm.subset hs)⟩

/-! ## The lookups -/

theorem Tabulates.perm {snap : Snapshot} {shards shards' : List Shard}
    (h : Tabulates snap shards) (hperm : shards.Perm shards') : Tabulates snap shards' := by
  rcases h with ⟨fetched, hfetched, hendings, hids⟩
  exact ⟨fetched, hfetched.trans hperm, hendings, hids⟩

namespace ShardMap

/-- What the merge of closed shards leaves of an entry that was fetched. -/
theorem install_fetched {cfg : Config} {now : Time} {scope : Nat} {fetched : Snapshot} {m : State}
    {s : Shard} (hget : fetched.shards.get? s.shardId = some s) :
    (install cfg now scope fetched m).snapshot.shards.get? s.shardId = some s := by
  have hinstall := congrArg Prod.snd (install_get? cfg now scope fetched m s.shardId)
  cases hold : m.snapshot.shards.get? s.shardId with
  | none =>
    rw [hold] at hinstall
    exact hinstall.trans hget
  | some old =>
    rw [hold] at hinstall
    simp only [turn, hget] at hinstall
    exact hinstall

/-- **The lookups after a refresh.**  In every run, when a fetch whose pages list shards
    with distinct ids and disjoint ranges that cover the key space has succeeded and is
    installed, whatever was known before, `predict` answers for every hash key the id of
    the one shard that holds it, and `hashrange` of that id is the shard's range. -/
theorem listed_shards_answered {u : DigitClasses} {cfg : Config} {shards : List Shard}
    (hids : (shards.map Shard.shardId).Nodup)
    (hdisjoint : shards.Pairwise fun s t => ∀ hashKey, s.Holds hashKey → ¬ t.Holds hashKey)
    (hcovers : ∀ hashKey ≤ Hashing.uint128Max, ∃ s ∈ shards, s.Holds hashKey) {h h' : History}
    (hreach : Reachable (History.start cfg) (History.step u cfg) anyStep h) {now : Time}
    {scope : Nat} (hlisted : Listed (h.pages scope) shards)
    (hinstall : h.step u cfg (.install now scope) = some h') :
    ∀ hashKey ≤ Hashing.uint128Max, ∃ s ∈ shards, s.Holds hashKey ∧
      (∀ t ∈ shards, t.Holds hashKey → t = s) ∧
      predict h'.map hashKey = some s.shardId ∧
      hashrange h'.map s.shardId = some (s.startingHashKey, s.endingHashKey) := by
  rcases Option.map_eq_some_iff.mp hinstall with ⟨m, hm, hh'⟩
  have hmap : h'.map = m := by rw [← hh']
  cases step_turn hm with
  | @installs _ _ _ _ fetched hat =>
    have hfetched : FetchedFrom u (h.pages scope) fetched := by
      rcases (reachable_coherent hreach).loop with hrest | ⟨t, hrun⟩
      · exact absurd hat hrest.refreshAt_eq
      · rcases hrun.refreshAt_eq hat with ⟨rfl, rfl⟩
        exact hrun.collects
    rcases fetchedFrom_listed hfetched hlisted with ⟨listed, hperm, hsnap, hmax⟩
    have hp : Partition shards := ⟨hids, hdisjoint, hcovers, hmax⟩
    have htable : Tabulates fetched shards := hsnap ▸ (tabulates_fetched listed).perm hperm
    rcases install_table cfg now scope fetched h.map with ⟨hready, _, hendings, hshardIds⟩
    have hpredict : ∀ hashKey, predict (install cfg now scope fetched h.map) hashKey =
        fetched.predict hashKey := by
      intro hashKey
      rw [predict, if_pos hready, Snapshot.predict, hendings, hshardIds, Snapshot.predict]
    intro hashKey hkey
    rcases hcovers hashKey hkey with ⟨s, hs, hholds⟩
    refine ⟨s, hs, hholds, ?_, ?_, ?_⟩
    · intro t ht hholds'
      exact hp.eq_of_holds ht hs hholds' hholds
    · rw [hmap, hpredict]
      exact (predict_eq_some_iff hp htable).mpr ⟨s, hs, rfl, hholds⟩
    · have hmem : s.shardId ∈ listed.map Shard.shardId :=
        (hperm.map _).symm.subset (List.mem_map_of_mem hs)
      rcases fetch_present hmem with ⟨t, ht, hid, hget⟩
      obtain rfl := hp.eq_of_shardId (hperm.subset ht) hs hid
      rw [← hsnap] at hget
      rw [hmap, hashrange, Snapshot.hashrange, install_fetched hget]
      rfl

/-! ## A split shard -/

/-- The lower half after a split. -/
def lowerQuarter : Shard :=
  { shardId := 2, rawShardId := "shardId-000000000002", startingHashKey := 0
    endingHashKey := 85070591730234615865843651857942052863 }

def upperQuarter : Shard :=
  { shardId := 3, rawShardId := "shardId-000000000003"
    startingHashKey := 85070591730234615865843651857942052864
    endingHashKey := 170141183460469231731687303715884105727 }

/-- The three are listed over three pages, of which the second is empty. -/
def splitPages : List ListShardsPage :=
  [{ shards :=
      [{ shardId := some "shardId-000000000003",
         startingHashKey := some "85070591730234615865843651857942052864",
         endingHashKey := some "170141183460469231731687303715884105727" }],
     nextToken := some "t" },
   { nextToken := some "t" },
   { shards :=
      [{ shardId := some "shardId-1",
         startingHashKey := some "170141183460469231731687303715884105728",
         endingHashKey := some "340282366920938463463374607431768211455" },
       { shardId := some "shardId-000000000002", startingHashKey := some "0",
         endingHashKey := some "85070591730234615865843651857942052863" }] }]

theorem splitPages_listed : Listed splitPages [lowerQuarter, upperQuarter, upperHalf] := by
  refine ⟨[upperQuarter, upperHalf, lowerQuarter], by decide, ?_⟩
  refine .cons ?_ (.cons ?_ (.cons ?_ .nil))
  · exact ⟨rfl, ⟨"000000000003".toList, rfl, 11, by decide +kernel⟩,
      ⟨_, rfl, 0, by decide +kernel⟩, ⟨_, rfl, 0, by decide +kernel⟩⟩
  · exact ⟨rfl, ⟨"1".toList, rfl, 0, by decide +kernel⟩,
      ⟨_, rfl, 0, by decide +kernel⟩, ⟨_, rfl, 0, by decide +kernel⟩⟩
  · exact ⟨rfl, ⟨"000000000002".toList, rfl, 11, by decide +kernel⟩,
      ⟨_, rfl, 0, by decide +kernel⟩, ⟨_, rfl, 0, by decide +kernel⟩⟩

theorem split_disjoint : [lowerQuarter, upperQuarter, upperHalf].Pairwise
    fun s t => ∀ hashKey, s.Holds hashKey → ¬ t.Holds hashKey := by
  simp only [List.pairwise_cons, List.mem_cons, List.not_mem_nil, or_false, Shard.Holds]
  refine ⟨?_, ?_, fun _ h => h.elim, .nil⟩
  · rintro t (rfl | rfl) hashKey <;> simp only [lowerQuarter, upperQuarter, upperHalf] <;> omega
  · rintro t rfl hashKey
    simp only [upperQuarter, upperHalf]
    omega

theorem split_covers : ∀ hashKey ≤ Hashing.uint128Max,
    ∃ s ∈ [lowerQuarter, upperQuarter, upperHalf], s.Holds hashKey := by
  intro hashKey hkey
  have hmax : Hashing.uint128Max = 340282366920938463463374607431768211455 := rfl
  by_cases hlower : hashKey ≤ lowerQuarter.endingHashKey
  · exact ⟨lowerQuarter, by simp, Nat.zero_le _, hlower⟩
  · by_cases hupper : hashKey ≤ upperQuarter.endingHashKey
    · refine ⟨upperQuarter, by simp, ?_, hupper⟩
      simp only [lowerQuarter, upperQuarter] at hlower ⊢
      omega
    · refine ⟨upperHalf, by simp, ?_, hkey.trans hmax.le⟩
      simp only [upperQuarter, upperHalf] at hupper ⊢
      omega

/-- The halves are known when their lower one is found split. -/
theorem listed_shards_answered_split :
    ∃ h h', Reachable (History.start {}) (History.step .asciiOnly {}) anyStep h ∧
      h.step .asciiOnly {} (.install 20 2) = some h' ∧
      (hashrange h'.map 0).isSome ∧
      ∀ hashKey ≤ Hashing.uint128Max, ∃ s ∈ [lowerQuarter, upperQuarter, upperHalf],
        s.Holds hashKey ∧
        (∀ t ∈ [lowerQuarter, upperQuarter, upperHalf], t.Holds hashKey → t = s) ∧
        predict h'.map hashKey = some s.shardId ∧
        hashrange h'.map s.shardId = some (s.startingHashKey, s.endingHashKey) := by
  have hrun : (exec (History.step .asciiOnly {}) anyStep { map := enter (init {}) }
      [.start, .begin 0, .fetchReply 0 (some halvesPage), .install 10 0, .invalidate 11 none,
        .begin 2, .fetchReply 2 splitPages[0]?, .fetchReply 2 splitPages[1]?,
        .fetchReply 2 splitPages[2]?]).map (fun h => (h.pages 2, ((h.step .asciiOnly {}
          (.install 20 2)).map fun h' => (hashrange h'.map 0).isSome))) =
      some (splitPages, some true) := by
    decide +kernel
  rcases Option.map_eq_some_iff.mp hrun with ⟨h, hexec, hout⟩
  rcases Prod.mk.inj hout with ⟨hpages, hlast⟩
  rcases Option.map_eq_some_iff.mp hlast with ⟨h', hinstall, hzero⟩
  have hreach : Reachable (History.start {}) (History.step .asciiOnly {}) anyStep h :=
    Reachable.exec (.start rfl) hexec
  exact ⟨h, h', hreach, hinstall, hzero, listed_shards_answered (by decide) split_disjoint
    split_covers hreach (hpages ▸ splitPages_listed) hinstall⟩

end ShardMap

end Aiokpl
