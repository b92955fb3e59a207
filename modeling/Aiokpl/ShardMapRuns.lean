import Mathlib.Tactic
import Aiokpl.Lib.TransitionSystem
import Aiokpl.ShardMap

/-!
# Runs of the shard map, and what `predict` answers in them

Only an installation changes the table that `predict` searches or makes the map
READY (`step_table`).  Over shards that split the key space, the table of their
endings alone determines the shard of a key (`predict_eq_some_iff`), although
`predict` never looks at where a range starts.
-/

namespace Aiokpl

open Lib

/-! ## Searching the table -/

/-- `hashKey` lies in the range of the shard. -/
def Shard.Holds (s : Shard) (hashKey : Nat) : Prop :=
  s.startingHashKey ≤ hashKey ∧ hashKey ≤ s.endingHashKey

instance (s : Shard) (hashKey : Nat) : Decidable (s.Holds hashKey) :=
  inferInstanceAs (Decidable (_ ∧ _))

/-- Distinct shards whose ranges split `0 .. 2^128 - 1`. -/
structure Partition (shards : List Shard) : Prop where
  ids : (shards.map Shard.shardId).Nodup
  disjoint : shards.Pairwise fun s t => ∀ hashKey, s.Holds hashKey → ¬ t.Holds hashKey
  covers : ∀ hashKey ≤ Hashing.uint128Max, ∃ s ∈ shards, s.Holds hashKey
  within : ∀ s ∈ shards, s.endingHashKey ≤ Hashing.uint128Max

/-- The rows a fetch makes of the shards. -/
def rows (shards : List Shard) : List (Nat × ShardId) :=
  shards.map fun s => (s.endingHashKey, s.shardId)

/-- The snapshot's search table is that of these shards, fetched in some order. -/
def Tabulates (snap : Snapshot) (shards : List Shard) : Prop :=
  ∃ fetched, fetched.Perm shards ∧
    snap.endings = (sortEndings (rows fetched)).map Prod.fst ∧
    snap.shardIds = (sortEndings (rows fetched)).map Prod.snd

/-- Fetching the shards one after the other tabulates them. -/
theorem tabulates_fetched (shards : List Shard) :
    Tabulates (shards.foldl Fetched.add {}).snapshot shards := by
  have hrows : ∀ (ss : List Shard) (f : Fetched),
      (ss.foldl Fetched.add f).endings = f.endings ++ rows ss := by
    intro ss
    induction ss with
    | nil => simp [rows]
    | cons s ss ih => simp [ih, Fetched.add, rows]
  refine ⟨shards, .rfl, ?_, ?_⟩ <;> simp [Fetched.snapshot, hrows]

/-- `bisect_left` finds the first row that ends at the key or after it. -/
theorem bisectLeft_eq_find (hashKey : Nat) (table : List (Nat × ShardId)) :
    (table.map Prod.snd)[bisectLeft (table.map Prod.fst) hashKey]? =
      (table.find? fun row => decide (hashKey ≤ row.1)).map Prod.snd := by
  induction table with
  | nil => rfl
  | cons row table ih =>
    unfold bisectLeft at ih ⊢
    by_cases hrow : row.1 < hashKey
    · have hnot : ¬ hashKey ≤ row.1 := hrow.not_ge
      simpa [hrow, hnot] using ih
    · have hle : hashKey ≤ row.1 := not_lt.mp hrow
      simp [hrow, hle]

/-- The row found in a sorted table ends first of all that reach the key. -/
theorem find_least {hashKey : Nat} {table : List (Nat × ShardId)} {row : Nat × ShardId}
    (hsorted : (table.map Prod.fst).Pairwise (· ≤ ·))
    (hfind : (table.find? fun row => decide (hashKey ≤ row.1)) = some row) :
    row ∈ table ∧ hashKey ≤ row.1 ∧ ∀ row' ∈ table, hashKey ≤ row'.1 → row.1 ≤ row'.1 := by
  obtain ⟨hle, before, after, rfl, hbefore⟩ := List.find?_eq_some_iff_append.mp hfind
  rw [List.pairwise_map, List.pairwise_append, List.pairwise_cons] at hsorted
  obtain ⟨-, ⟨hafter, -⟩, -⟩ := hsorted
  refine ⟨by simp, by simpa using hle, fun row' hmem hle' => ?_⟩
  rcases List.mem_append.mp hmem with hearly | hlate
  · simpa [hle'] using hbefore row' hearly
  · rcases List.mem_cons.mp hlate with rfl | hlate
    · exact le_rfl
    · exact hafter row' hlate

section Predict

variable {shards : List Shard} {snap : Snapshot} {hashKey : Nat} {p : ShardId}

theorem Partition.eq_of_holds (hp : Partition shards) {s t : Shard} (hs : s ∈ shards)
    (ht : t ∈ shards) (hholds : s.Holds hashKey) (hholds' : t.Holds hashKey) : s = t := by
  by_contra hne
  have hsymm : Std.Symm fun s t : Shard => ∀ hashKey, s.Holds hashKey → ¬ t.Holds hashKey :=
    ⟨fun _ _ h k hk hk' => h k hk' hk⟩
  exact hp.disjoint.forall hs ht hne hashKey hholds hholds'

theorem Partition.eq_of_shardId (hp : Partition shards) {s t : Shard} (hs : s ∈ shards)
    (ht : t ∈ shards) (hid : s.shardId = t.shardId) : s = t :=
  List.inj_on_of_nodup_map hp.ids hs ht hid

/-- **`predict` finds the shard of a key.**  On shards that split the key space, the
    answer is the one whose range holds the key. -/
theorem predict_eq_some_iff (hp : Partition shards) (htable : Tabulates snap shards) :
    snap.predict hashKey = some p ↔ ∃ s ∈ shards, s.shardId = p ∧ s.Holds hashKey := by
  obtain ⟨fetched, hperm, hendings, hids⟩ := htable
  have hpredict : snap.predict hashKey =
      ((sortEndings (rows fetched)).find? fun row => decide (hashKey ≤ row.1)).map Prod.snd := by
    rw [Snapshot.predict, hendings, hids, bisectLeft_eq_find]
  have hrow : ∀ row, row ∈ sortEndings (rows fetched) ↔
      ∃ s ∈ shards, (s.endingHashKey, s.shardId) = row := by
    intro row
    rw [sortEndings, mem_sortBy, rows, List.mem_map]
    exact ⟨fun ⟨s, hs, h⟩ => ⟨s, hperm.subset hs, h⟩,
      fun ⟨s, hs, h⟩ => ⟨s, hperm.symm.subset hs, h⟩⟩
  -- the row that is found belongs to the shard that holds the key
  have hfound : ∀ row, (sortEndings (rows fetched)).find? (fun row => decide (hashKey ≤ row.1)) =
      some row → ∃ s ∈ shards, s.shardId = row.2 ∧ s.Holds hashKey := by
    intro row hfind
    obtain ⟨hmem, hle, hleast⟩ := find_least (sortEndings_sorted _) hfind
    obtain ⟨s, hs, rfl⟩ := (hrow row).mp hmem
    obtain ⟨t, ht, hstart, hend⟩ := hp.covers hashKey (hle.trans (hp.within s hs))
    have hst : s.endingHashKey ≤ t.endingHashKey := hleast _ ((hrow _).mpr ⟨t, ht, rfl⟩) hend
    have heq : s = t := hp.eq_of_holds hs ht ⟨s.ordered, le_rfl⟩ ⟨hstart.trans hle, hst⟩
    exact ⟨s, hs, rfl, heq ▸ ⟨hstart, hend⟩⟩
  constructor
  · intro h
    rw [hpredict, Option.map_eq_some_iff] at h
    obtain ⟨row, hfind, rfl⟩ := h
    exact hfound row hfind
  · rintro ⟨s, hs, rfl, hholds⟩
    rw [hpredict]
    cases hfind : (sortEndings (rows fetched)).find? fun row => decide (hashKey ≤ row.1) with
    | none =>
      have hmiss := List.find?_eq_none.mp hfind _ ((hrow _).mpr ⟨s, hs, rfl⟩)
      exact absurd hholds.2 (by simpa using hmiss)
    | some row =>
      obtain ⟨t, ht, hid, hholds'⟩ := hfound row hfind
      rw [hp.eq_of_holds hs ht hholds hholds', hid]
      rfl

end Predict

namespace ShardMap

/-! ## What a step does to the table -/

variable {u : DigitClasses} {cfg : Config}

/-- `m'` has the state, the table and the installation time of `m`. -/
structure SameTable (m m' : State) : Prop where
  state : m'.state = m.state
  updatedAt : m'.updatedAt = m.updatedAt
  endings : m'.snapshot.endings = m.snapshot.endings
  shardIds : m'.snapshot.shardIds = m.snapshot.shardIds

theorem SameTable.rfl {m : State} : SameTable m m := ⟨.refl _, .refl _, .refl _, .refl _⟩

theorem spawnRefresh_state (m : State) : (spawnRefresh cfg m).1.state = .updating := by
  unfold spawnRefresh
  split
  · assumption
  · dsimp only
    split <;> rfl

theorem fetchReply_sameTable (scope : Nat) (soFar : Fetched) (reply : Option ListShardsPage)
    (m : State) : SameTable m (fetchReply u cfg scope soFar reply m) := by
  cases reply with
  | none => exact ⟨rfl, rfl, rfl, rfl⟩
  | some page =>
    simp only [fetchReply]
    split
    · exact ⟨rfl, rfl, rfl, rfl⟩
    · split <;> exact ⟨rfl, rfl, rfl, rfl⟩

theorem aclose_sameTable (m : State) : SameTable m (aclose m) := by
  unfold aclose
  cases m.cleanupScope <;> cases m.refreshScope <;> exact ⟨rfl, rfl, rfl, rfl⟩

theorem cleanup_sameTable (cfg : Config) (now : Time) (m : State) :
    SameTable m (cleanup cfg now m) := by
  unfold cleanup
  dsimp only
  split
  · exact ⟨rfl, rfl, rfl, rfl⟩
  · split <;> exact ⟨rfl, rfl, rfl, rfl⟩

theorem scheduleCleanup_sameTable (m : State) : SameTable m (scheduleCleanup m) := by
  unfold scheduleCleanup
  split
  · exact .rfl
  · cases m.cleanupScope <;> dsimp only <;> split <;> exact ⟨rfl, rfl, rfl, rfl⟩

theorem install_table (cfg : Config) (now : Time) (scope : Nat) (fetched : Snapshot) (m : State) :
    (install cfg now scope fetched m).state = .ready ∧
      (install cfg now scope fetched m).updatedAt = some now ∧
      (install cfg now scope fetched m).snapshot.endings = fetched.endings ∧
      (install cfg now scope fetched m).snapshot.shardIds = fetched.shardIds := by
  have hsame := scheduleCleanup_sameTable { m with
    snapshot := { fetched with shards :=
      (m.snapshot.shards.entries.foldl (mergeClosed cfg.closedShardTtl now fetched.shards)
        (m.closedAt, fetched.shards)).2 }
    closedAt := (m.snapshot.shards.entries.foldl
      (mergeClosed cfg.closedShardTtl now fetched.shards) (m.closedAt, fetched.shards)).1
    state := .ready
    updatedAt := some now
    backoff := cfg.minBackoff }
  exact ⟨hsame.state, hsame.updatedAt, hsame.endings, hsame.shardIds⟩

/-- The ways a step can go, with the task that it finds. -/
inductive Turn (u : DigitClasses) (cfg : Config) (m : State) : Op → State → Prop
  | enters : Turn u cfg m .enter (enter m)
  | starts : Turn u cfg m .start (spawnRefresh cfg m).1
  | ignores (seenAt : Time) (shard : Option ShardId) : Turn u cfg m (.invalidate seenAt shard) m
  | invalidates (seenAt : Time) (shard : Option ShardId) :
      Turn u cfg m (.invalidate seenAt shard) (spawnRefresh cfg m).1
  | begins {scope scope' : Nat} {cancelled : Bool} :
      refreshAt m scope = some { scope := scope', cancelled, phase := .starting } →
      Turn u cfg m (.begin scope) (backoffOver scope m)
  | replies {scope scope' : Nat} {soFar : Fetched} (reply : Option ListShardsPage) :
      refreshAt m scope = some { scope := scope', phase := .fetching soFar } →
      Turn u cfg m (.fetchReply scope reply) (fetchReply u cfg scope soFar reply m)
  | retries {scope scope' : Nat} :
      refreshAt m scope = some { scope := scope', phase := .backingOff } →
      Turn u cfg m (.backoffOver scope) (backoffOver scope m)
  | installs (now : Time) {scope scope' : Nat} {cancelled : Bool} {fetched : Snapshot} :
      refreshAt m scope = some { scope := scope', cancelled, phase := .installing fetched } →
      Turn u cfg m (.install now scope) (install cfg now scope fetched m)
  | refreshEnds {scope scope' : Nat} {phase : RefreshPhase} :
      refreshAt m scope = some { scope := scope', cancelled := true, phase } →
      Turn u cfg m (.refreshCancelled scope) (endRefresh scope m)
  | cleans (now : Time) {scope scope' : Nat} : cleanupAt m scope = some { scope := scope' } →
      Turn u cfg m (.cleanup now scope) (endCleanup scope (cleanup cfg now m))
  | cleanupEnds {scope scope' : Nat} :
      cleanupAt m scope = some { scope := scope', cancelled := true } →
      Turn u cfg m (.cleanupCancelled scope) (endCleanup scope m)
  | closes : Turn u cfg m .aclose (aclose m)

theorem invalidate_turn (seenAt : Time) (shard : Option ShardId) (m : State) :
    Turn u cfg m (.invalidate seenAt shard) (invalidate cfg seenAt shard m).1 := by
  unfold invalidate
  split
  · exact .ignores seenAt shard
  · split
    · exact .ignores seenAt shard
    · split
      · exact .ignores seenAt shard
      · exact .invalidates seenAt shard

theorem step_turn {m m' : State} {op : Op} (h : step u cfg m op = some m') :
    Turn u cfg m op m' := by
  cases op with
  | enter =>
    obtain rfl := Option.some.inj h
    exact .enters
  | start =>
    obtain rfl := Option.some.inj h
    exact .starts
  | invalidate seenAt shard =>
    obtain rfl := Option.some.inj h
    exact invalidate_turn seenAt shard m
  | aclose =>
    obtain rfl := Option.some.inj h
    exact .closes
  | begin scope =>
    simp only [step] at h
    split at h
    · rename_i hat
      obtain rfl := Option.some.inj h
      exact .begins hat
    · cases h
  | fetchReply scope reply =>
    simp only [step] at h
    split at h
    · rename_i hat
      obtain rfl := Option.some.inj h
      exact .replies reply hat
    · cases h
  | backoffOver scope =>
    simp only [step] at h
    split at h
    · rename_i hat
      obtain rfl := Option.some.inj h
      exact .retries hat
    · cases h
  | install now scope =>
    simp only [step] at h
    split at h
    · rename_i hat
      obtain rfl := Option.some.inj h
      exact .installs now hat
    · cases h
  | refreshCancelled scope =>
    simp only [step] at h
    split at h
    · rename_i hat
      obtain rfl := Option.some.inj h
      exact .refreshEnds hat
    · cases h
  | cleanup now scope =>
    simp only [step] at h
    split at h
    · rename_i hat
      obtain rfl := Option.some.inj h
      exact .cleans now hat
    · cases h
  | cleanupCancelled scope =>
    simp only [step] at h
    split at h
    · rename_i hat
      obtain rfl := Option.some.inj h
      exact .cleanupEnds hat
    · cases h

/-- The ways a step can go, for the table. -/
inductive TableStep (m : State) (op : Op) (m' : State) : Prop
  | kept : SameTable m m' → TableStep m op m'
  | updating : m'.state = .updating → TableStep m op m'
  | installed {now : Time} {scope : Nat} {task : RefreshTask} {fetched : Snapshot} :
      op = .install now scope → refreshAt m scope = some task →
      task.phase = .installing fetched → m'.state = .ready → m'.updatedAt = some now →
      m'.snapshot.endings = fetched.endings → m'.snapshot.shardIds = fetched.shardIds →
      TableStep m op m'

theorem spawnRefresh_tableStep (op : Op) (m : State) : TableStep m op (spawnRefresh cfg m).1 :=
  .updating (spawnRefresh_state m)

/-- **Only an installation makes the map READY or changes its table.** -/
theorem step_table {m m' : State} {op : Op} (h : step u cfg m op = some m') :
    TableStep m op m' := by
  cases step_turn h with
  | enters => exact .kept ⟨rfl, rfl, rfl, rfl⟩
  | ignores => exact .kept .rfl
  | starts | invalidates => exact spawnRefresh_tableStep _ m
  | @begins scope | @retries scope =>
    unfold backoffOver
    split <;> exact .kept ⟨rfl, rfl, rfl, rfl⟩
  | replies reply => exact .kept (fetchReply_sameTable _ _ _ m)
  | @installs now scope _ _ fetched hat =>
    obtain ⟨hstate, hupdated, hendings, hids⟩ := install_table cfg now scope fetched m
    exact .installed rfl hat rfl hstate hupdated hendings hids
  | refreshEnds | cleanupEnds => exact .kept ⟨rfl, rfl, rfl, rfl⟩
  | cleans now =>
    obtain ⟨hstate, hupdated, hendings, hids⟩ := cleanup_sameTable cfg now m
    exact .kept ⟨hstate, hupdated, hendings, hids⟩
  | closes => exact .kept (aclose_sameTable m)

/-! ## Invariants -/

/-- A map that is READY has installed a snapshot. -/
def Installed (m : State) : Prop := m.state = .ready → ∃ t, m.updatedAt = some t

theorem reachable_installed {m : State} (h : Reachable (start cfg) (step u cfg) anyStep m) :
    Installed m := by
  refine h.invariant (by rintro _ rfl; simp [Installed, init]) ?_
  intro m op m' hinv _ hstep hready
  cases step_table hstep with
  | kept hsame => exact hsame.updatedAt ▸ hinv (hsame.state ▸ hready)
  | updating hstate => simp [hstate] at hready
  | installed _ _ _ _ hupdated _ _ => exact ⟨_, hupdated⟩

/-- The step installs no other table than that of these shards. -/
def Fetches (shards : List Shard) (m : State) : Op → Prop
  | .install _ scope => ∀ task fetched, refreshAt m scope = some task →
      task.phase = .installing fetched → Tabulates fetched shards
  | _ => True

/-- A map that is READY has the table of these shards. -/
def Shows (shards : List Shard) (m : State) : Prop :=
  m.state = .ready → Tabulates m.snapshot shards

theorem step_shows {shards : List Shard} {m m' : State} {op : Op} (hinv : Shows shards m)
    (hfetch : Fetches shards m op) (h : step u cfg m op = some m') : Shows shards m' := by
  intro hready
  cases step_table h with
  | kept hsame =>
    obtain ⟨fetched, hperm, hendings, hids⟩ := hinv (hsame.state ▸ hready)
    exact ⟨fetched, hperm, hsame.endings.trans hendings, hsame.shardIds.trans hids⟩
  | updating hstate => simp [hstate] at hready
  | installed hop hat hphase _ _ hendings hids =>
    subst hop
    obtain ⟨fetched, hperm, hendings', hids'⟩ := hfetch _ _ hat hphase
    exact ⟨fetched, hperm, hendings.trans hendings', hids.trans hids'⟩

end ShardMap

/-! ## Two halves of the key space -/

def lowerHalf : Shard :=
  { shardId := 0, rawShardId := "shardId-0", startingHashKey := 0
    endingHashKey := 170141183460469231731687303715884105727 }

def upperHalf : Shard :=
  { shardId := 1, rawShardId := "shardId-1"
    startingHashKey := 170141183460469231731687303715884105728
    endingHashKey := 340282366920938463463374607431768211455 }

theorem halves_partition : Partition [lowerHalf, upperHalf] where
  ids := by decide
  disjoint := by
    simp [Shard.Holds, lowerHalf, upperHalf]
    omega
  covers hashKey h := by
    have hmax : Hashing.uint128Max = 340282366920938463463374607431768211455 := by rfl
    by_cases hlow : hashKey ≤ 170141183460469231731687303715884105727
    · exact ⟨lowerHalf, by simp, Nat.zero_le _, hlow⟩
    · refine ⟨upperHalf, by simp, ?_, h.trans hmax.le⟩
      simp only [upperHalf]
      omega
  within := by decide

/-- The response that lists the two. -/
def halvesPage : ListShardsPage :=
  { shards :=
      [{ shardId := some "shardId-0", startingHashKey := some "0",
         endingHashKey := some "170141183460469231731687303715884105727" },
       { shardId := some "shardId-1",
         startingHashKey := some "170141183460469231731687303715884105728",
         endingHashKey := some "340282366920938463463374607431768211455" }] }

end Aiokpl
