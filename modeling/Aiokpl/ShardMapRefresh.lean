import Aiokpl.ShardMapRuns

/-!
# The refresh loop of a shard map

`_spawn_refresh` replaces the event that `start` waits for and starts a loop; the
loop ends by an installation, or because the map was closed, and then sets whatever
event is current.  In the histories below each loop is remembered with the event
that its spawn made, and each fetch with the pages it received, so that "the current
refresh" has a meaning.
-/

namespace Aiokpl

open Lib

/-! ## Complete fetches -/

/-- The response announces another page. -/
def ListShardsPage.More (page : ListShardsPage) : Prop := page.nextToken.any (· ≠ "") = true

instance (page : ListShardsPage) : Decidable page.More := inferInstanceAs (Decidable (_ = true))

/-- What `_fetch_all_pages` has collected after these pages. -/
def collected (u : DigitClasses) (pages : List ListShardsPage) : Option Fetched :=
  pages.foldlM (Fetched.addPage u) {}

/-- `_fetch_all_pages` returns this snapshot after these pages. -/
def FetchedFrom (u : DigitClasses) (pages : List ListShardsPage) (snap : Snapshot) : Prop :=
  ∃ front last f, pages = front ++ [last] ∧ (∀ page ∈ front, page.More) ∧ ¬ last.More ∧
    collected u pages = some f ∧ snap = f.snapshot

theorem collected_append {u : DigitClasses} {pages : List ListShardsPage} {soFar : Fetched}
    (h : collected u pages = some soFar) (page : ListShardsPage) :
    collected u (pages ++ [page]) = soFar.addPage u page := by
  rw [collected, List.foldlM_append, ← collected, h]
  simp

namespace ShardMap

/-! ## Histories -/

/-- A shard map with, for each loop, the event that its spawn made and the pages of its
    fetch, and the pages of the snapshot installed last. -/
structure History where
  map : State
  events : Nat → Option Nat := fun _ => none
  pages : Nat → List ListShardsPage := fun _ => []
  installed : Option (List ListShardsPage) := none

/-- The pages a fetch has after a response; a failure discards them. -/
def pagesAfter (u : DigitClasses) (m : State) (scope : Nat) (pages : List ListShardsPage)
    (reply : Option ListShardsPage) : List ListShardsPage :=
  match refreshAt m scope, reply with
  | some { phase := .fetching soFar, .. }, some page =>
    if (soFar.addPage u page).isSome then pages ++ [page] else []
  | _, _ => []

/-- A loop that was not there before has the event that is current now. -/
def History.eventsAfter (h : History) (m : State) : Nat → Option Nat := fun scope =>
  if refreshAt h.map scope = none ∧ (refreshAt m scope).isSome then some m.refreshDone.1
  else h.events scope

def History.step (u : DigitClasses) (cfg : Config) (h : History) (op : Op) : Option History :=
  (ShardMap.step u cfg h.map op).map fun m =>
    { map := m
      events := h.eventsAfter m
      pages := match op with
        | .fetchReply scope reply =>
          Function.update h.pages scope (pagesAfter u h.map scope (h.pages scope) reply)
        | _ => h.pages
      installed := match op with
        | .install _ scope => some (h.pages scope)
        | _ => h.installed }

/-- A map that has been entered. -/
def History.start (cfg : Config) (h : History) : Prop := h = { map := enter (init cfg) }

/-! ## The invariant -/

/-- No loop is running. -/
structure Resting (m : State) : Prop where
  refreshes : m.refreshes = []
  inFlight : m.refreshInFlight = false
  state : m.closed = false → m.state ≠ .updating
  done : m.refreshDone.1 ≠ 0 → m.refreshDone.2 = true

/-- Where the loop is in its fetch. -/
def Collects (u : DigitClasses) (pages : List ListShardsPage) : RefreshPhase → Prop
  | .starting => pages = []
  | .fetching soFar => collected u pages = some soFar ∧ ∀ page ∈ pages, page.More
  | .backingOff => pages = []
  | .installing snap => FetchedFrom u pages snap

/-- One loop is running, and the fields refer to it. -/
structure History.Running (u : DigitClasses) (h : History) (t : RefreshTask) : Prop where
  refreshes : h.map.refreshes = [t]
  inFlight : h.map.refreshInFlight = true
  state : h.map.state = .updating
  started : h.map.refreshDone.1 ≠ 0
  current : h.map.closed = false →
    h.map.refreshDone.2 = false ∧ h.map.refreshScope = some t.scope ∧ t.cancelled = false
  event : h.events t.scope = some h.map.refreshDone.1
  scope : t.scope < h.map.nextScope
  collects : Collects u (h.pages t.scope) t.phase

structure History.Coherent (u : DigitClasses) (h : History) : Prop where
  entered : h.map.entered = true
  fresh : ∀ scope, h.map.nextScope ≤ scope → h.pages scope = []
  loop : Resting h.map ∨ ∃ t, h.Running u t
  ready : h.map.state = .ready → ∃ pages snap, h.installed = some pages ∧ FetchedFrom u pages snap ∧
    h.map.snapshot.endings = snap.endings ∧ h.map.snapshot.shardIds = snap.shardIds

/-! ## What a step does to the loop -/

section Loop

variable {u : DigitClasses} {cfg : Config} {h : History} {t : RefreshTask} {m m' : State}

theorem refreshAt_one (hone : m.refreshes = [t]) (scope : Nat) :
    refreshAt m scope = if t.scope = scope then some t else none := by
  by_cases hscope : t.scope = scope <;> simp [refreshAt, hone, hscope]

theorem refreshAt_nil (hnil : m.refreshes = []) (scope : Nat) : refreshAt m scope = none := by
  simp [refreshAt, hnil]

theorem History.Running.refreshAt_eq (hrun : h.Running u t) {scope : Nat} {t' : RefreshTask}
    (hat : refreshAt h.map scope = some t') : t' = t ∧ scope = t.scope := by
  rw [refreshAt_one hrun.refreshes] at hat
  split at hat
  · rename_i hscope
    exact ⟨(Option.some.inj hat).symm, hscope.symm⟩
  · cases hat

theorem Resting.refreshAt_eq (hrest : Resting m) {scope : Nat} {t' : RefreshTask}
    (hat : refreshAt m scope = some t') : False := by
  rw [refreshAt_nil hrest.refreshes] at hat
  cases hat

theorem History.eventsAfter_of_kept
    (hkept : ∀ scope, refreshAt h.map scope = none → refreshAt m scope = none) :
    h.eventsAfter m = h.events := by
  funext scope
  rw [History.eventsAfter, if_neg]
  rintro ⟨hbefore, hafter⟩
  rw [hkept scope hbefore] at hafter
  cases hafter

/-- `m'` has the loop, its event and its flags as `m` has them. -/
structure SameLoop (m m' : State) : Prop where
  refreshes : m'.refreshes = m.refreshes
  inFlight : m'.refreshInFlight = m.refreshInFlight
  done : m'.refreshDone = m.refreshDone
  scope : m'.refreshScope = m.refreshScope
  closed : m'.closed = m.closed
  entered : m.entered = true → m'.entered = true
  nextScope : m'.nextScope = m.nextScope
  table : SameTable m m'

theorem SameLoop.rfl : SameLoop m m :=
  ⟨.refl _, .refl _, .refl _, .refl _, .refl _, id, .refl _, .rfl⟩

theorem History.Coherent.kept (hinv : h.Coherent u) (hsame : SameLoop h.map m') :
    History.Coherent u { h with map := m', events := h.eventsAfter m' } := by
  have hevents : h.eventsAfter m' = h.events := by
    apply History.eventsAfter_of_kept
    intro scope hnone
    rw [refreshAt, hsame.refreshes]
    exact hnone
  rw [hevents]
  constructor
  · exact hsame.entered hinv.entered
  · intro scope hscope
    exact hinv.fresh scope (hsame.nextScope ▸ hscope)
  · rcases hinv.loop with hrest | ⟨t, hrun⟩
    · left
      constructor
      · exact hsame.refreshes.trans hrest.refreshes
      · exact hsame.inFlight.trans hrest.inFlight
      · intro hopen
        rw [hsame.table.state]
        exact hrest.state (hsame.closed ▸ hopen)
      · rw [hsame.done]
        exact hrest.done
    · right
      refine ⟨t, ?_⟩
      constructor
      · exact hsame.refreshes.trans hrun.refreshes
      · exact hsame.inFlight.trans hrun.inFlight
      · exact hsame.table.state.trans hrun.state
      · rw [hsame.done]
        exact hrun.started
      · intro hopen
        rw [hsame.done, hsame.scope]
        exact hrun.current (hsame.closed ▸ hopen)
      · rw [hsame.done]
        exact hrun.event
      · rw [hsame.nextScope]
        exact hrun.scope
      · exact hrun.collects
  · intro hready
    rw [hsame.table.endings, hsame.table.shardIds]
    exact hinv.ready (hsame.table.state ▸ hready)

/-- A spawn starts a loop only where none is running. -/
theorem History.Coherent.spawn (hinv : h.Coherent u) :
    History.Coherent u
      { h with
        map := (spawnRefresh cfg h.map).1
        events := h.eventsAfter (spawnRefresh cfg h.map).1 } := by
  by_cases hupdating : h.map.state = .updating
  · have hsame : (spawnRefresh cfg h.map).1 = h.map := by
      simp [spawnRefresh, hupdating]
    rw [hsame]
    exact hinv.kept .rfl
  · have hrest : Resting h.map := by
      rcases hinv.loop with hrest | ⟨t, hrun⟩
      · exact hrest
      · exact absurd hrun.state hupdating
    have hspawned : (spawnRefresh cfg h.map).1 = { h.map with
        state := .updating
        backoff := cfg.minBackoff
        refreshDone := (h.map.refreshDone.1 + 1, false)
        refreshInFlight := true
        refreshScope := some h.map.nextScope
        refreshes := [{ scope := h.map.nextScope }]
        nextScope := h.map.nextScope + 1 } := by
      simp [spawnRefresh, hupdating, hinv.entered, hrest.refreshes]
    rw [hspawned]
    constructor
    · exact hinv.entered
    · intro scope hscope
      exact hinv.fresh scope ((Nat.le_succ _).trans hscope)
    · right
      refine ⟨{ scope := h.map.nextScope }, ?_⟩
      constructor
      · rfl
      · rfl
      · rfl
      · exact Nat.succ_ne_zero _
      · intro _
        exact ⟨rfl, rfl, rfl⟩
      · refine if_pos ?_
        exact ⟨refreshAt_nil hrest.refreshes _, by simp [refreshAt]⟩
      · exact Nat.lt_succ_self _
      · exact hinv.fresh _ le_rfl
    · intro hready
      cases hready

/-- The loop goes on in another phase. -/
theorem History.Running.move (hinv : h.Coherent u) (hrun : h.Running u t) {phase : RefreshPhase}
    {backoff : Time} {pages : Nat → List ListShardsPage}
    (hpages : ∀ scope, scope ≠ t.scope → pages scope = h.pages scope)
    (hcollects : Collects u (pages t.scope) phase) :
    History.Coherent u { h with
      map := setRefresh t.scope phase { h.map with backoff }
      events := h.eventsAfter (setRefresh t.scope phase { h.map with backoff })
      pages } := by
  have hone : (setRefresh t.scope phase { h.map with backoff }).refreshes = [{ t with phase }] := by
    simp [setRefresh, hrun.refreshes]
  have hevents : h.eventsAfter (setRefresh t.scope phase { h.map with backoff }) = h.events := by
    apply History.eventsAfter_of_kept
    intro scope hnone
    rw [refreshAt_one hrun.refreshes] at hnone
    rw [refreshAt_one hone]
    split at hnone
    · cases hnone
    · rename_i hscope
      exact if_neg hscope
  rw [hevents]
  constructor
  · exact hinv.entered
  · intro scope hscope
    have hne : scope ≠ t.scope := by
      rintro rfl
      exact absurd hrun.scope (not_lt.mpr hscope)
    exact (hpages scope hne).trans (hinv.fresh scope hscope)
  · right
    refine ⟨{ t with phase }, ?_⟩
    constructor
    · exact hone
    · exact hrun.inFlight
    · exact hrun.state
    · exact hrun.started
    · exact hrun.current
    · exact hrun.event
    · exact hrun.scope
    · exact hcollects
  · intro hready
    exact absurd (hready.symm.trans hrun.state) (by decide)

/-- The loop ends, and sets the current event. -/
structure Ends (m m' : State) : Prop where
  refreshes : m'.refreshes = []
  inFlight : m'.refreshInFlight = false
  done : m'.refreshDone = (m.refreshDone.1, true)
  entered : m'.entered = m.entered
  nextScope : m.nextScope ≤ m'.nextScope

theorem endRefresh_ends (hone : m.refreshes = [t]) : Ends m (endRefresh t.scope m) := by
  refine ⟨?_, rfl, rfl, rfl, le_rfl⟩
  simp [endRefresh, hone]

theorem Ends.coherent (hends : Ends h.map m') (hinv : h.Coherent u)
    (hstate : m'.closed = false → m'.state ≠ .updating) {installed : Option (List ListShardsPage)}
    (hready : m'.state = .ready → ∃ pages snap, installed = some pages ∧ FetchedFrom u pages snap ∧
      m'.snapshot.endings = snap.endings ∧ m'.snapshot.shardIds = snap.shardIds) :
    History.Coherent u { h with map := m', events := h.eventsAfter m', installed } := by
  constructor
  · exact hends.entered.trans hinv.entered
  · intro scope hscope
    exact hinv.fresh scope (hends.nextScope.trans hscope)
  · left
    constructor
    · exact hends.refreshes
    · exact hends.inFlight
    · exact hstate
    · intro _
      rw [hends.done]
  · exact hready

theorem scheduleCleanup_done (m : State) : (scheduleCleanup m).refreshDone = m.refreshDone := by
  unfold scheduleCleanup
  split
  · rfl
  · cases m.cleanupScope <;> dsimp only <;> split <;> rfl

/-- What cancelling `scope` does to a task. -/
def RefreshTask.mark (t : RefreshTask) (scope : Nat) : RefreshTask :=
  if t.scope = scope then { t with cancelled := true } else t

theorem mark_kept (scope : Nat) (t : RefreshTask) :
    (t.mark scope).scope = t.scope ∧ (t.mark scope).phase = t.phase := by
  unfold RefreshTask.mark
  split <;> exact ⟨rfl, rfl⟩

theorem cancelScope_refreshes (scope : Nat) (m : State) :
    (cancelScope scope m).refreshes = m.refreshes.map fun t => t.mark scope := rfl

theorem install_ends (now : Time) (fetched : Snapshot) (hone : m.refreshes = [t]) :
    Ends m (install cfg now t.scope fetched m) := by
  have hscheduled : ∀ m : State, m.refreshes = [t] →
      (∃ t', t'.scope = t.scope ∧ (scheduleCleanup m).refreshes = [t']) ∧
      (scheduleCleanup m).refreshDone = m.refreshDone ∧
      (scheduleCleanup m).entered = m.entered ∧ m.nextScope ≤ (scheduleCleanup m).nextScope := by
    intro m hone
    have hcancelled :
        ∀ scope, ∃ t', t'.scope = t.scope ∧ (cancelScope scope m).refreshes = [t'] := by
      intro scope
      refine ⟨_, (mark_kept scope t).1, ?_⟩
      rw [cancelScope_refreshes, hone]
      rfl
    unfold scheduleCleanup
    split
    · exact ⟨⟨t, rfl, hone⟩, rfl, rfl, le_rfl⟩
    · cases m.cleanupScope with
      | none =>
        dsimp only
        split
        · exact ⟨⟨t, rfl, hone⟩, rfl, rfl, le_rfl⟩
        · exact ⟨⟨t, rfl, hone⟩, rfl, rfl, Nat.le_succ _⟩
      | some scope =>
        dsimp only
        split
        · exact ⟨hcancelled scope, rfl, rfl, le_rfl⟩
        · exact ⟨hcancelled scope, rfl, rfl, Nat.le_succ _⟩
  obtain ⟨⟨t', hscope, hone'⟩, hdone, hentered, hnext⟩ := hscheduled { m with
    snapshot := { fetched with shards :=
      (m.snapshot.shards.entries.foldl (mergeClosed cfg.closedShardTtl now fetched.shards)
        (m.closedAt, fetched.shards)).2 }
    closedAt := (m.snapshot.shards.entries.foldl
      (mergeClosed cfg.closedShardTtl now fetched.shards) (m.closedAt, fetched.shards)).1
    state := .ready
    updatedAt := some now
    backoff := cfg.minBackoff } hone
  constructor
  · simp only [install, endRefresh]
    rw [hone']
    simp [hscope]
  · rfl
  · simp only [install, endRefresh]
    rw [hdone]
  · exact hentered
  · exact hnext

theorem aclose_fields (m : State) :
    (aclose m).refreshInFlight = m.refreshInFlight ∧ (aclose m).closed = true ∧
      (aclose m).refreshDone = (m.refreshDone.1, true) ∧ (aclose m).entered = m.entered ∧
      (aclose m).nextScope = m.nextScope := by
  unfold aclose
  cases m.cleanupScope <;> cases m.refreshScope <;> exact ⟨rfl, rfl, rfl, rfl, rfl⟩

/-- Closing marks the tasks under the two scopes. -/
theorem aclose_refreshes_eq (m : State) :
    (aclose m).refreshes =
      (m.refreshes.map fun t => m.cleanupScope.elim t t.mark).map fun t =>
        m.refreshScope.elim t t.mark := by
  cases hcleanup : m.cleanupScope <;> cases hrefresh : m.refreshScope <;>
    simp [aclose, cancelScope, RefreshTask.mark, hcleanup, hrefresh]

/-- Closing leaves the loop where it is. -/
theorem aclose_refreshes (hone : m.refreshes = [t]) :
    ∃ t', t'.scope = t.scope ∧ t'.phase = t.phase ∧ (aclose m).refreshes = [t'] := by
  have hmarked : ∀ (scope : Option Nat) (t : RefreshTask), (scope.elim t t.mark).scope = t.scope ∧
      (scope.elim t t.mark).phase = t.phase := by
    intro scope t
    cases scope with
    | none => exact ⟨rfl, rfl⟩
    | some scope => exact mark_kept scope t
  obtain ⟨hscope, hphase⟩ := hmarked m.cleanupScope t
  obtain ⟨hscope', hphase'⟩ := hmarked m.refreshScope (m.cleanupScope.elim t t.mark)
  refine ⟨_, hscope'.trans hscope, hphase'.trans hphase, ?_⟩
  rw [aclose_refreshes_eq, hone]
  rfl

theorem aclose_nil (hnil : m.refreshes = []) : (aclose m).refreshes = [] := by
  rw [aclose_refreshes_eq, hnil]
  rfl

theorem History.Coherent.close (hinv : h.Coherent u) :
    History.Coherent u { h with map := aclose h.map, events := h.eventsAfter (aclose h.map) } := by
  obtain ⟨hinFlight, hclosed, hdone, hentered, hnext⟩ := aclose_fields h.map
  have htable := aclose_sameTable h.map
  have hopen : (aclose h.map).closed ≠ false := by
    rw [hclosed]
    decide
  constructor
  · exact hentered.trans hinv.entered
  · intro scope hscope
    exact hinv.fresh scope (hnext ▸ hscope)
  · rcases hinv.loop with hrest | ⟨t, hrun⟩
    · left
      constructor
      · exact aclose_nil hrest.refreshes
      · exact hinFlight.trans hrest.inFlight
      · intro hfalse
        exact absurd hfalse hopen
      · intro _
        rw [hdone]
    · right
      obtain ⟨t', hscope, hphase, hone⟩ := aclose_refreshes hrun.refreshes
      have hevents : h.eventsAfter (aclose h.map) = h.events := by
        apply History.eventsAfter_of_kept
        intro scope hnone
        rw [refreshAt_one hrun.refreshes] at hnone
        rw [refreshAt_one hone, hscope]
        split at hnone
        · cases hnone
        · rename_i hne
          exact if_neg hne
      refine ⟨t', ?_⟩
      constructor
      · exact hone
      · exact hinFlight.trans hrun.inFlight
      · exact htable.state.trans hrun.state
      · rw [hdone]
        exact hrun.started
      · intro hfalse
        exact absurd hfalse hopen
      · rw [hscope, hdone, hevents]
        exact hrun.event
      · rw [hscope, hnext]
        exact hrun.scope
      · rw [hscope, hphase]
        exact hrun.collects
  · intro hready
    rw [htable.endings, htable.shardIds]
    exact hinv.ready (htable.state ▸ hready)

/-! ## Every step -/

theorem cleanup_sameLoop (cfg : Config) (now : Time) (m : State) :
    SameLoop m (cleanup cfg now m) := by
  have htable := cleanup_sameTable cfg now m
  revert htable
  unfold cleanup
  dsimp only
  split
  · intro htable
    exact ⟨rfl, rfl, rfl, rfl, rfl, id, rfl, htable⟩
  · split <;> intro htable <;> exact ⟨rfl, rfl, rfl, rfl, rfl, id, rfl, htable⟩

/-- A response moves the fetch as the pages say. -/
theorem History.Coherent.reply (hinv : h.Coherent u) {soFar : Fetched} {cancelled : Bool}
    {scope scope' : Nat}
    (hat : refreshAt h.map scope = some { scope := scope', cancelled, phase := .fetching soFar })
    (reply : Option ListShardsPage) :
    History.Coherent u { h with
      map := fetchReply u cfg scope soFar reply h.map
      events := h.eventsAfter (fetchReply u cfg scope soFar reply h.map)
      pages := Function.update h.pages scope
        (pagesAfter u h.map scope (h.pages scope) reply) } := by
  rcases hinv.loop with hrest | ⟨t, hrun⟩
  · exact absurd hat hrest.refreshAt_eq
  obtain ⟨ht, hscope⟩ := hrun.refreshAt_eq hat
  have hphase : t.phase = .fetching soFar := by
    rw [← ht]
  have hcollects := hrun.collects
  rw [hphase] at hcollects
  obtain ⟨hcollected, hmore⟩ := hcollects
  have hpages : ∀ pages scope', scope' ≠ t.scope →
      Function.update h.pages scope pages scope' = h.pages scope' := by
    intro pages scope' hne
    exact Function.update_of_ne (hscope ▸ hne) _ _
  have hfailed : ∀ reply, pagesAfter u h.map scope (h.pages scope) reply = [] →
      History.Coherent u { h with
        map := fetchFailed cfg scope h.map
        events := h.eventsAfter (fetchFailed cfg scope h.map)
        pages := Function.update h.pages scope
          (pagesAfter u h.map scope (h.pages scope) reply) } := by
    intro reply hnil
    subst hscope
    apply hrun.move hinv (hpages _)
    rw [Function.update_self]
    exact hnil
  cases reply with
  | none =>
    apply hfailed
    simp [pagesAfter, hat]
  | some page =>
    cases hadd : soFar.addPage u page with
    | none =>
      simp only [fetchReply, hadd]
      apply hfailed
      simp [pagesAfter, hat, hadd]
    | some fetched =>
      have hafter : pagesAfter u h.map scope (h.pages scope) (some page) =
          h.pages scope ++ [page] := by
        simp [pagesAfter, hat, hadd]
      have hcollected' : collected u (h.pages t.scope ++ [page]) = some fetched := by
        rw [collected_append hcollected, hadd]
      subst hscope
      simp only [fetchReply, hadd, hafter]
      split
      · rename_i hannounced
        apply hrun.move hinv (hpages _)
        rw [Function.update_self]
        refine ⟨hcollected', ?_⟩
        intro page' hpage'
        rcases List.mem_append.mp hpage' with hold | hnew
        · exact hmore page' hold
        · rw [List.mem_singleton] at hnew
          subst hnew
          exact hannounced
      · rename_i hlast
        apply hrun.move hinv (hpages _)
        rw [Function.update_self]
        exact ⟨h.pages t.scope, page, fetched, rfl, hmore, hlast, hcollected', rfl⟩

/-- The test at the top of the loop. -/
theorem History.Coherent.test (hinv : h.Coherent u) {scope : Nat}
    (hat : refreshAt h.map scope = some t) (hnil : Collects u (h.pages t.scope) t.phase →
      h.pages t.scope = []) :
    History.Coherent u { h with
      map := backoffOver scope h.map
      events := h.eventsAfter (backoffOver scope h.map) } := by
  rcases hinv.loop with hrest | ⟨t', hrun⟩
  · exact absurd hat hrest.refreshAt_eq
  obtain ⟨rfl, rfl⟩ := hrun.refreshAt_eq hat
  unfold backoffOver
  split
  · rename_i hclosed
    apply (endRefresh_ends hrun.refreshes).coherent hinv
    · intro hopen
      exact absurd hclosed (by rw [show h.map.closed = false from hopen]; decide)
    · exact hinv.ready
  · apply hrun.move hinv (fun _ _ => rfl)
    rw [hnil hrun.collects]
    refine ⟨rfl, ?_⟩
    intro page hpage
    exact absurd hpage List.not_mem_nil

theorem step_coherent {h' : History} {op : Op} (hinv : h.Coherent u)
    (hstep : h.step u cfg op = some h') : h'.Coherent u := by
  obtain ⟨m, hm, rfl⟩ := Option.map_eq_some_iff.mp hstep
  cases step_turn hm with
  | enters => exact hinv.kept ⟨rfl, rfl, rfl, rfl, rfl, fun _ => rfl, rfl, ⟨rfl, rfl, rfl, rfl⟩⟩
  | starts | invalidates => exact hinv.spawn
  | ignores => exact hinv.kept .rfl
  | begins hat => exact hinv.test hat id
  | retries hat => exact hinv.test hat id
  | replies reply hat => exact hinv.reply hat reply
  | @installs now scope _ _ fetched hat =>
    rcases hinv.loop with hrest | ⟨t, hrun⟩
    · exact absurd hat hrest.refreshAt_eq
    obtain ⟨ht, rfl⟩ := hrun.refreshAt_eq hat
    obtain ⟨hstate, _, hendings, hids⟩ := install_table cfg now t.scope fetched h.map
    have hcollects := hrun.collects
    rw [← ht] at hcollects
    apply (install_ends now fetched hrun.refreshes).coherent hinv
    · intro _
      rw [hstate]
      decide
    · intro _
      exact ⟨_, fetched, rfl, ht ▸ hcollects, hendings, hids⟩
  | refreshEnds hat =>
    rcases hinv.loop with hrest | ⟨t, hrun⟩
    · exact absurd hat hrest.refreshAt_eq
    obtain ⟨ht, rfl⟩ := hrun.refreshAt_eq hat
    apply (endRefresh_ends hrun.refreshes).coherent hinv
    · intro hopen
      have hcancelled := (hrun.current hopen).2.2
      rw [← ht] at hcancelled
      cases hcancelled
    · exact hinv.ready
  | cleans now =>
    obtain ⟨hone, hinFlight, hdone, hscope, hclosed, hentered, hnext, htable⟩ :=
      cleanup_sameLoop cfg now h.map
    exact hinv.kept ⟨hone, hinFlight, hdone, hscope, hclosed, hentered, hnext,
      ⟨htable.state, htable.updatedAt, htable.endings, htable.shardIds⟩⟩
  | cleanupEnds =>
    exact hinv.kept ⟨rfl, rfl, rfl, rfl, rfl, id, rfl, ⟨rfl, rfl, rfl, rfl⟩⟩
  | closes => exact hinv.close

/-- A refresh is spawned, under an event of its own, unless one is under way. -/
theorem spawnRefresh_event (cfg : Config) (m : State) :
    (m.state ≠ .updating ∧ (spawnRefresh cfg m).1.refreshDone = (m.refreshDone.1 + 1, false) ∧
      (spawnRefresh cfg m).1.state = .updating ∧
      (spawnRefresh cfg m).1.updatedAt = m.updatedAt) ∨ (spawnRefresh cfg m).1 = m := by
  unfold spawnRefresh
  split
  · exact Or.inr rfl
  · rename_i hstate
    left
    refine ⟨hstate, ?_⟩
    dsimp only
    split <;> exact ⟨rfl, rfl, rfl⟩

/-- What a step does to the current event: it makes another, where no refresh is under
    way, or it keeps or sets the one there is. -/
theorem step_event {op : Op} (hstep : ShardMap.step u cfg m op = some m') :
    (m.state ≠ .updating ∧ m'.refreshDone = (m.refreshDone.1 + 1, false) ∧
      m'.state = .updating ∧ m'.updatedAt = m.updatedAt) ∨
    ((m'.refreshDone = m.refreshDone ∨ m'.refreshDone = (m.refreshDone.1, true)) ∧
      (m'.updatedAt.isSome ∨ m'.state = m.state ∧ m'.updatedAt = m.updatedAt)) := by
  have hkept : ∀ m', SameTable m m' →
      m'.refreshDone = m.refreshDone ∨ m'.refreshDone = (m.refreshDone.1, true) →
      (m'.refreshDone = m.refreshDone ∨ m'.refreshDone = (m.refreshDone.1, true)) ∧
        (m'.updatedAt.isSome ∨ m'.state = m.state ∧ m'.updatedAt = m.updatedAt) := by
    intro m' hsame hdone
    exact ⟨hdone, Or.inr ⟨hsame.state, hsame.updatedAt⟩⟩
  have hspawned : ∀ m', m' = (spawnRefresh cfg m).1 → (m.state ≠ .updating ∧
      m'.refreshDone = (m.refreshDone.1 + 1, false) ∧ m'.state = .updating ∧
      m'.updatedAt = m.updatedAt) ∨
      ((m'.refreshDone = m.refreshDone ∨ m'.refreshDone = (m.refreshDone.1, true)) ∧
        (m'.updatedAt.isSome ∨ m'.state = m.state ∧ m'.updatedAt = m.updatedAt)) := by
    rintro _ rfl
    rcases spawnRefresh_event cfg m with hnew | hsame
    · exact Or.inl hnew
    · right
      rw [hsame]
      exact hkept m .rfl (Or.inl rfl)
  cases step_turn hstep with
  | enters => exact Or.inr (hkept _ ⟨rfl, rfl, rfl, rfl⟩ (Or.inl rfl))
  | ignores => exact Or.inr (hkept m .rfl (Or.inl rfl))
  | starts | invalidates => exact hspawned _ rfl
  | begins | retries =>
    unfold backoffOver
    split
    · exact Or.inr (hkept _ ⟨rfl, rfl, rfl, rfl⟩ (Or.inr rfl))
    · exact Or.inr (hkept _ ⟨rfl, rfl, rfl, rfl⟩ (Or.inl rfl))
  | replies =>
    right
    apply hkept _ (fetchReply_sameTable ..)
    left
    unfold fetchReply
    split
    · rfl
    · split
      · rfl
      · split <;> rfl
  | @installs now scope _ _ fetched =>
    obtain ⟨_, hupdated, _, _⟩ := install_table cfg now scope fetched m
    right
    refine ⟨Or.inr ?_, Or.inl ?_⟩
    · simp only [install, endRefresh]
      rw [scheduleCleanup_done]
    · rw [hupdated]
      rfl
  | refreshEnds => exact Or.inr (hkept _ ⟨rfl, rfl, rfl, rfl⟩ (Or.inr rfl))
  | cleans now =>
    have hsame := cleanup_sameLoop cfg now m
    exact Or.inr (hkept _ ⟨hsame.table.state, hsame.table.updatedAt, hsame.table.endings,
      hsame.table.shardIds⟩ (Or.inl hsame.done))
  | cleanupEnds => exact Or.inr (hkept _ ⟨rfl, rfl, rfl, rfl⟩ (Or.inl rfl))
  | closes => exact Or.inr (hkept _ (aclose_sameTable m) (Or.inr (aclose_fields m).2.2.1))

/-- While a refresh is under way no other event is made. -/
theorem step_keeps_event {op : Op} (hupdating : m.state = .updating)
    (hstep : ShardMap.step u cfg m op = some m') : m'.refreshDone.1 = m.refreshDone.1 := by
  rcases step_event hstep with ⟨hstate, _⟩ | ⟨hdone | hdone, _⟩
  · exact absurd hupdating hstate
  · rw [hdone]
  · rw [hdone]

theorem fetchReply_unchanged (scope : Nat) (soFar : Fetched) (reply : Option ListShardsPage)
    (m : State) : (fetchReply u cfg scope soFar reply m).snapshot = m.snapshot ∧
      (fetchReply u cfg scope soFar reply m).updatedAt = m.updatedAt ∧
      (fetchReply u cfg scope soFar reply m).closedAt = m.closedAt := by
  unfold fetchReply
  split
  · exact ⟨rfl, rfl, rfl⟩
  · split
    · exact ⟨rfl, rfl, rfl⟩
    · split <;> exact ⟨rfl, rfl, rfl⟩

theorem reachable_coherent
    (hreach : Reachable (History.start cfg) (History.step u cfg) anyStep h) : h.Coherent u := by
  apply hreach.invariant
  · rintro _ rfl
    constructor
    · rfl
    · intro _ _
      rfl
    · left
      constructor
      · rfl
      · rfl
      · intro _ hupdating
        cases hupdating
      · intro hne
        exact absurd rfl hne
    · intro hready
      cases hready
  · intro h op h' hinv _ hstep
    exact step_coherent hinv hstep

end Loop

/-! ## The state machine -/

/-- What `start`, `invalidate` and the lookups may rely on. -/
structure History.Orderly (u : DigitClasses) (cfg : Config) (h : History) : Prop where
  one : h.map.refreshes.length ≤ 1
  updating : h.map.closed = false → (h.map.state = .updating ↔ ∃ t, h.map.refreshes = [t])
  inFlight : h.map.refreshInFlight = true ↔ h.map.refreshes ≠ []
  current : ∀ t ∈ h.map.refreshes, h.events t.scope = some h.map.refreshDone.1 ∧
    (h.map.closed = false → h.map.refreshDone.2 = false ∧ h.map.refreshScope = some t.scope)
  ending : ∀ t ∈ h.map.refreshes, ∀ op h', h.step u cfg op = some h' →
    h.events t.scope = some h'.map.refreshDone.1 ∧
    (h'.map.refreshes = [] → h'.map.refreshDone.2 = true ∧ h'.map.refreshInFlight = false)
  ready : h.map.state = .ready → ∃ pages snap, h.installed = some pages ∧ FetchedFrom u pages snap ∧
    h.map.snapshot.endings = snap.endings ∧ h.map.snapshot.shardIds = snap.shardIds
  reply : ∀ scope reply m, ShardMap.step u cfg h.map (.fetchReply scope reply) = some m →
    m.snapshot = h.map.snapshot ∧ m.updatedAt = h.map.updatedAt ∧ m.closedAt = h.map.closedAt

/-- **The refresh state machine.**  At most one loop runs; while the map is open, it
    runs exactly while the state is UPDATING; the flag and the event are those of the
    loop, and no other event takes their place before it ends and sets its own; a
    READY map has the table of a complete fetch; and no response, of a fetch that
    fails or goes on, changes what the lookups read. -/
theorem refresh_orderly {u : DigitClasses} {cfg : Config} {h : History}
    (hreach : Reachable (History.start cfg) (History.step u cfg) anyStep h) : h.Orderly u cfg := by
  have hinv := reachable_coherent hreach
  constructor
  case one =>
    rcases hinv.loop with hrest | ⟨t, hrun⟩
    · simp [hrest.refreshes]
    · simp [hrun.refreshes]
  case updating =>
    intro hopen
    rcases hinv.loop with hrest | ⟨t, hrun⟩
    · constructor
      · intro hupdating
        exact absurd hupdating (hrest.state hopen)
      · rintro ⟨t, ht⟩
        rw [hrest.refreshes] at ht
        cases ht
    · constructor
      · intro _
        exact ⟨t, hrun.refreshes⟩
      · intro _
        exact hrun.state
  case inFlight =>
    rcases hinv.loop with hrest | ⟨t, hrun⟩
    · simp [hrest.refreshes, hrest.inFlight]
    · simp [hrun.refreshes, hrun.inFlight]
  case current =>
    intro t ht
    rcases hinv.loop with hrest | ⟨t', hrun⟩
    · rw [hrest.refreshes] at ht
      cases ht
    · rw [hrun.refreshes, List.mem_singleton] at ht
      subst ht
      refine ⟨hrun.event, ?_⟩
      intro hopen
      obtain ⟨hunset, hscope, _⟩ := hrun.current hopen
      exact ⟨hunset, hscope⟩
  case ending =>
    intro t ht op h' hstep
    rcases hinv.loop with hrest | ⟨t', hrun⟩
    · rw [hrest.refreshes] at ht
      cases ht
    · rw [hrun.refreshes, List.mem_singleton] at ht
      subst ht
      obtain ⟨m, hm, hmap⟩ := Option.map_eq_some_iff.mp hstep
      have hevent : h'.map.refreshDone.1 = h.map.refreshDone.1 := by
        rw [← hmap]
        exact step_keeps_event hrun.state hm
      refine ⟨hevent ▸ hrun.event, ?_⟩
      intro hended
      rcases (step_coherent hinv hstep).loop with hrest' | ⟨t', hrun'⟩
      · exact ⟨hrest'.done (hevent ▸ hrun.started), hrest'.inFlight⟩
      · rw [hrun'.refreshes] at hended
        cases hended
  case ready => exact hinv.ready
  case reply =>
    intro scope reply m hstep
    cases step_turn hstep
    exact fetchReply_unchanged ..

/-- A failure, a retry that installs the two halves, and a second refresh. -/
theorem refresh_orderly_again :
    ∃ h, Reachable (History.start {}) (History.step .asciiOnly {}) anyStep h ∧
      h.map.state = .updating ∧ h.map.refreshes.length = 1 ∧ h.events 0 = some 1 ∧
      h.events 2 = some 2 ∧ h.installed = some [halvesPage] ∧ h.Orderly .asciiOnly {} := by
  have hrun : (exec (History.step .asciiOnly {}) anyStep { map := enter (init {}) }
      [.start, .begin 0, .fetchReply 0 none, .backoffOver 0, .fetchReply 0 (some halvesPage),
        .install 10 0, .invalidate 11 none]).map
      (fun h => ((h.map.state, h.map.refreshes.length), (h.events 0, h.events 2), h.installed)) =
        some ((.updating, 1), (some 1, some 2), some [halvesPage]) := by
    decide +kernel
  obtain ⟨h, hexec, hout⟩ := Option.map_eq_some_iff.mp hrun
  obtain ⟨hloop, hout⟩ := Prod.mk.inj hout
  obtain ⟨hstate, hone⟩ := Prod.mk.inj hloop
  obtain ⟨hevents, hinstalled⟩ := Prod.mk.inj hout
  obtain ⟨hfirst, hsecond⟩ := Prod.mk.inj hevents
  have hreach : Reachable (History.start {}) (History.step .asciiOnly {}) anyStep h :=
    Reachable.exec (.start rfl) hexec
  exact ⟨h, hreach, hstate, hone, hfirst, hsecond, hinstalled, refresh_orderly hreach⟩

end ShardMap

end Aiokpl
