import Aiokpl.ProducerCalls
import Aiokpl.ShardMapRefresh

/-!
# Who waits while holding `_pipeline_lock`

The machine of the producer with the shard maps that its pipelines make.  A call that
builds a pipeline awaits `ShardMap.start` before it lets go of the lock, and `start`
waits for the event that the refresh loop sets when it ends: not after the first
failure, but when it has installed a snapshot, or when the map was closed.

Main results: `waits_iff_start`, for every run from a fresh producer, and
`failing_stream_keeps_lock`, a run in which one stream keeps another from the lock.
-/

namespace Aiokpl

open Lib

namespace ShardMap

variable {u : DigitClasses} {cfg : Config} {m m' : State} {event : Nat}

/-- `wait()` on this event returns.  An event that has been replaced was set. -/
def eventSet (m : State) (event : Nat) : Bool :=
  event < m.refreshDone.1 || m.refreshDone = (event, true)

theorem eventSet_iff :
    eventSet m event = true ↔ event < m.refreshDone.1 ∨ m.refreshDone = (event, true) := by
  simp [eventSet]

/-- An event that is set stays set. -/
theorem step_eventSet {op : Op} (h : eventSet m event = true) (hstep : step u cfg m op = some m') :
    eventSet m' event = true := by
  rw [eventSet_iff] at h ⊢
  rcases step_event hstep with ⟨_, hdone, _⟩ | ⟨hdone | hdone, _⟩
  · left
    rw [hdone]
    rcases h with hlt | hset
    · exact Nat.lt_succ_of_lt hlt
    · rw [hset]
      exact Nat.lt_succ_self _
  · rw [hdone]
    exact h
  · rw [hdone]
    rcases h with hlt | hset
    · exact Or.inl hlt
    · right
      rw [hset]

/-- Before the first success there is at most the first event. -/
def FirstEvent (m : State) : Prop :=
  m.refreshDone.1 = 0 ∨ m.refreshDone.1 = 1 ∧ m.state = .updating ∨ m.updatedAt.isSome

theorem step_firstEvent {op : Op} (h : FirstEvent m) (hstep : step u cfg m op = some m') :
    FirstEvent m' := by
  rcases step_event hstep with ⟨hstate, hdone, hstate', hupdated⟩ | ⟨hdone, hlater⟩
  · rcases h with hzero | ⟨_, hupdating⟩ | hinstalled
    · right
      left
      rw [hdone, hzero]
      exact ⟨rfl, hstate'⟩
    · exact absurd hupdating hstate
    · right
      right
      rw [hupdated]
      exact hinstalled
  · have hsame : m'.refreshDone.1 = m.refreshDone.1 := by
      rcases hdone with hdone | hdone <;> rw [hdone]
    rcases hlater with hinstalled | ⟨hstate, hupdated⟩
    · exact Or.inr (Or.inr hinstalled)
    · unfold FirstEvent
      rw [hsame, hstate, hupdated]
      exact h

/-- A map that has been entered. -/
def entered (cfg : Config) (m : State) : Prop := m = enter (init cfg)

theorem reachable_history (h : Reachable (entered cfg) (step u cfg) anyStep m) :
    ∃ past : History, Reachable (History.start cfg) (History.step u cfg) anyStep past ∧
      past.map = m := by
  induction h with
  | start hm => exact ⟨_, .start rfl, hm.symm⟩
  | @next m m' op _ _ hstep ih =>
    obtain ⟨past, hpast, rfl⟩ := ih
    obtain ⟨past', hnext, hmap⟩ : ∃ past', past.step u cfg op = some past' ∧ past'.map = m' := by
      simp [History.step, hstep]
    exact ⟨past', hpast.next trivial hnext, hmap⟩

/-- **The first event is set by a success or by closing**, not by a failure. -/
theorem first_event_set (h : Reachable (entered cfg) (step u cfg) anyStep m)
    (hset : eventSet m 1 = true) : m.closed = true ∨ m.updatedAt.isSome := by
  have hfirst : FirstEvent m := h.invariant (fun m hm => by rw [hm]; exact Or.inl rfl)
    fun _ _ _ hinv _ hstep => step_firstEvent hinv hstep
  rcases hfirst with hzero | ⟨hone, hupdating⟩ | hinstalled
  · rw [eventSet_iff] at hset
    rcases hset with hlt | hset
    · omega
    · rw [hset] at hzero
      cases hzero
  · obtain ⟨past, hpast, rfl⟩ := reachable_history h
    have hcoherent := reachable_coherent hpast
    by_contra hnot
    rw [not_or, Bool.not_eq_true] at hnot
    rcases hcoherent.loop with hrest | ⟨t, hrun⟩
    · exact hrest.state hnot.1 hupdating
    · obtain ⟨hunset, _⟩ := hrun.current hnot.1
      rw [eventSet_iff] at hset
      rcases hset with hlt | hset
      · omega
      · rw [hset] at hunset
        cases hunset
  · exact Or.inr hinstalled

end ShardMap

namespace Producer

/-! ## The machine -/

/-- A producer, the shard maps its calls have made, and the `start` that the holder of
    the lock waits in, if it does: which map, and which event. -/
structure Mapped where
  producer : State
  maps : List ShardMap.State := []
  starting : Option (Nat × Nat) := none

/-- `start` is the call of `ShardMap.start` by the holder of the lock. -/
inductive MappedOp
  | producer (op : Op)
  | start
  | map (i : Nat) (op : ShardMap.Op)

/-- The call that builds a pipeline goes on when its `start` returns; until it comes to
    `start`, it can only fail. -/
def Mapped.resumes (s : Mapped) : Op → Bool
  | .run id input =>
    if s.producer.shared.pipelineLock = some id then
      match s.starting with
      | none => input.buildFails
      | some (i, event) => (s.maps[i]?).any fun m => ShardMap.eventSet m event
    else true
  | _ => true

/-- The map of a new pipeline, once `start` has spawned its refresh. -/
def startedMap : ShardMap.State := (ShardMap.spawnRefresh {} (ShardMap.enter (ShardMap.init {}))).1

def Mapped.step (sys : System) (s : Mapped) : MappedOp → Option Mapped
  | .producer op =>
    if s.resumes op then
      (s.producer.step sys op).map fun producer =>
        { s with
          producer
          starting := if producer.shared.pipelineLock = none then none else s.starting }
    else none
  | .start =>
    if s.producer.shared.pipelineLock ≠ none ∧ s.starting = none then
      some { s with
        maps := s.maps ++ [startedMap]
        starting := some (s.maps.length, startedMap.refreshDone.1) }
    else none
  | .map i op =>
    (s.maps[i]?).bind fun m =>
      (ShardMap.step sys.u {} m op).map fun m => { s with maps := s.maps.set i m }

def Mapped.start (sys : System) (s : Mapped) : Prop :=
  ∃ producer, State.start sys producer ∧ s = { producer }

/-- The holder of the lock is suspended until a refresh of this map ends. -/
def Mapped.WaitsFor (s : Mapped) (id i event : Nat) : Prop :=
  s.producer.shared.pipelineLock = some id ∧ s.starting = some (i, event) ∧
    ∃ m, s.maps[i]? = some m ∧ ShardMap.eventSet m event = false

/-- Some task is suspended so. -/
def Mapped.Waits (s : Mapped) : Prop := ∃ id i event, s.WaitsFor id i event

/-! ## The lock -/

/-- Only the holder of the lock lets go of it. -/
theorem step_lock {sys : System} {s s' : State} {op : Op} {id : Nat} (h : Sound s)
    (hlock : s.shared.pipelineLock = some id) (hstep : s.step sys op = some s') :
    s'.shared.pipelineLock = some id ∨ op = .cancel id ∨ ∃ input, op = .run id input := by
  cases (step_turn hstep).2 with
  | refused => exact Or.inl hlock
  | entered => exact Or.inl hlock
  | flushes => exact Or.inl hlock
  | exits => exact Or.inl hlock
  | @ran id' input kind w rest push shared spawn hfound _ hexec =>
    have hsteady := (goOn_accounts sys id' kind (push ++ rest) { s with shared }).2
    rw [shared_spawn, hsteady.lock]
    cases exec_next (fun _ hw => (h.building hfound hw).2) hexec with
    | moved _ hstages => exact Or.inl (hstages.lock.trans hlock)
    | acquired => exact Or.inl hlock
    | resumed => exact Or.inl hlock
    | building _ hfree =>
      rw [hlock] at hfree
      cases hfree
    | accepted _ _ _ hfrom =>
      rcases hfrom with ⟨_, hfree⟩ | hbuild
      · rw [hlock] at hfree
        cases hfree
      · have howner := (h.building hfound hbuild).1
        obtain rfl := Option.some.inj (hlock.symm.trans howner)
        exact Or.inr (Or.inr ⟨input, rfl⟩)
    | finished hfinish => exact Or.inl (hfinish.lock.trans hlock)
  | @raised id' input kind w rest left shared hfound _ hexec =>
    have hraised := exec_raises (fun _ hw => (h.building hfound hw).2) hexec
    obtain ⟨_, _, _, hfail, _⟩ := fail_calls id' kind (w :: rest) (left ++ rest) { s with shared }
    rcases hraised.lock with hkept | ⟨⟨call, hbuild⟩, _⟩
    · rcases hfail with hsame | ⟨howner, _⟩
      · exact Or.inl (hsame.trans (hkept.trans hlock))
      · obtain rfl := Option.some.inj ((hkept.trans hlock).symm.trans howner)
        exact Or.inr (Or.inr ⟨input, rfl⟩)
    · have howner := (h.building hfound hbuild).1
      obtain rfl := Option.some.inj (hlock.symm.trans howner)
      exact Or.inr (Or.inr ⟨input, rfl⟩)
  | reducerTimer =>
    rw [shared_spawn]
    exact Or.inl hlock
  | collectorTimer _ _ _ _ hbatch =>
    obtain ⟨rfl, _⟩ := collectorBatch_next hbatch
    rw [shared_spawn]
    exact Or.inl hlock
  | overrun _ _ _ _ hbatch =>
    obtain ⟨rfl, _⟩ := collectorBatch_raises hbatch
    exact Or.inl hlock
  | answered =>
    rw [resolve_eq]
    exact Or.inl hlock
  | @cancelled id' kind w rest hfound =>
    obtain ⟨_, _, _, hfail, _⟩ := fail_calls id' kind (w :: rest) (w :: rest) s
    rcases hfail with hsame | ⟨howner, _⟩
    · exact Or.inl (hsame.trans hlock)
    · obtain rfl := Option.some.inj (hlock.symm.trans howner)
      exact Or.inr (Or.inl rfl)
  | stopped => exact Or.inl hlock

/-- No stream has a pipeline, and no record has been registered. -/
def Shared.Unbuilt (s : Shared) : Prop :=
  (∀ stream, s.pipelines.get? stream = none) ∧ s.accepted = []

/-- **The first pipeline is built by the holder of the lock**, and no record is registered
    before. -/
theorem step_unbuilt {sys : System} {s s' : State} {op : Op} (h : Sound s)
    (hbuilds : ∀ id input, op = .run id input → s.shared.pipelineLock = some id →
      input.buildFails = true)
    (hunbuilt : s.shared.Unbuilt) (hstep : s.step sys op = some s') : s'.shared.Unbuilt := by
  obtain ⟨hnone, haccepted⟩ := hunbuilt
  have habsurd : ∀ {stream : String} {p : Pipeline} {P : Prop},
      s.shared.pipelines.get? stream = some p → P := by
    intro stream p P hp
    rw [hnone stream] at hp
    cases hp
  cases (step_turn hstep).2 with
  | refused | flushes | exits | entered => exact ⟨hnone, haccepted⟩
  | reducerTimer _ hp => exact habsurd hp
  | collectorTimer _ _ hp => exact habsurd hp
  | overrun _ _ hp => exact habsurd hp
  | stopped _ hp => exact habsurd hp
  | answered =>
    rw [resolve_eq]
    exact ⟨hnone, haccepted⟩
  | @ran id input kind w rest push shared spawn hfound _ hexec =>
    obtain ⟨hbooks, hsteady⟩ := goOn_accounts sys id kind (push ++ rest) { s with shared }
    have hkept : shared.Unbuilt := by
      cases exec_next (fun _ hw => (h.building hfound hw).2) hexec with
      | moved _ hstages =>
        exact ⟨fun stream => hstages.streams stream (hnone stream),
          (congrArg Books.accepted hstages.books).trans haccepted⟩
      | acquired | resumed | building => exact ⟨hnone, haccepted⟩
      | @accepted _ call _ _ _ _ _ hfrom =>
        rcases hfrom with ⟨rfl, hfree⟩ | rfl
        · simp [exec, hfree, hnone call.stream] at hexec
        · simp [exec, hbuilds id input rfl (h.building hfound rfl).1] at hexec
      | finished hfinish =>
        exact ⟨fun stream => hfinish.streams stream (hnone stream),
          (congrArg Books.accepted hfinish.books).trans haccepted⟩
    rw [shared_spawn]
    exact ⟨fun stream => hsteady.streams stream (hkept.1 stream),
      (congrArg Books.accepted hbooks).trans hkept.2⟩
  | @raised id input kind w rest left shared hfound _ hexec =>
    have hraised := exec_raises (fun _ hw => (h.building hfound hw).2) hexec
    obtain ⟨hsame, _, _, _, hpipelines⟩ :=
      fail_calls id kind (w :: rest) (left ++ rest) { s with shared }
    refine ⟨fun stream => ?_, ?_⟩
    · rw [hpipelines]
      by_cases hbuild : ∃ call, w = .buildPipeline call
      · obtain ⟨call, rfl⟩ := hbuild
        simp only [exec, hbuilds id input rfl (h.building hfound rfl).1, if_true,
          Option.some.injEq, Ran.raises.injEq] at hexec
        rw [← hexec.1]
        exact hnone stream
      · exact hraised.streams stream (fun call hw => absurd ⟨call, hw⟩ hbuild) (hnone stream)
    · rw [hsame]
      exact (congrArg Books.accepted hraised.books).trans haccepted
  | @cancelled id kind w rest =>
    obtain ⟨hsame, _, _, _, hpipelines⟩ := fail_calls id kind (w :: rest) (w :: rest) s
    refine ⟨fun stream => ?_, hsame.trans haccepted⟩
    rw [hpipelines]
    exact hnone stream

/-! ## The invariant -/

/-- What is known in every state: `starting` belongs to the holder of the lock and is the
    first event of its map. -/
structure Mapped.Held (sys : System) (s : Mapped) : Prop where
  sound : Sound s.producer
  lock : s.starting ≠ none → s.producer.shared.pipelineLock ≠ none
  event : ∀ i event, s.starting = some (i, event) → event = 1 ∧ i < s.maps.length
  maps : ∀ m ∈ s.maps,
    Reachable (ShardMap.entered {}) (ShardMap.step sys.u {}) anyStep m
  unbuilt : s.maps = [] → s.producer.shared.Unbuilt

theorem startedMap_reachable (u : DigitClasses) :
    Reachable (ShardMap.entered {}) (ShardMap.step u {}) anyStep startedMap := by
  have hentered : Reachable (ShardMap.entered {}) (ShardMap.step u {}) anyStep
      (ShardMap.enter (ShardMap.init {})) := .start rfl
  exact hentered.next (a := .start) trivial rfl

theorem Mapped.step_held {sys : System} {s s' : Mapped} {op : MappedOp} (h : s.Held sys)
    (hstep : s.step sys op = some s') : s'.Held sys := by
  cases op with
  | producer op =>
    simp only [Mapped.step, Option.ite_none_right_eq_some] at hstep
    obtain ⟨p, hp, rfl⟩ := Option.map_eq_some_iff.mp hstep.2
    constructor
    · exact h.sound.step hp
    · intro hstarting hfree
      exact hstarting (if_pos hfree)
    · intro i event hstarting
      dsimp only at hstarting
      split at hstarting
      · cases hstarting
      · exact h.event i event hstarting
    · exact h.maps
    · intro hnone
      refine step_unbuilt h.sound ?_ (h.unbuilt hnone) hp
      rintro id input rfl hlock
      have hstarting : s.starting = none := by
        cases hstarting : s.starting with
        | none => rfl
        | some start =>
          have hlen := (h.event start.1 start.2 hstarting).2
          rw [hnone] at hlen
          cases hlen
      simpa [Mapped.resumes, hlock, hstarting] using hstep.1
  | start =>
    simp only [Mapped.step, Option.ite_none_right_eq_some, Option.some.injEq] at hstep
    obtain ⟨⟨hlock, _⟩, rfl⟩ := hstep
    constructor
    · exact h.sound
    · intro _
      exact hlock
    · intro i event hstarting
      obtain ⟨rfl, rfl⟩ := Prod.mk.inj (Option.some.inj hstarting)
      refine ⟨rfl, ?_⟩
      rw [List.length_append]
      exact Nat.lt_succ_self _
    · intro m hm
      rcases List.mem_append.mp hm with hold | hnew
      · exact h.maps m hold
      · rw [List.mem_singleton.mp hnew]
        exact startedMap_reachable sys.u
    · intro hnone
      simp at hnone
  | map i op =>
    obtain ⟨m, hm, hmap⟩ := Option.bind_eq_some_iff.mp hstep
    obtain ⟨m', hm', rfl⟩ := Option.map_eq_some_iff.mp hmap
    constructor
    · exact h.sound
    · exact h.lock
    · intro j event hstarting
      rw [List.length_set]
      exact h.event j event hstarting
    · intro m'' hm''
      rcases List.mem_or_eq_of_mem_set hm'' with hold | rfl
      · exact h.maps m'' hold
      · exact (h.maps m (List.mem_of_getElem? hm)).next trivial hm'
    · intro hnone
      exact h.unbuilt (by simpa using hnone)

theorem Mapped.reachable_held {sys : System} {ok : Mapped → MappedOp → Prop} {s : Mapped}
    (hreach : Reachable (Mapped.start sys) (Mapped.step sys) ok s) : s.Held sys := by
  apply hreach.invariant
  · rintro _ ⟨producer, hstart, rfl⟩
    constructor
    · exact start_sound hstart
    · intro hne
      exact absurd rfl hne
    · intro i event hstarting
      cases hstarting
    · intro m hm
      exact absurd hm List.not_mem_nil
    · intro _
      rw [show producer = _ from hstart]
      exact ⟨fun _ => rfl, rfl⟩
  · intro s op s' hinv _ hstep
    exact Mapped.step_held hinv hstep

/-! ## The maps of a run -/

/-- Each call of `start` comes with a map. -/
theorem step_maps {sys : System} {s s' : Mapped} {op : MappedOp}
    (hstep : s.step sys op = some s') : s'.maps ≠ [] ↔ s.maps ≠ [] ∨ op = .start := by
  cases op with
  | producer op =>
    simp only [Mapped.step, Option.ite_none_right_eq_some] at hstep
    obtain ⟨p, _, rfl⟩ := Option.map_eq_some_iff.mp hstep.2
    simp
  | start =>
    simp only [Mapped.step, Option.ite_none_right_eq_some, Option.some.injEq] at hstep
    obtain ⟨_, rfl⟩ := hstep
    simp
  | map i op =>
    obtain ⟨m, _, hmap⟩ := Option.bind_eq_some_iff.mp hstep
    obtain ⟨m', _, rfl⟩ := Option.map_eq_some_iff.mp hmap
    simp

theorem exec_maps {sys : System} {s s' : Mapped} {ops : List MappedOp}
    (hrun : Lib.exec (Mapped.step sys) anyStep s ops = some s') :
    s'.maps ≠ [] ↔ s.maps ≠ [] ∨ .start ∈ ops := by
  induction ops generalizing s with
  | nil =>
    obtain rfl := Option.some.inj hrun
    simp
  | cons op ops ih =>
    rw [Lib.exec, if_pos (by trivial), Option.bind_eq_some_iff] at hrun
    obtain ⟨s1, hstep, hrest⟩ := hrun
    rw [ih hrest, step_maps hstep, List.mem_cons, or_assoc, @eq_comm _ op]

/-! ## Waiting -/

/-- The call of `start` always waits. -/
theorem start_waits {sys : System} {s s' : Mapped} (hstep : s.step sys .start = some s') :
    s'.Waits := by
  simp only [Mapped.step, Option.ite_none_right_eq_some, Option.some.injEq] at hstep
  obtain ⟨⟨hlock, _⟩, rfl⟩ := hstep
  obtain ⟨id, hid⟩ := Option.ne_none_iff_exists'.mp hlock
  refine ⟨id, s.maps.length, startedMap.refreshDone.1, hid, rfl, startedMap, ?_, ?_⟩
  · exact List.getElem?_concat_length ..
  · decide

/-- Nothing else makes a task wait. -/
theorem waits_of_other {sys : System} {s s' : Mapped} {op : MappedOp} (h : s.Held sys)
    (hop : op ≠ .start) (hstep : s.step sys op = some s') (hwaits : s'.Waits) : s.Waits := by
  obtain ⟨id, i, event, hlock, hstarting, m', hm', hunset⟩ := hwaits
  cases op with
  | start => exact absurd rfl hop
  | producer op =>
    simp only [Mapped.step, Option.ite_none_right_eq_some] at hstep
    obtain ⟨p, hp, rfl⟩ := Option.map_eq_some_iff.mp hstep.2
    dsimp only at hlock hstarting hm'
    rw [if_neg (by rw [hlock]; exact Option.some_ne_none id)] at hstarting
    obtain ⟨id', hid'⟩ := Option.ne_none_iff_exists'.mp
      (h.lock (by rw [hstarting]; exact Option.some_ne_none _))
    exact ⟨id', i, event, hid', hstarting, m', hm', hunset⟩
  | map j op =>
    obtain ⟨m, hm, hmap⟩ := Option.bind_eq_some_iff.mp hstep
    obtain ⟨m'', hm'', rfl⟩ := Option.map_eq_some_iff.mp hmap
    refine ⟨id, i, event, hlock, hstarting, ?_⟩
    by_cases hij : i = j
    · subst hij
      refine ⟨m, hm, ?_⟩
      have hlen : i < s.maps.length := (h.event i event hstarting).2
      dsimp only at hm'
      rw [List.getElem?_set_self hlen] at hm'
      obtain rfl := Option.some.inj hm'
      by_contra hset
      rw [Bool.not_eq_false] at hset
      rw [ShardMap.step_eventSet hset hm''] at hunset
      cases hunset
    · dsimp only at hm'
      rw [List.getElem?_set_ne (Ne.symm hij)] at hm'
      exact ⟨m', hm', hunset⟩

/-- While the holder waits, nobody else gets the lock, until its map has been refreshed
    or closed, or the holder is cancelled. -/
theorem waits_goes_on {sys : System} {s s' : Mapped} {op : MappedOp} {id i event : Nat}
    (h : s.Held sys) (hwaits : s.WaitsFor id i event) (hstep : s.step sys op = some s') :
    op = .producer (.cancel id) ∨ s'.producer.shared.pipelineLock = some id ∧
      (s'.WaitsFor id i event ∨
        ∃ m, s'.maps[i]? = some m ∧ (m.closed = true ∨ m.updatedAt.isSome)) := by
  obtain ⟨hlock, hstarting, m, hm, hunset⟩ := hwaits
  obtain ⟨rfl, hlen⟩ := h.event i event hstarting
  cases op with
  | start =>
    simp only [Mapped.step, Option.ite_none_right_eq_some, hstarting] at hstep
    cases hstep.1.2
  | producer op =>
    simp only [Mapped.step, Option.ite_none_right_eq_some] at hstep
    obtain ⟨hresumes, hstep⟩ := hstep
    obtain ⟨p, hp, rfl⟩ := Option.map_eq_some_iff.mp hstep
    rcases step_lock h.sound hlock hp with hkept | rfl | ⟨input, rfl⟩
    · right
      refine ⟨hkept, Or.inl ⟨hkept, ?_, m, hm, hunset⟩⟩
      dsimp only
      rw [if_neg (by rw [hkept]; exact Option.some_ne_none id)]
      exact hstarting
    · exact Or.inl rfl
    · simp [Mapped.resumes, hlock, hstarting, hm, hunset] at hresumes
  | map j op =>
    obtain ⟨m', hm', hmap⟩ := Option.bind_eq_some_iff.mp hstep
    obtain ⟨m'', hm'', rfl⟩ := Option.map_eq_some_iff.mp hmap
    right
    refine ⟨hlock, ?_⟩
    by_cases hij : i = j
    · subst hij
      obtain rfl := Option.some.inj (hm.symm.trans hm')
      have hset := List.getElem?_set_self (a := m'') hlen
      by_cases hdone : ShardMap.eventSet m'' 1 = true
      · right
        have hreach := (h.maps m (List.mem_of_getElem? hm)).next trivial hm''
        exact ⟨m'', hset, ShardMap.first_event_set hreach hdone⟩
      · left
        exact ⟨hlock, hstarting, m'', hset, Bool.eq_false_of_not_eq_true hdone⟩
    · left
      refine ⟨hlock, hstarting, m, ?_, hunset⟩
      dsimp only
      rw [List.getElem?_set_ne (Ne.symm hij)]
      exact hm

/-- **Who waits with the lock.**  In every run from a fresh producer a task comes to wait
    for a refresh with the lock in hand if and only if a call gets to start the map of a new
    pipeline; and one does in every run in which a stream has got a pipeline, or a record
    has been registered.  It is that call of `start` that makes a task wait, and from then
    on the lock stays where it is until the refresh succeeds, its map is closed, or the
    call is cancelled. -/
theorem waits_iff_start (sys : System) {s0 s : Mapped} {ops : List MappedOp}
    (h0 : Mapped.start sys s0) (hrun : Lib.exec (Mapped.step sys) anyStep s0 ops = some s) :
    ((∃ before after s1, ops = before ++ after ∧
      Lib.exec (Mapped.step sys) anyStep s0 before = some s1 ∧ s1.Waits) ↔ .start ∈ ops) ∧
    ((∃ stream p, s.producer.shared.pipelines.get? stream = some p) ∨
      s.producer.shared.accepted ≠ [] → .start ∈ ops) ∧
    (¬ s.Waits → ∀ op s', s.step sys op = some s' → (s'.Waits ↔ op = .start)) ∧
    ∀ id i event, s.WaitsFor id i event → ∀ op s', s.step sys op = some s' →
      op = .producer (.cancel id) ∨ s'.producer.shared.pipelineLock = some id ∧
        (s'.WaitsFor id i event ∨
          ∃ m, s'.maps[i]? = some m ∧ (m.closed = true ∨ m.updatedAt.isSome)) := by
  have hinit : Reachable (Mapped.start sys) (Mapped.step sys) anyStep s0 := .start h0
  have hreach : ∀ {ops s}, Lib.exec (Mapped.step sys) anyStep s0 ops = some s → s.Held sys :=
    fun hrun => Mapped.reachable_held (hinit.exec hrun)
  have hfresh : s0.maps = [] := by
    obtain ⟨producer, _, rfl⟩ := h0
    rfl
  have hstarts : ∀ {ops s}, Lib.exec (Mapped.step sys) anyStep s0 ops = some s → s.maps ≠ [] →
      .start ∈ ops :=
    fun hrun hmaps => ((exec_maps hrun).mp hmaps).resolve_left fun hne => hne hfresh
  have hheld := hreach hrun
  refine ⟨⟨?_, ?_⟩, ?_, ?_, ?_⟩
  · rintro ⟨before, after, s1, rfl, hbefore, id, i, event, _, hstarting, _⟩
    apply List.mem_append_left
    apply hstarts hbefore
    intro hnone
    have hlen := ((hreach hbefore).event i event hstarting).2
    rw [hnone] at hlen
    cases hlen
  · intro hmem
    obtain ⟨before, after, rfl⟩ := List.append_of_mem hmem
    rw [Lib.exec_append, Option.bind_eq_some_iff] at hrun
    obtain ⟨s1, hbefore, hafter⟩ := hrun
    rw [Lib.exec, if_pos (by trivial), Option.bind_eq_some_iff] at hafter
    obtain ⟨s2, hstep, _⟩ := hafter
    refine ⟨before ++ [.start], after, s2, by simp, ?_, start_waits hstep⟩
    rw [Lib.exec_append, hbefore, Option.bind_some, Lib.exec, if_pos (by trivial), hstep]
    rfl
  · intro hbuilt
    apply hstarts hrun
    intro hnone
    obtain ⟨hstreams, haccepted⟩ := hheld.unbuilt hnone
    rcases hbuilt with ⟨stream, p, hp⟩ | hne
    · cases (hstreams stream).symm.trans hp
    · exact hne haccepted
  · intro hnot op s' hstep
    constructor
    · intro hwaits
      by_contra hop
      exact hnot (waits_of_other hheld hop hstep hwaits)
    · rintro rfl
      exact start_waits hstep
  · intro id i event hwaits op s' hstep
    exact waits_goes_on hheld hwaits hstep

/-! ### Two streams -/

def twoStreams : System := { md5 := fun _ => .zero, u := .asciiOnly, cfg := {} }

def emptyProducer : Mapped :=
  { producer := { shared := { permits := twoStreams.cfg.maxOutstandingRecords } } }

/-- A call on this stream, and its steps up to the lock. -/
def comesToLock (id : Nat) (stream : String) : List MappedOp :=
  [.producer (.putRecord stream { partitionKey := "p", data := [] }), .producer (.run id {}),
    .producer (.run id {})]

/-- ListShards fails once and then answers, and the call returns; the next call on the
    stream finds the pipeline. -/
def secondFinds : List MappedOp :=
  comesToLock 0 "a" ++ [.producer (.run 0 {}), .start, .map 0 (.begin 0),
    .map 0 (.fetchReply 0 none), .map 0 (.backoffOver 0), .map 0 (.fetchReply 0 (some halvesPage)),
    .map 0 (.install 10 0), .producer (.run 0 {})] ++
    comesToLock 1 "a" ++ [.producer (.run 1 {})]

theorem waits_iff_start_built :
    ∃ s, Lib.exec (Mapped.step twoStreams) anyStep emptyProducer secondFinds = some s ∧
      s.producer.shared.accepted = [("a", 0), ("a", 1)] ∧ s.starting = none ∧
      ∃ before after s1, secondFinds = before ++ after ∧
        Lib.exec (Mapped.step twoStreams) anyStep emptyProducer before = some s1 ∧ s1.Waits := by
  have hrun : (Lib.exec (Mapped.step twoStreams) anyStep emptyProducer secondFinds).map
      (fun s => (s.producer.shared.accepted, s.starting)) =
        some ([("a", 0), ("a", 1)], none) := by
    decide +kernel
  obtain ⟨s, hexec, hout⟩ := Option.map_eq_some_iff.mp hrun
  obtain ⟨haccepted, hstarting⟩ := Prod.mk.inj hout
  obtain ⟨hwaits, hbuilt, _⟩ := waits_iff_start twoStreams ⟨_, rfl, rfl⟩ hexec
  refine ⟨s, hexec, haccepted, hstarting, hwaits.mpr (hbuilt (Or.inr ?_))⟩
  rw [haccepted]
  exact List.cons_ne_nil _ _

/-- The frame waits for `_pipeline_lock`. -/
def Work.asksLock : Work → Bool
  | .getPipeline _ => true
  | .flushPipelines => true
  | _ => false

/-- The task waits for `_pipeline_lock`. -/
def State.asksLock (s : State) (id : Nat) : Option Bool :=
  (s.tasks.get? id).bind fun t => t.work.head?.map Work.asksLock

theorem runTask_asksLock {sys : System} {s : State} {id : Nat} (input : Input)
    (hlock : s.shared.pipelineLock.isSome = true)
    (hasks : s.asksLock id = some true) :
    s.step sys (.run id input) = none := by
  obtain ⟨⟨kind, work⟩, htask, hhead⟩ := Option.bind_eq_some_iff.mp hasks
  obtain ⟨w, hw, hasks⟩ := Option.map_eq_some_iff.mp hhead
  obtain ⟨owner, howner⟩ := Option.isSome_iff_exists.mp hlock
  obtain ⟨rest, rfl⟩ := List.head?_eq_some_iff.mp hw
  have hexec : exec sys input id s.shared w = none := by
    cases w with
    | getPipeline call => simp [exec, howner]
    | flushPipelines => simp [exec, howner]
    | _ => cases hasks
  simp [State.step, State.runTask, htask, hexec]

/-- ListShards fails, and the loop backs off. -/
def failures : Nat → List MappedOp
  | 0 => []
  | n + 1 => .map 0 (.fetchReply 0 none) :: .map 0 (.backoffOver 0) :: failures n

/-- The refresh of the only map waits for a response. -/
def Fetching (s : Mapped) : Prop :=
  ∃ m, s.maps = [m] ∧ m.closed = false ∧ m.refreshDone = (1, false) ∧
    m.refreshes = [{ scope := 0, phase := .fetching {} }]

/-- However often ListShards fails, the refresh is where it was. -/
theorem exec_failures (sys : System) (n : Nat) {s : Mapped} (h : Fetching s) :
    ∃ s', Lib.exec (Mapped.step sys) anyStep s (failures n) = some s' ∧ Fetching s' ∧
      s'.producer = s.producer ∧ s'.starting = s.starting := by
  induction n generalizing s with
  | zero => exact ⟨s, rfl, h, rfl, rfl⟩
  | succ n ih =>
    obtain ⟨m, hmaps, hopen, hdone, hrefreshes⟩ := h
    let backed : ShardMap.State :=
      { m with
        backoff := min (m.backoff * 2) 30
        refreshes := [{ scope := 0, phase := .backingOff }] }
    let again : ShardMap.State :=
      { backed with refreshes := [{ scope := 0, phase := .fetching {} }] }
    have hfails : s.step sys (.map 0 (.fetchReply 0 none)) = some { s with maps := [backed] } := by
      simp [Mapped.step, hmaps, ShardMap.step, ShardMap.refreshAt, hrefreshes, ShardMap.fetchReply,
        ShardMap.fetchFailed, ShardMap.setRefresh, backed]
    have hretries : Mapped.step sys { s with maps := [backed] } (.map 0 (.backoffOver 0)) =
        some { s with maps := [again] } := by
      simp [Mapped.step, ShardMap.step, ShardMap.refreshAt, ShardMap.backoffOver, hopen,
        ShardMap.setRefresh, backed, again]
    obtain ⟨s', hexec, hfetching, hproducer, hstarting⟩ :=
      ih (s := { s with maps := [again] }) ⟨again, rfl, hopen, hdone, rfl⟩
    refine ⟨s', ?_, hfetching, hproducer, hstarting⟩
    simp only [failures, Lib.exec, hfails, hretries, Option.bind_some]
    exact hexec

/-- While ListShards fails for the stream "a", for as long as one likes, a call on the
    stream "b", a `flush` and `__aexit__` wait for the lock. -/
theorem failing_stream_keeps_lock :
    ∃ s, Reachable (Mapped.start twoStreams) (Mapped.step twoStreams) anyStep s ∧
      ∀ n, ∃ s', Lib.exec (Mapped.step twoStreams) anyStep s (failures n) = some s' ∧ s'.Waits ∧
        ∀ id ∈ [1, 2, 3], ∀ input, s'.step twoStreams (.producer (.run id input)) = none := by
  have hrun : (Lib.exec (Mapped.step twoStreams) anyStep emptyProducer
      (comesToLock 0 "a" ++ [.producer (.run 0 {}), .start, .map 0 (.begin 0)] ++
        comesToLock 1 "b" ++ [.producer .flush, .producer .exit])).map
      (fun s => decide (s.producer.shared.pipelineLock = some 0 ∧ s.starting = some (0, 1) ∧
        (∀ id ∈ [1, 2, 3], s.producer.asksLock id = some true) ∧
        s.maps.map (fun m => ((m.closed, m.refreshDone), m.refreshes)) =
          [((false, (1, false)), [{ scope := 0, phase := .fetching {} }])])) = some true := by
    decide +kernel
  obtain ⟨s, hexec, hout⟩ := Option.map_eq_some_iff.mp hrun
  obtain ⟨hlock, hstarting, hasks, hmaps⟩ := of_decide_eq_true hout
  have hfetching : Fetching s := by
    obtain ⟨m, rest, hm, hfields, hrest⟩ := List.map_eq_cons_iff.mp hmaps
    obtain rfl := List.map_eq_nil_iff.mp hrest
    obtain ⟨hflags, hrefreshes⟩ := Prod.mk.inj hfields
    obtain ⟨hopen, hdone⟩ := Prod.mk.inj hflags
    exact ⟨m, hm, hopen, hdone, hrefreshes⟩
  refine ⟨s, Reachable.exec (.start ⟨_, rfl, rfl⟩) hexec, ?_⟩
  intro n
  obtain ⟨s', hexec', ⟨m, hm, _, hdone, _⟩, hproducer, hstarting'⟩ :=
    exec_failures twoStreams n hfetching
  refine ⟨s', hexec', ⟨0, 0, 1, ?_, hstarting'.trans hstarting, m, ?_, ?_⟩, ?_⟩
  · rw [hproducer]
    exact hlock
  · rw [hm]
    rfl
  · rw [ShardMap.eventSet, hdone]
    decide
  · intro id hid input
    have hblocked : s.producer.step twoStreams (.run id input) = none :=
      runTask_asksLock input (by rw [hlock]; rfl) (hasks id hid)
    simp [Mapped.step, hproducer, hblocked]

end Producer

end Aiokpl
