import Aiokpl.ReducerRuns

/-!
# The deadline timer is never lost

Timers are tasks of their own, cancelled by scope identity while they may
already be awake and waiting for the lock.  The invariant `Armed` says that an
open Reducer with a non-empty batch has its current timer among the live tasks,
armed for the batch as it is now, and that no task past the lock is cancelled.
-/

namespace Aiokpl

open Lib

/-- The earliest deadline among items. -/
def earliest {I : Type} [Batchable I] (xs : List I) : Option Time :=
  (xs.map Batchable.deadline).min?

/-- `deadline` of a container is the earliest of its items. -/
class ReportsEarliest (I : outParam Type) (B : Type) [Batchable I] [Batch I B] : Prop where
  deadline_eq : ∀ b : B, Batch.deadline b = earliest (Batch.items b)

instance : ReportsEarliest Reducer.FakeItem Reducer.FakeBatch := ⟨fun _ => rfl⟩

namespace Reducer

variable {I B : Type} [Batch I B]

/-- The tasks are named apart, and a task past the lock is neither cancelled nor
    the current timer. -/
structure TimersSound (r : State B) : Prop where
  nodup : (r.timers.map Timer.scope).Nodup
  fresh : ∀ t ∈ r.timers, t.scope < r.nextScope
  dispatching : ∀ t ∈ r.timers, t.phase = .dispatching →
    t.cancelled = false ∧ r.timerScope ≠ some t.scope

/-- `t` is the current timer, still before the lock and armed for the active batch
    as it is now. -/
structure IsCurrent (r : State B) (t : Timer) : Prop where
  stored : r.timerScope = some t.scope
  live : t.cancelled = false
  early : t.phase ≠ .dispatching
  delay_eq : t.delay = delayUntil (Batch.deadline r.active) t.armedAt

/-- While the Reducer is open, the stored scope names a current timer, and there
    is one whenever the active batch holds an item. -/
structure Armed (r : State B) : Prop extends TimersSound r where
  current : r.closed = false → ∀ scope, r.timerScope = some scope →
    ∃ t ∈ r.timers, t.scope = scope ∧ IsCurrent r t
  guarded : r.closed = false → Batch.items r.active ≠ [] → r.timerScope ≠ none

theorem TimersSound.unique {r : State B} (h : TimersSound r) {t t' : Timer}
    (ht : t ∈ r.timers) (ht' : t' ∈ r.timers) (hscope : t.scope = t'.scope) : t = t' :=
  List.inj_on_of_nodup_map h.nodup ht ht' hscope

/-! ## Arming and cancelling -/

@[simp] theorem Timer.cancelIf_scope (scope : Nat) (t : Timer) :
    (t.cancelIf scope).scope = t.scope := by
  unfold Timer.cancelIf
  split <;> rfl

@[simp] theorem Timer.cancelIf_phase (scope : Nat) (t : Timer) :
    (t.cancelIf scope).phase = t.phase := by
  unfold Timer.cancelIf
  split <;> rfl

theorem Timer.cancelIf_of_ne {scope : Nat} {t : Timer} (h : t.scope ≠ scope) :
    t.cancelIf scope = t := if_neg h

@[simp] theorem cancelTimerLocked_timerScope (r : State B) :
    (cancelTimerLocked r).timerScope = none := by
  unfold cancelTimerLocked
  split
  · rfl
  · assumption

@[simp] theorem cancelTimerLocked_closed (r : State B) :
    (cancelTimerLocked r).closed = r.closed := by
  unfold cancelTimerLocked
  split <;> rfl

/-- A task past the lock is out of reach of `_cancel_timer_locked`. -/
theorem cancelTimerLocked_mem {r : State B} (h : TimersSound r) {t : Timer}
    (ht : t ∈ r.timers) (hphase : t.phase = .dispatching) :
    t ∈ (cancelTimerLocked r).timers := by
  unfold cancelTimerLocked
  split
  · rename_i scope hscope
    have hne : t.scope ≠ scope := by
      rintro rfl
      exact (h.dispatching t ht hphase).2 hscope
    exact List.mem_map.mpr ⟨t, ht, Timer.cancelIf_of_ne hne⟩
  · exact ht

theorem cancelTimerLocked_sound {r : State B} (h : TimersSound r) :
    TimersSound (cancelTimerLocked r) := by
  unfold cancelTimerLocked
  split
  · rename_i scope hscope
    refine ⟨?_, ?_, ?_⟩
    · simpa [List.map_map, Function.comp_def] using h.nodup
    · intro t ht
      obtain ⟨t₀, ht₀, rfl⟩ := List.mem_map.mp ht
      simpa using h.fresh t₀ ht₀
    · intro t ht hphase
      obtain ⟨t₀, ht₀, rfl⟩ := List.mem_map.mp ht
      rw [Timer.cancelIf_phase] at hphase
      obtain ⟨hlive, hother⟩ := h.dispatching t₀ ht₀ hphase
      have hne : t₀.scope ≠ scope := by
        rintro rfl
        exact hother hscope
      rw [Timer.cancelIf_of_ne hne]
      exact ⟨hlive, by simp⟩
  · exact h

theorem rescheduleLocked_mem {r : State B} (h : TimersSound r) (now : Time) {t : Timer}
    (ht : t ∈ r.timers) (hphase : t.phase = .dispatching) :
    t ∈ (rescheduleLocked now r).timers := by
  have hmem := cancelTimerLocked_mem h ht hphase
  unfold rescheduleLocked
  by_cases hcount : Batch.count (cancelTimerLocked r).active = 0
  · simp only [hcount, if_true]
    exact hmem
  · simp only [hcount, if_false]
    exact List.mem_append_left _ hmem

@[simp] theorem rescheduleLocked_closed (now : Time) (r : State B) :
    (rescheduleLocked now r).closed = r.closed := by
  unfold rescheduleLocked
  by_cases h : Batch.count r.active = 0 <;> simp [h]

/-- **`_reschedule_locked` restores the invariant**, whatever was armed before. -/
theorem rescheduleLocked_armed [CountsItems I B] {r : State B} (h : TimersSound r) (now : Time) :
    Armed (rescheduleLocked now r) := by
  have hsound := cancelTimerLocked_sound h
  unfold rescheduleLocked
  by_cases hcount : Batch.count (cancelTimerLocked r).active = 0
  · have hempty : Batch.items r.active = [] := by
      simpa [CountsItems.count_eq] using hcount
    simp only [hcount, if_true]
    exact { hsound with
      current := fun _ scope hscope => by simp at hscope
      guarded := fun _ hne => by simp [hempty] at hne }
  · simp only [hcount, if_false]
    refine { nodup := ?_, fresh := ?_, dispatching := ?_, current := ?_, guarded := ?_ }
    · have hnew :
          (cancelTimerLocked r).nextScope ∉ (cancelTimerLocked r).timers.map Timer.scope := by
        intro hmem
        obtain ⟨t, ht, hscope⟩ := List.mem_map.mp hmem
        have := hsound.fresh t ht
        omega
      simpa [List.nodup_append, hsound.nodup] using fun t ht hscope =>
        hnew (List.mem_map.mpr ⟨t, ht, hscope⟩)
    · intro t ht
      rcases List.mem_append.mp ht with hold | hnew
      · exact Nat.lt_succ_of_lt (hsound.fresh t hold)
      · rw [List.mem_singleton.mp hnew]
        exact Nat.lt_succ_self _
    · intro t ht hphase
      rcases List.mem_append.mp ht with hold | hnew
      · refine ⟨(hsound.dispatching t hold hphase).1, ?_⟩
        intro hscope
        have := hsound.fresh t hold
        simp only [Option.some.injEq] at hscope
        omega
      · rw [List.mem_singleton.mp hnew] at hphase
        simp at hphase
    · intro _ scope hscope
      simp only [Option.some.injEq] at hscope
      exact ⟨_, List.mem_append_right _ (List.mem_singleton.mpr rfl), hscope,
        ⟨rfl, rfl, by simp, rfl⟩⟩
    · intro _ _
      simp

theorem endTimer_sound {r : State B} (h : TimersSound r) (scope : Nat) :
    TimersSound (endTimer scope r) := by
  refine ⟨?_, ?_, ?_⟩
  · exact h.nodup.sublist (List.filter_sublist.map _)
  · intro t ht
    exact h.fresh t (List.mem_filter.mp ht).1
  · intro t ht
    exact h.dispatching t (List.mem_filter.mp ht).1

/-- A task that is not the current timer may end. -/
theorem endTimer_armed {r : State B} (h : Armed r) {scope : Nat}
    (hother : r.closed = true ∨ r.timerScope ≠ some scope) : Armed (endTimer scope r) := by
  refine { endTimer_sound h.toTimersSound scope with current := ?_, guarded := h.guarded }
  intro hopen scope' hscope'
  obtain ⟨t, ht, htscope, hcur⟩ := h.current hopen scope' hscope'
  refine ⟨t, List.mem_filter.mpr ⟨ht, ?_⟩, htscope,
    ⟨hcur.stored, hcur.live, hcur.early, hcur.delay_eq⟩⟩
  rcases hother with hclosed | hne
  · have : r.closed = false := hopen
    simp [hclosed] at this
  · have : t.scope ≠ scope := by
      rintro rfl
      exact hne hcur.stored
    simpa using this

@[simp] theorem setPhase_timerScope (scope : Nat) (phase : Phase) (r : State B) :
    (setPhase scope phase r).timerScope = r.timerScope := rfl

theorem setPhase_scopes (scope : Nat) (phase : Phase) (r : State B) :
    (setPhase scope phase r).timers.map Timer.scope = r.timers.map Timer.scope := by
  simp only [setPhase, List.map_map]
  refine List.map_congr_left fun t _ => ?_
  by_cases hscope : t.scope = scope <;> simp [hscope]

/-- A task may move on; past the lock only if it is neither current nor cancelled. -/
theorem setPhase_armed {r : State B} (h : Armed r) {scope : Nat} {phase : Phase}
    (hpast : phase = .dispatching →
      r.timerScope ≠ some scope ∧ ∀ t ∈ r.timers, t.scope = scope → t.cancelled = false) :
    Armed (setPhase scope phase r) := by
  refine { nodup := ?_, fresh := ?_, dispatching := ?_, current := ?_, guarded := h.guarded }
  · rw [setPhase_scopes]
    exact h.nodup
  · intro t ht
    have hscope : t.scope ∈ r.timers.map Timer.scope := by
      rw [← setPhase_scopes scope phase]
      exact List.mem_map_of_mem ht
    obtain ⟨t₀, ht₀, heq⟩ := List.mem_map.mp hscope
    rw [← heq]
    exact h.fresh t₀ ht₀
  · intro t ht hphase
    obtain ⟨t₀, ht₀, rfl⟩ := List.mem_map.mp ht
    by_cases hscope : t₀.scope = scope
    · simp only [hscope, if_true] at hphase ⊢
      exact ⟨(hpast hphase).2 t₀ ht₀ hscope, (hpast hphase).1⟩
    · simp only [hscope, if_false] at hphase ⊢
      exact h.dispatching t₀ ht₀ hphase
  · intro hopen scope' hscope'
    obtain ⟨t, ht, htscope, hcur⟩ := h.current hopen scope' hscope'
    by_cases hmoved : t.scope = scope
    · refine ⟨{ t with phase }, List.mem_map.mpr ⟨t, ht, if_pos hmoved⟩, htscope, ?_⟩
      refine ⟨hcur.stored, hcur.live, fun hphase => ?_, hcur.delay_eq⟩
      exact (hpast hphase).1 (hmoved ▸ hcur.stored)
    · refine ⟨t, List.mem_map.mpr ⟨t, ht, if_neg hmoved⟩, htscope, ?_⟩
      exact ⟨hcur.stored, hcur.live, hcur.early, hcur.delay_eq⟩

theorem aclose_armed {cfg : Config I B} {r : State B} (h : TimersSound r) :
    Armed (aclose cfg r) := by
  have hclosing : TimersSound { r with closed := true } := ⟨h.nodup, h.fresh, h.dispatching⟩
  have hsound := cancelTimerLocked_sound hclosing
  refine { nodup := hsound.nodup, fresh := hsound.fresh, dispatching := hsound.dispatching,
           current := ?_, guarded := ?_ }
  · intro hopen
    simp [aclose] at hopen
  · intro hopen
    simp [aclose] at hopen

/-- With no timer stored, arming adds one task at most, under a fresh scope. -/
theorem rescheduleLocked_of_idle {r : State B} (hidle : r.timerScope = none) (now : Time) :
    (∀ t ∈ (rescheduleLocked now r).timers, t ∈ r.timers ∨ t.scope = r.nextScope) ∧
      ∀ scope, (rescheduleLocked now r).timerScope = some scope → scope = r.nextScope := by
  have hsame : cancelTimerLocked r = r := by simp [cancelTimerLocked, hidle]
  simp only [rescheduleLocked, hsame]
  by_cases hcount : Batch.count r.active = 0
  · simp [hcount, hidle]
    exact fun t ht => Or.inl ht
  · simp only [hcount, if_false]
    refine ⟨fun t ht => ?_, fun scope hscope => by simpa using hscope.symm⟩
    rcases List.mem_append.mp ht with hold | hnew
    · exact Or.inl hold
    · rw [List.mem_singleton.mp hnew]
      exact Or.inr rfl

/-! ## The operations -/

variable [Batchable I]

@[simp] theorem packAndSplit_isClosed (cfg : Config I B) (now : Time) (r : State B) :
    (packAndSplit cfg now r).1.closed = r.closed := by
  simp only [packAndSplit]
  split <;> simp

theorem packAndSplit_mem {cfg : Config I B} {r : State B} (h : TimersSound r) (now : Time)
    {t : Timer} (ht : t ∈ r.timers) (hphase : t.phase = .dispatching) :
    t ∈ (packAndSplit cfg now r).1.timers := by
  have hmem := cancelTimerLocked_mem h ht hphase
  have hsound := cancelTimerLocked_sound h
  simp only [packAndSplit]
  split
  · refine rescheduleLocked_mem ?_ now hmem hphase
    exact ⟨hsound.nodup, hsound.fresh, hsound.dispatching⟩
  · exact hmem

/-- **`_pack_and_split` restores the invariant**: leftovers are re-armed, and an
    empty remainder has no timer. -/
theorem packAndSplit_armed [CountsItems I B] {cfg : Config I B} {r : State B}
    (h : TimersSound r) (now : Time) : Armed (packAndSplit cfg now r).1 := by
  have hsound := cancelTimerLocked_sound h
  simp only [packAndSplit]
  split
  · refine rescheduleLocked_armed ?_ now
    exact ⟨hsound.nodup, hsound.fresh, hsound.dispatching⟩
  · rename_i hcount
    refine { nodup := hsound.nodup, fresh := hsound.fresh, dispatching := hsound.dispatching,
             current := ?_, guarded := ?_ }
    · intro _ scope hscope
      simp at hscope
    · intro _ hne
      refine absurd ?_ hcount
      rw [CountsItems.count_eq]
      exact_mod_cast List.length_pos_iff.mpr hne

theorem add_armed [CountsItems I B] {cfg : Config I B} {r : State B} (h : TimersSound r)
    (now : Time) (item : I) : Armed (add cfg now item r).1 := by
  have hsound : TimersSound { r with active := Batch.add r.active item } :=
    ⟨h.nodup, h.fresh, h.dispatching⟩
  simp only [add]
  split
  · exact packAndSplit_armed hsound now
  · exact rescheduleLocked_armed hsound now

theorem flush_armed [CountsItems I B] {cfg : Config I B} {r : State B} (h : TimersSound r)
    (now : Time) : Armed (flush cfg now r).1 := by
  simp only [flush]
  split
  · rename_i hcount
    refine { cancelTimerLocked_sound h with current := ?_, guarded := ?_ }
    · intro _ scope hscope
      simp at hscope
    · intro _ hne
      simp only [cancelTimerLocked_active] at hne
      have hpos := List.length_pos_iff.mpr hne
      rw [CountsItems.count_eq] at hcount
      omega
  · exact packAndSplit_armed h now

theorem packAndSplit_of_idle (cfg : Config I B) {r : State B} (hidle : r.timerScope = none)
    (now : Time) :
    (∀ t ∈ (packAndSplit cfg now r).1.timers, t ∈ r.timers ∨ t.scope = r.nextScope) ∧
      ∀ scope, (packAndSplit cfg now r).1.timerScope = some scope → scope = r.nextScope := by
  have hsame : cancelTimerLocked r = r := by simp [cancelTimerLocked, hidle]
  simp only [packAndSplit, hsame]
  split
  · let packed : State B :=
      { r with
        active := fill cfg.batchFactory
          (packLoop cfg cfg.batchFactory (sortBy Batchable.deadline (Batch.items r.active))).2 }
    exact rescheduleLocked_of_idle (r := packed) hidle now
  · refine ⟨fun t ht => Or.inl ht, fun scope hscope => ?_⟩
    simp [hidle] at hscope

theorem fire_armed [CountsItems I B] {cfg : Config I B} {r : State B} (h : Armed r) (now : Time)
    {scope : Nat} (hwait : liveAt r scope .waiting) : Armed (fire cfg now scope r).1 := by
  obtain ⟨t, ht, htscope, _, hlive⟩ := hwait
  by_cases hclosed : r.closed = true
  · simpa [fire, hclosed] using endTimer_armed h (Or.inl hclosed)
  by_cases hstale : r.timerScope ≠ some scope
  · simpa [fire, hclosed, hstale] using endTimer_armed h (Or.inr hstale)
  -- the slot is cleared before the batch is packed
  have hcleared : TimersSound { r with timerScope := none } :=
    ⟨h.nodup, h.fresh, fun t ht hphase => ⟨(h.dispatching t ht hphase).1, by simp⟩⟩
  by_cases hcount : Batch.count r.active = 0
  · have hempty : Batch.items r.active = [] := by simpa [CountsItems.count_eq] using hcount
    simp only [fire, hclosed, hstale, hcount, if_true, if_false, Bool.false_eq_true]
    refine { endTimer_sound hcleared scope with current := ?_, guarded := ?_ }
    · intro _ scope' hscope'
      simp [endTimer] at hscope'
    · intro _ hne
      simp [endTimer, hempty] at hne
  · unfold fire
    rw [if_neg hclosed, if_neg hstale]
    simp only [hcount, if_false]
    obtain ⟨htimers, hslot⟩ := packAndSplit_of_idle cfg
      (r := { r with timerScope := none }) rfl now
    refine setPhase_armed (packAndSplit_armed hcleared now) fun _ => ⟨fun hscope => ?_, ?_⟩
    · have := h.fresh t ht
      have := hslot scope hscope
      simp only at this
      omega
    · intro t' ht' hscope'
      rcases htimers t' ht' with hold | hnew
      · rw [h.unique hold ht (hscope'.trans htscope.symm)]
        exact hlive
      · have := h.fresh t ht
        simp only at hnew
        omega

/-! ## Every reachable state -/

/-- Every operation keeps the invariant. -/
theorem step_armed [CountsItems I B] {cfg : Config I B} {r : State B} {op : Op I}
    {out : State B × Option B} (h : Armed r) (hstep : step cfg r op = some out) : Armed out.1 := by
  cases step_turn hstep with
  | adds now item => exact add_armed h.toTimersSound now item
  | flushes now => exact flush_armed h.toTimersSound now
  | closes => exact aclose_armed h.toTimersSound
  | wakes =>
    simp only [wake]
    split
    · rename_i hclosed
      exact endTimer_armed h (Or.inl hclosed)
    · exact setPhase_armed h (by simp)
  | fires now hwait => exact fire_armed h now hwait
  | dispatched hlive =>
    obtain ⟨t, ht, rfl, hphase, _⟩ := hlive
    exact endTimer_armed h (Or.inr (h.dispatching t ht hphase).2)
  | @cancelled t ht hcancelled =>
    refine endTimer_armed h ?_
    by_cases hclosed : r.closed = true
    · exact Or.inl hclosed
    -- the current timer of an open Reducer is not the cancelled one
    · refine Or.inr fun hstored => ?_
      obtain ⟨t', ht', hscope', hcur⟩ := h.current (by simpa using hclosed) t.scope hstored
      rw [h.unique ht' ht hscope'] at hcur
      simp [hcur.live] at hcancelled

theorem Run.reachable_armed [CountsItems I B] {cfg : Config I B} {run : Run I B}
    (h : Reachable (Run.start cfg) (Run.step cfg) anyStep run) : Armed run.reducer := by
  have hinv : ∀ (run : Run I B) (op : Op I) (run' : Run I B), Armed run.reducer →
      anyStep run op → run.step cfg op = some run' → Armed run'.reducer := by
    intro run op run' hinv _ hstep
    obtain ⟨out, hout, rfl⟩ := Option.map_eq_some_iff.mp hstep
    exact step_armed hinv hout
  refine h.invariant ?_ hinv
  rintro _ rfl
  exact { nodup := by simp [init], fresh := by simp [init], dispatching := by simp [init],
          current := by simp [init], guarded := by simp [init, cfg.fresh] }

/-- A task past the lock stays in the list as it is, whatever operation comes next,
    until its own `on_deadline` returns. -/
theorem step_keeps_dispatching {cfg : Config I B} {r : State B} {op : Op I}
    {out : State B × Option B} (h : TimersSound r) (hstep : step cfg r op = some out) {t : Timer}
    (ht : t ∈ r.timers) (hphase : t.phase = .dispatching) (hop : op ≠ .dispatched t.scope) :
    t ∈ out.1.timers := by
  -- tasks of another scope are untouched by `endTimer` and `setPhase`
  have hend : ∀ {r : State B} {scope : Nat}, t ∈ r.timers → t.scope ≠ scope →
      t ∈ (endTimer scope r).timers :=
    fun hmem hne => List.mem_filter.mpr ⟨hmem, by simpa using hne⟩
  have hset : ∀ {r : State B} {scope : Nat} {phase : Phase}, t ∈ r.timers → t.scope ≠ scope →
      t ∈ (setPhase scope phase r).timers :=
    fun hmem hne => List.mem_map.mpr ⟨t, hmem, if_neg hne⟩
  have hother : ∀ {scope : Nat} {phase : Phase}, phase ≠ .dispatching →
      liveAt r scope phase → t.scope ≠ scope := by
    rintro scope phase hne ⟨t', ht', rfl, rfl, _⟩ hscope
    rw [h.unique ht ht' hscope] at hphase
    exact hne hphase
  cases step_turn hstep with
  | adds now item =>
    have hsound : TimersSound { r with active := Batch.add r.active item } :=
      ⟨h.nodup, h.fresh, h.dispatching⟩
    simp only [add]
    split
    · exact packAndSplit_mem hsound now ht hphase
    · exact rescheduleLocked_mem hsound now ht hphase
  | flushes now =>
    simp only [flush]
    split
    · exact cancelTimerLocked_mem h ht hphase
    · exact packAndSplit_mem h now ht hphase
  | closes =>
    exact cancelTimerLocked_mem (r := { r with closed := true })
      ⟨h.nodup, h.fresh, h.dispatching⟩ ht hphase
  | wakes hsleep =>
    have hne := hother (by simp) hsleep
    simp only [wake]
    split
    · exact hend ht hne
    · exact hset ht hne
  | fires now hwait =>
    have hne := hother (by simp) hwait
    have hcleared : TimersSound { r with timerScope := none } :=
      ⟨h.nodup, h.fresh, fun t ht hphase => ⟨(h.dispatching t ht hphase).1, by simp⟩⟩
    simp only [fire]
    split
    · exact hend ht hne
    split
    · exact hend ht hne
    split
    · exact hend ht hne
    · exact hset (packAndSplit_mem hcleared now ht hphase) hne
  | dispatched => exact hend ht fun hscope => hop (by rw [hscope])
  | @cancelled t' ht' hcancelled =>
    refine hend ht fun hscope => ?_
    rw [← h.unique ht ht' hscope, (h.dispatching t ht hphase).1] at hcancelled
    simp at hcancelled

/-- The task is live, before the lock, and `_fire` would close a batch for it. -/
def WouldFire (cfg : Config I B) (r : State B) (t : Timer) : Prop :=
  t.cancelled = false ∧ t.phase ≠ .dispatching ∧ ∀ now, (fire cfg now t.scope r).2.isSome

theorem fire_isSome_iff {cfg : Config I B} {r : State B} {now : Time} {scope : Nat} :
    (fire cfg now scope r).2.isSome ↔
      r.closed = false ∧ r.timerScope = some scope ∧ Batch.count r.active ≠ 0 := by
  by_cases hclosed : r.closed = true
  · simp [fire, hclosed]
  by_cases hstale : r.timerScope ≠ some scope
  · simp [fire, hclosed, hstale]
  by_cases hcount : Batch.count r.active = 0
  · simp [fire, hclosed, hstale, hcount]
  · simp only [ne_eq, not_not] at hstale
    simp [fire, hclosed, hstale, hcount]

/-- The delay of a timer never carries it past the later of its arming and the
    deadline it was armed for. -/
theorem armedAt_add_delay {armedAt e d : Time} (h : delayUntil (some e) armedAt = some d) :
    armedAt + d = max armedAt e := by
  simp only [delayUntil, Option.map_some, Option.some.injEq] at h
  rw [← h]
  rcases le_total e armedAt with hle | hle
  · rw [max_eq_left (by linarith), max_eq_left hle, add_zero]
  · rw [max_eq_right (by linarith), max_eq_right hle]
    ring

/-- **No stranded items.**  In every reachable state of an open Reducer with a
    non-empty batch, exactly one live timer would be honoured by `_fire`; it is the
    stored one, and it wakes no later than the later of its arming and the
    earliest deadline now in the batch.  A firing that finds the batch empty or the
    slot taken over closes nothing.  A task that has taken its batch out is not
    cancelled, and no operation but its own end touches it. -/
theorem timer_never_strands [CountsItems I B] [ReportsEarliest I B] {cfg : Config I B}
    {run : Run I B} (h : Reachable (Run.start cfg) (Run.step cfg) anyStep run) :
    (run.reducer.closed = false → Batch.items run.reducer.active ≠ [] →
      ∃ t ∈ run.reducer.timers, WouldFire cfg run.reducer t ∧
        (∀ t' ∈ run.reducer.timers, WouldFire cfg run.reducer t' → t' = t) ∧
        run.reducer.timerScope = some t.scope ∧
        ∃ d e, t.delay = some d ∧ earliest (Batch.items run.reducer.active) = some e ∧
          t.armedAt + d ≤ max t.armedAt e) ∧
    (∀ now scope,
      Batch.items run.reducer.active = [] ∨ run.reducer.timerScope ≠ some scope →
        (fire cfg now scope run.reducer).2 = none) ∧
    (∀ t ∈ run.reducer.timers, t.phase = .dispatching →
      t.cancelled = false ∧
        ∀ op run', run.step cfg op = some run' → op ≠ .dispatched t.scope →
          t ∈ run'.reducer.timers) := by
  have harmed := Run.reachable_armed h
  refine ⟨fun hopen hne => ?_, fun now scope hoff => ?_, fun t ht hphase => ?_⟩
  · obtain ⟨scope, hscope⟩ := Option.ne_none_iff_exists'.mp (harmed.guarded hopen hne)
    obtain ⟨t, ht, rfl, hcur⟩ := harmed.current hopen scope hscope
    have hcount : Batch.count run.reducer.active ≠ 0 := by
      simpa [CountsItems.count_eq] using hne
    refine ⟨t, ht, ⟨hcur.live, hcur.early, fun now => ?_⟩, fun t' ht' hfire => ?_, hscope, ?_⟩
    · exact fire_isSome_iff.mpr ⟨hopen, hscope, hcount⟩
    · have hstored := (fire_isSome_iff.mp (hfire.2.2 0)).2.1
      rw [hscope, Option.some.injEq] at hstored
      exact harmed.unique ht' ht hstored.symm
    · obtain ⟨e, he⟩ : ∃ e, earliest (Batch.items run.reducer.active) = some e := by
        rw [← Option.ne_none_iff_exists']
        simpa [earliest, List.min?_eq_none_iff] using hne
      have hdelay := hcur.delay_eq
      rw [ReportsEarliest.deadline_eq, he] at hdelay
      exact ⟨_, e, hdelay, he, (armedAt_add_delay rfl).le⟩
  · rw [← Option.not_isSome_iff_eq_none, fire_isSome_iff]
    rintro ⟨_, hscope, hcount⟩
    rcases hoff with hempty | hstale
    · exact hcount (by simp [CountsItems.count_eq, hempty])
    · exact hstale hscope
  · refine ⟨(harmed.dispatching t ht hphase).1, fun op run' hstep hop => ?_⟩
    obtain ⟨out, hout, rfl⟩ := Option.map_eq_some_iff.mp hstep
    exact step_keeps_dispatching harmed.toTimersSound hout ht hphase hop

/-- A second item with an earlier deadline re-arms the timer: of the two tasks, only
    the new one is honoured. -/
theorem timer_never_strands_rearmed :
    ∃ run, Reachable (Run.start overflowConfig) (Run.step overflowConfig) anyStep run ∧
      run.reducer.timers.map (fun t => (t.scope, t.cancelled)) = [(0, true), (1, false)] ∧
      ∃ t ∈ run.reducer.timers, WouldFire overflowConfig run.reducer t ∧
        run.reducer.timerScope = some t.scope := by
  obtain ⟨run, hrun, htimers, hopen, hne⟩ : ∃ run, exec (Run.step overflowConfig) anyStep
      { reducer := init overflowConfig, added := [], closings := [] }
      [.add 0 ⟨1, 20, 1⟩, .add 0 ⟨2, 10, 1⟩] = some run ∧
        run.reducer.timers.map (fun t => (t.scope, t.cancelled)) = [(0, true), (1, false)] ∧
        run.reducer.closed = false ∧ Batch.items run.reducer.active ≠ [] :=
    ⟨_, rfl, by decide, rfl, by decide⟩
  have hreach : Reachable (Run.start overflowConfig) (Run.step overflowConfig) anyStep run :=
    Reachable.exec (.start rfl) hrun
  obtain ⟨t, ht, hfire, _, hscope, _⟩ := (timer_never_strands hreach).1 hopen hne
  exact ⟨run, hreach, htimers, t, ht, hfire, hscope⟩

end Reducer

end Aiokpl
