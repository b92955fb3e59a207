import Aiokpl.Lib.TransitionSystem
import Aiokpl.ReducerPacking

/-!
# Runs of a Reducer

`Run` is a Reducer with its history: every item added so far, and for every
closed batch the items that were active and the items left behind.  Steps are
the operations and the progress of the timer tasks, in any order.

`closings_conserve_and_pack` is the law of a whole history before `aclose`:
nothing is lost or duplicated, and every batch closed on the way was cut at the
longest prefix within the limits.
-/

namespace Aiokpl

open Lib

namespace Reducer

variable {I B : Type} [Batchable I] [Batch I B]

/-! ## The machine -/

/-- One closed batch with the items active when it was packed and those left. -/
structure Closing (I B : Type) where
  before : List I
  closed : B
  left : List I

/-- A Reducer together with what was added to it and what it closed. -/
structure Run (I B : Type) where
  reducer : State B
  added : List I
  closings : List (Closing I B)

/-- What can happen to a Reducer between two states in which its lock is free.  A
    task that has been handed the lock cannot be cancelled before its body runs:
    every cancellation is itself made under the lock. -/
inductive Op (I : Type)
  | add (now : Time) (item : I)
  | flush (now : Time)
  | aclose
  | wake (now : Time) (scope : Nat)
  | fire (now : Time) (scope : Nat)
  | dispatched (scope : Nat)
  | cancelled (scope : Nat)

/-- Append the closing that an operation made, if it made one. -/
def Run.record (run : Run I B) (before : List I) (out : State B × Option B) : Run I B :=
  { run with
    reducer := out.1
    closings := match out.2 with
      | some closed => run.closings ++ [⟨before, closed, Batch.items out.1.active⟩]
      | none => run.closings }

/-- The timer task `scope` stands at `phase` and has not been cancelled. -/
def liveAt (r : State B) (scope : Nat) (phase : Phase) : Prop :=
  ∃ t ∈ r.timers, t.scope = scope ∧ t.phase = phase ∧ t.cancelled = false

instance (r : State B) (scope : Nat) (phase : Phase) : Decidable (liveAt r scope phase) := by
  unfold liveAt
  infer_instance

/-- The sleep of task `scope` is over at `now`. -/
def elapsed (r : State B) (now : Time) (scope : Nat) : Prop :=
  ∃ t ∈ r.timers, t.scope = scope ∧ ∃ d ∈ t.delay, t.armedAt + d ≤ now

instance (r : State B) (now : Time) (scope : Nat) : Decidable (elapsed r now scope) := by
  unfold elapsed
  infer_instance

/-- One operation and the batch it closed, `none` when it cannot happen in this state. -/
def step (cfg : Config I B) (r : State B) : Op I → Option (State B × Option B)
  | .add now item => some (add cfg now item r)
  | .flush now => some (flush cfg now r)
  | .aclose => some (aclose cfg r, none)
  | .wake now scope =>
    if liveAt r scope .sleeping ∧ elapsed r now scope then some (wake scope r, none) else none
  | .fire now scope => if liveAt r scope .waiting then some (fire cfg now scope r) else none
  | .dispatched scope =>
    if liveAt r scope .dispatching then some (endTimer scope r, none) else none
  | .cancelled scope =>
    if ∃ t ∈ r.timers, t.scope = scope ∧ t.cancelled = true then some (endTimer scope r, none)
    else none

/-- The ways a step can go, with what it asks of the timer tasks. -/
inductive Turn (cfg : Config I B) (r : State B) : Op I → State B × Option B → Prop
  | adds (now : Time) (item : I) : Turn cfg r (.add now item) (add cfg now item r)
  | flushes (now : Time) : Turn cfg r (.flush now) (flush cfg now r)
  | closes : Turn cfg r .aclose (aclose cfg r, none)
  | wakes {now : Time} {scope : Nat} : liveAt r scope .sleeping → elapsed r now scope →
      Turn cfg r (.wake now scope) (wake scope r, none)
  | fires (now : Time) {scope : Nat} : liveAt r scope .waiting →
      Turn cfg r (.fire now scope) (fire cfg now scope r)
  | dispatched {scope : Nat} : liveAt r scope .dispatching →
      Turn cfg r (.dispatched scope) (endTimer scope r, none)
  | cancelled {t : Timer} : t ∈ r.timers → t.cancelled = true →
      Turn cfg r (.cancelled t.scope) (endTimer t.scope r, none)

theorem step_turn {cfg : Config I B} {r : State B} {op : Op I} {out : State B × Option B}
    (hstep : step cfg r op = some out) : Turn cfg r op out := by
  cases op with
  | add now item =>
    obtain rfl := Option.some.inj hstep
    exact .adds now item
  | flush now =>
    obtain rfl := Option.some.inj hstep
    exact .flushes now
  | aclose =>
    obtain rfl := Option.some.inj hstep
    exact .closes
  | wake now scope =>
    simp only [step, Option.ite_none_right_eq_some, Option.some.injEq] at hstep
    obtain ⟨⟨hsleep, helapsed⟩, rfl⟩ := hstep
    exact .wakes hsleep helapsed
  | fire now scope =>
    simp only [step, Option.ite_none_right_eq_some, Option.some.injEq] at hstep
    obtain ⟨hwait, rfl⟩ := hstep
    exact .fires now hwait
  | dispatched scope =>
    simp only [step, Option.ite_none_right_eq_some, Option.some.injEq] at hstep
    obtain ⟨hlive, rfl⟩ := hstep
    exact .dispatched hlive
  | cancelled scope =>
    simp only [step, Option.ite_none_right_eq_some, Option.some.injEq] at hstep
    obtain ⟨⟨t, ht, rfl, hcancelled⟩, rfl⟩ := hstep
    exact .cancelled ht hcancelled

/-- The item an operation adds. -/
def Op.adds : Op I → List I
  | .add _ item => [item]
  | _ => []

/-- The active items once the operation has added its own. -/
def Op.before (r : State B) : Op I → List I
  | .add _ item => Batch.items (Batch.add r.active item)
  | _ => Batch.items r.active

/-- One operation, with the history it makes. -/
def Run.step (cfg : Config I B) (run : Run I B) (op : Op I) : Option (Run I B) :=
  (Reducer.step cfg run.reducer op).map
    ({ run with added := run.added ++ op.adds }.record (op.before run.reducer))

/-- The state after `Reducer.__init__`. -/
def Run.start (cfg : Config I B) (run : Run I B) : Prop :=
  run = { reducer := init cfg, added := [], closings := [] }

/-- Runs before `aclose`. -/
def beforeAclose (_ : Run I B) : Op I → Prop
  | .aclose => False
  | _ => True

instance (run : Run I B) (op : Op I) : Decidable (beforeAclose run op) := by
  cases op <;> unfold beforeAclose <;> infer_instance


/-! ## Conservation and packing -/

/-- What an operation on the items `before` must have done: closed a well-packed
    batch, or left all of them active. -/
def PacksOrKeeps (cfg : Config I B) (before : List I) (out : State B × Option B) : Prop :=
  match out.2 with
  | some closed => WellPacked cfg before closed (Batch.items out.1.active)
  | none => Batch.items out.1.active = before

/-- The law of a history: added is closed plus active, and every closing was
    packed correctly. -/
structure Run.Conserves (cfg : Config I B) (run : Run I B) : Prop where
  perm : run.added.Perm
    (run.closings.flatMap (fun c => Batch.items c.closed) ++ Batch.items run.reducer.active)
  packed : ∀ c ∈ run.closings, WellPacked cfg c.before c.closed c.left

/-- Recording what an operation did to the items `before` keeps the law. -/
theorem Run.record_conserves {cfg : Config I B} {run : Run I B} {before : List I}
    {out : State B × Option B}
    (hperm : run.added.Perm (run.closings.flatMap (fun c => Batch.items c.closed) ++ before))
    (hpacked : ∀ c ∈ run.closings, WellPacked cfg c.before c.closed c.left)
    (hout : PacksOrKeeps cfg before out) : (run.record before out).Conserves cfg := by
  obtain ⟨r, closing⟩ := out
  cases closing with
  | none =>
    have hkeep : Batch.items r.active = before := hout
    refine ⟨?_, hpacked⟩
    simpa [Run.record, hkeep] using hperm
  | some closed =>
    have hcut : WellPacked cfg before closed (Batch.items r.active) := hout
    refine ⟨?_, ?_⟩
    · simp only [Run.record, List.flatMap_append, List.flatMap_singleton, List.append_assoc]
      exact hperm.trans (hcut.perm.symm.append_left _)
    · intro c hc
      rcases List.mem_append.mp hc with hold | hnew
      · exact hpacked c hold
      · rw [List.mem_singleton.mp hnew]
        exact hcut

section Laws

variable [BatchLaws I B] [CountsItems I B]

theorem add_packsOrKeeps (cfg : Config I B) (now : Time) (item : I) (r : State B) :
    PacksOrKeeps cfg (Batch.items (Batch.add r.active item)) (add cfg now item r) := by
  by_cases hclose : mustClose cfg item (Batch.add r.active item) = true
  · have hne : Batch.items (Batch.add r.active item) ≠ [] := by simp [BatchLaws.items_add]
    simpa [add, hclose, PacksOrKeeps] using
      packAndSplit_wellPacked cfg now { r with active := Batch.add r.active item } hne
  · simp [add, hclose, PacksOrKeeps]

theorem flush_packsOrKeeps (cfg : Config I B) (now : Time) (r : State B) :
    PacksOrKeeps cfg (Batch.items r.active) (flush cfg now r) := by
  by_cases hcount : Batch.count r.active = 0
  · simp [flush, hcount, PacksOrKeeps]
  · simpa [flush, hcount, PacksOrKeeps] using
      packAndSplit_wellPacked cfg now r (CountsItems.items_ne_nil hcount)

theorem fire_packsOrKeeps (cfg : Config I B) (now : Time) (scope : Nat) (r : State B) :
    PacksOrKeeps cfg (Batch.items r.active) (fire cfg now scope r) := by
  by_cases hclosed : r.closed = true
  · simp [fire, hclosed, PacksOrKeeps]
  by_cases hstale : r.timerScope ≠ some scope
  · simp [fire, hclosed, hstale, PacksOrKeeps]
  by_cases hcount : Batch.count r.active = 0
  · simp [fire, hclosed, hstale, hcount, PacksOrKeeps]
  · simpa [fire, hclosed, hstale, hcount, PacksOrKeeps] using
      packAndSplit_wellPacked cfg now { r with timerScope := none }
        (CountsItems.items_ne_nil hcount)

variable {cfg : Config I B}

/-- **What one operation does to the items**: it packs a batch, or keeps them all
    active. -/
theorem step_packsOrKeeps {r : State B} {op : Op I} {out : State B × Option B}
    (hop : op ≠ .aclose) (hstep : step cfg r op = some out) :
    PacksOrKeeps cfg (op.before r) out := by
  cases step_turn hstep with
  | adds now item => exact add_packsOrKeeps cfg now item r
  | flushes now => exact flush_packsOrKeeps cfg now r
  | closes => exact absurd rfl hop
  | wakes | dispatched | cancelled => simp [PacksOrKeeps, Op.before]
  | @fires now scope => exact fire_packsOrKeeps cfg now scope r

omit [Batchable I] [CountsItems I B] in
theorem Op.items_before (r : State B) (op : Op I) :
    op.before r = Batch.items r.active ++ op.adds := by
  cases op <;> simp [Op.before, Op.adds, BatchLaws.items_add]

/-- An operation before `aclose` hands on or keeps what was active or is added. -/
theorem step_items_perm {cfg : Config I B} {r r' : State B} {op : Op I} {closed : Option B}
    (hop : op ≠ .aclose) (hstep : step cfg r op = some (r', closed)) :
    (closed.toList.flatMap Batch.items ++ Batch.items r'.active).Perm
      (Batch.items r.active ++ op.adds) := by
  have hpacks := step_packsOrKeeps hop hstep
  rw [Op.items_before] at hpacks
  cases closed with
  | none =>
    have hkeep : Batch.items r'.active = Batch.items r.active ++ op.adds := hpacks
    simp [hkeep]
  | some closed =>
    have hcut : WellPacked cfg (Batch.items r.active ++ op.adds) closed (Batch.items r'.active) :=
      hpacks
    simpa using hcut.perm

/-- Every step before `aclose` keeps the law. -/
theorem Run.step_conserves {run run' : Run I B} {op : Op I}
    (hinv : run.Conserves cfg) (hop : beforeAclose run op) (hstep : run.step cfg op = some run') :
    run'.Conserves cfg := by
  obtain ⟨out, hout, rfl⟩ := Option.map_eq_some_iff.mp hstep
  have hpacks := step_packsOrKeeps (by rintro rfl; exact hop) hout
  refine Run.record_conserves ?_ hinv.packed hpacks
  rw [Op.items_before, ← List.append_assoc]
  exact hinv.perm.append_right _

theorem Run.reachable_conserves {run : Run I B}
    (h : Reachable (Run.start cfg) (Run.step cfg) beforeAclose run) : run.Conserves cfg := by
  refine h.invariant ?_ fun _ _ _ hinv hop hstep => Run.step_conserves hinv hop hstep
  rintro _ rfl
  exact ⟨by simp [init, cfg.fresh], by simp⟩

/-- **The history of a Reducer.**  In every state reached before `aclose`, the
    items added are exactly those of the closed batches and of the active batch.
    Every closed batch is the longest prefix within the limits of the items then
    active in stable deadline order, or the earliest of them when it alone
    exceeds a limit; so it is non-empty, ordered by deadline, within the limits
    unless a singleton, and due no later than anything it left behind. -/
theorem closings_conserve_and_pack {run : Run I B}
    (h : Reachable (Run.start cfg) (Run.step cfg) beforeAclose run) :
    run.added.Perm
        (run.closings.flatMap (fun c => Batch.items c.closed) ++ Batch.items run.reducer.active) ∧
      ∀ c ∈ run.closings,
        Batch.items c.closed ++ c.left = sortBy Batchable.deadline c.before ∧
        (IsLongestPrefix (Fits cfg) (sortBy Batchable.deadline c.before) (Batch.items c.closed) ∨
          ∃ x, Batch.items c.closed = [x] ∧ ¬ Fits cfg [x]) ∧
        Batch.items c.closed ≠ [] ∧
        (Batch.items c.closed).Pairwise (fun x y => Batchable.deadline x ≤ Batchable.deadline y) ∧
        (Fits cfg (Batch.items c.closed) ∨ ∃ x, Batch.items c.closed = [x]) ∧
        ∀ x ∈ Batch.items c.closed, ∀ y ∈ c.left, Batchable.deadline x ≤ Batchable.deadline y := by
  have hinv := Run.reachable_conserves h
  refine ⟨hinv.perm, fun c hc => ?_⟩
  have hcut := hinv.packed c hc
  obtain ⟨hsorted, hleft⟩ := hcut.deadlines
  exact ⟨hcut.split, hcut.packed, hcut.nonempty, hsorted, hcut.within, hleft⟩

end Laws

/-! ## What a container carries besides its items -/

section Tag

variable {γ : Type} (tag : B → γ)

omit [Batchable I] in
theorem tag_fill (hadd : ∀ b x, tag (Batch.add b x) = tag b) (b : B) (xs : List I) :
    tag (fill b xs) = tag b := by
  induction xs generalizing b with
  | nil => rfl
  | cons x xs ih => exact (ih (Batch.add b x)).trans (hadd b x)

omit [Batchable I] in
theorem tag_packLoop (hadd : ∀ b x, tag (Batch.add b x) = tag b)
    (hremove : ∀ b, tag (Batch.removeLast b) = tag b) (cfg : Config I B) (b : B) (xs : List I) :
    tag (packLoop cfg b xs).1 = tag b := by
  induction xs generalizing b with
  | nil => rfl
  | cons x xs ih =>
    simp only [packLoop]
    split
    · split
      · exact hadd b x
      · exact (hremove _).trans (hadd b x)
    · exact (ih _).trans (hadd b x)

/-- Both batches carry what the factory puts into a fresh one. -/
def Tagged (cfg : Config I B) (out : State B × Option B) : Prop :=
  tag out.1.active = tag cfg.batchFactory ∧ ∀ closed ∈ out.2, tag closed = tag cfg.batchFactory

theorem packAndSplit_tagged (hadd : ∀ b x, tag (Batch.add b x) = tag b)
    (hremove : ∀ b, tag (Batch.removeLast b) = tag b) (cfg : Config I B) (now : Time)
    (r : State B) :
    tag (packAndSplit cfg now r).1.active = tag cfg.batchFactory ∧
      tag (packAndSplit cfg now r).2 = tag cfg.batchFactory := by
  rw [packAndSplit_active, packAndSplit_closed]
  exact ⟨tag_fill tag hadd _ _, tag_packLoop tag hadd hremove cfg _ _⟩

theorem step_tagged (hadd : ∀ b x, tag (Batch.add b x) = tag b)
    (hremove : ∀ b, tag (Batch.removeLast b) = tag b) {cfg : Config I B} {r : State B} {op : Op I}
    {out : State B × Option B} (h : tag r.active = tag cfg.batchFactory)
    (hstep : step cfg r op = some out) : Tagged tag cfg out := by
  have hpack : ∀ (now : Time) (r' : State B), Tagged tag cfg
      ((packAndSplit cfg now r').1, some (packAndSplit cfg now r').2) := by
    intro now r'
    obtain ⟨hactive, hclosed⟩ := packAndSplit_tagged tag hadd hremove cfg now r'
    exact ⟨hactive, fun closed hmem => Option.mem_some_iff.mp hmem ▸ hclosed⟩
  have hkeep : ∀ r' : State B, r'.active = r.active → Tagged tag cfg (r', none) :=
    fun r' hr' => ⟨hr' ▸ h, by simp⟩
  cases step_turn hstep with
  | adds now item =>
    simp only [add]
    split
    · exact hpack now _
    · refine ⟨?_, by simp⟩
      rw [rescheduleLocked_active]
      exact (hadd _ _).trans h
  | flushes now =>
    simp only [flush]
    split
    · exact hkeep _ (cancelTimerLocked_active r)
    · exact hpack now r
  | closes => exact ⟨rfl, by simp⟩
  | @wakes now scope => exact hkeep _ (wake_active scope r)
  | fires now =>
    simp only [fire]
    split
    · exact hkeep _ rfl
    split
    · exact hkeep _ rfl
    split
    · exact hkeep _ rfl
    · exact hpack now _
  | dispatched | cancelled => exact hkeep _ rfl

end Tag

/-! ## A list-backed batch

The container of `tests/test_reducer.py`, and one whose `count` is not the
number of its items. -/

structure FakeItem where
  value : Int
  deadline : Time
  weight : Nat := 1
  deriving DecidableEq, Repr

instance : Batchable FakeItem := ⟨FakeItem.deadline⟩

structure FakeBatch where
  items : List FakeItem
  size : Int
  size_eq : size = (items.map fun it => (it.weight : Int)).sum

def FakeBatch.empty : FakeBatch := ⟨[], 0, rfl⟩

def FakeBatch.add (b : FakeBatch) (item : FakeItem) : FakeBatch :=
  ⟨b.items ++ [item], b.size + item.weight, by simp [b.size_eq]⟩

def FakeBatch.removeLast (b : FakeBatch) : FakeBatch :=
  match h : b.items.getLast? with
  | none => b
  | some item => ⟨b.items.dropLast, b.size - item.weight, by
      have hsplit := List.dropLast_append_getLast? item h
      rw [b.size_eq, ← hsplit]
      simp⟩

instance : Batch FakeItem FakeBatch where
  add := FakeBatch.add
  removeLast := FakeBatch.removeLast
  items := FakeBatch.items
  count b := b.items.length
  size := FakeBatch.size
  deadline b := (b.items.map FakeItem.deadline).min?

instance : BatchLaws FakeItem FakeBatch where
  items_add _ _ := rfl
  items_removeLast_add b x := by
    have hlast : (FakeBatch.add b x).items.getLast? = some x := by simp [FakeBatch.add]
    simp only [Batch.items, Batch.removeLast, Batch.add, FakeBatch.removeLast]
    split
    · simp_all
    · simp [FakeBatch.add]
  count_congr b b' h := by
    have h' : b.items = b'.items := h
    simp [Batch.count, h']
  size_congr b b' h := by
    have h' : b.items = b'.items := h
    simp [Batch.size, b.size_eq, b'.size_eq, h']
  count_add b x := by simp [Batch.count, Batch.add, FakeBatch.add]
  size_add b x := by simp [Batch.size, Batch.add, FakeBatch.add]

instance : CountsItems FakeItem FakeBatch := ⟨fun _ => rfl⟩

/-- The limits of the size-overflow tests. -/
def overflowConfig : Config FakeItem FakeBatch :=
  { batchFactory := .empty, countLimit := 100, sizeLimit := 5 }

/-- An oversized later arrival leaves alone and the earlier item is left behind. -/
theorem closings_conserve_and_pack_overflow :
    ∃ run, Reachable (Run.start overflowConfig) (Run.step overflowConfig) beforeAclose run ∧
      run.closings.map (fun c => (Batch.items c.closed, c.left)) =
        [([⟨2, 10, 999⟩], [⟨1, 20, 1⟩])] ∧
      run.added.Perm
        (run.closings.flatMap (fun c => Batch.items c.closed) ++
          Batch.items run.reducer.active) := by
  obtain ⟨run, hrun, hclosed⟩ : ∃ run, exec (Run.step overflowConfig) beforeAclose
      { reducer := init overflowConfig, added := [], closings := [] }
      [.add 0 ⟨1, 20, 1⟩, .add 0 ⟨2, 10, 999⟩] = some run ∧
        run.closings.map (fun c => (Batch.items c.closed, c.left)) =
          [([⟨2, 10, 999⟩], [⟨1, 20, 1⟩])] :=
    ⟨_, rfl, by decide⟩
  have hreach : Reachable (Run.start overflowConfig) (Run.step overflowConfig) beforeAclose run :=
    Reachable.exec (.start rfl) hrun
  exact ⟨run, hreach, hclosed, (closings_conserve_and_pack hreach).1⟩

/-- A list of items that reports two for each. -/
structure TwiceCounted where
  items : List FakeItem
  deriving DecidableEq

instance : Batch FakeItem TwiceCounted where
  add b x := ⟨b.items ++ [x]⟩
  removeLast b := ⟨b.items.dropLast⟩
  items := TwiceCounted.items
  count b := 2 * b.items.length
  size b := (b.items.map fun it => (it.weight : Int)).sum
  deadline b := (b.items.map FakeItem.deadline).min?

instance : BatchLaws FakeItem TwiceCounted where
  items_add _ _ := rfl
  items_removeLast_add b x := by simp [Batch.items, Batch.removeLast, Batch.add]
  count_congr b b' h := by
    have h' : b.items = b'.items := h
    simp [Batch.count, h']
  size_congr b b' h := by
    have h' : b.items = b'.items := h
    simp [Batch.size, h']
  count_add b x := by simp [Batch.count, Batch.add]
  size_add b x := by simp [Batch.size, Batch.add]

/-- One item per batch, as long as a batch of one item counts one. -/
def twiceConfig : Config FakeItem TwiceCounted :=
  { batchFactory := ⟨[]⟩, countLimit := 1, sizeLimit := 100 }

/-- The undo in the packing loop tests `count == 1` for "a single item".  Under a
    `count` that is a monotone function of the items but not their number, an
    `add` closes an empty batch. -/
theorem closing_empty_when_counted_twice :
    BatchLaws FakeItem TwiceCounted ∧ 1 ≤ twiceConfig.countLimit ∧
      ∃ run, Reachable (Run.start twiceConfig) (Run.step twiceConfig) beforeAclose run ∧
        run.closings.map (fun c => (c.before, Batch.items c.closed)) = [([⟨1, 5, 1⟩], [])] := by
  obtain ⟨run, hrun, hclosed⟩ : ∃ run, exec (Run.step twiceConfig) beforeAclose
      { reducer := init twiceConfig, added := [], closings := [] } [.add 0 ⟨1, 5, 1⟩] = some run ∧
        run.closings.map (fun c => (c.before, Batch.items c.closed)) = [([⟨1, 5, 1⟩], [])] :=
    ⟨_, rfl, by decide⟩
  have hreach : Reachable (Run.start twiceConfig) (Run.step twiceConfig) beforeAclose run :=
    Reachable.exec (.start rfl) hrun
  exact ⟨inferInstance, by decide, run, hreach, hclosed⟩

end Reducer

end Aiokpl
