import Aiokpl.ReducerRuns

/-!
# The limits of the open batch

`add` closes as soon as the batch reaches a limit, and puts what the packing loop left
over into a fresh batch, which it does not test again.  What is left over stays below the
limits, but for one kind of item: one that together with what is due no later exceeds
`size_limit`, and together with what is due later still reaches it.
-/

namespace Aiokpl

open Lib

/-- `size` does not depend on the order of the items, does not grow when some are left
    out, and is nothing for no items. -/
class SizeLaws (I : outParam Type) (B : Type) [Batch I B] : Prop where
  size_mono : ∀ b b' : B, (Batch.items b).Subperm (Batch.items b') → Batch.size b ≤ Batch.size b'
  size_empty : ∀ b : B, Batch.items b = [] → Batch.size b = 0

/-- A sum of natural numbers does not grow when some are left out. -/
theorem sum_map_le_of_subperm {α : Type} (f : α → Nat) {xs ys : List α} (h : xs.Subperm ys) :
    (xs.map f).sum ≤ (ys.map f).sum := by
  rcases h with ⟨zs, hperm, hsub⟩
  rw [← (hperm.map f).sum_eq]
  exact (hsub.map f).sum_le_sum fun _ _ => Nat.zero_le _

namespace Reducer

variable {I B : Type} [Batch I B]

/-- The size of a batch of these items. -/
def weigh (cfg : Config I B) (xs : List I) : Int := Batch.size (fill cfg.batchFactory xs)

/-- The batch is below both limits. -/
structure Below (cfg : Config I B) (b : B) : Prop where
  count : Batch.count b < cfg.countLimit
  size : Batch.size b < cfg.sizeLimit

section Laws

variable [BatchLaws I B]

theorem items_fill_fresh (cfg : Config I B) (xs : List I) :
    Batch.items (fill cfg.batchFactory xs) = xs := by
  rw [items_fill, cfg.fresh, List.nil_append]

/-- The size is that of the items. -/
theorem size_eq_weigh (cfg : Config I B) (b : B) : Batch.size b = weigh cfg (Batch.items b) :=
  BatchLaws.size_congr _ _ (items_fill_fresh cfg _).symm

theorem weigh_mono [SizeLaws I B] (cfg : Config I B) {xs ys : List I} (h : xs.Subperm ys) :
    weigh cfg xs ≤ weigh cfg ys := by
  apply SizeLaws.size_mono
  rwa [items_fill_fresh, items_fill_fresh]

theorem weigh_perm [SizeLaws I B] (cfg : Config I B) {xs ys : List I} (h : xs.Perm ys) :
    weigh cfg xs = weigh cfg ys :=
  le_antisymm (weigh_mono cfg h.subperm) (weigh_mono cfg h.symm.subperm)

theorem weigh_nil [SizeLaws I B] (cfg : Config I B) : weigh cfg ([] : List I) = 0 :=
  SizeLaws.size_empty _ (items_fill_fresh cfg [])

variable [CountsItems I B]

theorem fits_iff (cfg : Config I B) (xs : List I) :
    Fits cfg xs ↔ (xs.length : Int) ≤ cfg.countLimit ∧ weigh cfg xs ≤ cfg.sizeLimit := by
  simp [Fits, exceeds, CountsItems.count_eq, items_fill_fresh, weigh]

theorem below_iff (cfg : Config I B) (b : B) :
    Below cfg b ↔ ((Batch.items b).length : Int) < cfg.countLimit ∧
      weigh cfg (Batch.items b) < cfg.sizeLimit := by
  rw [← size_eq_weigh, ← CountsItems.count_eq]
  exact ⟨fun h => ⟨h.count, h.size⟩, fun h => ⟨h.1, h.2⟩⟩

/-- What holds some of the items of a batch below the limits is below them. -/
theorem Below.subperm [SizeLaws I B] {cfg : Config I B} {b b' : B} (h : Below cfg b)
    (hsub : (Batch.items b').Subperm (Batch.items b)) : Below cfg b' := by
  rw [below_iff] at h ⊢
  have hlength : ((Batch.items b').length : Int) ≤ (Batch.items b).length := by
    exact_mod_cast hsub.length_le
  exact ⟨hlength.trans_lt h.1, (weigh_mono cfg hsub).trans_lt h.2⟩

end Laws

/-! ## The item that is added -/

variable [Batchable I]

/-- The items due no later than `x`. -/
def earlier (xs : List I) (x : I) : List I :=
  xs.filter fun y => Batchable.deadline y ≤ Batchable.deadline x

/-- The items due later than `x`. -/
def later (xs : List I) (x : I) : List I :=
  xs.filter fun y => Batchable.deadline x < Batchable.deadline y

/-- The item straddles the size limit: what is due no later exceeds it together with the
    item, and what is due later still reaches it together with the item. -/
def Straddles (cfg : Config I B) (active : B) (x : I) : Prop :=
  earlier (Batch.items active) x ≠ [] ∧
    cfg.sizeLimit < weigh cfg (earlier (Batch.items active) x ++ [x]) ∧
    cfg.sizeLimit ≤ weigh cfg (x :: later (Batch.items active) x)

instance [DecidableEq I] (cfg : Config I B) (active : B) (x : I) :
    Decidable (Straddles cfg active x) := by
  unfold Straddles
  infer_instance

/-- The sorted items, cut at the item that came last. -/
theorem sorted_concat (xs : List I) (x : I) :
    sortBy Batchable.deadline (xs ++ [x]) =
      sortBy Batchable.deadline (earlier xs x) ++ x :: sortBy Batchable.deadline (later xs x) :=
  sortBy_concat Batchable.deadline xs x

theorem sorted_later_subperm (xs : List I) (x : I) :
    (sortBy Batchable.deadline (later xs x)).Subperm xs :=
  (sortBy_perm _ _).subperm.trans List.filter_sublist.subperm

theorem sorted_earlier_subperm (xs : List I) (x : I) :
    (sortBy Batchable.deadline (earlier xs x)).Subperm xs :=
  (sortBy_perm _ _).subperm.trans List.filter_sublist.subperm

/-- A split whose left part is long enough leaves a suffix of the right part. -/
theorem suffix_of_split {α : Type} {front back left right : List α}
    (hsplit : front ++ back = left ++ right) (hlong : left.length ≤ front.length) :
    back <:+ right := by
  rcases List.append_eq_append_iff.mp hsplit with ⟨as, hleft, hback⟩ | ⟨bs, -, hright⟩
  · have hnil : as = [] := by
      have hlength := congrArg List.length hleft
      rw [List.length_append] at hlength
      exact List.eq_nil_of_length_eq_zero (by omega)
    rw [hback, hnil, List.nil_append]
  · exact ⟨bs, hright.symm⟩

/-! ## Where the cut falls -/

namespace WellPacked

variable {cfg : Config I B} {before left front rest : List I} {closed : B} {x : I}

/-- The first item always leaves. -/
theorem leaves_tail (h : WellPacked cfg before closed left)
    (hsorted : sortBy Batchable.deadline before = x :: rest) : left <:+ rest := by
  have hsplit : Batch.items closed ++ left = [x] ++ rest := h.split.trans hsorted
  exact suffix_of_split hsplit (List.length_pos_of_ne_nil h.nonempty)

variable [BatchLaws I B]

/-- A cut of items whose prefix fits takes that prefix at least, and is the longest that
    fits. -/
theorem prefix_taken (h : WellPacked cfg before closed left) (hne : front ≠ [])
    (hsorted : sortBy Batchable.deadline before = front ++ rest) (hfits : Fits cfg front) :
    front.length ≤ (Batch.items closed).length ∧
      IsLongestPrefix (Fits cfg) (front ++ rest) (Batch.items closed) := by
  rcases h.packed with hlong | ⟨y, hy, hbig⟩
  · rw [hsorted] at hlong
    exact ⟨hlong.longest front (List.prefix_append _ _) hfits, hlong⟩
  · -- a single item that does not fit would be the head of the prefix
    exfalso
    have hsplit := h.split
    rw [hy, hsorted] at hsplit
    rcases List.exists_cons_of_ne_nil hne with ⟨z, zs, rfl⟩
    rw [List.cons_append, List.cons_append, List.cons.injEq] at hsplit
    apply hbig
    rw [hsplit.1]
    exact fits_prefixClosed cfg [z] (z :: zs) ⟨zs, rfl⟩ hfits

/-- What fits leaves. -/
theorem leaves_suffix (h : WellPacked cfg before closed left) (hne : front ≠ [])
    (hsorted : sortBy Batchable.deadline before = front ++ rest) (hfits : Fits cfg front) :
    left <:+ rest :=
  suffix_of_split (h.split.trans hsorted) (h.prefix_taken hne hsorted hfits).1

/-- What fits leaves alone when the next item does not fit with it. -/
theorem leaves_rest (h : WellPacked cfg before closed left) (hne : front ≠ [])
    (hsorted : sortBy Batchable.deadline before = front ++ x :: rest) (hfits : Fits cfg front)
    (hover : ¬ Fits cfg (front ++ [x])) : left = x :: rest := by
  have hlong := (h.prefix_taken hne hsorted hfits).2
  have hfront := hlong.unique (.of_next rest (fits_prefixClosed cfg) hfits hover)
  have hsplit := h.split.trans hsorted
  rw [hfront] at hsplit
  exact List.append_cancel_left hsplit

end WellPacked

section Limits

variable [BatchLaws I B] [CountsItems I B] [SizeLaws I B]

omit [Batchable I] in
/-- Items of a batch below the limits fit. -/
theorem Below.fits {cfg : Config I B} {active : B} (h : Below cfg active) {xs : List I}
    (hsub : xs.Subperm (Batch.items active)) : Fits cfg xs := by
  rw [below_iff] at h
  rw [fits_iff]
  have hlength : (xs.length : Int) ≤ (Batch.items active).length := by exact_mod_cast hsub.length_le
  exact ⟨(hlength.trans_lt h.1).le, ((weigh_mono cfg hsub).trans_lt h.2).le⟩

/-- Whether the item fits with what is due no later is a matter of size. -/
theorem Below.fits_concat_iff {cfg : Config I B} {active : B} (h : Below cfg active) (x : I) :
    Fits cfg (sortBy Batchable.deadline (earlier (Batch.items active) x) ++ [x]) ↔
      weigh cfg (earlier (Batch.items active) x ++ [x]) ≤ cfg.sizeLimit := by
  rw [below_iff] at h
  have hlength := (sorted_earlier_subperm (Batch.items active) x).length_le
  rw [fits_iff, weigh_perm cfg ((sortBy_perm _ _).append_right [x])]
  refine ⟨fun hfits => hfits.2, fun hsize => ⟨?_, hsize⟩⟩
  rw [List.length_append, List.length_singleton]
  omega

/-- **What an add that closes leaves over.**  If the batch was below the limits before,
    what is left is below them too, unless the item straddles the size limit. -/
theorem left_below_iff {cfg : Config I B} {active closed next : B} {x : I}
    (hactive : Below cfg active)
    (h : WellPacked cfg (Batch.items active ++ [x]) closed (Batch.items next)) :
    Below cfg next ↔ ¬ Straddles cfg active x := by
  set front := sortBy Batchable.deadline (earlier (Batch.items active) x) with hfront
  set back := sortBy Batchable.deadline (later (Batch.items active) x) with hback
  have hsorted : sortBy Batchable.deadline (Batch.items active ++ [x]) = front ++ x :: back :=
    sorted_concat _ x
  -- a batch of old items only is below the limits
  have hold : Batch.items next <:+ back → Below cfg next := fun hsuffix =>
    hactive.subperm (hsuffix.sublist.subperm.trans (sorted_later_subperm _ x))
  by_cases hempty : front = []
  · -- the item is the first to leave
    have hnone : earlier (Batch.items active) x = [] := by simpa [hfront] using hempty
    rw [hempty, List.nil_append] at hsorted
    exact iff_of_true (hold (h.leaves_tail hsorted)) fun hstraddles => hstraddles.1 hnone
  have hsome : earlier (Batch.items active) x ≠ [] := by simpa [hfront] using hempty
  have hfits : Fits cfg front := hactive.fits (sorted_earlier_subperm _ x)
  by_cases hover : Fits cfg (front ++ [x])
  · -- the item leaves with what is due no later
    have hunder := (hactive.fits_concat_iff x).mp hover
    have hsorted' : sortBy Batchable.deadline (Batch.items active ++ [x]) =
        (front ++ [x]) ++ back := by
      rw [hsorted, List.append_assoc, List.singleton_append]
    refine iff_of_true (hold (h.leaves_suffix (by simp) hsorted' hover)) ?_
    exact fun hstraddles => absurd hstraddles.2.1 (not_lt.mpr hunder)
  · -- the cut is right before the item
    have hexceeds : cfg.sizeLimit < weigh cfg (earlier (Batch.items active) x ++ [x]) := by
      by_contra hunder
      exact hover ((hactive.fits_concat_iff x).mpr (not_lt.mp hunder))
    have hleft := h.leaves_rest hempty hsorted hfits hover
    have hlength : (x :: back).length ≤ (Batch.items active).length := by
      have hsum := congrArg List.length hsorted
      have hpos : 0 < front.length := List.length_pos_of_ne_nil hempty
      rw [(sortBy_perm _ _).length_eq, List.length_append, List.length_append,
        List.length_singleton] at hsum
      omega
    have hcount : ((x :: back).length : Int) < cfg.countLimit := by
      have hbefore := ((below_iff cfg active).mp hactive).1
      omega
    rw [below_iff, hleft, weigh_perm cfg ((sortBy_perm _ _).cons x)]
    constructor
    · rintro ⟨-, hunder⟩ ⟨-, -, hreaches⟩
      exact absurd hunder (not_lt.mpr hreaches)
    · intro hnot
      exact ⟨hcount, not_le.mp fun hreaches => hnot ⟨hsome, hexceeds, hreaches⟩⟩

/-! ## Every operation -/

omit [CountsItems I B] in
/-- An item that straddles the size limit makes `add` close. -/
theorem Straddles.mustClose {cfg : Config I B} {active : B} {x : I} (h : Straddles cfg active x) :
    mustClose cfg x (Batch.add active x) = true := by
  have hsub : (earlier (Batch.items active) x ++ [x]).Subperm (Batch.items active ++ [x]) :=
    (List.filter_sublist.append_right [x]).subperm
  have hsize : cfg.sizeLimit < Batch.size (Batch.add active x) := by
    rw [size_eq_weigh cfg, BatchLaws.items_add]
    exact h.2.1.trans_le (weigh_mono cfg hsub)
  simp [Reducer.mustClose, hsize.le]

/-- **One add** to a batch below the limits. -/
theorem add_below_iff {cfg : Config I B} (now : Time) {x : I} {r : State B}
    (h : Below cfg r.active) :
    Below cfg (add cfg now x r).1.active ↔ ¬ Straddles cfg r.active x := by
  have hpacks := add_packsOrKeeps cfg now x r
  by_cases hclose : mustClose cfg x (Batch.add r.active x) = true
  · have hclosed : (add cfg now x r).2 =
        some (packAndSplit cfg now { r with active := Batch.add r.active x }).2 := by
      simp [add, hclose]
    rw [PacksOrKeeps, hclosed, BatchLaws.items_add] at hpacks
    exact left_below_iff h hpacks
  · have hactive : (add cfg now x r).1.active = Batch.add r.active x := by simp [add, hclose]
    rw [hactive]
    refine iff_of_true ?_ fun hstraddles => hclose hstraddles.mustClose
    simp only [mustClose, Bool.or_eq_true, not_or, decide_eq_true_eq, not_le, ge_iff_le] at hclose
    exact ⟨hclose.1.2, hclose.2⟩

omit [SizeLaws I B] in
/-- An operation that adds nothing leaves some of the items active. -/
theorem step_subperm {cfg : Config I B} {r : State B} {op : Op I} {out : State B × Option B}
    (hadds : op.adds = []) (hstep : step cfg r op = some out) :
    (Batch.items out.1.active).Subperm (Batch.items r.active) := by
  by_cases hop : op = .aclose
  · subst hop
    obtain rfl := Option.some.inj hstep
    have hfresh : Batch.items (aclose cfg r).active = [] := cfg.fresh
    rw [hfresh]
    exact List.nil_subperm
  · have hperm := step_items_perm hop hstep
    rw [hadds, List.append_nil] at hperm
    exact (List.sublist_append_right _ _).subperm.trans hperm.subperm

/-- No item that is added straddles the size limit. -/
def noneStraddles (cfg : Config I B) (run : Run I B) : Op I → Prop
  | .add _ x => ¬ Straddles cfg run.reducer.active x
  | _ => True

omit [BatchLaws I B] [CountsItems I B] [SizeLaws I B] in
instance [DecidableEq I] (cfg : Config I B) (run : Run I B) :
    (op : Op I) → Decidable (noneStraddles cfg run op)
  | .add _ x => inferInstanceAs (Decidable (¬ Straddles cfg run.reducer.active x))
  | .flush _ | .aclose | .wake .. | .fire .. | .dispatched .. | .cancelled .. => isTrue trivial

theorem Run.step_below {cfg : Config I B} {run run' : Run I B} {op : Op I}
    (hinv : Below cfg run.reducer.active) (hop : noneStraddles cfg run op)
    (hstep : run.step cfg op = some run') : Below cfg run'.reducer.active := by
  rcases Option.map_eq_some_iff.mp hstep with ⟨out, hout, rfl⟩
  cases op with
  | add now x =>
    obtain rfl := Option.some.inj hout
    exact (add_below_iff now hinv).mpr hop
  | flush => exact hinv.subperm (step_subperm rfl hout)
  | aclose => exact hinv.subperm (step_subperm rfl hout)
  | wake => exact hinv.subperm (step_subperm rfl hout)
  | fire => exact hinv.subperm (step_subperm rfl hout)
  | dispatched => exact hinv.subperm (step_subperm rfl hout)
  | cancelled => exact hinv.subperm (step_subperm rfl hout)

/-- **The open batch and the limits.**  In every run in which no item straddles the size
    limit when it is added, the active batch is below both limits after every operation;
    and from such a state an add leaves it below them only if its item does not. -/
theorem active_below_limits_iff {cfg : Config I B} (hcount : 1 ≤ cfg.countLimit)
    (hsize : 1 ≤ cfg.sizeLimit) {run : Run I B}
    (h : Reachable (Run.start cfg) (Run.step cfg) (noneStraddles cfg) run) :
    (Batch.count run.reducer.active < cfg.countLimit ∧
        Batch.size run.reducer.active < cfg.sizeLimit) ∧
      ∀ now x, (Batch.count (add cfg now x run.reducer).1.active < cfg.countLimit ∧
        Batch.size (add cfg now x run.reducer).1.active < cfg.sizeLimit) ↔
          ¬ Straddles cfg run.reducer.active x := by
  have hstart : ∀ run, Run.start cfg run → Below cfg run.reducer.active := by
    rintro run rfl
    refine (below_iff cfg _).mpr ?_
    have hfresh : Batch.items (init cfg).active = [] := cfg.fresh
    rw [hfresh, weigh_nil, List.length_nil]
    exact ⟨by omega, by omega⟩
  have hbelow : Below cfg run.reducer.active :=
    h.invariant hstart fun _ _ _ hinv hop hstep => Run.step_below hinv hop hstep
  refine ⟨⟨hbelow.count, hbelow.size⟩, fun now x => ?_⟩
  rw [← add_below_iff now hbelow]
  exact ⟨fun hunder => ⟨hunder.1, hunder.2⟩, fun hunder => ⟨hunder.count, hunder.size⟩⟩

end Limits

/-! ## The size-overflow limits -/

instance : SizeLaws FakeItem FakeBatch where
  size_mono b b' h := by
    have hsum := sum_map_le_of_subperm FakeItem.weight h
    have hsize : ∀ c : FakeBatch, Batch.size c = ((Batch.items c).map FakeItem.weight).sum := by
      intro c
      change c.size = (((c.items.map FakeItem.weight).sum : Nat) : Int)
      rw [c.size_eq, Nat.cast_list_sum, List.map_map]
      rfl
    rw [hsize b, hsize b']
    exact_mod_cast hsum
  size_empty b h := by
    have hitems : b.items = [] := h
    simp [Batch.size, b.size_eq, hitems]

/-- Two light items and an oversized one that is due first: it leaves, and they stay. -/
theorem active_below_limits_iff_oversized_first :
    ∃ run, Reachable (Run.start overflowConfig) (Run.step overflowConfig)
        (noneStraddles overflowConfig) run ∧
      run.closings.length = 1 ∧ Batch.items run.reducer.active = [⟨1, 20, 1⟩, ⟨2, 30, 1⟩] ∧
      Batch.count run.reducer.active < overflowConfig.countLimit ∧
      Batch.size run.reducer.active < overflowConfig.sizeLimit := by
  obtain ⟨run, hexec, hclosed, hactive⟩ : ∃ run, exec (Run.step overflowConfig)
    (noneStraddles overflowConfig) { reducer := init overflowConfig, added := [], closings := [] }
    [.add 0 ⟨1, 20, 1⟩, .add 0 ⟨2, 30, 1⟩, .add 0 ⟨3, 10, 999⟩] = some run ∧
      run.closings.length = 1 ∧ Batch.items run.reducer.active = [⟨1, 20, 1⟩, ⟨2, 30, 1⟩] :=
    ⟨_, rfl, by decide, by decide⟩
  have hrun : Reachable (Run.start overflowConfig) (Run.step overflowConfig)
      (noneStraddles overflowConfig) run := Reachable.exec (.start rfl) hexec
  exact ⟨run, hrun, hclosed, hactive,
    (active_below_limits_iff (by decide) (by decide) hrun).1⟩

/-- An oversized item that is due after a light one is left over, alone and far above the
    limit, and waits on the timer. -/
theorem not_every_active_below_limits :
    ¬ ∀ cfg : Config FakeItem FakeBatch, 1 ≤ cfg.countLimit → 1 ≤ cfg.sizeLimit → ∀ run,
      Reachable (Run.start cfg) (Run.step cfg) anyStep run →
      Batch.count run.reducer.active < cfg.countLimit ∧
        Batch.size run.reducer.active < cfg.sizeLimit := by
  intro hlimits
  obtain ⟨run, hexec, -, hsize⟩ : ∃ run, exec (Run.step overflowConfig) anyStep
    { reducer := init overflowConfig, added := [], closings := [] }
    [.add 0 ⟨1, 10, 1⟩, .add 0 ⟨2, 20, 999⟩] = some run ∧
      (Batch.items run.reducer.active = [⟨2, 20, 999⟩] ∧ run.reducer.timerScope.isSome) ∧
        Batch.size run.reducer.active = 999 :=
    ⟨_, rfl, by decide, by decide⟩
  have hrun : Reachable (Run.start overflowConfig) (Run.step overflowConfig) anyStep run :=
    Reachable.exec (.start rfl) hexec
  have hbelow := (hlimits overflowConfig (by decide) (by decide) run hrun).2
  rw [hsize] at hbelow
  exact absurd hbelow (by decide)

end Reducer

end Aiokpl
