import Aiokpl.TokenBucket

/-!
# Queries that take nothing

A query grows a stream and commits the time, a refused take does so to a prefix of the
streams.  Neither is observable: two streams are alike when they grow into the same one,
and growing early, in any number of steps, does not change what a stream grows into.  What
a take leaves is what the streams had grown to, less the amounts.
-/

namespace Aiokpl

namespace TokenBucket

/-! ## Operations -/

/-- A call with its readings of the clock. -/
inductive Op
  | available (now : Time) (idx : Nat)
  | tryTake (clock : Nat → Time) (amounts : List ℚ)

/-- What a call answers; `raised` is `IndexError` or `ValueError`. -/
inductive Answer
  | level (tokens : ℚ)
  | taken (success : Bool)
  | raised
  deriving DecidableEq, Repr

/-- One call.  Both raise before they touch a stream. -/
def apply (b : TokenBucket) : Op → Answer × TokenBucket
  | .available now idx =>
    match b.available now idx with
    | some (tokens, b) => (.level tokens, b)
    | none => (.raised, b)
  | .tryTake clock amounts =>
    match b.tryTake clock amounts with
    | some (success, b) => (.taken success, b)
    | none => (.raised, b)

/-- The readings of the clock, in order. -/
def Op.readings : Op → List Time
  | .available now _ => [now]
  | .tryTake clock amounts => (List.range amounts.length).map clock

/-- The answers of a run. -/
def answers : TokenBucket → List Op → List Answer
  | _, [] => []
  | b, op :: ops => (b.apply op).1 :: answers (b.apply op).2 ops

/-- The bucket after a run. -/
def after (b : TokenBucket) (ops : List Op) : TokenBucket :=
  ops.foldl (fun b op => (b.apply op).2) b

/-! ## Streams that grow alike -/

variable {t t' : Time} {s s' : Stream}

/-- The same stream, but for the time of the last growth of one that does not grow. -/
structure Twin (s s' : Stream) : Prop where
  rate_eq : s.rate = s'.rate
  cap_eq : s.maxTokens = s'.maxTokens
  tokens_eq : s.tokens = s'.tokens
  last_eq : 0 < s.rate → s.last = s'.last

theorem Twin.refl (s : Stream) : Twin s s := ⟨rfl, rfl, rfl, fun _ => rfl⟩

theorem Twin.symm (h : Twin s s') : Twin s' s :=
  ⟨h.rate_eq.symm, h.cap_eq.symm, h.tokens_eq.symm,
    fun hrate => (h.last_eq (h.rate_eq ▸ hrate)).symm⟩

theorem Twin.trans {s'' : Stream} (h : Twin s s') (h' : Twin s' s'') : Twin s s'' :=
  ⟨h.rate_eq.trans h'.rate_eq, h.cap_eq.trans h'.cap_eq, h.tokens_eq.trans h'.tokens_eq,
    fun hrate => (h.last_eq hrate).trans (h'.last_eq (h.rate_eq ▸ hrate))⟩

theorem Twin.debit (h : Twin s s') (amount : ℚ) :
    Twin { s with tokens := s.tokens - amount } { s' with tokens := s'.tokens - amount } :=
  ⟨h.rate_eq, h.cap_eq, by rw [h.tokens_eq], h.last_eq⟩

/-- A stream whose rate is not positive never grows. -/
theorem grow_of_rate_le (hrate : s.rate ≤ 0) (hlast : s.last ≤ t) : grow t s = s := by
  have hnone : s.rate * (t - s.last) ≤ 0 :=
    mul_nonpos_of_nonpos_of_nonneg hrate (sub_nonneg.mpr hlast)
  rw [grow, if_neg (not_lt.mpr hnone)]

@[simp] theorem grow_rate (t : Time) (s : Stream) : (grow t s).rate = s.rate := by
  rw [grow]
  split <;> rfl

@[simp] theorem grow_maxTokens (t : Time) (s : Stream) : (grow t s).maxTokens = s.maxTokens := by
  rw [grow]
  split <;> rfl

theorem grow_last_le (hlast : s.last ≤ t) : (grow t s).last ≤ t := by
  rw [grow]
  split
  · exact le_rfl
  · exact hlast

theorem Twin.grow (h : Twin s s') (hlast : s.last ≤ t) (hlast' : s'.last ≤ t) :
    Twin (grow t s) (grow t s') := by
  rcases le_or_gt s.rate 0 with hrate | hrate
  · rw [grow_of_rate_le hrate hlast, grow_of_rate_le (h.rate_eq ▸ hrate) hlast']
    exact h
  · have hsame : s = s' := by
      rcases s with ⟨rate, cap, tokens, last⟩
      rcases s' with ⟨rate', cap', tokens', last'⟩
      rcases h with ⟨hr, hc, ht, hl⟩
      dsimp only at hr hc ht hl hrate
      rw [hr, hc, ht, hl hrate]
    rw [hsame]
    exact Twin.refl _

/-- **Growing in two steps.**  What is lost at the cap in the first is lost in one as well. -/
theorem twin_grow_grow (hlast : s.last ≤ t) (hle : t ≤ t') :
    Twin (grow t' (grow t s)) (grow t' s) := by
  rcases le_or_gt s.rate 0 with hrate | hrate
  · rw [grow_of_rate_le hrate hlast]
    exact Twin.refl _
  · rcases hlast.eq_or_lt with heq | hlt
    · have hsame : grow t s = s := by simp [TokenBucket.grow, heq]
      rw [hsame]
      exact Twin.refl _
    · have hfirst : 0 < s.rate * (t - s.last) := mul_pos hrate (sub_pos.mpr hlt)
      have hwhole : 0 < s.rate * (t' - s.last) :=
        mul_pos hrate (sub_pos.mpr (hlt.trans_le hle))
      have hrest : 0 ≤ s.rate * (t' - t) := mul_nonneg hrate.le (sub_nonneg.mpr hle)
      have hsplit : s.rate * (t' - s.last) = s.rate * (t - s.last) + s.rate * (t' - t) := by ring
      rcases hle.eq_or_lt with rfl | hlt'
      · simp only [TokenBucket.grow, gt_iff_lt, hfirst, if_true, sub_self, mul_zero, lt_irrefl,
          if_false]
        exact Twin.refl _
      · have hsecond : 0 < s.rate * (t' - t) := mul_pos hrate (sub_pos.mpr hlt')
        simp only [TokenBucket.grow, gt_iff_lt, hfirst, hwhole, hsecond, if_true]
        refine ⟨rfl, rfl, ?_, fun _ => rfl⟩
        dsimp only
        rw [hsplit]
        rcases le_total s.maxTokens (s.tokens + s.rate * (t - s.last)) with hfull | hfull
        · rw [min_eq_left hfull, min_eq_left (by linarith), min_eq_left (by linarith)]
        · rw [min_eq_right hfull, add_assoc]

/-- From `t` on the two streams grow into the same. -/
structure Alike (t : Time) (s s' : Stream) : Prop where
  last_le : s.last ≤ t
  last_le' : s'.last ≤ t
  twin : Twin (grow t s) (grow t s')

theorem Alike.refl (hlast : s.last ≤ t) : Alike t s s := ⟨hlast, hlast, Twin.refl _⟩

theorem Alike.symm (h : Alike t s s') : Alike t s' s := ⟨h.last_le', h.last_le, h.twin.symm⟩

theorem Alike.later (h : Alike t s s') (hle : t ≤ t') : Alike t' s s' := by
  refine ⟨h.last_le.trans hle, h.last_le'.trans hle, ?_⟩
  have hgrown : Twin (grow t' (grow t s)) (grow t' (grow t s')) :=
    h.twin.grow ((grow_last_le h.last_le).trans hle) ((grow_last_le h.last_le').trans hle)
  exact ((twin_grow_grow h.last_le hle).symm.trans hgrown).trans (twin_grow_grow h.last_le' hle)

/-- One of the two is queried. -/
theorem Alike.grow_left (h : Alike t s s') : Alike t (grow t s) s' :=
  ⟨grow_last_le h.last_le, h.last_le', (twin_grow_grow h.last_le le_rfl).trans h.twin⟩

theorem Alike.grow (h : Alike t s s') : Alike t (grow t s) (grow t s') :=
  h.grow_left.symm.grow_left.symm

theorem Alike.debit (h : Alike t s s') (amount : ℚ) :
    Alike t { TokenBucket.grow t s with tokens := (TokenBucket.grow t s).tokens - amount }
      { TokenBucket.grow t s' with tokens := (TokenBucket.grow t s').tokens - amount } := by
  refine ⟨grow_last_le h.last_le, grow_last_le h.last_le', ?_⟩
  rw [grow_debited, grow_debited]
  exact h.twin.debit amount

/-! ## Buckets -/

/-- The streams of the two buckets grow alike. -/
def Similar (t : Time) (b b' : TokenBucket) : Prop := List.Forall₂ (Alike t) b.streams b'.streams

variable {b b' : TokenBucket} {streams streams' : List Stream}

theorem similar_later (h : List.Forall₂ (Alike t) streams streams') (hle : t ≤ t') :
    List.Forall₂ (Alike t') streams streams' :=
  h.imp fun _ _ halike => halike.later hle

/-- The first loop of a take on two buckets: the same outcome, and the streams still grow
    alike, also after the debit if there is one. -/
theorem growWhileEnough_alike (h : List.Forall₂ (Alike t) streams streams') {clock : Nat → Time}
    {amounts : List ℚ} (hclock : ∀ i < amounts.length, t ≤ clock i ∧ clock i ≤ t') (hle : t ≤ t') :
    (growWhileEnough clock streams amounts).1 = (growWhileEnough clock streams' amounts).1 ∧
      List.Forall₂ (Alike t') (growWhileEnough clock streams amounts).2
        (growWhileEnough clock streams' amounts).2 ∧
      ((growWhileEnough clock streams amounts).1 = true →
        List.Forall₂ (Alike t') (debit (growWhileEnough clock streams amounts).2 amounts)
          (debit (growWhileEnough clock streams' amounts).2 amounts)) := by
  induction h generalizing clock amounts with
  | nil => exact ⟨rfl, .nil, fun _ => .nil⟩
  | @cons s s' rest rest' halike hrest ih =>
    cases amounts with
    | nil => exact ⟨rfl, similar_later (.cons halike hrest) hle, fun _ => .nil⟩
    | cons a amounts =>
      rcases hclock 0 (by simp) with ⟨hfrom, hto⟩
      have hnow := halike.later hfrom
      have hnext : ∀ i < amounts.length, t ≤ clock (i + 1) ∧ clock (i + 1) ≤ t' :=
        fun i hi => hclock (i + 1) (by simpa using hi)
      rcases ih hnext with ⟨henough, hgrown, hdebited⟩
      have htokens := hnow.twin.tokens_eq
      simp only [growWhileEnough]
      rw [htokens]
      by_cases hshort : a > (grow (clock 0) s').tokens
      · rw [if_pos hshort, if_pos hshort]
        exact ⟨rfl, .cons (hnow.grow.later hto) (similar_later hrest hle), fun htrue =>
          absurd htrue Bool.false_ne_true⟩
      · rw [if_neg hshort, if_neg hshort]
        refine ⟨henough, .cons (hnow.grow.later hto) hgrown, fun htrue => ?_⟩
        exact .cons ((hnow.debit a).later hto) (hdebited htrue)

/-- A refused take on one of two buckets. -/
theorem growWhileEnough_left (h : List.Forall₂ (Alike t) streams streams') {clock : Nat → Time}
    {amounts : List ℚ} (hclock : ∀ i < amounts.length, t ≤ clock i ∧ clock i ≤ t') (hle : t ≤ t') :
    List.Forall₂ (Alike t') (growWhileEnough clock streams amounts).2 streams' := by
  induction h generalizing clock amounts with
  | nil => exact .nil
  | @cons s s' rest rest' halike hrest ih =>
    cases amounts with
    | nil => exact similar_later (.cons halike hrest) hle
    | cons a amounts =>
      rcases hclock 0 (by simp) with ⟨hfrom, hto⟩
      have hhead := (halike.later hfrom).grow_left.later hto
      simp only [growWhileEnough]
      split
      · exact .cons hhead (similar_later hrest hle)
      · exact .cons hhead (ih fun i hi => hclock (i + 1) (by simpa using hi))

/-- The readings of a call are in the interval. -/
def Op.Within (t t' : Time) (op : Op) : Prop := ∀ r ∈ op.readings, t ≤ r ∧ r ≤ t'

theorem within_tryTake {clock : Nat → Time} {amounts : List ℚ}
    (h : (Op.tryTake clock amounts).Within t t') :
    ∀ i < amounts.length, t ≤ clock i ∧ clock i ≤ t' :=
  fun i hi => h (clock i) (List.mem_map_of_mem (List.mem_range.mpr hi))

theorem forall₂_getElem? (h : List.Forall₂ (Alike t) streams streams') (i : Nat) :
    (streams[i]? = none ∧ streams'[i]? = none) ∨
      ∃ s s', streams[i]? = some s ∧ streams'[i]? = some s' ∧ Alike t s s' := by
  induction h generalizing i with
  | nil => exact .inl ⟨rfl, rfl⟩
  | cons halike _ ih =>
    cases i with
    | zero => exact .inr ⟨_, _, rfl, rfl, halike⟩
    | succ i => exact ih i

theorem forall₂_set (h : List.Forall₂ (Alike t) streams streams') (i : Nat)
    (halike : Alike t s s') : List.Forall₂ (Alike t) (streams.set i s) (streams'.set i s') := by
  induction h generalizing i with
  | nil => exact .nil
  | cons hhead hrest ih =>
    cases i with
    | zero => exact .cons halike hrest
    | succ i => exact .cons hhead (ih i)

/-- **A call on two similar buckets** answers the same, and leaves them similar. -/
theorem apply_similar (h : Similar t b b') {op : Op} (hop : op.Within t t') (hle : t ≤ t') :
    (b.apply op).1 = (b'.apply op).1 ∧ Similar t' (b.apply op).2 (b'.apply op).2 := by
  cases op with
  | available now idx =>
    rcases hop now List.mem_cons_self with ⟨hfrom, hto⟩
    have hnow : Similar now b b' := similar_later h hfrom
    rcases forall₂_getElem? hnow idx with ⟨hnone, hnone'⟩ | ⟨s, s', hs, hs', halike⟩
    · simp only [apply, available, hnone, hnone', Option.map_none, true_and]
      exact similar_later h hle
    · simp only [apply, available, hs, hs', Option.map_some, halike.twin.tokens_eq, true_and]
      exact similar_later (forall₂_set hnow idx halike.grow) hto
  | tryTake clock amounts =>
    have hlength : b.streams.length = b'.streams.length := h.length_eq
    rcases growWhileEnough_alike h (within_tryTake hop) hle with ⟨henough, hgrown, hdebited⟩
    simp only [apply, tryTake, hlength]
    split_ifs with hraise htrue htrue' htrue'
    · exact ⟨rfl, similar_later h hle⟩
    · exact ⟨rfl, hdebited htrue⟩
    · exact absurd (henough.symm.trans htrue) htrue'
    · exact absurd (henough.trans htrue') htrue
    · exact ⟨rfl, hgrown⟩

/-- **A query or a refused take** on one of two similar buckets leaves them similar. -/
theorem apply_left (h : Similar t b b') {op : Op} (hop : op.Within t t') (hle : t ≤ t')
    (hsilent : (∃ now idx, op = .available now idx) ∨ (b.apply op).1 = .taken false) :
    Similar t' (b.apply op).2 b' := by
  cases op with
  | available now idx =>
    rcases hop now List.mem_cons_self with ⟨hfrom, hto⟩
    have hnow : Similar now b b' := similar_later h hfrom
    rcases forall₂_getElem? hnow idx with ⟨hnone, -⟩ | ⟨s, s', hs, hs', halike⟩
    · simp only [apply, available, hnone, Option.map_none]
      exact similar_later h hle
    · have hset := forall₂_set hnow idx halike.grow_left
      rcases List.getElem?_eq_some_iff.mp hs' with ⟨hidx, rfl⟩
      rw [List.set_getElem_self hidx] at hset
      simp only [apply, available, hs, Option.map_some]
      exact similar_later hset hto
  | tryTake clock amounts =>
    have hgrown := growWhileEnough_left h (within_tryTake hop) hle
    rcases hsilent with ⟨_, _, hop⟩ | hrefused
    · cases hop
    · by_cases hraise : amounts.length ≠ b.streams.length ∨ ∃ a ∈ amounts, a < 0
      · simp only [apply, tryTake, if_pos hraise, reduceCtorEq] at hrefused
      · simp only [apply, tryTake, if_neg hraise] at hrefused ⊢
        by_cases henough : (growWhileEnough clock b.streams amounts).1 = true
        · simp only [if_pos henough, Answer.taken.injEq, Bool.true_eq_false] at hrefused
        · simp only [if_neg henough]
          exact hgrown

/-! ## Runs -/

/-- Calls of which some, those marked, were inserted: what the others answered. -/
def keptAnswers (b : TokenBucket) (ops : List (Op × Bool)) : List Answer :=
  ((ops.zip (b.answers (ops.map Prod.fst))).filter fun e => !e.1.2).map Prod.snd

/-- Every inserted call is a query, or a take that was refused. -/
def InsertedSilent (b : TokenBucket) (ops : List (Op × Bool)) : Prop :=
  ∀ e ∈ ops.zip (b.answers (ops.map Prod.fst)), e.1.2 = true →
    (∃ now idx, e.1.1 = .available now idx) ∨ e.2 = .taken false

/-- The clock never goes back over the calls. -/
def ClockedFrom (t : Time) (ops : List Op) : Prop := (t :: ops.flatMap Op.readings).Pairwise (· ≤ ·)

theorem keptAnswers_cons (b : TokenBucket) (op : Op) (inserted : Bool) (ops : List (Op × Bool)) :
    b.keptAnswers ((op, inserted) :: ops) =
      if inserted then (b.apply op).2.keptAnswers ops
      else (b.apply op).1 :: (b.apply op).2.keptAnswers ops := by
  cases inserted <;> rfl

/-- The clock after a call. -/
theorem clockedFrom_cons {op : Op} {ops : List Op} (h : ClockedFrom t (op :: ops)) :
    ∃ t', t ≤ t' ∧ op.Within t t' ∧ ClockedFrom t' ops := by
  rw [ClockedFrom, List.flatMap_cons, ← List.cons_append, List.pairwise_append] at h
  rcases h with ⟨hcall, hrest, hcross⟩
  have hne : t :: op.readings ≠ [] := List.cons_ne_nil _ _
  have hlast : ∀ r ∈ t :: op.readings, r ≤ (t :: op.readings).getLast hne := by
    intro r hr
    rw [← List.dropLast_concat_getLast hne, List.pairwise_append] at hcall
    rw [← List.dropLast_concat_getLast hne] at hr
    rcases List.mem_append.mp hr with hfront | hback
    · exact hcall.2.2 r hfront _ List.mem_cons_self
    · exact (List.mem_singleton.mp hback).le
  refine ⟨_, hlast t List.mem_cons_self, fun r hr => ?_, ?_⟩
  · exact ⟨List.rel_of_pairwise_cons hcall hr, hlast r (List.mem_cons_of_mem _ hr)⟩
  · exact List.pairwise_cons.mpr ⟨hcross _ (List.getLast_mem hne), hrest⟩

/-- What was inserted does not show in the answers to the other calls. -/
theorem keptAnswers_eq (ops : List (Op × Bool)) (h : Similar t b b')
    (hclock : ClockedFrom t (ops.map Prod.fst)) (hinserted : b.InsertedSilent ops) :
    b.keptAnswers ops = b'.answers ((ops.filter fun e => !e.2).map Prod.fst) := by
  induction ops generalizing t b b' with
  | nil => rfl
  | cons e ops ih =>
    rcases e with ⟨op, inserted⟩
    rcases clockedFrom_cons hclock with ⟨t', hle, hop, hrest⟩
    have hlater : (b.apply op).2.InsertedSilent ops := by
      intro e he
      exact hinserted e (List.mem_cons_of_mem _ he)
    rw [keptAnswers_cons]
    cases inserted with
    | true =>
      have hsilent := hinserted _ List.mem_cons_self rfl
      exact ih (apply_left h hop hle hsilent) hrest hlater
    | false =>
      rcases apply_similar h hop hle with ⟨hanswer, hsimilar⟩
      have hkept := ih hsimilar hrest hlater
      simp only [Bool.false_eq_true, if_false, hanswer, hkept]
      rfl

/-! ## Takes -/

/-- No stream is above its capacity, if that is not negative. -/
def Capped (b : TokenBucket) : Prop := ∀ s ∈ b.streams, s.tokens ≤ max s.maxTokens 0

theorem grow_capped (h : s.tokens ≤ max s.maxTokens 0) :
    (grow t s).tokens ≤ max (grow t s).maxTokens 0 := by
  rw [grow]
  split
  · exact (min_le_left _ _).trans (le_max_left _ _)
  · exact h

theorem growWhileEnough_capped {clock : Nat → Time} {amounts : List ℚ}
    (h : ∀ s ∈ streams, s.tokens ≤ max s.maxTokens 0) :
    ∀ s ∈ (growWhileEnough clock streams amounts).2, s.tokens ≤ max s.maxTokens 0 := by
  induction streams generalizing clock amounts with
  | nil => simp [growWhileEnough]
  | cons s streams ih =>
    rcases List.forall_mem_cons.mp h with ⟨hhead, hrest⟩
    cases amounts with
    | nil => exact h
    | cons a amounts =>
      simp only [growWhileEnough]
      split
      · exact List.forall_mem_cons.mpr ⟨grow_capped hhead, hrest⟩
      · exact List.forall_mem_cons.mpr ⟨grow_capped hhead, ih hrest⟩

/-- The first loop went through: every stream has grown, at its own reading of the clock, and
    holds its amount. -/
theorem growWhileEnough_true {clock : Nat → Time} {amounts : List ℚ}
    (h : (growWhileEnough clock streams amounts).1 = true) {i : Nat} {a : ℚ}
    (hs : streams[i]? = some s) (ha : amounts[i]? = some a) :
    (growWhileEnough clock streams amounts).2[i]? = some (grow (clock i) s) ∧
      a ≤ (grow (clock i) s).tokens := by
  induction streams generalizing clock amounts i with
  | nil => cases hs
  | cons s₀ streams ih =>
    cases amounts with
    | nil => cases ha
    | cons a₀ amounts =>
      simp only [growWhileEnough] at h ⊢
      by_cases hshort : a₀ > (grow (clock 0) s₀).tokens
      · simp [hshort] at h
      · simp only [if_neg hshort] at h ⊢
        cases i with
        | zero =>
          obtain rfl := Option.some.inj hs
          obtain rfl := Option.some.inj ha
          exact ⟨rfl, not_lt.mp hshort⟩
        | succ i => exact ih h hs ha

/-- What a take has done to each stream: grown at its reading of the clock, debited by its
    amount, and left between 0 and the capacity. -/
def Debited (clock : Nat → Time) (amounts : List ℚ) (b b' : TokenBucket) : Prop :=
  amounts.length = b.streams.length ∧ b'.streams.length = b.streams.length ∧
    ∀ (i : Nat) s a, b.streams[i]? = some s → amounts[i]? = some a →
      ∃ s', b'.streams[i]? = some s' ∧ s'.tokens = (grow (clock i) s).tokens - a ∧
        s'.rate = s.rate ∧ s'.maxTokens = s.maxTokens ∧
        0 ≤ s'.tokens ∧ s'.tokens ≤ max s.maxTokens 0

theorem init_capped (now : Time) (initialFull : Bool) (streams : List (ℚ × ℚ)) :
    (init now initialFull streams).Capped := by
  intro s hs
  rcases List.mem_map.mp hs with ⟨⟨rate, cap⟩, -, rfl⟩
  cases initialFull with
  | true => exact le_max_left _ _
  | false => exact le_max_right _ _

/-- A take that does not raise. -/
theorem tryTake_some {clock : Nat → Time} {amounts : List ℚ} {success : Bool}
    (h : b.tryTake clock amounts = some (success, b')) :
    amounts.length = b.streams.length ∧ (∀ a ∈ amounts, 0 ≤ a) ∧
      (growWhileEnough clock b.streams amounts).1 = success ∧
      b'.streams = if success then debit (growWhileEnough clock b.streams amounts).2 amounts
        else (growWhileEnough clock b.streams amounts).2 := by
  unfold tryTake at h
  split_ifs at h with hraise
  push Not at hraise
  refine ⟨hraise.1, hraise.2, ?_⟩
  cases henough : (growWhileEnough clock b.streams amounts).1 with
  | true =>
    simp only [henough, if_true, Option.some.injEq, Prod.mk.injEq] at h
    rcases h with ⟨rfl, rfl⟩
    exact ⟨rfl, rfl⟩
  | false =>
    simp only [henough, Bool.false_eq_true, if_false, Option.some.injEq, Prod.mk.injEq] at h
    rcases h with ⟨rfl, rfl⟩
    exact ⟨rfl, rfl⟩

theorem growWhileEnough_length (clock : Nat → Time) (streams : List Stream) (amounts : List ℚ) :
    (growWhileEnough clock streams amounts).2.length = streams.length := by
  induction streams generalizing clock amounts with
  | nil => rfl
  | cons s streams ih =>
    cases amounts with
    | nil => rfl
    | cons a amounts =>
      simp only [growWhileEnough]
      split
      · rfl
      · rw [List.length_cons, ih, List.length_cons]

/-- **A take.** -/
theorem tryTake_debited (hcapped : b.Capped) {clock : Nat → Time} {amounts : List ℚ}
    (h : b.tryTake clock amounts = some (true, b')) : Debited clock amounts b b' := by
  rcases tryTake_some h with ⟨hlength, hnonneg, htrue, hstreams⟩
  rw [if_pos rfl] at hstreams
  refine ⟨hlength, ?_, ?_⟩
  · simp [hstreams, debit, growWhileEnough_length, hlength]
  · intro i s a hs ha
    rcases growWhileEnough_true htrue hs ha with ⟨hgrown, henough⟩
    have hcap := grow_capped (t := clock i) (hcapped s (List.mem_of_getElem? hs))
    have hpos := hnonneg a (List.mem_of_getElem? ha)
    refine ⟨{ grow (clock i) s with tokens := (grow (clock i) s).tokens - a }, ?_, rfl,
      grow_rate _ _, grow_maxTokens _ _, sub_nonneg.mpr henough, ?_⟩
    · rw [hstreams, debit, List.getElem?_zipWith, hgrown, ha]
    · rw [grow_maxTokens] at hcap
      exact (sub_le_self _ hpos).trans hcap

theorem apply_capped (h : b.Capped) (op : Op) : (b.apply op).2.Capped := by
  cases op with
  | available now idx =>
    cases hs : b.streams[idx]? with
    | none => simpa [apply, available, hs] using h
    | some s =>
      simp only [apply, available, hs, Option.map_some]
      intro s' hs'
      rcases List.mem_or_eq_of_mem_set hs' with hold | rfl
      · exact h s' hold
      · exact grow_capped (h s (List.mem_of_getElem? hs))
  | tryTake clock amounts =>
    cases htake : b.tryTake clock amounts with
    | none => simpa only [apply, htake] using h
    | some out =>
      rcases out with ⟨success, b'⟩
      simp only [apply, htake]
      cases success with
      | true =>
        rcases tryTake_debited h htake with ⟨hlength, hlength', hdebited⟩
        intro s' hs'
        rcases List.getElem?_of_mem hs' with ⟨i, hi⟩
        have hlt : i < b.streams.length := hlength' ▸ (List.getElem?_eq_some_iff.mp hi).1
        rcases hdebited i _ _ (List.getElem?_eq_getElem hlt)
          (List.getElem?_eq_getElem (hlength ▸ hlt)) with ⟨s'', hs'', -, -, hcap, -, hle⟩
        obtain rfl := Option.some.inj (hi.symm.trans hs'')
        rw [hcap]
        exact hle
      | false =>
        rcases tryTake_some htake with ⟨-, -, -, hstreams⟩
        intro s' hs'
        rw [hstreams] at hs'
        exact growWhileEnough_capped h s' hs'

theorem after_capped (h : b.Capped) (ops : List Op) : (b.after ops).Capped := by
  induction ops generalizing b with
  | nil => exact h
  | cons op ops ih => exact ih (apply_capped h op)

/-- **Queries and refused takes are unobservable.**  In every run of a bucket under a clock
    that does not go back, taking out any of the queries and refused takes changes no other
    answer; and a take, wherever it stands, debits every stream by its amount. -/
theorem queries_unobservable (start : Time) (initialFull : Bool) (streams : List (ℚ × ℚ)) :
    (∀ ops : List (Op × Bool), ClockedFrom start (ops.map Prod.fst) →
      (init start initialFull streams).InsertedSilent ops →
      (init start initialFull streams).keptAnswers ops =
        (init start initialFull streams).answers ((ops.filter fun e => !e.2).map Prod.fst)) ∧
    ∀ (ops : List Op) (clock : Nat → Time) (amounts : List ℚ) (b' : TokenBucket),
      ((init start initialFull streams).after ops).tryTake clock amounts = some (true, b') →
      Debited clock amounts ((init start initialFull streams).after ops) b' := by
  constructor
  · intro ops hclock hinserted
    refine keptAnswers_eq ops ?_ hclock hinserted
    rw [Similar, List.forall₂_same]
    intro s hs
    rcases List.mem_map.mp hs with ⟨⟨rate, cap⟩, -, rfl⟩
    exact Alike.refl le_rfl
  · intro ops clock amounts b' htake
    exact tryTake_debited (after_capped (init_capped start initialFull streams) ops) htake

/-- A take, a refusal that grows only the first stream, a query of it, and a take of what
    both streams hold a second later. -/
def pairRun : List (Op × Bool) :=
  [(.tryTake (fun _ => 0) [10, 10], false), (.tryTake (fun _ => 1 / 2) [6, 1], true),
    (.available (1 / 2) 0, true), (.tryTake (fun _ => 1) [10, 10], false)]

/-- With two streams of ten a second, the second take succeeds whether or not the refusal
    and the query came before it. -/
theorem queries_unobservable_pair :
    (init 0 true [(10, 10), (10, 10)]).keptAnswers pairRun = [.taken true, .taken true] ∧
      (init 0 true [(10, 10), (10, 10)]).answers
          ((pairRun.filter fun e => !e.2).map Prod.fst) = [.taken true, .taken true] ∧
      ∃ b', Debited (fun _ => 0) [10, 10] (init 0 true [(10, 10), (10, 10)]) b' := by
  rcases queries_unobservable 0 true [(10, 10), (10, 10)] with ⟨hkept, htakes⟩
  have hclock : ClockedFrom 0 (pairRun.map Prod.fst) := by
    unfold ClockedFrom
    decide +kernel
  have hanswers : (init 0 true [(10, 10), (10, 10)]).answers (pairRun.map Prod.fst) =
      [.taken true, .taken false, .level 5, .taken true] := by
    decide +kernel
  have hsilent : (init 0 true [(10, 10), (10, 10)]).InsertedSilent pairRun := by
    intro e he hmark
    rw [hanswers] at he
    simp only [pairRun, List.zip_cons_cons, List.mem_cons, List.zip_nil_left, List.not_mem_nil,
      or_false] at he
    rcases he with rfl | rfl | rfl | rfl
    · cases hmark
    · exact .inr rfl
    · exact .inl ⟨_, _, rfl⟩
    · cases hmark
  have hfull : (init 0 true [(10, 10), (10, 10)]).keptAnswers pairRun =
      [.taken true, .taken true] := by
    rw [keptAnswers, hanswers]
    rfl
  have htake : ((init 0 true [(10, 10), (10, 10)]).tryTake (fun _ => 0) [10, 10]).map Prod.fst =
      some true := by
    decide +kernel
  rcases Option.map_eq_some_iff.mp htake with ⟨⟨_, b'⟩, hb', rfl⟩
  exact ⟨hfull, (hkept pairRun hclock hsilent).symm.trans hfull, b', htakes [] _ _ b' hb'⟩

end TokenBucket

end Aiokpl
