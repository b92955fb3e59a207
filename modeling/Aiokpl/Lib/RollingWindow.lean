import Mathlib.Tactic
import Mathlib.Order.Monotone.Basic

/-!
# Rolling windows of buckets

Observations are added up in buckets, one for each time stamp, and the buckets that a
window has left behind are evicted when the window is next used.  While stamps and
cutoffs do not decrease, what is read off the buckets is the total of the observations
in the window, whatever the buckets add up: a weight of theirs is only asked to grow by
the value of what is added.  The stamps of the buckets are those of the observations.
Over a whole run, the totals that were read count each observation once for every later
read whose window it is in.  Whatever the stamps are, the buckets hold the last few of the
observations.
-/

namespace Aiokpl.Lib

namespace RollingWindow

universe u v w x

variable {T : Type u} {B : Type v} {V : Type w} {M : Type x} [LinearOrder T]

/-- Drop the buckets before the cutoff from the front. -/
def evict (cutoff : T) (buckets : List (T × B)) : List (T × B) :=
  buckets.dropWhile fun b => b.1 < cutoff

/-- Add a value to the last bucket, if it has this stamp, or to a fresh one. -/
def record (fresh : B) (add : V → B → B) (now : T) (value : V) (buckets : List (T × B)) :
    List (T × B) :=
  match buckets.getLast? with
  | none => [(now, add value fresh)]
  | some (stamp, bucket) =>
    if stamp = now then buckets.dropLast ++ [(now, add value bucket)]
    else buckets ++ [(now, add value fresh)]

/-- The entries from `c` on. -/
def since {A : Type v} (c : T) (entries : List (T × A)) : List (T × A) :=
  entries.filter fun e => c ≤ e.1

theorem since_eq_self {A : Type v} {c : T} {entries : List (T × A)} (h : ∀ e ∈ entries, c ≤ e.1) :
    since c entries = entries := by
  rw [since, List.filter_eq_self]
  intro e he
  exact decide_eq_true (h e he)

theorem evict_eq_since {cutoff : T} {buckets : List (T × B)}
    (h : (buckets.map Prod.fst).Pairwise (· < ·)) :
    evict cutoff buckets = since cutoff buckets := by
  induction buckets with
  | nil => rfl
  | cons b rest ih =>
    rw [List.map_cons, List.pairwise_cons] at h
    by_cases hb : b.1 < cutoff
    · have hdropped : evict cutoff (b :: rest) = evict cutoff rest := by
        simp [evict, hb]
      rw [hdropped, ih h.2]
      simp [since, not_le.mpr hb]
    · have hkept : ∀ e ∈ b :: rest, cutoff ≤ e.1 := by
        intro e he
        rcases List.mem_cons.mp he with rfl | he
        · exact not_lt.mp hb
        · exact (not_lt.mp hb).trans (h.1 e.1 (List.mem_map_of_mem he)).le
      rw [since_eq_self hkept]
      simp [evict, hb]

theorem mem_stamps_since {A : Type v} {c t : T} {entries : List (T × A)} :
    t ∈ (since c entries).map Prod.fst ↔ c ≤ t ∧ t ∈ entries.map Prod.fst := by
  simp only [since, List.mem_map, List.mem_filter, decide_eq_true_eq]
  constructor
  · rintro ⟨e, ⟨he, hc⟩, rfl⟩
    exact ⟨hc, e, he, rfl⟩
  · rintro ⟨hc, e, he, rfl⟩
    exact ⟨e, ⟨he, hc⟩, rfl⟩

theorem since_append {A : Type v} (c : T) (entries entries' : List (T × A)) :
    since c (entries ++ entries') = since c entries ++ since c entries' :=
  List.filter_append ..

theorem since_since {A : Type v} {c c' : T} (h : c ≤ c') (entries : List (T × A)) :
    since c' (since c entries) = since c' entries := by
  rw [since, since, List.filter_filter]
  apply List.filter_congr
  intro e _
  by_cases he : c' ≤ e.1
  · simp [he, h.trans he]
  · simp [he]

/-! ## Totals -/

variable [AddCommMonoid M]

/-- The total weight of the entries. -/
def total {A : Type v} (weight : A → M) (entries : List (T × A)) : M :=
  (entries.map fun e => weight e.2).sum

omit [LinearOrder T] in
@[simp] theorem total_nil {A : Type v} (weight : A → M) :
    total weight ([] : List (T × A)) = 0 := rfl

omit [LinearOrder T] in
theorem total_append {A : Type v} (weight : A → M) (entries entries' : List (T × A)) :
    total weight (entries ++ entries') = total weight entries + total weight entries' := by
  simp [total]

theorem total_since_singleton {A : Type v} (weight : A → M) (c : T) (e : T × A) :
    total weight (since c [e]) = if c ≤ e.1 then weight e.2 else 0 := by
  by_cases h : c ≤ e.1 <;> simp [since, total, h]

theorem total_since_append {A : Type v} (weight : A → M) (c : T) (entries entries' : List (T × A)) :
    total weight (since c (entries ++ entries')) =
      total weight (since c entries) + total weight (since c entries') := by
  rw [since_append, total_append]

omit [LinearOrder T] in
/-- The totals of the keys add up to the total, if each key that occurs is counted once. -/
theorem sum_by_key {A : Type v} {K : Type w} [DecidableEq K] (weight : A → M) (keyOf : A → K)
    {keys : List K} (hnodup : keys.Nodup) {entries : List A} (h : ∀ a ∈ entries, keyOf a ∈ keys) :
    (keys.map fun k => ((entries.filter fun a => keyOf a = k).map weight).sum).sum =
      (entries.map weight).sum := by
  induction entries with
  | nil => simp
  | cons a rest ih =>
    have hhead : (keys.map fun k => if keyOf a = k then weight a else 0).sum = weight a := by
      obtain ⟨before, after, hkeys⟩ := List.append_of_mem (h a List.mem_cons_self)
      rw [hkeys, List.nodup_append, List.nodup_cons] at hnodup
      obtain ⟨_, ⟨hafter, _⟩, hbefore⟩ := hnodup
      have hzero : ∀ l : List K, keyOf a ∉ l →
          (l.map fun k => if keyOf a = k then weight a else 0).sum = 0 := by
        intro l hl
        apply List.sum_eq_zero
        intro x hx
        obtain ⟨k, hk, rfl⟩ := List.mem_map.mp hx
        have hne : keyOf a ≠ k := by
          rintro rfl
          exact hl hk
        exact if_neg hne
      rw [hkeys, List.map_append, List.sum_append, List.map_cons, List.sum_cons, if_pos rfl,
        hzero after hafter, hzero before fun hmem => hbefore _ hmem _ List.mem_cons_self rfl]
      simp
    have hcons : ∀ k, (((a :: rest).filter fun a => keyOf a = k).map weight).sum =
        (if keyOf a = k then weight a else 0) +
          ((rest.filter fun a => keyOf a = k).map weight).sum := by
      intro k
      by_cases hk : keyOf a = k <;> simp [hk]
    have hrest := ih fun b hb => h b (List.mem_cons_of_mem _ hb)
    simp only [hcons]
    rw [List.sum_map_add, hhead, hrest, List.map_cons, List.sum_cons]

section Buckets

variable {fresh : B} {add : V → B → B} {weight : B → M} {valueOf : V → M}

/-- The value is in the window or it is not, whichever bucket takes it. -/
theorem total_since_record (hfresh : weight fresh = 0)
    (hadd : ∀ v b, weight (add v b) = weight b + valueOf v) (c now : T) (value : V)
    (buckets : List (T × B)) :
    total weight (since c (record fresh add now value buckets)) =
      total weight (since c buckets) + if c ≤ now then valueOf value else 0 := by
  unfold record
  split
  · rename_i hlast
    rw [List.getLast?_eq_none_iff.mp hlast, total_since_singleton, hadd, hfresh, zero_add]
    simp [since]
  · rename_i stamp bucket hlast
    split
    · rename_i hstamp
      have hsplit : buckets = buckets.dropLast ++ [(stamp, bucket)] :=
        (List.dropLast_append_getLast? _ hlast).symm
      rw [total_since_append, total_since_singleton, hadd]
      conv_rhs => rw [hsplit, total_since_append, total_since_singleton]
      by_cases hc : c ≤ now
      · simp [hstamp, hc, add_assoc]
      · simp [hstamp, hc]
    · rw [total_since_append, total_since_singleton, hadd, hfresh, zero_add]

/-- The stamps after a value has been added. -/
theorem stamps_record {now : T} {buckets : List (T × B)} (value : V)
    (hsorted : (buckets.map Prod.fst).Pairwise (· < ·)) (hpast : ∀ b ∈ buckets, b.1 ≤ now) :
    ((record fresh add now value buckets).map Prod.fst).Pairwise (· < ·) ∧
      ∀ b ∈ record fresh add now value buckets, b.1 ≤ now := by
  unfold record
  split
  · simp
  · rename_i stamp bucket hlast
    have hsplit : buckets = buckets.dropLast ++ [(stamp, bucket)] :=
      (List.dropLast_append_getLast? _ hlast).symm
    split
    · rename_i hstamp
      constructor
      · rw [hsplit, List.map_append] at hsorted
        rw [List.map_append]
        subst hstamp
        exact hsorted
      · intro b hb
        rcases List.mem_append.mp hb with hb | hb
        · exact hpast b (List.mem_of_mem_dropLast hb)
        · rw [List.mem_singleton.mp hb]
    · rename_i hstamp
      have hlt : stamp < now := lt_of_le_of_ne (hpast _ (List.mem_of_getLast? hlast)) hstamp
      constructor
      · rw [List.map_append, List.pairwise_append]
        refine ⟨hsorted, List.pairwise_singleton _ _, ?_⟩
        intro t ht t' ht'
        rw [List.map_singleton, List.mem_singleton] at ht'
        subst ht'
        rw [hsplit, List.map_append, List.mem_append] at ht
        rw [hsplit, List.map_append, List.pairwise_append] at hsorted
        rcases ht with ht | ht
        · exact (hsorted.2.2 t ht stamp (by simp)).trans hlt
        · rw [List.map_singleton, List.mem_singleton] at ht
          exact ht ▸ hlt
      · intro b hb
        rcases List.mem_append.mp hb with hb | hb
        · exact hpast b hb
        · rw [List.mem_singleton.mp hb]

theorem mem_stamps_record {now t : T} (value : V) (buckets : List (T × B)) :
    t ∈ (record fresh add now value buckets).map Prod.fst ↔
      t = now ∨ t ∈ buckets.map Prod.fst := by
  unfold record
  split
  · rename_i hlast
    rw [List.getLast?_eq_none_iff.mp hlast]
    simp
  · rename_i stamp bucket hlast
    have hsplit : buckets = buckets.dropLast ++ [(stamp, bucket)] :=
      (List.dropLast_append_getLast? _ hlast).symm
    split
    · rename_i hstamp
      conv_rhs => rw [hsplit]
      simp only [List.map_append, List.map_cons, List.map_nil, List.mem_append,
        List.mem_singleton, hstamp]
      tauto
    · simp only [List.map_append, List.map_cons, List.map_nil, List.mem_append, List.mem_singleton]
      tauto

/-- The buckets agree with the log on every window that starts at `cut` or later, and
    none is later than `last`. -/
structure Tracks (weight : B → M) (valueOf : V → M) (cut last : T) (log : List (T × V))
    (buckets : List (T × B)) : Prop where
  sorted : (buckets.map Prod.fst).Pairwise (· < ·)
  past : ∀ b ∈ buckets, b.1 ≤ last
  totals : ∀ c, cut ≤ c → total weight (since c buckets) = total valueOf (since c log)

theorem Tracks.nil (cut last : T) :
    Tracks weight valueOf cut last ([] : List (T × V)) ([] : List (T × B)) := by
  constructor
  · exact List.Pairwise.nil
  · simp
  · intro c _
    rfl

variable {cut last : T} {log : List (T × V)} {buckets : List (T × B)}

/-- Later windows agree all the more. -/
theorem Tracks.later (h : Tracks weight valueOf cut last log buckets) {cut' last' : T}
    (hcut : cut ≤ cut') (hlast : last ≤ last') : Tracks weight valueOf cut' last' log buckets := by
  constructor
  · exact h.sorted
  · intro b hb
    exact (h.past b hb).trans hlast
  · intro c hc
    exact h.totals c (hcut.trans hc)

theorem Tracks.evict (h : Tracks weight valueOf cut last log buckets) :
    Tracks weight valueOf cut last log (evict cut buckets) := by
  rw [evict_eq_since h.sorted]
  have hsub : (since cut buckets).Sublist buckets := List.filter_sublist
  constructor
  · exact h.sorted.sublist (hsub.map Prod.fst)
  · intro b hb
    exact h.past b (hsub.subset hb)
  · intro c hc
    rw [since_since hc]
    exact h.totals c hc

theorem Tracks.record (h : Tracks weight valueOf cut last log buckets) (hfresh : weight fresh = 0)
    (hadd : ∀ v b, weight (add v b) = weight b + valueOf v) (value : V) :
    Tracks weight valueOf cut last (log ++ [(last, value)])
      (record fresh add last value buckets) := by
  constructor
  · exact (stamps_record value h.sorted h.past).1
  · exact (stamps_record value h.sorted h.past).2
  · intro c hc
    rw [total_since_record hfresh hadd, total_since_append, total_since_singleton, h.totals c hc]

/-- **What the window shows**: the total of the observations in it. -/
theorem Tracks.total_evict (h : Tracks weight valueOf cut last log buckets) :
    total weight (RollingWindow.evict cut buckets) = total valueOf (since cut log) := by
  rw [evict_eq_since h.sorted]
  exact h.totals cut le_rfl

/-- They also have the stamps of the log, from `cut` on. -/
structure Mirrors (weight : B → M) (valueOf : V → M) (cut last : T) (log : List (T × V))
    (buckets : List (T × B)) : Prop extends Tracks weight valueOf cut last log buckets where
  stamps : ∀ t, cut ≤ t → (t ∈ buckets.map Prod.fst ↔ t ∈ log.map Prod.fst)

theorem Mirrors.nil (cut last : T) :
    Mirrors weight valueOf cut last ([] : List (T × V)) ([] : List (T × B)) := by
  constructor
  · exact Tracks.nil cut last
  · intro t _
    rfl

theorem Mirrors.later (h : Mirrors weight valueOf cut last log buckets) {cut' last' : T}
    (hcut : cut ≤ cut') (hlast : last ≤ last') : Mirrors weight valueOf cut' last' log buckets := by
  constructor
  · exact h.toTracks.later hcut hlast
  · intro t ht
    exact h.stamps t (hcut.trans ht)

theorem Mirrors.evict (h : Mirrors weight valueOf cut last log buckets) :
    Mirrors weight valueOf cut last log (evict cut buckets) := by
  constructor
  · exact h.toTracks.evict
  · intro t ht
    rw [evict_eq_since h.sorted, mem_stamps_since, h.stamps t ht]
    exact and_iff_right ht

theorem Mirrors.record (h : Mirrors weight valueOf cut last log buckets)
    (hfresh : weight fresh = 0) (hadd : ∀ v b, weight (add v b) = weight b + valueOf v)
    (value : V) :
    Mirrors weight valueOf cut last (log ++ [(last, value)])
      (record fresh add last value buckets) := by
  constructor
  · exact h.toTracks.record hfresh hadd value
  · intro t ht
    rw [mem_stamps_record, h.stamps t ht, List.map_append, List.mem_append, or_comm]
    simp

/-- The buckets that are left have the stamps that are in the window. -/
theorem Mirrors.mem_stamps_evict (h : Mirrors weight valueOf cut last log buckets) {t : T} :
    t ∈ (RollingWindow.evict cut buckets).map Prod.fst ↔ t ∈ (since cut log).map Prod.fst := by
  rw [evict_eq_since h.sorted, mem_stamps_since, mem_stamps_since]
  exact and_congr_right (h.stamps t)

/-- No bucket is left exactly when nothing is in the window. -/
theorem Mirrors.evict_eq_nil_iff (h : Mirrors weight valueOf cut last log buckets) :
    RollingWindow.evict cut buckets = [] ↔ since cut log = [] := by
  rw [← List.map_eq_nil_iff (f := Prod.fst), List.eq_nil_iff_forall_not_mem,
    ← List.map_eq_nil_iff (f := Prod.fst) (l := since cut log), List.eq_nil_iff_forall_not_mem]
  exact forall_congr' fun t => not_congr h.mem_stamps_evict

end Buckets

/-- Buckets of integer stamps are no more than the stamps there are. -/
theorem length_le_of_stamps {low high : Int} {buckets : List (Int × B)}
    (hsorted : (buckets.map Prod.fst).Pairwise (· < ·))
    (hlow : ∀ b ∈ buckets, low ≤ b.1) (hhigh : ∀ b ∈ buckets, b.1 ≤ high) :
    buckets.length ≤ (high + 1 - low).toNat := by
  have hnodup : (buckets.map Prod.fst).Nodup := hsorted.imp ne_of_lt
  have hsubset : (buckets.map Prod.fst).toFinset ⊆ Finset.Icc low high := by
    intro t ht
    obtain ⟨b, hb, rfl⟩ := List.mem_map.mp (List.mem_toFinset.mp ht)
    exact Finset.mem_Icc.mpr ⟨hlow b hb, hhigh b hb⟩
  calc buckets.length = (buckets.map Prod.fst).toFinset.card := by
        rw [List.toFinset_card_of_nodup hnodup, List.length_map]
    _ ≤ (Finset.Icc low high).card := Finset.card_le_card hsubset
    _ = (high + 1 - low).toNat := Int.card_Icc low high

/-! ## Stamps in any order -/

/-- The bucket that these values make. -/
def fill (fresh : B) (add : V → B → B) (values : List V) : B :=
  values.foldl (fun bucket value => add value bucket) fresh

/-- The buckets hold the last few of the values that were recorded, whatever their stamps
    were: each holds one or more of them, in order. -/
def Holds (fresh : B) (add : V → B → B) (values : List V) (buckets : List (T × B)) : Prop :=
  ∃ groups : List (List V), (∀ group ∈ groups, group ≠ []) ∧ groups.flatten <:+ values ∧
    buckets.map Prod.snd = groups.map (fill fresh add)

section Holds

variable {fresh : B} {add : V → B → B} {values : List V} {buckets : List (T × B)}

omit [LinearOrder T] in
theorem Holds.nil (values : List V) : Holds fresh add values ([] : List (T × B)) := by
  refine ⟨[], ?_, List.nil_suffix, rfl⟩
  intro group hgroup
  cases hgroup

/-- Only the front is evicted. -/
theorem Holds.evict (h : Holds fresh add values buckets) (cutoff : T) :
    Holds fresh add values (evict cutoff buckets) := by
  obtain ⟨groups, hne, hsuffix, hbuckets⟩ := h
  obtain ⟨dropped, hdropped⟩ := List.dropWhile_suffix (l := buckets) fun b => b.1 < cutoff
  rw [← hdropped, List.map_append] at hbuckets
  obtain ⟨front, back, rfl, -, hback⟩ := List.append_eq_map_iff.mp hbuckets
  refine ⟨back, ?_, ?_, hback.symm⟩
  · intro group hgroup
    exact hne group (List.mem_append_right _ hgroup)
  · rw [List.flatten_append] at hsuffix
    exact (List.suffix_append _ _).trans hsuffix

theorem suffix_snoc {xs ys : List V} (h : xs <:+ ys) (x : V) : xs ++ [x] <:+ ys ++ [x] := by
  obtain ⟨front, rfl⟩ := h
  rw [List.append_assoc]
  exact List.suffix_append _ _

/-- A value goes to the last bucket, or to one of its own. -/
theorem Holds.record (h : Holds fresh add values buckets) (now : T) (value : V) :
    Holds fresh add (values ++ [value]) (record fresh add now value buckets) := by
  obtain ⟨groups, hne, hsuffix, hbuckets⟩ := h
  have hown : Holds fresh add (values ++ [value]) (buckets ++ [(now, add value fresh)]) := by
    refine ⟨groups ++ [[value]], ?_, ?_, ?_⟩
    · intro group hgroup
      rcases List.mem_append.mp hgroup with hgroup | hgroup
      · exact hne group hgroup
      · rw [List.mem_singleton.mp hgroup]
        exact List.cons_ne_nil _ _
    · rw [List.flatten_append, List.flatten_singleton]
      exact suffix_snoc hsuffix value
    · rw [List.map_append, List.map_append, hbuckets]
      rfl
  unfold RollingWindow.record
  cases hlast : buckets.getLast? with
  | none =>
    rw [List.getLast?_eq_none_iff.mp hlast] at hown
    exact hown
  | some b =>
    dsimp only
    split
    · obtain ⟨init, hinit⟩ := List.getLast?_eq_some_iff.mp hlast
      rw [hinit, List.map_append] at hbuckets
      obtain ⟨front, back, rfl, hfront, hback⟩ := List.append_eq_map_iff.mp hbuckets
      obtain ⟨group, rfl, hgroup⟩ := List.map_eq_singleton_iff.mp hback
      rw [List.flatten_append, List.flatten_singleton] at hsuffix
      refine ⟨front ++ [group ++ [value]], ?_, ?_, ?_⟩
      · intro group' hgroup'
        rcases List.mem_append.mp hgroup' with hfirst | hlast'
        · exact hne group' (List.mem_append_left _ hfirst)
        · rw [List.mem_singleton.mp hlast']
          exact List.concat_ne_nil _ _
      · rw [List.flatten_append, List.flatten_singleton, ← List.append_assoc]
        exact suffix_snoc hsuffix value
      · have hfill : fill fresh add (group ++ [value]) = add value b.2 := by
          rw [← hgroup, fill, fill, List.foldl_append]
          rfl
        rw [hinit, List.dropLast_concat, List.map_append, List.map_append, hfront]
        exact congrArg (init.map Prod.snd ++ [·]) hfill.symm
    · exact hown

end Holds

/-! ## Runs -/

/-- What happens to a window: an observation at a stamp, or a read of what is in the
    window from a cutoff on. -/
inductive Event (T : Type u) (V : Type w)
  | observed (stamp : T) (value : V)
  | read (cutoff : T)
  deriving DecidableEq

/-- What an event adds to the log. -/
def Event.logged : Event T V → List (T × V)
  | .observed stamp value => [(stamp, value)]
  | .read _ => []

def Event.isRead : Event T V → Bool
  | .observed _ _ => false
  | .read _ => true

/-- The total of all that is read, after the observations of the log. -/
def readFrom (valueOf : V → M) (log : List (T × V)) : List (Event T V) → M
  | [] => 0
  | .observed stamp value :: rest => readFrom valueOf (log ++ [(stamp, value)]) rest
  | .read cutoff :: rest => total valueOf (since cutoff log) + readFrom valueOf log rest

/-- What is in the window of each read, with its cutoff, after the observations of the
    log. -/
def windows (log : List (T × V)) : List (Event T V) → List (T × List (T × V))
  | [] => []
  | .observed stamp value :: rest => windows (log ++ [(stamp, value)]) rest
  | .read cutoff :: rest => (cutoff, since cutoff log) :: windows log rest

theorem windows_append (log : List (T × V)) (events events' : List (Event T V)) :
    windows log (events ++ events') =
      windows log events ++ windows (log ++ events.flatMap Event.logged) events' := by
  induction events generalizing log with
  | nil => simp [windows]
  | cons event rest ih =>
    cases event with
    | observed stamp value => simp [windows, ih, Event.logged]
    | read cutoff => simp [windows, ih, Event.logged]

theorem readFrom_eq_windows (valueOf : V → M) (log : List (T × V)) (events : List (Event T V)) :
    readFrom valueOf log events = ((windows log events).map fun w => total valueOf w.2).sum := by
  induction events generalizing log with
  | nil => rfl
  | cons event rest ih =>
    cases event with
    | observed stamp value => rw [readFrom, windows, ih]
    | read cutoff => rw [readFrom, windows, ih, List.map_cons, List.sum_cons]

/-- The number of reads whose window the stamp is in. -/
def reads (stamp : T) : List (Event T V) → ℕ
  | [] => 0
  | .observed _ _ :: rest => reads stamp rest
  | .read cutoff :: rest => (if cutoff ≤ stamp then 1 else 0) + reads stamp rest

/-- Each observation with the number of later reads whose window it is in. -/
def visits : List (Event T V) → List (V × ℕ)
  | [] => []
  | .observed stamp value :: rest => (value, reads stamp rest) :: visits rest
  | .read _ :: rest => visits rest

/-- What is read of a logged observation by a list of events. -/
theorem sum_reads_read (valueOf : V → M) (log : List (T × V)) (cutoff : T)
    (rest : List (Event T V)) :
    (log.map fun e => reads e.1 (.read cutoff :: rest) • valueOf e.2).sum =
      total valueOf (since cutoff log) + (log.map fun e => reads e.1 rest • valueOf e.2).sum := by
  induction log with
  | nil => simp [since]
  | cons e log ih =>
    have hcons : total valueOf (since cutoff (e :: log)) =
        (if cutoff ≤ e.1 then valueOf e.2 else 0) + total valueOf (since cutoff log) := by
      rw [← total_since_singleton, ← total_since_append]
      rfl
    rw [List.map_cons, List.sum_cons, ih, hcons, List.map_cons, List.sum_cons, reads, add_nsmul]
    split
    · rw [one_nsmul]
      abel
    · rw [zero_nsmul]
      abel

/-- **What is read over a run**: each observation once for every later read whose window
    it is in. -/
theorem readFrom_eq (valueOf : V → M) (log : List (T × V)) (events : List (Event T V)) :
    readFrom valueOf log events =
      (log.map fun e => reads e.1 events • valueOf e.2).sum +
        ((visits events).map fun e => e.2 • valueOf e.1).sum := by
  induction events generalizing log with
  | nil => simp [readFrom, reads, visits]
  | cons event rest ih =>
    cases event with
    | observed stamp value =>
      rw [readFrom, ih, visits, List.map_append, List.sum_append, List.map_cons, List.sum_cons]
      simp only [reads, List.map_cons, List.map_nil, List.sum_cons, List.sum_nil, add_zero]
      rw [add_assoc]
    | read cutoff =>
      rw [readFrom, ih, visits, sum_reads_read, add_assoc]

end RollingWindow

end Aiokpl.Lib
