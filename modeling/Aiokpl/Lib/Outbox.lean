import Aiokpl.Lib.Dict
import Aiokpl.Lib.Keyed
import Aiokpl.Lib.TransitionSystem

/-!
# Senders that share a receiver

A sender is handed a list of requests and makes them one after the other; it may give up,
at a request that is refused or because it is stopped, and then makes no more.  Any number
of senders are under way at a time.  What the receiver has of a sender is always a prefix
of what that sender was handed, and no request is received twice or gets lost in between.
-/

namespace Aiokpl.Lib

universe u v

/-- The senders by their numbers: the requests that each was handed, and those that it has
    still to make, if it is under way; and what was received and given up, with the
    senders. -/
structure Outbox (ρ : Type u) where
  handed : List (List ρ) := []
  underway : Dict ℕ (List ρ) := .empty
  received : List (ℕ × ρ) := []
  dropped : List (ℕ × ρ) := []

namespace Outbox

variable {ρ : Type u}

/-- The sender goes on with these requests, or is done. -/
def proceed (sender : ℕ) (requests : List ρ) (b : Outbox ρ) : Outbox ρ :=
  if requests = [] then { b with underway := b.underway.erase sender }
  else { b with underway := b.underway.set sender requests }

/-- A new sender. -/
def hand (requests : List ρ) (b : Outbox ρ) : Outbox ρ :=
  { b.proceed b.handed.length requests with handed := b.handed ++ [requests] }

/-- The next request of a sender is received. -/
def deliver (sender : ℕ) (b : Outbox ρ) : Option (Outbox ρ) :=
  match b.underway.get? sender with
  | some (request :: rest) =>
    some { b.proceed sender rest with received := b.received ++ [(sender, request)] }
  | _ => none

/-- A sender gives up. -/
def giveUp (sender : ℕ) (b : Outbox ρ) : Option (Outbox ρ) :=
  (b.underway.get? sender).map fun requests =>
    { b with
      underway := b.underway.erase sender
      dropped := b.dropped ++ requests.map fun request => (sender, request) }

/-- The requests that a sender has still to make. -/
def remaining (b : Outbox ρ) (sender : ℕ) : List ρ := (b.underway.get? sender).getD []

/-- The sender is done, or has given up. -/
def ended (b : Outbox ρ) (sender : ℕ) : Bool := (b.underway.get? sender).isNone

/-- The sender has given up. -/
def failed (b : Outbox ρ) (sender : ℕ) : Bool := b.dropped.any fun e => e.1 = sender

/-! ## In order -/

/-- Each sender makes its requests in order, until it gives up the rest. -/
structure InOrder (b : Outbox ρ) : Prop where
  parts : ∀ sender, under sender b.received ++ b.remaining sender ++ under sender b.dropped =
    (b.handed[sender]?).getD []
  alive : ∀ sender, b.ended sender = false → under sender b.dropped = []
  fresh : ∀ sender, b.handed.length ≤ sender → b.underway.get? sender = none

theorem remaining_proceed (b : Outbox ρ) (sender : ℕ) (requests : List ρ) (sender' : ℕ) :
    (b.proceed sender requests).remaining sender' =
      if sender' = sender then requests else b.remaining sender' := by
  unfold proceed
  split
  · rename_i hempty
    rw [remaining, Dict.get?_erase]
    split
    · rw [hempty]
      rfl
    · rfl
  · rw [remaining, Dict.get?_set]
    split
    · rfl
    · rfl

theorem get?_proceed_ne {b : Outbox ρ} {sender sender' : ℕ} (h : sender' ≠ sender)
    (requests : List ρ) :
    (b.proceed sender requests).underway.get? sender' = b.underway.get? sender' := by
  unfold proceed
  split
  · exact (Dict.get?_erase ..).trans (if_neg h)
  · exact Dict.get?_set_ne _ _ h

@[simp] theorem handed_proceed (b : Outbox ρ) (sender : ℕ) (requests : List ρ) :
    (b.proceed sender requests).handed = b.handed := by
  unfold proceed
  split <;> rfl

@[simp] theorem received_proceed (b : Outbox ρ) (sender : ℕ) (requests : List ρ) :
    (b.proceed sender requests).received = b.received := by
  unfold proceed
  split <;> rfl

@[simp] theorem dropped_proceed (b : Outbox ρ) (sender : ℕ) (requests : List ρ) :
    (b.proceed sender requests).dropped = b.dropped := by
  unfold proceed
  split <;> rfl

theorem inOrder_empty : InOrder ({} : Outbox ρ) := by
  constructor
  · intro sender
    rfl
  · intro sender _
    rfl
  · intro sender _
    rfl

/-- Nothing is known of a sender that is yet to come. -/
theorem InOrder.nothing {b : Outbox ρ} (h : b.InOrder) {sender : ℕ}
    (hle : b.handed.length ≤ sender) :
    under sender b.received = [] ∧ under sender b.dropped = [] := by
  have hparts := h.parts sender
  rw [List.getElem?_eq_none hle, Option.getD_none] at hparts
  obtain ⟨hfirst, hdropped⟩ := List.append_eq_nil_iff.mp hparts
  exact ⟨(List.append_eq_nil_iff.mp hfirst).1, hdropped⟩

theorem remaining_hand (b : Outbox ρ) (requests : List ρ) (sender : ℕ) :
    (b.hand requests).remaining sender =
      if sender = b.handed.length then requests else b.remaining sender :=
  remaining_proceed ..

@[simp] theorem handed_hand (b : Outbox ρ) (requests : List ρ) :
    (b.hand requests).handed = b.handed ++ [requests] := rfl

@[simp] theorem received_hand (b : Outbox ρ) (requests : List ρ) :
    (b.hand requests).received = b.received := received_proceed ..

@[simp] theorem dropped_hand (b : Outbox ρ) (requests : List ρ) :
    (b.hand requests).dropped = b.dropped := dropped_proceed ..

theorem InOrder.hand {b : Outbox ρ} (h : b.InOrder) (requests : List ρ) :
    (b.hand requests).InOrder := by
  obtain ⟨hreceived, hdropped⟩ := h.nothing (le_refl b.handed.length)
  constructor
  · intro sender
    rw [received_hand, dropped_hand, handed_hand, remaining_hand]
    split
    · rename_i hsender
      rw [hsender, hreceived, hdropped, List.nil_append, List.append_nil,
        List.getElem?_concat_length, Option.getD_some]
    · rename_i hsender
      rw [h.parts sender]
      rcases lt_or_gt_of_ne hsender with hlt | hgt
      · rw [List.getElem?_append_left hlt]
      · rw [List.getElem?_eq_none hgt.le, List.getElem?_eq_none (by simpa using hgt)]
  · intro sender hended
    rw [dropped_hand]
    by_cases hsender : sender = b.handed.length
    · rw [hsender]
      exact hdropped
    · apply h.alive
      rw [ended, ← get?_proceed_ne hsender requests]
      exact hended
  · intro sender hle
    rw [handed_hand, List.length_append, List.length_singleton] at hle
    exact (get?_proceed_ne (by omega) requests).trans (h.fresh sender (by omega))

/-- What it is for the next request of a sender to be received. -/
structure Delivered (b : Outbox ρ) (sender : ℕ) (b' : Outbox ρ) (request : ρ) (rest : List ρ) :
    Prop where
  alive : b.ended sender = false
  before : b.remaining sender = request :: rest
  handed : b'.handed = b.handed
  received : b'.received = b.received ++ [(sender, request)]
  dropped : b'.dropped = b.dropped
  underway : b'.underway = (b.proceed sender rest).underway

theorem deliver_eq_some {b b' : Outbox ρ} {sender : ℕ} (h : b.deliver sender = some b') :
    ∃ request rest, Delivered b sender b' request rest := by
  unfold deliver at h
  split at h
  · rename_i request rest hunderway
    obtain rfl := Option.some.inj h
    refine ⟨request, rest, ?_, ?_, handed_proceed .., rfl, dropped_proceed .., rfl⟩
    · rw [ended, hunderway]
      rfl
    · rw [remaining, hunderway]
      rfl
  · cases h

theorem InOrder.deliver {b b' : Outbox ρ} (h : b.InOrder) {sender : ℕ}
    (hdeliver : b.deliver sender = some b') : b'.InOrder := by
  obtain ⟨request, rest, hd⟩ := deliver_eq_some hdeliver
  have hremaining : ∀ sender', b'.remaining sender' =
      if sender' = sender then rest else b.remaining sender' := by
    intro sender'
    rw [remaining, hd.underway]
    exact remaining_proceed ..
  have hothers : ∀ sender', sender' ≠ sender →
      b'.underway.get? sender' = b.underway.get? sender' := by
    intro sender' hne
    rw [hd.underway]
    exact get?_proceed_ne hne rest
  constructor
  · intro sender'
    have hparts := h.parts sender'
    rw [hremaining, hd.received, hd.dropped, hd.handed, under_append]
    split
    · rename_i hsame
      rw [hsame, hd.before] at hparts
      rw [hsame, ← hparts]
      simp [under]
    · rename_i hne
      have hother : under sender' [(sender, request)] = [] := under_map_ne (Ne.symm hne) [request]
      rw [hother, List.append_nil]
      exact hparts
  · intro sender' hended
    rw [hd.dropped]
    by_cases hsame : sender' = sender
    · rw [hsame]
      exact h.alive sender hd.alive
    · apply h.alive
      rw [ended, ← hothers sender' hsame]
      exact hended
  · intro sender' hle
    rw [hd.handed] at hle
    have hnone := h.fresh sender' hle
    have hne : sender' ≠ sender := by
      rintro rfl
      have halive := hd.alive
      rw [ended, hnone] at halive
      cases halive
    exact (hothers sender' hne).trans hnone

theorem InOrder.giveUp {b b' : Outbox ρ} (h : b.InOrder) {sender : ℕ}
    (hgiveUp : b.giveUp sender = some b') : b'.InOrder := by
  obtain ⟨requests, hunderway, rfl⟩ := Option.map_eq_some_iff.mp hgiveUp
  have halive : under sender b.dropped = [] := by
    apply h.alive
    rw [ended, hunderway]
    rfl
  have hremaining : b.remaining sender = requests := by rw [remaining, hunderway]; rfl
  constructor
  · intro sender'
    have hparts := h.parts sender'
    simp only [under_append, remaining, Dict.get?_erase]
    split
    · rename_i hsame
      rw [hsame, hremaining, halive, List.append_nil] at hparts
      rw [hsame, halive, under_map_self, Option.getD_none, List.append_nil, List.nil_append]
      exact hparts
    · rename_i hne
      rw [under_map_ne (Ne.symm hne), List.append_nil]
      exact hparts
  · intro sender' hover
    simp only [ended, Dict.get?_erase] at hover
    split at hover
    · cases hover
    · rename_i hne
      simp only [under_append]
      rw [under_map_ne (Ne.symm hne), List.append_nil]
      exact h.alive sender' hover
  · intro sender' hle
    have hnone := h.fresh sender' hle
    exact (Dict.get?_erase ..).trans (by rw [hnone, ite_self])

/-- What has been received of a sender is a prefix of what it was handed. -/
theorem InOrder.isPrefix {b : Outbox ρ} (h : b.InOrder) (sender : ℕ) :
    under sender b.received <+: (b.handed[sender]?).getD [] := by
  rw [← h.parts sender, List.append_assoc]
  exact List.prefix_append _ _

/-- A sender that is over and has not given up has made all its requests. -/
theorem InOrder.complete {b : Outbox ρ} (h : b.InOrder) {sender : ℕ}
    (hover : b.ended sender = true) (hfailed : b.failed sender = false) :
    under sender b.received = (b.handed[sender]?).getD [] := by
  have hnone : b.underway.get? sender = none := Option.isNone_iff_eq_none.mp hover
  have hdropped : under sender b.dropped = [] := by
    rw [under, List.filterMap_eq_nil_iff]
    intro e he
    rw [failed, List.any_eq_false] at hfailed
    exact if_neg fun hsender => hfailed e he (decide_eq_true hsender)
  rw [← h.parts sender, remaining, hnone, hdropped, Option.getD_none, List.append_nil,
    List.append_nil]

/-! ## Nothing gets lost -/

section Weights

variable {M : Type v} [AddCommMonoid M] (weight : ρ → M)

def weigh (requests : List ρ) : M := (requests.map weight).sum

theorem weigh_append (requests requests' : List ρ) :
    weigh weight (requests ++ requests') = weigh weight requests + weigh weight requests' := by
  rw [weigh, List.map_append, List.sum_append]
  rfl

/-- What is in the outbox: received, still to be made, and given up. -/
def contents (b : Outbox ρ) : M :=
  weigh weight (b.received.map Prod.snd) + b.underway.total (fun _ => weigh weight) +
    weigh weight (b.dropped.map Prod.snd)

/-- The weight under way: that of a sender, and that of the others. -/
theorem total_underway (b : Outbox ρ) (sender : ℕ) :
    b.underway.total (fun _ => weigh weight) =
      weigh weight (b.remaining sender) +
        (b.underway.erase sender).total fun _ => weigh weight := by
  cases hunderway : b.underway.get? sender with
  | none =>
    rw [remaining, hunderway, Option.getD_none, Dict.erase_of_get?_none hunderway]
    exact (zero_add _).symm
  | some requests =>
    rw [remaining, hunderway, Option.getD_some]
    exact Dict.total_of_get? (fun _ => weigh weight) hunderway

theorem total_proceed (b : Outbox ρ) (sender : ℕ) (requests : List ρ) :
    (b.proceed sender requests).underway.total (fun _ => weigh weight) =
      weigh weight requests + (b.underway.erase sender).total fun _ => weigh weight := by
  unfold proceed
  split
  · rename_i hempty
    rw [hempty]
    exact (zero_add _).symm
  · exact Dict.total_set _ _ _ _

theorem contents_hand {b : Outbox ρ} (h : b.InOrder) (requests : List ρ) :
    (b.hand requests).contents weight = b.contents weight + weigh weight requests := by
  have hnone : b.remaining b.handed.length = [] := by
    rw [remaining, h.fresh _ le_rfl]
    rfl
  have htotal := total_underway weight b b.handed.length
  rw [hnone] at htotal
  have hzero : weigh weight [] = 0 := rfl
  rw [hzero, zero_add] at htotal
  simp only [contents, Outbox.hand, received_proceed, dropped_proceed, total_proceed, htotal]
  abel

theorem contents_deliver {b b' : Outbox ρ} {sender : ℕ} (hdeliver : b.deliver sender = some b') :
    b'.contents weight = b.contents weight := by
  obtain ⟨request, rest, hd⟩ := deliver_eq_some hdeliver
  have hsplit : weigh weight (request :: rest) = weigh weight [request] + weigh weight rest :=
    weigh_append weight [request] rest
  have htotal := total_underway weight b sender
  rw [hd.before, hsplit] at htotal
  simp only [contents, hd.received, hd.dropped, hd.underway, total_proceed, htotal, List.map_append,
    weigh_append, List.map_cons, List.map_nil]
  abel

theorem contents_giveUp {b b' : Outbox ρ} {sender : ℕ} (hgiveUp : b.giveUp sender = some b') :
    b'.contents weight = b.contents weight := by
  obtain ⟨requests, hunderway, rfl⟩ := Option.map_eq_some_iff.mp hgiveUp
  have htotal := Dict.total_of_get? (fun _ => weigh weight) hunderway
  have hsnd : (requests.map fun request => (sender, request)).map Prod.snd = requests := by simp
  simp only [contents, List.map_append, hsnd, weigh_append, htotal]
  abel

end Weights

end Outbox

end Aiokpl.Lib
