import Mathlib.Tactic

/-!
# Reading a buffer at a cursor

A hand-written decoder is a function of a buffer and a position that answers a
value and the position after it.  `Reads` says that a reader, placed anywhere in
any buffer in front of some bytes, reads them as a given value and stops right
after them; it composes along concatenation.  `scan` is the loop that applies a
reader while the cursor is inside the buffer, and `Scans` its composition rule.
-/

namespace Aiokpl.Lib.Cursor

universe u

variable {ε β α γ σ ι : Type u}

/-- A decoder of one item at a position. -/
abbrev Reader (ε β α : Type u) := List β → Nat → Except ε (α × Nat)

/-- Wherever `bs` stands in a buffer, `r` reads it as `a` and stops after it. -/
def Reads (r : Reader ε β α) (bs : List β) (a : α) : Prop :=
  ∀ pre post, r (pre ++ bs ++ post) pre.length = .ok (a, (pre ++ bs).length)

/-- A reader followed by a reader that may use its value. -/
def Reader.andThen (r : Reader ε β α) (k : α → Reader ε β γ) : Reader ε β γ :=
  fun buf pos => r buf pos >>= fun out => k out.1 buf out.2

theorem Reads.andThen {r : Reader ε β α} {k : α → Reader ε β γ} {bs cs : List β} {a : α} {c : γ}
    (hr : Reads r bs a) (hk : Reads (k a) cs c) : Reads (r.andThen k) (bs ++ cs) c := by
  intro pre post
  have h1 := hr pre (cs ++ post)
  have h2 := hk (pre ++ bs) post
  simp only [List.append_assoc] at h1 h2 ⊢
  simp only [Reader.andThen, h1]
  exact h2

/-- A reader whose value goes through a function that may fail. -/
def Reader.convert (r : Reader ε β α) (f : α → Except ε γ) : Reader ε β γ :=
  r.andThen fun a _ pos => f a >>= fun c => .ok (c, pos)

theorem Reads.convert {r : Reader ε β α} {f : α → Except ε γ} {bs : List β} {a : α} {c : γ}
    (hr : Reads r bs a) (hf : f a = .ok c) : Reads (r.convert f) bs c := by
  have hdone : Reads (fun (_ : List β) pos => f a >>= fun c => .ok (c, pos)) [] c := by
    intro pre post
    rw [hf, List.append_nil]
    rfl
  have h := hr.andThen (k := fun a _ pos => f a >>= fun c => .ok (c, pos)) hdone
  rwa [List.append_nil] at h

/-- What a computation that succeeded went through. -/
theorem bind_ok_iff {x : Except ε α} {f : α → Except ε γ} {c : γ} :
    x >>= f = .ok c ↔ ∃ a, x = .ok a ∧ f a = .ok c := by
  cases x with
  | error e => simp [bind, Except.bind]
  | ok a => simp [bind, Except.bind]

/-- What a successful conversion went through. -/
theorem Reader.convert_ok {r : Reader ε β α} {f : α → Except ε γ} {buf : List β} {pos pos' : Nat}
    {c : γ} (h : r.convert f buf pos = .ok (c, pos')) :
    ∃ a, r buf pos = .ok (a, pos') ∧ f a = .ok c := by
  cases hout : r buf pos with
  | error e => simp [Reader.convert, Reader.andThen, hout, bind, Except.bind] at h
  | ok out =>
    simp only [Reader.convert, Reader.andThen, hout] at h
    cases hc : f out.1 with
    | error e => simp [hc, bind, Except.bind] at h
    | ok c' =>
      simp only [hc, bind, Except.bind, Except.ok.injEq, Prod.mk.injEq] at h
      rcases h with ⟨rfl, rfl⟩
      exact ⟨out.1, rfl, hc⟩

/-! ## Errors that do not occur -/

/-- Wherever it is placed, the reader does not fail with `e`. -/
def Never (e : ε) (r : Reader ε β α) : Prop := ∀ buf pos, r buf pos ≠ .error e

theorem bind_ne_error {x : Except ε α} {f : α → Except ε γ} {e : ε} (hx : x ≠ .error e)
    (hf : ∀ a, f a ≠ .error e) : x >>= f ≠ .error e := by
  cases x with
  | error e' =>
    intro h
    obtain rfl := Except.error.inj h
    exact hx rfl
  | ok a => exact hf a

theorem mapM_ne_error {f : α → Except ε γ} {e : ε} (hf : ∀ a, f a ≠ .error e) :
    ∀ xs : List α, xs.mapM f ≠ .error e
  | [] => fun h => by cases h
  | x :: xs => by
    rw [List.mapM_cons]
    refine bind_ne_error (hf x) fun _ => bind_ne_error (mapM_ne_error hf xs) fun _ h => ?_
    cases h

theorem Never.andThen {r : Reader ε β α} {k : α → Reader ε β γ} {e : ε} (hr : Never e r)
    (hk : ∀ a, Never e (k a)) : Never e (r.andThen k) :=
  fun buf pos => bind_ne_error (hr buf pos) fun out => hk out.1 buf out.2

theorem Never.convert {r : Reader ε β α} {f : α → Except ε γ} {e : ε} (hr : Never e r)
    (hf : ∀ a, f a ≠ .error e) : Never e (r.convert f) :=
  hr.andThen fun a _ _ => bind_ne_error (hf a) fun _ h => by cases h

/-! ## The loop -/

/-- A reader always moves the cursor forward. -/
def Advances (r : Reader ε β α) : Prop :=
  ∀ buf pos a pos', r buf pos = .ok (a, pos') → pos < pos'

theorem Advances.andThen {r : Reader ε β α} {k : α → Reader ε β γ} (hr : Advances r)
    (hk : ∀ a, Advances (k a)) : Advances (r.andThen k) := by
  intro buf pos c pos' h
  cases hout : r buf pos with
  | error e => simp [Reader.andThen, hout, bind, Except.bind] at h
  | ok out =>
    simp only [Reader.andThen, hout] at h
    exact (hr buf pos out.1 out.2 hout).trans (hk out.1 buf out.2 c pos' h)

theorem Advances.convert {r : Reader ε β α} (hr : Advances r) (f : α → Except ε γ) :
    Advances (r.convert f) := by
  intro buf pos c pos' h
  rcases Reader.convert_ok h with ⟨a, ha, _⟩
  exact hr buf pos a pos' ha

/-- `while pos < len(buf): state, pos = step(state, buf, pos)`.  Every step consumes
    an element, so `fuel` only has to cover what is left of the buffer. -/
def scan (step : σ → Reader ε β σ) (buf : List β) : Nat → Nat → σ → Except ε σ
  | 0, _, s => .ok s
  | fuel + 1, pos, s =>
    if pos < buf.length then step s buf pos >>= fun out => scan step buf fuel out.2 out.1
    else .ok s

/-- What every turn of the loop preserves holds at its end. -/
theorem scan_invariant {step : σ → Reader ε β σ} {buf : List β} (inv : σ → Prop)
    (hstep : ∀ s pos s' pos', inv s → step s buf pos = .ok (s', pos') → inv s') :
    ∀ (fuel pos : Nat) {s s' : σ}, inv s → scan step buf fuel pos s = .ok s' → inv s'
  | 0, _, s, s', hs, h => by
    rw [scan, Except.ok.injEq] at h
    exact h ▸ hs
  | fuel + 1, pos, s, s', hs, h => by
    rw [scan] at h
    split at h
    · cases hout : step s buf pos with
      | error e =>
        rw [hout] at h
        cases h
      | ok out =>
        rw [hout] at h
        exact scan_invariant inv hstep fuel out.2 (hstep s pos out.1 out.2 hs hout) h
    · rw [Except.ok.injEq] at h
      exact h ▸ hs

/-- What no turn of the loop fails with, the loop does not. -/
theorem scan_ne_error {step : σ → Reader ε β σ} {e : ε} (hstep : ∀ s, Never e (step s))
    (buf : List β) : ∀ (fuel pos : Nat) (s : σ), scan step buf fuel pos s ≠ .error e
  | 0, _, _ => fun h => by cases h
  | fuel + 1, pos, s => by
    rw [scan]
    split
    · exact bind_ne_error (hstep s buf pos) fun out => scan_ne_error hstep buf fuel out.2 out.1
    · exact fun h => by cases h

/-- More fuel than what is left of the buffer changes nothing. -/
theorem scan_fuel {step : σ → Reader ε β σ} (hstep : ∀ s, Advances (step s)) (buf : List β) :
    ∀ (fuel fuel' pos : Nat) (s : σ), buf.length - pos ≤ fuel → buf.length - pos ≤ fuel' →
      scan step buf fuel pos s = scan step buf fuel' pos s
  | 0, 0, _, _, _, _ => rfl
  | 0, fuel' + 1, pos, s, h, _ => by
    have hend : ¬ pos < buf.length := by omega
    simp [scan, hend]
  | fuel + 1, 0, pos, s, _, h => by
    have hend : ¬ pos < buf.length := by omega
    simp [scan, hend]
  | fuel + 1, fuel' + 1, pos, s, h, h' => by
    simp only [scan]
    split
    · cases hout : step s buf pos with
      | error e => rfl
      | ok out =>
        have hlt := hstep s buf pos out.1 out.2 hout
        exact scan_fuel hstep buf fuel fuel' out.2 out.1 (by omega) (by omega)
    · rfl

/-- With enough fuel `scan` is the loop. -/
theorem scan_eq_loop {step : σ → Reader ε β σ} (hstep : ∀ s, Advances (step s)) (buf : List β)
    (pos : Nat) (s : σ) :
    scan step buf (buf.length - pos) pos s =
      if pos < buf.length then
        step s buf pos >>= fun out => scan step buf (buf.length - out.2) out.2 out.1
      else .ok s := by
  split
  · rename_i hlt
    obtain ⟨n, hn⟩ : ∃ n, buf.length - pos = n + 1 := ⟨buf.length - pos - 1, by omega⟩
    rw [hn, scan, if_pos hlt]
    cases hout : step s buf pos with
    | error e => rfl
    | ok out =>
      have hadv := hstep s buf pos out.1 out.2 hout
      exact scan_fuel hstep buf n _ out.2 out.1 (by omega) le_rfl
  · rename_i hge
    have hzero : buf.length - pos = 0 := by omega
    rw [hzero]
    rfl

/-- Wherever `bs` stands, the loop started in front of it with state `s` arrives
    behind it with state `s'`. -/
def Scans (step : σ → Reader ε β σ) (bs : List β) (s s' : σ) : Prop :=
  ∀ pre post fuel, (bs ++ post).length ≤ fuel → ∃ fuel', post.length ≤ fuel' ∧
    scan step (pre ++ bs ++ post) fuel pre.length s =
      scan step (pre ++ bs ++ post) fuel' (pre ++ bs).length s'

theorem Scans.nil (step : σ → Reader ε β σ) (s : σ) : Scans step [] s s := by
  intro pre post fuel hfuel
  exact ⟨fuel, by simpa using hfuel, by simp⟩

/-- One item is one turn of the loop. -/
theorem Scans.single {step : σ → Reader ε β σ} {bs : List β} {s s' : σ} (hne : bs ≠ [])
    (h : Reads (step s) bs s') : Scans step bs s s' := by
  intro pre post fuel hfuel
  have hpos : 0 < bs.length := List.length_pos_iff.mpr hne
  simp only [List.length_append] at hfuel
  obtain ⟨n, rfl⟩ : ∃ n, fuel = n + 1 := ⟨fuel - 1, by omega⟩
  have hin : pre.length < (pre ++ bs ++ post).length := by
    simp only [List.length_append]
    omega
  refine ⟨n, by omega, ?_⟩
  rw [scan, if_pos hin, h pre post]
  rfl

theorem Scans.append {step : σ → Reader ε β σ} {bs cs : List β} {s s' s'' : σ}
    (h : Scans step bs s s') (h' : Scans step cs s' s'') : Scans step (bs ++ cs) s s'' := by
  intro pre post fuel hfuel
  obtain ⟨mid, hmid, heq⟩ := h pre (cs ++ post) fuel (by simpa using hfuel)
  obtain ⟨last, hlast, heq'⟩ := h' (pre ++ bs) post mid hmid
  refine ⟨last, hlast, ?_⟩
  simp only [List.append_assoc] at heq heq' ⊢
  rw [heq, heq']

/-- Scanning a whole buffer. -/
theorem Scans.run {step : σ → Reader ε β σ} {bs : List β} {s s' : σ} (h : Scans step bs s s') :
    scan step bs bs.length 0 s = .ok s' := by
  obtain ⟨fuel', _, heq⟩ := h [] [] bs.length (by simp)
  simp only [List.nil_append, List.append_nil, List.length_nil] at heq
  rw [heq]
  cases fuel' <;> simp [scan]

/-! ## Loops that end -/

/-- The loop `while pos < len(buf): state, pos = step(state, buf, pos)`, started at `pos` with
    state `s`, ends with this outcome. -/
inductive Loops (step : σ → Reader ε β σ) (buf : List β) : Nat → σ → Except ε σ → Prop
  | done {pos : Nat} {s : σ} : ¬ pos < buf.length → Loops step buf pos s (.ok s)
  | fail {pos : Nat} {s : σ} {e : ε} :
      pos < buf.length → step s buf pos = .error e → Loops step buf pos s (.error e)
  | turn {pos pos' : Nat} {s s' : σ} {out : Except ε σ} :
      pos < buf.length → step s buf pos = .ok (s', pos') → Loops step buf pos' s' out →
        Loops step buf pos s out

/-- A loop whose steps advance ends, with the outcome of the scan. -/
theorem scan_loops {step : σ → Reader ε β σ} (hstep : ∀ s, Advances (step s)) (buf : List β)
    (pos : Nat) (s : σ) : Loops step buf pos s (scan step buf (buf.length - pos) pos s) := by
  induction hleft : buf.length - pos using Nat.strong_induction_on generalizing pos s with
  | _ left ih =>
    rw [← hleft, scan_eq_loop hstep]
    split
    · rename_i hlt
      cases hout : step s buf pos with
      | error e => exact .fail hlt hout
      | ok out =>
        have hadv := hstep s buf pos out.1 out.2 hout
        exact .turn hlt hout (ih _ (by omega) out.2 out.1 rfl)
    · rename_i hge
      exact .done hge

/-! ## Languages -/

/-- `r` reads exactly the spellings of its values: it succeeds where the rest of the buffer
    begins with one, and stops behind it. -/
def Recognizes (r : Reader ε β α) (spelled : α → List β → Prop) : Prop :=
  ∀ buf pos a pos', pos ≤ buf.length → (r buf pos = .ok (a, pos') ↔
    ∃ bs post, buf.drop pos = bs ++ post ∧ spelled a bs ∧ pos' = pos + bs.length)

/-- What a spelling leaves of the buffer. -/
theorem drop_behind {buf bs post : List β} {pos : Nat} (hpos : pos ≤ buf.length)
    (hdrop : buf.drop pos = bs ++ post) :
    buf.drop (pos + bs.length) = post ∧ pos + bs.length + post.length = buf.length := by
  have hlength := congrArg List.length hdrop
  rw [List.length_drop, List.length_append] at hlength
  refine ⟨?_, by omega⟩
  rw [← List.drop_drop, hdrop, List.drop_left]

theorem Recognizes.andThen {r : Reader ε β α} {k : α → Reader ε β γ} {p : α → List β → Prop}
    {q : α → γ → List β → Prop} (hr : Recognizes r p) (hk : ∀ a, Recognizes (k a) (q a)) :
    Recognizes (r.andThen k) fun c bs => ∃ a as cs, bs = as ++ cs ∧ p a as ∧ q a c cs := by
  intro buf pos c pos' hpos
  constructor
  · intro h
    cases hout : r buf pos with
    | error e => simp [Reader.andThen, hout, bind, Except.bind] at h
    | ok out =>
      simp only [Reader.andThen, hout] at h
      rcases (hr buf pos out.1 out.2 hpos).mp hout with ⟨as, post, hdrop, ha, hmid⟩
      rcases drop_behind hpos hdrop with ⟨hrest, hlength⟩
      rcases (hk out.1 buf out.2 c pos' (by omega)).mp h with ⟨cs, post', hdrop', hc, hend⟩
      rw [hmid, hrest] at hdrop'
      refine ⟨as ++ cs, post', ?_, ⟨out.1, as, cs, rfl, ha, hc⟩, ?_⟩
      · rw [hdrop, hdrop', List.append_assoc]
      · rw [hend, hmid, List.length_append, add_assoc]
  · rintro ⟨_, post, hdrop, ⟨a, as, cs, rfl, ha, hc⟩, rfl⟩
    rw [List.append_assoc] at hdrop
    rcases drop_behind hpos hdrop with ⟨hrest, hlength⟩
    have hfirst := (hr buf pos a (pos + as.length) hpos).mpr ⟨as, cs ++ post, hdrop, ha, rfl⟩
    simp only [Reader.andThen, hfirst]
    refine (hk a buf _ c _ (by omega)).mpr ⟨cs, post, hrest, hc, ?_⟩
    rw [List.length_append, add_assoc]

theorem Recognizes.convert {r : Reader ε β α} {p : α → List β → Prop} (hr : Recognizes r p)
    (f : α → Except ε γ) : Recognizes (r.convert f) fun c bs => ∃ a, p a bs ∧ f a = .ok c := by
  intro buf pos c pos' hpos
  constructor
  · intro h
    rcases Reader.convert_ok h with ⟨a, ha, hc⟩
    rcases (hr buf pos a pos' hpos).mp ha with ⟨bs, post, hdrop, hbs, hend⟩
    exact ⟨bs, post, hdrop, ⟨a, hbs, hc⟩, hend⟩
  · rintro ⟨bs, post, hdrop, ⟨a, hbs, hc⟩, hend⟩
    have ha := (hr buf pos a pos' hpos).mpr ⟨bs, post, hdrop, hbs, hend⟩
    simp only [Reader.convert, Reader.andThen, ha, bind, Except.bind, hc]

/-- A reader that always fails recognizes nothing. -/
theorem recognizes_error (e : ε) :
    Recognizes (fun _ _ => .error e : Reader ε β α) fun _ _ => False := by
  intro buf pos a pos' _
  constructor
  · intro h
    cases h
  · rintro ⟨_, _, _, hfalse, _⟩
    exact hfalse.elim

/-- `p` may be put in another form. -/
theorem Recognizes.congr {r : Reader ε β α} {p q : α → List β → Prop} (hr : Recognizes r p)
    (h : ∀ a bs, p a bs ↔ q a bs) : Recognizes r q := by
  intro buf pos a pos' hpos
  simp only [hr buf pos a pos' hpos, h]

/-- The items are spelled one after the other. -/
inductive Spells (item : ι → List β → Prop) : List ι → List β → Prop
  | nil : Spells item [] []
  | cons {i : ι} {is : List ι} {bs rest : List β} :
      item i bs → Spells item is rest → Spells item (i :: is) (bs ++ rest)

/-- **A loop over a language.**  Where each turn reads one non-empty item and updates the state
    by it, the loop succeeds exactly on sequences of items, and folds the updates. -/
theorem scan_ok_iff {step : σ → Reader ε β σ} {item : ι → List β → Prop}
    {update : σ → ι → Except ε σ} (hne : ∀ i bs, item i bs → bs ≠ [])
    (hstep : ∀ s, Recognizes (step s) fun s' bs => ∃ i, item i bs ∧ update s i = .ok s')
    (buf : List β) : ∀ (fuel pos : Nat) (s s' : σ), buf.length - pos ≤ fuel →
      (scan step buf fuel pos s = .ok s' ↔
        ∃ items, Spells item items (buf.drop pos) ∧ items.foldlM update s = .ok s') := by
  have hended : ∀ (pos : Nat) (s s' : σ), ¬ pos < buf.length →
      ((.ok s : Except ε σ) = .ok s' ↔
        ∃ items, Spells item items (buf.drop pos) ∧ items.foldlM update s = .ok s') := by
    intro pos s s' hend
    rw [List.drop_eq_nil_of_le (not_lt.mp hend)]
    constructor
    · intro h
      exact ⟨[], .nil, h⟩
    · rintro ⟨items, hitems, hfold⟩
      generalize hbytes : ([] : List β) = bytes at hitems
      cases hitems with
      | nil => exact hfold
      | cons hitem _ => exact absurd (List.append_eq_nil_iff.mp hbytes.symm).1 (hne _ _ hitem)
  intro fuel
  induction fuel with
  | zero =>
    intro pos s s' hfuel
    exact hended pos s s' (by omega)
  | succ fuel ih =>
    intro pos s s' hfuel
    rw [scan]
    by_cases hlt : pos < buf.length
    · rw [if_pos hlt]
      have hafter : ∀ {bs post : List β}, bs ≠ [] → buf.drop pos = bs ++ post →
          buf.drop (pos + bs.length) = post ∧ buf.length - (pos + bs.length) ≤ fuel := by
        intro bs post hbs hdrop
        have hpos := List.length_pos_iff.mpr hbs
        rcases drop_behind hlt.le hdrop with ⟨hrest, hlength⟩
        exact ⟨hrest, by omega⟩
      constructor
      · intro h
        cases hout : step s buf pos with
        | error e =>
          rw [hout] at h
          cases h
        | ok out =>
          rw [hout] at h
          rcases (hstep s buf pos out.1 out.2 hlt.le).mp hout with
            ⟨bs, post, hdrop, ⟨i, hitem, hupdate⟩, hmid⟩
          rcases hafter (hne i bs hitem) hdrop with ⟨hrest, hless⟩
          have hloop := (ih out.2 out.1 s' (hmid ▸ hless)).mp h
          rw [hmid, hrest] at hloop
          rcases hloop with ⟨items, hitems, hfold⟩
          refine ⟨i :: items, hdrop ▸ .cons hitem hitems, ?_⟩
          rw [List.foldlM_cons, hupdate]
          exact hfold
      · rintro ⟨items, hitems, hfold⟩
        generalize hbytes : buf.drop pos = bytes at hitems
        cases hitems with
        | nil =>
          have hlength := congrArg List.length hbytes
          rw [List.length_drop, List.length_nil] at hlength
          omega
        | @cons i is bs rest hitem hrest =>
          rw [List.foldlM_cons] at hfold
          cases hupdate : update s i with
          | error e =>
            rw [hupdate] at hfold
            cases hfold
          | ok mid =>
            rw [hupdate] at hfold
            rcases hafter (hne i bs hitem) hbytes with ⟨hdrop, hless⟩
            have hout := (hstep s buf pos mid _ hlt.le).mpr
              ⟨bs, rest, hbytes, ⟨i, hitem, hupdate⟩, rfl⟩
            rw [hout]
            refine (ih _ mid s' hless).mpr ⟨is, ?_, hfold⟩
            rw [hdrop]
            exact hrest
    · rw [if_neg hlt]
      exact hended pos s s' hlt

end Aiokpl.Lib.Cursor
