import Mathlib.Tactic
import Aiokpl.Lib.Cursor

/-!
# Tagged fields on the wire

A message is a sequence of fields, each a number with a varint or a string of bytes.  A
number has many spellings: base-128 digits, lowest first, every byte but the last with its
high bit set, at most ten bytes.  The grammar is unambiguous: what follows a field does not
change how it reads, so two messages are the same fields or differ at one.
-/

namespace Aiokpl.Lib.WireFormat

open Lib.Cursor

/-! ## Varints -/

/-- The number whose base-128 digits, lowest first, are the low seven bits of the bytes. -/
def digits : List UInt8 → Nat
  | [] => 0
  | b :: rest => b.toNat % 128 + 128 * digits rest

/-- A byte string that ends with its first byte below 128. -/
inductive Terminated : List UInt8 → Prop
  | last {b : UInt8} : b.toNat < 128 → Terminated [b]
  | more {b : UInt8} {rest : List UInt8} : 128 ≤ b.toNat → Terminated rest → Terminated (b :: rest)

/-- `bs` spells the number `n`, in at most ten bytes. -/
structure Varint (n : Nat) (bs : List UInt8) : Prop where
  terminated : Terminated bs
  length_le : bs.length ≤ 10
  value : n = digits bs

theorem Terminated.ne_nil {bs : List UInt8} (h : Terminated bs) : bs ≠ [] := by
  cases h <;> exact List.cons_ne_nil _ _

theorem Terminated.unique {bs cs post post' : List UInt8} (h : Terminated bs)
    (h' : Terminated cs) (heq : bs ++ post = cs ++ post') : bs = cs ∧ post = post' := by
  induction h generalizing cs with
  | last hlast =>
    cases h' with
    | last _ =>
      rw [List.singleton_append, List.singleton_append, List.cons.injEq] at heq
      exact ⟨by rw [heq.1], heq.2⟩
    | more hmore _ =>
      rw [List.singleton_append, List.cons_append, List.cons.injEq] at heq
      rw [heq.1] at hlast
      omega
  | more hmore _ ih =>
    cases h' with
    | last hlast =>
      rw [List.singleton_append, List.cons_append, List.cons.injEq] at heq
      rw [heq.1] at hmore
      omega
    | more _ hrest =>
      rw [List.cons_append, List.cons_append, List.cons.injEq] at heq
      rcases ih hrest heq.2 with ⟨rfl, hpost⟩
      exact ⟨by rw [heq.1], hpost⟩

theorem Varint.unique {n n' : Nat} {bs cs post post' : List UInt8} (h : Varint n bs)
    (h' : Varint n' cs) (heq : bs ++ post = cs ++ post') : n = n' ∧ bs = cs ∧ post = post' := by
  rcases h.terminated.unique h'.terminated heq with ⟨rfl, hpost⟩
  exact ⟨h.value.trans h'.value.symm, rfl, hpost⟩

/-- A number below 128 is spelled by itself. -/
theorem varint_single {n : Nat} {b : UInt8} (hb : b.toNat = n) (hn : n < 128) : Varint n [b] := by
  refine ⟨.last (hb.symm ▸ hn), by simp, ?_⟩
  rw [digits, digits, hb]
  omega

theorem digits_lt (bs : List UInt8) : digits bs < 128 ^ bs.length := by
  induction bs with
  | nil => simp [digits]
  | cons b rest ih =>
    rw [digits, List.length_cons, pow_succ]
    omega

theorem digits_append (bs cs : List UInt8) :
    digits (bs ++ cs) = digits bs + 128 ^ bs.length * digits cs := by
  induction bs with
  | nil => simp [digits]
  | cons b rest ih =>
    rw [List.cons_append, digits, digits, ih, List.length_cons, pow_succ]
    ring

/-- All bytes but the last have their high bit set. -/
theorem terminated_concat_iff (init : List UInt8) (last : UInt8) :
    Terminated (init ++ [last]) ↔ (∀ b ∈ init, 128 ≤ b.toNat) ∧ last.toNat < 128 := by
  induction init with
  | nil =>
    constructor
    · intro h
      cases h with
      | last hlast => exact ⟨by simp, hlast⟩
      | more _ hrest => exact absurd rfl hrest.ne_nil
    · rintro ⟨_, hlast⟩
      exact .last hlast
  | cons b rest ih =>
    rw [List.forall_mem_cons, and_assoc, ← ih]
    constructor
    · intro h
      generalize hbytes : b :: rest ++ [last] = bytes at h
      cases h with
      | last hlast => simp at hbytes
      | more hmore hrest =>
        rw [List.cons_append, List.cons.injEq] at hbytes
        rw [hbytes.1, hbytes.2]
        exact ⟨hmore, hrest⟩
    · rintro ⟨hmore, hrest⟩
      exact .more hmore hrest

/-- The seven bits of a tenth byte are one more than a number of 64 bits has room for:
    only its lowest may be set. -/
theorem Varint.lt_iff {n : Nat} {init : List UInt8} {last : UInt8}
    (h : Varint n (init ++ [last])) : n < 2 ^ 64 ↔ init.length = 9 → last.toNat < 2 := by
  obtain ⟨_, hlast⟩ := (terminated_concat_iff init last).mp h.terminated
  have hlength := h.length_le
  have hvalue := h.value
  have hlow := digits_lt init
  rw [List.length_append, List.length_singleton] at hlength
  rw [digits_append, digits, digits, Nat.mod_eq_of_lt hlast] at hvalue
  by_cases hnine : init.length = 9
  · rw [hnine] at hvalue hlow
    rw [imp_iff_right hnine]
    omega
  · have hall := digits_lt (init ++ [last])
    have hfew : 128 ^ (init ++ [last]).length ≤ 128 ^ 9 := by
      apply Nat.pow_le_pow_right (by omega)
      rw [List.length_append, List.length_singleton]
      omega
    rw [← h.value] at hall
    constructor
    · intro _ hlong
      exact absurd hlong hnine
    · intro _
      omega

/-! ## Fields -/

inductive Payload
  | varint (value : Nat)
  | delimited (chunk : List UInt8)
  deriving DecidableEq, Repr

structure Field where
  number : Nat
  payload : Payload
  deriving DecidableEq, Repr

/-- The key of a field: its number, and 0 or 2 for the form of what follows. -/
def Field.key : Field → Nat
  | ⟨number, .varint _⟩ => 8 * number
  | ⟨number, .delimited _⟩ => 8 * number + 2

/-- The bytes behind the key: a number, or a length and so many bytes. -/
def Payload.Spelled : Payload → List UInt8 → Prop
  | .varint value, bs => Varint value bs
  | .delimited chunk, bs => ∃ length, Varint chunk.length length ∧ bs = length ++ chunk

/-- `bs` spells the field. -/
def Field.Spelled (f : Field) (bs : List UInt8) : Prop :=
  ∃ key body, bs = key ++ body ∧ Varint f.key key ∧ f.payload.Spelled body

/-- `bs` spells the fields one after the other. -/
abbrev Message : List Field → List UInt8 → Prop := Spells Field.Spelled

theorem Field.Spelled.ne_nil {f : Field} {bs : List UInt8} (h : f.Spelled bs) : bs ≠ [] := by
  rcases h with ⟨key, body, rfl, hkey, _⟩
  exact List.append_ne_nil_of_left_ne_nil hkey.terminated.ne_nil _

/-- **A field is read one way**, whatever follows it. -/
theorem Field.Spelled.unique {f g : Field} {bs cs post post' : List UInt8} (h : f.Spelled bs)
    (h' : g.Spelled cs) (heq : bs ++ post = cs ++ post') : f = g ∧ bs = cs ∧ post = post' := by
  rcases f with ⟨number, payload⟩
  rcases g with ⟨number', payload'⟩
  rcases h with ⟨key, body, rfl, hkey, hbody⟩
  rcases h' with ⟨key', body', rfl, hkey', hbody'⟩
  rw [List.append_assoc, List.append_assoc] at heq
  rcases hkey.unique hkey' heq with ⟨hsame, rfl, hrest⟩
  cases payload with
  | varint value =>
    cases payload' with
    | varint value' =>
      rcases hbody.unique hbody' hrest with ⟨rfl, rfl, hpost⟩
      simp only [Field.key] at hsame
      refine ⟨?_, rfl, hpost⟩
      rw [show number = number' by omega]
    | delimited chunk' =>
      simp only [Field.key] at hsame
      omega
  | delimited chunk =>
    cases payload' with
    | varint value' =>
      simp only [Field.key] at hsame
      omega
    | delimited chunk' =>
      rcases hbody with ⟨length, hlength, rfl⟩
      rcases hbody' with ⟨length', hlength', rfl⟩
      rw [List.append_assoc, List.append_assoc] at hrest
      rcases hlength.unique hlength' hrest with ⟨hchunks, rfl, hchunk⟩
      rcases List.append_inj hchunk hchunks with ⟨rfl, hpost⟩
      simp only [Field.key] at hsame
      refine ⟨?_, rfl, hpost⟩
      rw [show number = number' by omega]

/-- What is left of a message behind its first field. -/
theorem Message.tail {f : Field} {fields : List Field} {bs rest : List UInt8} (h : f.Spelled bs)
    (hmessage : Message fields (bs ++ rest)) :
    ∃ fields', fields = f :: fields' ∧ Message fields' rest := by
  generalize hbytes : bs ++ rest = bytes at hmessage
  cases hmessage with
  | nil => exact absurd (List.append_eq_nil_iff.mp hbytes).1 h.ne_nil
  | cons hfield hfields =>
    rcases h.unique hfield hbytes with ⟨rfl, rfl, rfl⟩
    exact ⟨_, rfl, hfields⟩

theorem Message.unique {fields fields' : List Field} {bs : List UInt8} (h : Message fields bs)
    (h' : Message fields' bs) : fields = fields' := by
  induction h generalizing fields' with
  | nil =>
    generalize hbytes : ([] : List UInt8) = bytes at h'
    cases h' with
    | nil => rfl
    | cons hfield _ => exact absurd (List.append_eq_nil_iff.mp hbytes.symm).1 hfield.ne_nil
  | cons hfield _ ih =>
    rcases Message.tail hfield h' with ⟨rest, rfl, hrest⟩
    rw [ih hrest]

/-- The number of a varint field under `number`. -/
def Field.varint? (number : Nat) : Field → Option Nat
  | ⟨n, .varint value⟩ => if n = number then some value else none
  | ⟨_, .delimited _⟩ => none

/-- The bytes of a delimited field under `number`. -/
def Field.chunk? (number : Nat) : Field → Option (List UInt8)
  | ⟨_, .varint _⟩ => none
  | ⟨n, .delimited chunk⟩ => if n = number then some chunk else none

/-- The numbers under `number`, in order. -/
def varints (number : Nat) (fields : List Field) : List Nat :=
  fields.filterMap (Field.varint? number)

/-- The byte strings under `number`, in order. -/
def chunks (number : Nat) (fields : List Field) : List (List UInt8) :=
  fields.filterMap (Field.chunk? number)

section selectors

variable (number n : Nat) (value : Nat) (chunk : List UInt8) (fields : List Field)

@[simp] theorem varints_varint : varints number (⟨n, .varint value⟩ :: fields) =
    if n = number then value :: varints number fields else varints number fields := by
  by_cases heq : n = number
  · simp [varints, Field.varint?, heq]
  · simp [varints, Field.varint?, heq]

@[simp] theorem varints_delimited :
    varints number (⟨n, .delimited chunk⟩ :: fields) = varints number fields := rfl

@[simp] theorem chunks_varint :
    chunks number (⟨n, .varint value⟩ :: fields) = chunks number fields := rfl

@[simp] theorem chunks_delimited : chunks number (⟨n, .delimited chunk⟩ :: fields) =
    if n = number then chunk :: chunks number fields else chunks number fields := by
  by_cases heq : n = number
  · simp [chunks, Field.chunk?, heq]
  · simp [chunks, Field.chunk?, heq]

end selectors

/-! ## Unknown fields -/

/-- Fields that are not known may stand anywhere in either string, known ones are alike; what
    follows the last of them is the same, and need not be a message. -/
inductive Padded (known : Field → Bool) (alike : Field → Field → Prop) :
    List UInt8 → List UInt8 → Prop
  | refl (bs : List UInt8) : Padded known alike bs bs
  | field {f g : Field} {bs cs rest rest' : List UInt8} :
      f.Spelled bs → g.Spelled cs → alike f g → Padded known alike rest rest' →
        Padded known alike (bs ++ rest) (cs ++ rest')
  | inserted {f : Field} {bs rest rest' : List UInt8} :
      f.Spelled bs → known f = false → Padded known alike rest rest' →
        Padded known alike rest (bs ++ rest')
  | omitted {f : Field} {bs rest rest' : List UInt8} :
      f.Spelled bs → known f = false → Padded known alike rest rest' →
        Padded known alike (bs ++ rest) rest'

section padding

variable {known : Field → Bool} {alike : Field → Field → Prop} {bs cs : List UInt8}
  {fields fields' : List Field}

theorem Padded.symm (halike : ∀ f g, alike f g → alike g f) (h : Padded known alike bs cs) :
    Padded known alike cs bs := by
  induction h with
  | refl bs => exact .refl bs
  | field hbs hcs hfg _ ih => exact .field hcs hbs (halike _ _ hfg) ih
  | inserted hbs hknown _ ih => exact .omitted hbs hknown ih
  | omitted hbs hknown _ ih => exact .inserted hbs hknown ih

/-- **Padding.**  A message stays one, and its known fields stay alike. -/
theorem Padded.message (hrefl : ∀ f, alike f f) (hknown : ∀ f g, alike f g → known f = known g)
    (h : Padded known alike bs cs) (hmessage : Message fields bs) :
    ∃ fields', Message fields' cs ∧
      List.Forall₂ alike (fields.filter known) (fields'.filter known) := by
  induction h generalizing fields with
  | refl bs => exact ⟨fields, hmessage, List.forall₂_same.mpr fun f _ => hrefl f⟩
  | @field f g bs cs rest rest' hbs hcs hfg _ ih =>
    rcases Message.tail hbs hmessage with ⟨fields, rfl, hrest⟩
    rcases ih hrest with ⟨fields', hfields', halike⟩
    refine ⟨g :: fields', .cons hcs hfields', ?_⟩
    cases hf : known f with
    | true =>
      rw [List.filter_cons_of_pos hf, List.filter_cons_of_pos (hknown f g hfg ▸ hf)]
      exact .cons hfg halike
    | false =>
      have hg : ¬ known g = true := by simp [← hknown f g hfg, hf]
      rw [List.filter_cons_of_neg (by simp [hf]), List.filter_cons_of_neg hg]
      exact halike
  | @inserted f bs rest rest' hbs hf _ ih =>
    rcases ih hmessage with ⟨fields', hfields', halike⟩
    refine ⟨f :: fields', .cons hbs hfields', ?_⟩
    rw [List.filter_cons_of_neg (by simp [hf])]
    exact halike
  | @omitted f bs rest rest' hbs hf _ ih =>
    rcases Message.tail hbs hmessage with ⟨fields, rfl, hrest⟩
    rw [List.filter_cons_of_neg (by simp [hf])]
    exact ih hrest

/-- What is selected from known fields, selected from alike ones. -/
theorem filterMap_alike {α : Type} {r : α → α → Prop} {select : Field → Option α}
    (hselect : ∀ f, known f = false → select f = none)
    (halike : ∀ f g, alike f g → Option.Rel r (select f) (select g))
    (h : List.Forall₂ alike (fields.filter known) (fields'.filter known)) :
    List.Forall₂ r (fields.filterMap select) (fields'.filterMap select) := by
  have hfilter : ∀ fields : List Field,
      fields.filterMap select = (fields.filter known).filterMap select := by
    intro fields
    induction fields with
    | nil => rfl
    | cons f fields ih =>
      cases hf : known f with
      | true =>
        rw [List.filter_cons_of_pos hf, List.filterMap_cons, List.filterMap_cons, ih]
      | false =>
        rw [List.filter_cons_of_neg (by simp [hf]), List.filterMap_cons, hselect f hf, ih]
  rw [hfilter, hfilter fields']
  generalize fields.filter known = knowns, fields'.filter known = knowns' at h
  induction h with
  | nil => exact .nil
  | @cons f g _ _ hfg _ ih =>
    have hrel := halike f g hfg
    rw [List.filterMap_cons, List.filterMap_cons]
    generalize select f = x, select g = y at hrel ⊢
    cases hrel with
    | none => exact ih
    | some hr => exact .cons hr ih

theorem filterMap_eq_of_alike {α : Type} {select : Field → Option α}
    (hselect : ∀ f, known f = false → select f = none)
    (halike : ∀ f g, alike f g → select f = select g)
    (h : List.Forall₂ alike (fields.filter known) (fields'.filter known)) :
    fields.filterMap select = fields'.filterMap select := by
  have hrel := filterMap_alike (r := Eq) hselect (fun f g hfg => ?_) h
  · rwa [List.forall₂_eq_eq_eq] at hrel
  · rw [halike f g hfg]
    cases select g with
    | none => exact .none
    | some a => exact .some rfl

end padding

end Aiokpl.Lib.WireFormat
