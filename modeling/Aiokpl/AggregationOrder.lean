import Aiokpl.AggregationGrammar

/-!
# Field order and unknown fields

What a message means depends on the sequence of each of its known fields alone, since record
messages are resolved after the tables are complete.  So entries may stand in any order among
those of the other kinds, and unknown fields may stand between the fields of every level.
-/

namespace Aiokpl.Aggregation

open Lib Lib.Cursor Lib.WireFormat

/-! ## The schema -/

/-- The fields `_decode_tag_msg` does not skip. -/
def tagKnown : Field → Bool
  | ⟨_, .varint _⟩ => false
  | ⟨number, .delimited _⟩ => number == 1 || number == 2

/-- The fields `_decode_record_msg` does not skip. -/
def recordKnown : Field → Bool
  | ⟨number, .varint _⟩ => number == 1 || number == 2
  | ⟨number, .delimited _⟩ => number == 3 || number == 4

/-- Tag messages but for unknown fields. -/
def TagPadded : Bytes → Bytes → Prop := Padded tagKnown Eq

/-- Fields of a record message but for unknown fields in a tag. -/
def RecordFieldAlike : Field → Field → Prop
  | ⟨number, .varint value⟩, ⟨number', .varint value'⟩ => number = number' ∧ value = value'
  | ⟨number, .delimited chunk⟩, ⟨number', .delimited chunk'⟩ =>
    number = number' ∧ if number = 4 then TagPadded chunk chunk' else chunk = chunk'
  | _, _ => False

/-- Record messages but for unknown fields, also in their tags. -/
def RecordPadded : Bytes → Bytes → Prop := Padded recordKnown RecordFieldAlike

theorem TagPadded.symm {chunk chunk' : Bytes} (h : TagPadded chunk chunk') :
    TagPadded chunk' chunk :=
  Padded.symm (fun _ _ => Eq.symm) h

theorem RecordFieldAlike.refl (f : Field) : RecordFieldAlike f f := by
  rcases f with ⟨number, value | chunk⟩
  · exact ⟨rfl, rfl⟩
  · refine ⟨rfl, ?_⟩
    split
    · exact .refl chunk
    · rfl

theorem RecordFieldAlike.symm {f g : Field} (h : RecordFieldAlike f g) : RecordFieldAlike g f := by
  rcases f with ⟨number, value | chunk⟩ <;> rcases g with ⟨number', value' | chunk'⟩
  · exact ⟨h.1.symm, h.2.symm⟩
  · exact h.elim
  · exact h.elim
  · rcases h with ⟨rfl, hchunk⟩
    refine ⟨rfl, ?_⟩
    split at hchunk
    · rename_i hfour
      rw [if_pos hfour]
      exact hchunk.symm
    · rename_i hfour
      rw [if_neg hfour]
      exact hchunk.symm

theorem RecordFieldAlike.known {f g : Field} (h : RecordFieldAlike f g) :
    recordKnown f = recordKnown g := by
  rcases f with ⟨number, value | chunk⟩ <;> rcases g with ⟨number', value' | chunk'⟩
  · rw [recordKnown, recordKnown, h.1]
  · exact h.elim
  · exact h.elim
  · rw [recordKnown, recordKnown, h.1]

theorem RecordPadded.symm {chunk chunk' : Bytes} (h : RecordPadded chunk chunk') :
    RecordPadded chunk' chunk :=
  Padded.symm (fun _ _ => RecordFieldAlike.symm) h

/-! ## Padded messages mean the same -/

theorem tagKnown_chunk? {number : Nat} (hnumber : number = 1 ∨ number = 2) {f : Field}
    (hf : tagKnown f = false) : f.chunk? number = none := by
  rcases f with ⟨n, value | chunk⟩
  · rfl
  · simp only [tagKnown, Bool.or_eq_false_iff, beq_eq_false_iff_ne] at hf
    rw [Field.chunk?, if_neg (by omega)]

theorem recordKnown_varint? {number : Nat} (hnumber : number = 1 ∨ number = 2) {f : Field}
    (hf : recordKnown f = false) : f.varint? number = none := by
  rcases f with ⟨n, value | chunk⟩
  · simp only [recordKnown, Bool.or_eq_false_iff, beq_eq_false_iff_ne] at hf
    rw [Field.varint?, if_neg (by omega)]
  · rfl

theorem recordKnown_chunk? {number : Nat} (hnumber : number = 3 ∨ number = 4) {f : Field}
    (hf : recordKnown f = false) : f.chunk? number = none := by
  rcases f with ⟨n, value | chunk⟩
  · rfl
  · simp only [recordKnown, Bool.or_eq_false_iff, beq_eq_false_iff_ne] at hf
    rw [Field.chunk?, if_neg (by omega)]

theorem RecordFieldAlike.varint? {f g : Field} (h : RecordFieldAlike f g) (number : Nat) :
    f.varint? number = g.varint? number := by
  rcases f with ⟨n, value | chunk⟩ <;> rcases g with ⟨n', value' | chunk'⟩
  · rw [Field.varint?, Field.varint?, h.1, h.2]
  · exact h.elim
  · exact h.elim
  · rfl

theorem RecordFieldAlike.data? {f g : Field} (h : RecordFieldAlike f g) :
    f.chunk? 3 = g.chunk? 3 := by
  rcases f with ⟨n, value | chunk⟩ <;> rcases g with ⟨n', value' | chunk'⟩
  · rfl
  · exact h.elim
  · exact h.elim
  · rcases h with ⟨rfl, hchunk⟩
    rw [Field.chunk?, Field.chunk?]
    split
    · rename_i hthree
      rw [if_neg (by omega)] at hchunk
      rw [hchunk]
    · rfl

theorem RecordFieldAlike.tag? {f g : Field} (h : RecordFieldAlike f g) :
    Option.Rel TagPadded (f.chunk? 4) (g.chunk? 4) := by
  rcases f with ⟨n, value | chunk⟩ <;> rcases g with ⟨n', value' | chunk'⟩
  · exact .none
  · exact h.elim
  · exact h.elim
  · rcases h with ⟨rfl, hchunk⟩
    rw [Field.chunk?, Field.chunk?]
    split
    · rename_i hfour
      rw [if_pos hfour] at hchunk
      exact .some hchunk
    · exact .none

/-- A tag message with unknown fields put in or left out means the same. -/
theorem tagMessage_padded {chunk chunk' : Bytes} (h : TagPadded chunk chunk') {t : Tag}
    (ht : TagMessage chunk t) : TagMessage chunk' t := by
  rcases ht with ⟨fields, keys, values, hfields, hkeys, hvalues, hrest⟩
  rcases Padded.message (fun _ => rfl) (fun _ _ hfg => hfg ▸ rfl) h hfields with
    ⟨fields', hfields', halike⟩
  have hchunks : ∀ number, number = 1 ∨ number = 2 → chunks number fields = chunks number fields' :=
    fun number hnumber => filterMap_eq_of_alike (fun _ => tagKnown_chunk? hnumber)
      (fun f g (hfg : f = g) => by rw [hfg]) halike
  rw [hchunks 1 (.inl rfl)] at hkeys
  rw [hchunks 2 (.inr rfl)] at hvalues
  exact ⟨fields', keys, values, hfields', hkeys, hvalues, hrest⟩

/-- Messages that are alike, one for one, mean the same. -/
theorem forall₂_alike {α : Type} {alike : Bytes → Bytes → Prop} {means : Bytes → α → Prop}
    (hmeans : ∀ bs cs a, alike bs cs → means bs a → means cs a) {xs ys : List Bytes} {as : List α}
    (halike : List.Forall₂ alike xs ys) (h : List.Forall₂ means xs as) :
    List.Forall₂ means ys as := by
  induction halike generalizing as with
  | nil => exact h
  | cons hxy _ ih =>
    cases h with
    | cons hx hxs => exact .cons (hmeans _ _ _ hxy hx) (ih hxs)

/-- A record message with unknown fields put in or left out, there or in its tags. -/
theorem recordMessage_padded {pks ehks : List String} {chunk chunk' : Bytes}
    (h : RecordPadded chunk chunk') {d : DecodedRecord} (hd : RecordMessage pks ehks chunk d) :
    RecordMessage pks ehks chunk' d := by
  rcases hd with ⟨fields, pkIndex, hfields, hpkIndex, hpk, hehk, hdata, htags⟩
  rcases Padded.message RecordFieldAlike.refl (fun _ _ => RecordFieldAlike.known) h hfields with
    ⟨fields', hfields', halike⟩
  have hvarints : ∀ number, number = 1 ∨ number = 2 →
      varints number fields = varints number fields' :=
    fun number hnumber => filterMap_eq_of_alike (fun _ => recordKnown_varint? hnumber)
      (fun _ _ hfg => hfg.varint? number) halike
  have hchunks : chunks 3 fields = chunks 3 fields' :=
    filterMap_eq_of_alike (fun _ => recordKnown_chunk? (.inl rfl))
      (fun _ _ => RecordFieldAlike.data?)
      halike
  have hpadded : List.Forall₂ TagPadded (chunks 4 fields) (chunks 4 fields') :=
    filterMap_alike (fun _ => recordKnown_chunk? (.inr rfl)) (fun _ _ => RecordFieldAlike.tag?)
      halike
  rw [hvarints 1 (.inl rfl)] at hpkIndex
  rw [hvarints 2 (.inr rfl)] at hehk
  have hmeans : ∀ bs cs t, TagPadded bs cs → TagMessage bs t → TagMessage cs t :=
    fun _ _ _ hpadded ht => tagMessage_padded hpadded ht
  rw [hchunks] at hdata
  exact ⟨fields', pkIndex, hfields', hpkIndex, hpk, hehk, hdata,
    forall₂_alike hmeans hpadded htags⟩

/-! ## Bodies -/

/-- The two bodies have the same entries of each kind, record entries but for unknown fields,
    in any order among the kinds and with any other fields between them. -/
def Rearranged (proto proto' : Bytes) : Prop :=
  ∃ fields fields', Message fields proto ∧ Message fields' proto' ∧
    chunks 1 fields = chunks 1 fields' ∧ chunks 2 fields = chunks 2 fields' ∧
    List.Forall₂ RecordPadded (chunks 3 fields) (chunks 3 fields')

theorem Rearranged.symm {proto proto' : Bytes} (h : Rearranged proto proto') :
    Rearranged proto' proto := by
  rcases h with ⟨fields, fields', hfields, hfields', hpks, hehks, hrecords⟩
  exact ⟨fields', fields, hfields', hfields, hpks.symm, hehks.symm,
    hrecords.flip.imp fun _ _ hpadded => RecordPadded.symm hpadded⟩

theorem Rearranged.envelope {proto proto' : Bytes} (h : Rearranged proto proto')
    {records : List DecodedRecord} (henvelope : EnvelopeMessage proto records) :
    EnvelopeMessage proto' records := by
  rcases h with ⟨fields, fields', hfields, hfields', hpks, hehks, hpadded⟩
  rcases henvelope with ⟨_, pks, ehks, hmessage, hstrings, hstrings', hrecords⟩
  obtain rfl := hfields.unique hmessage
  rw [hpks] at hstrings
  rw [hehks] at hstrings'
  have hmeans : ∀ bs cs d, RecordPadded bs cs → RecordMessage pks ehks bs d →
      RecordMessage pks ehks cs d :=
    fun _ _ _ hpadded hd => recordMessage_padded hpadded hd
  exact ⟨fields', pks, ehks, hfields', hstrings, hstrings', forall₂_alike hmeans hpadded hrecords⟩

/-- **Field order and unknown fields do not matter.**  Two bodies with the same entries decode
    to the same records, or `decode_aggregated` raises on both. -/
theorem rearranged_decode_alike (md5 : Bytes → Digest) {proto proto' : Bytes}
    (h : Rearranged proto proto') :
    (decodeAggregated md5 (magic ++ proto ++ (md5 proto).val)).toOption =
      (decodeAggregated md5 (magic ++ proto' ++ (md5 proto').val)).toOption := by
  have hsame : ∀ records,
      decodeAggregated md5 (magic ++ proto ++ (md5 proto).val) = .ok records ↔
        decodeAggregated md5 (magic ++ proto' ++ (md5 proto').val) = .ok records := by
    intro records
    rw [decodeAggregated_proto, decodeAggregated_proto]
    exact ⟨h.envelope, h.symm.envelope⟩
  cases hout : decodeAggregated md5 (magic ++ proto ++ (md5 proto).val) with
  | ok records => rw [(hsame records).mp hout]
  | error e =>
    cases hout' : decodeAggregated md5 (magic ++ proto' ++ (md5 proto').val) with
    | ok records => cases hout.symm.trans ((hsame records).mpr hout')
    | error e' => rfl

/-- The record comes before the table it indexes, with an unknown field in it and one behind
    it, or after the table and bare. -/
theorem rearranged_decode_alike_swapped :
    (decodeAggregated (fun _ => Digest.zero)
        (magic ++ [26, 7, 8, 0, 72, 1, 26, 1, 7, 90, 1, 0, 10, 1, 107] ++
          Digest.zero.val)).toOption =
      (decodeAggregated (fun _ => Digest.zero)
        (magic ++ [10, 1, 107, 26, 5, 8, 0, 26, 1, 7] ++ Digest.zero.val)).toOption := by
  have hpk : Field.Spelled ⟨1, .delimited [107]⟩ [10, 1, 107] :=
    ⟨[10], [1, 107], rfl, varint_single rfl (by decide), [1], varint_single rfl (by decide), rfl⟩
  have hindex : Field.Spelled ⟨1, .varint 0⟩ [8, 0] :=
    ⟨[8], [0], rfl, varint_single rfl (by decide), varint_single rfl (by decide)⟩
  have hunknown : Field.Spelled ⟨9, .varint 1⟩ [72, 1] :=
    ⟨[72], [1], rfl, varint_single rfl (by decide), varint_single rfl (by decide)⟩
  have hpadded : RecordPadded [8, 0, 72, 1, 26, 1, 7] [8, 0, 26, 1, 7] :=
    .field hindex hindex (RecordFieldAlike.refl _) (.omitted hunknown rfl (.refl [26, 1, 7]))
  have hrecord : Field.Spelled ⟨3, .delimited [8, 0, 72, 1, 26, 1, 7]⟩
      [26, 7, 8, 0, 72, 1, 26, 1, 7] :=
    ⟨[26], _, rfl, varint_single rfl (by decide), [7], varint_single rfl (by decide), rfl⟩
  have hrecord' : Field.Spelled ⟨3, .delimited [8, 0, 26, 1, 7]⟩ [26, 5, 8, 0, 26, 1, 7] :=
    ⟨[26], _, rfl, varint_single rfl (by decide), [5], varint_single rfl (by decide), rfl⟩
  have hfuture : Field.Spelled ⟨11, .delimited [0]⟩ [90, 1, 0] :=
    ⟨[90], [1, 0], rfl, varint_single rfl (by decide), [1], varint_single rfl (by decide), rfl⟩
  exact rearranged_decode_alike _ ⟨_, _, .cons hrecord (.cons hfuture (.cons hpk .nil)),
    .cons hpk (.cons hrecord' .nil), rfl, rfl, .cons hpadded .nil⟩

end Aiokpl.Aggregation
