import Aiokpl.RetrierTrips
import Aiokpl.ShardMapListing

/-!
# What the decimal parsers accept

Hash keys and shard ids are each read by two separately written parsers.  Those of hash
keys accept the decimals below `2^128`, padded ones among them; those of shard ids differ
on a final newline, on digits that are not decimal and on what `int` refuses.
-/

namespace Aiokpl

open Lib

/-! ## Digits and decimals -/

theorem toDigits_single {c : Char} (hc : '0' ≤ c ∧ c ≤ '9') :
    Nat.toDigits 10 (c.toNat - 48) = [c] := by
  have hlow : 48 ≤ c.toNat := hc.1
  have hhigh : c.toNat ≤ 57 := hc.2
  rw [Nat.toDigits_of_lt_base (by omega)]
  congr 1
  apply Char.toNat_inj.mp
  rw [Nat.toNat_digitChar_of_lt_ten (by omega)]
  omega

/-- Every string of digits is a decimal. -/
theorem decimal_of_digits {cs : List Char} (hne : cs ≠ []) (hdigits : ∀ c ∈ cs, '0' ≤ c ∧ c ≤ '9') :
    Decimal cs (Nat.ofDigitChars 10 cs 0) := by
  induction cs using List.reverseRecOn with
  | nil => exact absurd rfl hne
  | append_singleton cs c ih =>
    have hc := hdigits c (List.mem_append_right _ List.mem_cons_self)
    have hhigh : c.toNat ≤ 57 := hc.2
    rw [Nat.ofDigitChars_append, Nat.ofDigitChars_cons, Nat.ofDigitChars_nil]
    change Decimal _ (10 * Nat.ofDigitChars 10 cs 0 + (c.toNat - 48))
    by_cases hnil : cs = []
    · subst hnil
      refine ⟨0, ?_⟩
      rw [Nat.ofDigitChars_nil, Nat.mul_zero, Nat.zero_add, toList_toString, toDigits_single hc]
      rfl
    · rcases ih hnil fun c' hc' => hdigits c' (List.mem_append_left _ hc') with ⟨zeros, hcs⟩
      rw [toList_toString] at hcs
      -- A last digit extends the number, or replaces the zero that stood for it.
      rcases Nat.eq_zero_or_pos (Nat.ofDigitChars 10 cs 0) with hzero | hpos
      · refine ⟨zeros + 1, ?_⟩
        rw [hzero, Nat.toDigits_zero] at hcs
        rw [hzero, Nat.mul_zero, Nat.zero_add, toList_toString, toDigits_single hc, hcs,
          List.replicate_succ']
      · refine ⟨zeros, ?_⟩
        rw [toList_toString, ← Nat.toDigits_append_toDigits (by decide) hpos (by omega),
          toDigits_single hc, ← List.append_assoc, ← hcs]

theorem Decimal.ne_nil {cs : List Char} {n : Nat} (h : Decimal cs n) : cs ≠ [] := by
  rcases h with ⟨zeros, rfl⟩
  rw [toList_toString]
  simp [Nat.toDigits_ne_nil]

theorem decimal_toString (n : Nat) : Decimal (toString n).toList n := ⟨0, rfl⟩

theorem Decimal.parseInt_eq (u : DigitClasses) {cs : List Char} {n : Nat} (h : Decimal cs n)
    (hlength : cs.length ≤ Hashing.maxStrDigits) : Hashing.parseInt u cs = some n := by
  have hdecimal : ∀ c ∈ cs, u.decimal c ≠ none := by
    intro c hc
    have hdigit := h.digits c hc
    have hhigh : c.toNat ≤ 57 := hdigit.2
    have hisDigit : c.isDigit = true := by
      rw [Char.isDigit, Bool.and_eq_true, decide_eq_true_eq, decide_eq_true_eq]
      exact hdigit
    rw [(u.ascii c (by omega)).2, if_pos hisDigit]
    simp
  cases hparse : Hashing.parseInt u cs with
  | none => exact absurd hparse ((Hashing.parseInt_ne_none_iff u cs).mpr ⟨hlength, hdecimal⟩)
  | some value => rw [h.parseInt hparse]

/-- `int` reads a string of ASCII digits, and gives its decimal value. -/
theorem parseInt_digits_iff (u : DigitClasses) {cs : List Char} (hne : cs ≠ [])
    (hdigits : ∀ c ∈ cs, '0' ≤ c ∧ c ≤ '9') (n : Nat) :
    Hashing.parseInt u cs = some n ↔ cs.length ≤ Hashing.maxStrDigits ∧ Decimal cs n := by
  constructor
  · intro hparse
    have hdecimal := decimal_of_digits hne hdigits
    have hvalue := hdecimal.parseInt hparse
    have hsome : Hashing.parseInt u cs ≠ none := by simp [hparse]
    exact ⟨((Hashing.parseInt_ne_none_iff u cs).mp hsome).1, hvalue ▸ hdecimal⟩
  · rintro ⟨hlength, hdecimal⟩
    exact hdecimal.parseInt_eq u hlength

/-! ## Hash keys -/

/-- `s` is the canonical decimal of the uint128 `n`. -/
def Canonical (s : String) (n : Nat) : Prop := s = toString n ∧ n < 2 ^ 128

/-- `s` is a decimal of the uint128 `n`, short enough for `int`. -/
structure Accepted (s : String) (n : Nat) : Prop where
  decimal : Decimal s.toList n
  length_le : s.length ≤ Hashing.maxStrDigits
  lt : n < 2 ^ 128

theorem Accepted.unique {s : String} {n n' : Nat} (h : Accepted s n) (h' : Accepted s n') :
    n = n' :=
  h.decimal.value.symm.trans h'.decimal.value

theorem Canonical.accepted {s : String} {n : Nat} (h : Canonical s n) : Accepted s n := by
  rcases h with ⟨rfl, hlt⟩
  refine ⟨decimal_toString n, ?_, hlt⟩
  rw [← String.length_toList, toList_toString,
    Nat.length_toDigits_le_iff (by decide) (by decide)]
  exact hlt.trans (by decide +kernel)

/-- Both parsers refuse a string before they call `int` on it. -/
theorem digits_iff (s : String) :
    ¬ (s = "" ∨ ¬ s.toList.all fun c => '0' ≤ c && c ≤ '9') ↔
      s.toList ≠ [] ∧ ∀ c ∈ s.toList, '0' ≤ c ∧ c ≤ '9' := by
  rw [not_or, not_not, List.all_eq_true]
  simp [String.toList_eq_nil_iff]

theorem le_uint128Max_iff (n : Nat) : n ≤ Hashing.uint128Max ↔ n < 2 ^ 128 := by
  rw [Hashing.uint128Max]
  omega

theorem parseHashKey_eq_some_iff (u : DigitClasses) (s : String) (n : Nat) :
    parseHashKey u s = some n ↔ Accepted s n := by
  unfold parseHashKey
  by_cases hdigits : s.toList ≠ [] ∧ ∀ c ∈ s.toList, '0' ≤ c ∧ c ≤ '9'
  · rw [if_neg ((digits_iff s).mpr hdigits), Option.filter_eq_some_iff, decide_eq_true_eq,
      parseInt_digits_iff u hdigits.1 hdigits.2, le_uint128Max_iff, String.length_toList]
    constructor
    · rintro ⟨⟨hlength, hdecimal⟩, hlt⟩
      exact ⟨hdecimal, hlength, hlt⟩
    · intro h
      exact ⟨⟨h.length_le, h.decimal⟩, h.lt⟩
  · rw [if_pos (not_not.mp (mt (digits_iff s).mp hdigits))]
    constructor
    · intro h
      cases h
    · intro h
      exact absurd ⟨h.decimal.ne_nil, h.decimal.digits⟩ hdigits

/-- The two parsers read alike. -/
theorem parseHashKey_eq_toOption (u : DigitClasses) (s : String) :
    parseHashKey u s = (Hashing.parseExplicitHashKey u s).toOption := by
  unfold parseHashKey Hashing.parseExplicitHashKey
  split
  · rfl
  · cases Hashing.parseInt u s.toList with
    | none => rfl
    | some value =>
      by_cases hmax : value ≤ Hashing.uint128Max
      · simp [Option.filter, hmax, Nat.not_lt_of_le hmax, Except.toOption]
      · simp [Option.filter, hmax, Nat.lt_of_not_le hmax, Except.toOption]

theorem parseExplicitHashKey_eq_ok_iff (u : DigitClasses) (s : String) (n : Nat) :
    Hashing.parseExplicitHashKey u s = .ok n ↔ Accepted s n := by
  rw [← parseHashKey_eq_some_iff u, parseHashKey_eq_toOption]
  cases Hashing.parseExplicitHashKey u s <;> simp [Except.toOption]

/-- What the hash-key parsers promise about a string: to give a number exactly for its
    canonical decimal, both the same, so that a key goes out under one spelling whether
    its batch holds one record or more. -/
structure ReadsCanonically (u : DigitClasses) (s : String) : Prop where
  explicit : ∀ n, Hashing.parseExplicitHashKey u s = .ok n ↔ Canonical s n
  listed : ∀ n, parseHashKey u s = some n ↔ Canonical s n
  agree : parseHashKey u s = (Hashing.parseExplicitHashKey u s).toOption
  forwarded : ∀ (single batch : AggregatedBatch) (it : BufferedRecord),
    single.items = [it] → batch.items.head? = some it →
    it.userRecord.explicitHashKey = some s →
    Hashing.parseExplicitHashKey u s = .ok it.hashKey →
    batch.routingExplicitHashKey = single.routingExplicitHashKey

/-- `s` is a uint128 in decimal after zeros that do not belong to it, within what `int`
    reads. -/
def Padded (s : String) : Prop :=
  s.length ≤ Hashing.maxStrDigits ∧
    ∃ zeros n, s.toList = List.replicate (zeros + 1) '0' ++ (toString n).toList ∧ n < 2 ^ 128

theorem accepted_iff (s : String) (n : Nat) :
    Accepted s n ↔ Canonical s n ∨ Padded s ∧ Accepted s n := by
  constructor
  · intro h
    rcases h.decimal with ⟨_ | zeros, hdecimal⟩
    · exact .inl ⟨String.toList_injective hdecimal, h.lt⟩
    · exact .inr ⟨⟨h.length_le, zeros, n, hdecimal, h.lt⟩, h⟩
  · rintro (h | ⟨_, h⟩)
    · exact h.accepted
    · exact h

theorem Padded.accepted {s : String} (h : Padded s) : ∃ n, Accepted s n ∧ ¬ Canonical s n := by
  rcases h with ⟨hlength, zeros, n, hdecimal, hlt⟩
  refine ⟨n, ⟨⟨zeros + 1, hdecimal⟩, hlength, hlt⟩, ?_⟩
  rintro ⟨rfl, _⟩
  have hlengths := congrArg List.length hdecimal
  rw [List.length_append, List.length_replicate] at hlengths
  omega

/-- **Hash keys.**  The two parsers read exactly the canonical decimals, and a key has one
    spelling on the wire, except on decimals with leading zeros. -/
theorem reads_canonically_iff (u : DigitClasses) (s : String) :
    ReadsCanonically u s ↔ ¬ Padded s := by
  constructor
  · intro h hpadded
    rcases hpadded.accepted with ⟨n, haccepted, hnot⟩
    exact hnot ((h.explicit n).mp ((parseExplicitHashKey_eq_ok_iff u s n).mpr haccepted))
  · intro h
    have hcanonical : ∀ n, Accepted s n ↔ Canonical s n := by
      intro n
      rw [accepted_iff, or_iff_left fun hpadded => h hpadded.1]
    refine ⟨?_, ?_, parseHashKey_eq_toOption u s, ?_⟩
    · intro n
      rw [parseExplicitHashKey_eq_ok_iff, hcanonical]
    · intro n
      rw [parseHashKey_eq_some_iff, hcanonical]
    · intro single batch it hsingle hhead hkey hparse
      rw [parseExplicitHashKey_eq_ok_iff, hcanonical] at hparse
      simp only [AggregatedBatch.routingExplicitHashKey, hsingle, hhead]
      split <;> simp [hkey, hparse.1]

/-- A key of two zeros is read as 0. -/
theorem double_zero_read :
    Hashing.parseExplicitHashKey .asciiOnly "00" = .ok 0 ∧ parseHashKey .asciiOnly "00" = some 0 ∧
      ¬ ReadsCanonically .asciiOnly "00" := by
  refine ⟨by decide +kernel, by decide +kernel, fun h => ?_⟩
  have hzero := (h.explicit 0).mp (by decide +kernel)
  exact absurd hzero.1 (by decide +kernel)

/-! ## Shard ids -/

/-- What the two shard-id parsers promise about a string: the Retrier reads an id exactly
    where the shard map does, and never raises. -/
structure ParsersAgree (u : DigitClasses) (s : String) : Prop where
  read : ∀ n, Retrier.parseActualShardId u (some s) = .ok (some n) ↔ parseShardId u s = some n
  refused : Retrier.parseActualShardId u (some s) = .ok none ↔ parseShardId u s = none
  total : ∀ e, Retrier.parseActualShardId u (some s) ≠ .error e

/-- An id the pattern accepts before a final newline. -/
def NewlineEnded (u : DigitClasses) (s : String) : Prop :=
  ∃ digits, s.toList = "shardId-".toList ++ digits ++ ['\n'] ∧ digits ≠ [] ∧
    digits.length ≤ Hashing.maxStrDigits ∧ ∀ c ∈ digits, u.decimal c ≠ none

/-- An id whose digits satisfy `isdigit`, but are too many for `int`, or not all decimal. -/
def Unreadable (u : DigitClasses) (s : String) : Prop :=
  ∃ digits, s.toList = "shardId-".toList ++ digits ∧ digits ≠ [] ∧
    (∀ c ∈ digits, u.isDigit c = true) ∧
    (Hashing.maxStrDigits < digits.length ∨ ∃ c ∈ digits, u.decimal c = none)

theorem parseShardId_suffix (u : DigitClasses) {s : String} {suffix : List Char}
    (hs : s.toList = "shardId-".toList ++ suffix) :
    parseShardId u s =
      let digits := if suffix.getLast? = some '\n' then suffix.dropLast else suffix
      if digits ≠ [] ∧ digits.all fun c => (u.decimal c).isSome then Hashing.parseInt u digits
      else none := by
  rcases Retrier.shardId_split hs with ⟨hstarts, hdrop⟩
  simp only [parseShardId, hstarts, hdrop, true_and]

theorem DigitClasses.newline_not_digit (u : DigitClasses) : u.isDigit '\n' = false :=
  (u.ascii '\n' (by decide)).1

/-- `int` reads a decimal suffix, and refuses one with a character that is not decimal. -/
theorem parseInt_of_all (u : DigitClasses) (digits : List Char) :
    (if digits ≠ [] ∧ digits.all fun c => (u.decimal c).isSome then Hashing.parseInt u digits
      else none) = if digits = [] then none else Hashing.parseInt u digits := by
  by_cases hnil : digits = []
  · simp [hnil]
  · by_cases hall : digits.all fun c => (u.decimal c).isSome
    · simp [hnil, hall]
    · have hnone : Hashing.parseInt u digits = none := by
        by_contra hsome
        rw [← ne_eq, Hashing.parseInt_ne_none_iff] at hsome
        apply hall
        rw [List.all_eq_true]
        intro c hc
        rw [Option.isSome_iff_ne_none]
        exact hsome.2 c hc
      rw [if_neg fun h => hall h.2, if_neg hnil, hnone]

theorem decimals_are_digits (u : DigitClasses) {digits : List Char} {n : Nat}
    (h : Hashing.parseInt u digits = some n) : digits.all u.isDigit = true := by
  have hsome : Hashing.parseInt u digits ≠ none := by simp [h]
  rw [List.all_eq_true]
  intro c hc
  have hdecimal := ((Hashing.parseInt_ne_none_iff u digits).mp hsome).2 c hc
  rcases Option.ne_none_iff_exists'.mp hdecimal with ⟨d, hd⟩
  exact u.isDigit_of_decimal c d hd

theorem parsersAgree_iff_eq (u : DigitClasses) (s : String) :
    ParsersAgree u s ↔ Retrier.parseActualShardId u (some s) = .ok (parseShardId u s) := by
  constructor
  · intro h
    cases hshard : parseShardId u s with
    | none => exact h.refused.mpr hshard
    | some n => exact (h.read n).mpr hshard
  · intro h
    refine ⟨fun n => ?_, ?_, fun e => ?_⟩
    · rw [h, Except.ok.injEq]
    · rw [h, Except.ok.injEq]
    · rw [h]
      exact nofun

theorem suffix_eq {s : String} {suffix digits : List Char}
    (hs : s.toList = "shardId-".toList ++ suffix)
    (h : s.toList = "shardId-".toList ++ digits) : suffix = digits :=
  List.append_cancel_left (hs.symm.trans h)

/-- Before a final newline the map reads what the Retrier does not. -/
theorem parsersAgree_newline (u : DigitClasses) {s : String} {digits : List Char}
    (hs : s.toList = "shardId-".toList ++ (digits ++ ['\n'])) :
    ParsersAgree u s ↔ ¬ (NewlineEnded u s ∨ Unreadable u s) := by
  have hnewline : ¬ (digits ++ ['\n']).all u.isDigit := by
    simp [u.newline_not_digit]
  have hretrier : Retrier.parseActualShardId u (some s) = .ok none := by
    rw [Retrier.parseActualShardId_suffix u hs, if_pos (.inr hnewline)]
  have hshard : parseShardId u s = if digits = [] then none else Hashing.parseInt u digits := by
    rw [parseShardId_suffix u hs, List.getLast?_concat, if_pos rfl, List.dropLast_concat]
    exact parseInt_of_all u digits
  have hended : NewlineEnded u s ↔ parseShardId u s ≠ none := by
    rw [hshard]
    constructor
    · rintro ⟨digits', hs', hne, hlength, hdecimal⟩
      rw [List.append_assoc] at hs'
      obtain rfl := List.append_cancel_right (suffix_eq hs hs')
      rw [if_neg hne, Hashing.parseInt_ne_none_iff]
      exact ⟨hlength, hdecimal⟩
    · intro hsome
      have hne : digits ≠ [] := fun hnil => hsome (if_pos hnil)
      rw [if_neg hne, Hashing.parseInt_ne_none_iff] at hsome
      exact ⟨digits, by rw [hs, List.append_assoc], hne, hsome.1, hsome.2⟩
  have hreadable : ¬ Unreadable u s := by
    rintro ⟨digits', hs', _, hdigits, _⟩
    obtain rfl := suffix_eq hs hs'
    exact hnewline (List.all_eq_true.mpr hdigits)
  rw [parsersAgree_iff_eq, hretrier, or_iff_left hreadable, hended, ne_eq, not_not,
    Except.ok.injEq, eq_comm]

/-- Without one they differ where `int` raises. -/
theorem parsersAgree_suffix (u : DigitClasses) {s : String} {suffix : List Char}
    (hs : s.toList = "shardId-".toList ++ suffix) (hlast : suffix.getLast? ≠ some '\n') :
    ParsersAgree u s ↔ ¬ (NewlineEnded u s ∨ Unreadable u s) := by
  have hshard : parseShardId u s = if suffix = [] then none else Hashing.parseInt u suffix := by
    rw [parseShardId_suffix u hs, if_neg hlast]
    exact parseInt_of_all u suffix
  have hended : ¬ NewlineEnded u s := by
    rintro ⟨digits, hs', _⟩
    rw [List.append_assoc] at hs'
    rw [suffix_eq hs hs'] at hlast
    exact hlast List.getLast?_concat
  have hunreadable : Unreadable u s ↔
      suffix ≠ [] ∧ suffix.all u.isDigit = true ∧ Hashing.parseInt u suffix = none := by
    have hrefused : Hashing.parseInt u suffix = none ↔
        Hashing.maxStrDigits < suffix.length ∨ ∃ c ∈ suffix, u.decimal c = none := by
      rw [← not_iff_not, ← ne_eq, Hashing.parseInt_ne_none_iff]
      push Not
      rfl
    rw [hrefused, List.all_eq_true]
    constructor
    · rintro ⟨digits, hs', hrest⟩
      obtain rfl := suffix_eq hs hs'
      exact hrest
    · intro hrest
      exact ⟨suffix, hs, hrest⟩
  rw [parsersAgree_iff_eq, Retrier.parseActualShardId_suffix u hs, hshard, or_iff_right hended,
    hunreadable]
  by_cases hnil : suffix = []
  · simp [hnil]
  · cases hint : Hashing.parseInt u suffix with
    | some n => simp [hnil, decimals_are_digits u hint]
    | none => by_cases hall : suffix.all u.isDigit = true <;> simp [hnil, hall]

/-- **Shard ids.**  The Retrier reads an id exactly where the shard map does, and never
    raises, except on ids the map reads before a final newline and on digits `int` refuses. -/
theorem shard_id_parsers_agree_iff (u : DigitClasses) (s : String) :
    ParsersAgree u s ↔ ¬ (NewlineEnded u s ∨ Unreadable u s) := by
  by_cases hstarts : "shardId-".toList.isPrefixOf s.toList = true
  · rcases List.isPrefixOf_iff_prefix.mp hstarts with ⟨suffix, hs⟩
    by_cases hlast : suffix.getLast? = some '\n'
    · rcases List.getLast?_eq_some_iff.mp hlast with ⟨digits, rfl⟩
      exact parsersAgree_newline u hs.symm
    · exact parsersAgree_suffix u hs.symm hlast
  · have hretrier : Retrier.parseActualShardId u (some s) = .ok none := by
      exact if_pos (.inr hstarts)
    have hshard : parseShardId u s = none := if_neg fun h => hstarts h.1
    have hno : ∀ suffix, s.toList ≠ "shardId-".toList ++ suffix := by
      intro suffix hs
      rw [List.isPrefixOf_iff_prefix] at hstarts
      exact hstarts ⟨suffix, hs.symm⟩
    rw [parsersAgree_iff_eq, hretrier, hshard, eq_self, true_iff]
    rintro (⟨digits, hs, _⟩ | ⟨digits, hs, _⟩)
    · rw [List.append_assoc] at hs
      exact hno _ hs
    · exact hno _ hs

/-- ASCII and a superscript: `isdigit` holds of it, `int` refuses it. -/
def withSuperscriptTwo : DigitClasses where
  isDigit c := c.isDigit || c == '²'
  decimal c := if c.isDigit then some (c.toNat - 48) else none
  ascii c hc := by
    have hne : c ≠ '²' := by
      rintro rfl
      exact absurd hc (by decide)
    simp [hne]
  decimal_lt := DigitClasses.asciiOnly.decimal_lt
  isDigit_of_decimal c n h := by
    have hdigit : c.isDigit = true := DigitClasses.asciiOnly.isDigit_of_decimal c n h
    rw [hdigit, Bool.true_or]

/-- The map reads an id with a final newline, and the Retrier does not; on a superscript
    digit the map refuses, and the Retrier raises. -/
theorem newline_and_superscript_differ :
    (parseShardId .asciiOnly "shardId-1\n" = some 1 ∧
      Retrier.parseActualShardId .asciiOnly (some "shardId-1\n") = .ok none ∧
      ¬ ParsersAgree .asciiOnly "shardId-1\n") ∧
    (parseShardId withSuperscriptTwo "shardId-²" = none ∧
      Retrier.parseActualShardId withSuperscriptTwo (some "shardId-²") = .error .refusedByInt ∧
      ¬ ParsersAgree withSuperscriptTwo "shardId-²") := by
  have hnewline : parseShardId .asciiOnly "shardId-1\n" = some 1 := by decide +kernel
  have hmissed : Retrier.parseActualShardId .asciiOnly (some "shardId-1\n") = .ok none := by
    decide +kernel
  have hrefused : parseShardId withSuperscriptTwo "shardId-²" = none := by decide +kernel
  have hraised : Retrier.parseActualShardId withSuperscriptTwo (some "shardId-²") =
      .error .refusedByInt := by
    decide +kernel
  refine ⟨⟨hnewline, hmissed, fun h => ?_⟩, ⟨hrefused, hraised, fun h => ?_⟩⟩
  · rw [h.refused, hnewline] at hmissed
    cases hmissed
  · exact h.total _ hraised


end Aiokpl
