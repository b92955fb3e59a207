import Mathlib.Tactic
import Aiokpl.Aggregation

/-!
# Hash keys (`aiokpl/hashing.py`)

A record's 128-bit hash key is the MD5 of its partition key read big-endian, or
the explicit hash key the user gave as a canonical decimal.  Python's `int` and
`str.isdigit` are modelled as far as the library uses them: the digit classes of
non-ASCII characters are a parameter, and `int` refuses more than 4300 digits,
the interpreter's default limit.
-/

namespace Aiokpl

open Aggregation

/-- The interpreter's Unicode digit classes: the characters `str.isdigit` accepts,
    and the value of those that are decimal digits. -/
structure DigitClasses where
  isDigit : Char → Bool
  decimal : Char → Option Nat
  ascii : ∀ c : Char, c.toNat < 128 →
    isDigit c = c.isDigit ∧ decimal c = if c.isDigit then some (c.toNat - 48) else none
  decimal_lt : ∀ c n, decimal c = some n → n < 10
  isDigit_of_decimal : ∀ c n, decimal c = some n → isDigit c = true

/-- The digit classes of ASCII alone. -/
def DigitClasses.asciiOnly : DigitClasses where
  isDigit := Char.isDigit
  decimal c := if c.isDigit then some (c.toNat - 48) else none
  ascii _ _ := ⟨rfl, rfl⟩
  decimal_lt c n h := by
    split at h
    · rename_i hdigit
      have hle : c.toNat ≤ 57 := by
        simp only [Char.isDigit, Bool.and_eq_true, decide_eq_true_eq] at hdigit
        exact UInt32.le_iff_toNat_le.mp hdigit.2
      simp only [Option.some.injEq] at h
      omega
    · simp at h
  isDigit_of_decimal c n h := by
    split at h
    · assumption
    · simp at h

namespace Hashing

/-- `_UINT128_MAX`. -/
def uint128Max : Nat := 2 ^ 128 - 1

/-- `sys.int_info.default_max_str_digits`. -/
def maxStrDigits : Nat := 4300

/-- `int(s)` on a string of digit characters; `none` where it raises `ValueError`. -/
def parseInt (u : DigitClasses) (s : List Char) : Option Nat :=
  if s.length > maxStrDigits then none
  else s.foldlM (fun n c => (u.decimal c).map (10 * n + ·)) 0

/-- `md5_hash_key`. -/
def md5HashKey (md5 : Bytes → Digest) (partitionKey : String) : Nat :=
  (md5 (encodeUtf8 partitionKey)).val.foldl (fun n b => 256 * n + b.toNat) 0

/-- What a hash-key parser raises: `not a canonical decimal uint128`, `explicit hash
    key out of uint128 range` (both quoting the string), or `int`'s own refusal. -/
inductive Error
  | notCanonical (s : String)
  | outOfRange (s : String)
  | refusedByInt
  deriving DecidableEq, Repr

/-- `parse_explicit_hash_key`. -/
def parseExplicitHashKey (u : DigitClasses) (s : String) : Except Error Nat :=
  if s = "" ∨ ¬ s.toList.all fun c => '0' ≤ c && c ≤ '9' then .error (.notCanonical s)
  else
    match parseInt u s.toList with
    | none => .error .refusedByInt
    | some value => if value > uint128Max then .error (.outOfRange s) else .ok value

theorem foldl_bytes_lt : ∀ (bs : Bytes) (n : Nat),
    bs.foldl (fun n b => 256 * n + b.toNat) n < (n + 1) * 256 ^ bs.length
  | [], n => by simp
  | b :: bs, n => by
    have ih := foldl_bytes_lt bs (256 * n + b.toNat)
    have hb : b.toNat < 256 := b.toNat_lt
    rw [List.foldl_cons, List.length_cons, pow_succ', ← mul_assoc]
    refine ih.trans_le (Nat.mul_le_mul_right _ ?_)
    omega

/-- An MD5 hash key is a uint128. -/
theorem md5HashKey_le (md5 : Bytes → Digest) (partitionKey : String) :
    md5HashKey md5 partitionKey ≤ uint128Max := by
  have h := foldl_bytes_lt (md5 (encodeUtf8 partitionKey)).val 0
  rw [(md5 (encodeUtf8 partitionKey)).property] at h
  have hpow : (256 : Nat) ^ 16 = 2 ^ 128 := by norm_num
  rw [zero_add, one_mul, hpow] at h
  exact Nat.le_sub_one_of_lt h

/-- An accepted explicit hash key is a uint128. -/
theorem parseExplicitHashKey_le {u : DigitClasses} {s : String} {value : Nat}
    (h : parseExplicitHashKey u s = .ok value) : value ≤ uint128Max := by
  unfold parseExplicitHashKey at h
  split at h
  · simp at h
  · split at h
    · simp at h
    · split at h
      · simp at h
      · simp only [Except.ok.injEq] at h
        omega

/-! ## Decimals -/

/-- `int` takes every string of at most 4300 decimal digits, of any script. -/
theorem parseInt_ne_none_iff (u : DigitClasses) (cs : List Char) :
    parseInt u cs ≠ none ↔ cs.length ≤ maxStrDigits ∧ ∀ c ∈ cs, u.decimal c ≠ none := by
  have hfold : ∀ (n : Nat), cs.foldlM (fun n c => (u.decimal c).map (10 * n + ·)) n ≠ none ↔
      ∀ c ∈ cs, u.decimal c ≠ none := by
    induction cs with
    | nil => simp
    | cons c cs ih =>
      intro n
      rw [List.foldlM_cons, List.forall_mem_cons]
      cases hdecimal : u.decimal c with
      | none => simp
      | some d =>
        rw [Option.map_some, Option.bind_eq_bind, Option.bind_some, ih]
        simp
  by_cases hlong : cs.length > maxStrDigits
  · rw [parseInt, if_pos hlong]
    simp [Nat.not_le_of_gt hlong]
  · rw [parseInt, if_neg hlong, hfold, and_iff_right (Nat.le_of_not_gt hlong)]

theorem foldlM_decimal {u : DigitClasses} {cs : List Char} {n value : Nat}
    (hdigits : ∀ c ∈ cs, '0' ≤ c ∧ c ≤ '9')
    (h : cs.foldlM (fun n c => (u.decimal c).map (10 * n + ·)) n = some value) :
    value = Nat.ofDigitChars 10 cs n := by
  induction cs generalizing n with
  | nil =>
    rw [Nat.ofDigitChars_nil]
    exact (Option.some.inj h).symm
  | cons c cs ih =>
    have hc := hdigits c List.mem_cons_self
    have hlow : 48 ≤ c.toNat := hc.1
    have hhigh : c.toNat ≤ 57 := hc.2
    have hdigit : c.isDigit = true := by
      rw [Char.isDigit, Bool.and_eq_true, decide_eq_true_eq, decide_eq_true_eq]
      exact hc
    have hdecimal : u.decimal c = some (c.toNat - 48) := by
      rw [(u.ascii c (by omega)).2, if_pos hdigit]
    rw [List.foldlM_cons, hdecimal] at h
    rw [Nat.ofDigitChars_cons]
    exact ih (fun c' hc' => hdigits c' (List.mem_cons_of_mem _ hc')) h

/-- An accepted explicit hash key is the decimal of its value. -/
theorem parseExplicitHashKey_decimal {u : DigitClasses} {s : String} {value : Nat}
    (h : parseExplicitHashKey u s = .ok value) : value = Nat.ofDigitChars 10 s.toList 0 := by
  unfold parseExplicitHashKey at h
  split at h
  · cases h
  · rename_i hcanonical
    rw [not_or, not_not, List.all_eq_true] at hcanonical
    split at h
    · cases h
    · rename_i value' hparse
      split at h
      · cases h
      · obtain rfl := Except.ok.inj h
        rw [parseInt, Option.ite_none_left_eq_some] at hparse
        apply foldlM_decimal _ hparse.2
        intro c hc
        simpa using hcanonical.2 c hc

/-- Python's `str` of a number, read back. -/
theorem ofDigitChars_toString (n : Nat) : Nat.ofDigitChars 10 (toString n).toList 0 = n := by
  rw [Nat.toString_eq_ofList_toDigits, String.toList_ofList]
  exact Nat.ofDigitChars_ten_toDigits

end Hashing

end Aiokpl
