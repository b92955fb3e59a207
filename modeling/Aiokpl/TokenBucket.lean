import Mathlib.Tactic
import Mathlib.Algebra.Order.Ring.Rat
import Aiokpl.Reducer

/-!
# Token buckets (`aiokpl/token_bucket.py`)

Several refilling streams behind one atomic debit.  Amounts and rates are exact
rationals.  Every query of a stream reads the clock; the i-th reading of an
operation is an argument.
-/

namespace Aiokpl

namespace TokenBucket

/-- `_Stream`. -/
structure Stream where
  rate : ℚ
  maxTokens : ℚ
  tokens : ℚ
  last : Time
  deriving DecidableEq, Repr

end TokenBucket

/-- `TokenBucket`. -/
structure TokenBucket where
  streams : List TokenBucket.Stream
  deriving DecidableEq, Repr

namespace TokenBucket

/-- `__init__`, from pairs of rate and capacity. -/
def init (now : Time) (initialFull : Bool) (streams : List (ℚ × ℚ)) : TokenBucket :=
  { streams := streams.map fun s =>
      { rate := s.1, maxTokens := s.2, tokens := if initialFull then s.2 else 0, last := now } }

/-- `_grow`. -/
def grow (now : Time) (s : Stream) : Stream :=
  let growth := s.rate * (now - s.last)
  if growth > 0 then { s with tokens := min s.maxTokens (s.tokens + growth), last := now } else s

/-- `available`: the tokens of a stream; `none` where there is no such stream. -/
def available (now : Time) (idx : Nat) (b : TokenBucket) : Option (ℚ × TokenBucket) :=
  b.streams[idx]?.map fun s =>
    ((grow now s).tokens, { streams := b.streams.set idx (grow now s) })

/-- The first loop of `try_take`: grow the streams up to the first that is short. -/
def growWhileEnough : (clock : Nat → Time) → List Stream → List ℚ → Bool × List Stream
  | clock, s :: streams, a :: amounts =>
    let s := grow (clock 0) s
    if a > s.tokens then (false, s :: streams)
    else
      let (enough, streams) := growWhileEnough (fun i => clock (i + 1)) streams amounts
      (enough, s :: streams)
  | _, streams, _ => (true, streams)

/-- The second loop of `try_take`. -/
def debit (streams : List Stream) (amounts : List ℚ) : List Stream :=
  List.zipWith (fun s a => { s with tokens := s.tokens - a }) streams amounts

/-- `try_take`; `none` where it raises `ValueError`. -/
def tryTake (clock : Nat → Time) (amounts : List ℚ) (b : TokenBucket) :
    Option (Bool × TokenBucket) :=
  if amounts.length ≠ b.streams.length ∨ ∃ a ∈ amounts, a < 0 then none
  else
    let (enough, streams) := growWhileEnough clock b.streams amounts
    if enough then some (true, { streams := debit streams amounts })
    else some (false, { streams })

/-! ## Growing twice at one time -/

/-- A stream that has grown at `now` does not grow again there, whatever is taken from it. -/
theorem grow_debited (now : Time) (s : Stream) (tokens : ℚ) :
    grow now { grow now s with tokens } = { grow now s with tokens } := by
  by_cases hgrows : s.rate * (now - s.last) > 0
  · simp [grow, hgrows]
  · simp [grow, hgrows]

theorem grow_grow (now : Time) (s : Stream) : grow now (grow now s) = grow now s :=
  grow_debited now s (grow now s).tokens

/-! ## A bucket of two streams -/

/-- **A query of one record and `size` bytes.**  The first stream may be short, and then
    the second is not even grown; the second may be short; or both are debited. -/
theorem tryTake_pair {b : TokenBucket} {s₀ s₁ : Stream} (hstreams : b.streams = [s₀, s₁])
    (read : Nat → Time) {size : ℚ} (hsize : 0 ≤ size) :
    ((grow (read 0) s₀).tokens < 1 ∧
        b.tryTake read [1, size] = some (false, { streams := [grow (read 0) s₀, s₁] })) ∨
      (1 ≤ (grow (read 0) s₀).tokens ∧ (grow (read 1) s₁).tokens < size ∧
        b.tryTake read [1, size] =
          some (false, { streams := [grow (read 0) s₀, grow (read 1) s₁] })) ∨
      (1 ≤ (grow (read 0) s₀).tokens ∧ size ≤ (grow (read 1) s₁).tokens ∧
        b.tryTake read [1, size] =
          some (true, { streams := debit [grow (read 0) s₀, grow (read 1) s₁] [1, size] })) := by
  have hwell : ¬ ([1, size].length ≠ b.streams.length ∨ ∃ a ∈ [1, size], a < 0) := by
    simp [hstreams, hsize]
  rw [tryTake, if_neg hwell]
  by_cases h₀ : (grow (read 0) s₀).tokens < 1
  · exact .inl ⟨h₀, by simp [hstreams, growWhileEnough, h₀]⟩
  · by_cases h₁ : (grow (read 1) s₁).tokens < size
    · exact .inr (.inl ⟨not_lt.mp h₀, h₁, by simp [hstreams, growWhileEnough, h₀, h₁]⟩)
    · exact .inr (.inr ⟨not_lt.mp h₀, not_lt.mp h₁, by simp [hstreams, growWhileEnough, h₀, h₁]⟩)

end TokenBucket

end Aiokpl
