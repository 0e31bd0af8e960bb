/-
  Foundation/Random.lean --- seeded random streams.

  A stream is a state that every draw advances.  How the state moves and which
  value comes out is left open; what is fixed is the documented range of each
  draw, carried as fields, so that no theorem about a program that draws has to
  assume it again.  Quantifying over a `RandomSource` and its states quantifies
  over every sequence of draws a program can make.
-/
import Mathlib.Algebra.Order.Field.Rat
import Mathlib.Data.List.Nodup
import Mathlib.Data.List.Range

set_option autoImplicit false

namespace SimLoop.Foundation

/-- A family of random streams with states in `ρ`, seeded by strings. -/
structure RandomSource (ρ : Type) where
  /-- `random.Random(text)`. -/
  seeded : String → ρ
  /-- `random.Random(n)` for an integer seed. -/
  seededInt : Int → ρ
  /-- `rng.random()`, a number in `[0, 1)`. -/
  random : ρ → ℚ × ρ
  /-- `rng.uniform(lo, hi)`. -/
  uniform : ρ → ℚ → ℚ → ℚ × ρ
  /-- `rng.randint(lo, hi)`, both ends included. -/
  randint : ρ → Nat → Nat → Nat × ρ
  /-- `rng.randrange(n)`. -/
  randrange : ρ → Nat → Nat × ρ
  /-- `rng.getrandbits(k)`. -/
  getrandbits : ρ → Nat → Nat × ρ
  /-- `rng.sample(range(n), k)`. -/
  sample : ρ → Nat → Nat → List Nat × ρ
  random_mem : ∀ r, 0 ≤ (random r).1 ∧ (random r).1 < 1
  uniform_mem : ∀ r lo hi, lo ≤ hi → lo ≤ (uniform r lo hi).1 ∧ (uniform r lo hi).1 ≤ hi
  randint_mem : ∀ r lo hi, lo ≤ hi → lo ≤ (randint r lo hi).1 ∧ (randint r lo hi).1 ≤ hi
  randrange_lt : ∀ r n, 0 < n → (randrange r n).1 < n
  getrandbits_lt : ∀ r k, (getrandbits r k).1 < 2 ^ k
  sample_length : ∀ r n k, k ≤ n → (sample r n k).1.length = k
  sample_nodup : ∀ r n k, k ≤ n → (sample r n k).1.Nodup
  sample_lt : ∀ r n k, k ≤ n → ∀ x ∈ (sample r n k).1, x < n

/-- The stream that always draws the least value its range allows. -/
def RandomSource.least : RandomSource Unit where
  seeded _ := ()
  seededInt _ := ()
  random r := (0, r)
  uniform r lo _ := (lo, r)
  randint r lo _ := (lo, r)
  randrange r _ := (0, r)
  getrandbits r _ := (0, r)
  sample r _ k := (List.range k, r)
  random_mem _ := ⟨le_refl 0, zero_lt_one⟩
  uniform_mem _ _ _ h := ⟨le_refl _, h⟩
  randint_mem _ _ _ h := ⟨le_refl _, h⟩
  randrange_lt _ _ h := h
  getrandbits_lt _ k := Nat.two_pow_pos k
  sample_length _ _ _ _ := List.length_range
  sample_nodup _ _ _ _ := List.nodup_range
  sample_lt _ _ _ h _ hx := Nat.lt_of_lt_of_le (List.mem_range.mp hx) h

end SimLoop.Foundation
