import Mathlib.Order.Basic
import Mathlib.Algebra.Group.Nat.Defs

/-!
# Two-digit numbers and saturating sums

A value stored as a high digit `s` and a low digit `r < B` stands for `s * B + r`: a time as
seconds and nanoseconds, an address as a page and an offset. This module collects what an
implementation that computes digit by digit needs to be compared with the value it stands for.

* The digits are read back by division (`value_div`, `value_mod`), so the value determines them
  (`value_inj`), and comparing values is comparing the digits lexicographically (`value_lt_iff`).
* Changing the unit of a number in base `u` to `k` (`div_mul_add_mod_mul`), and dividing by a
  divisor `k` of the base, which rounds the low digit only (`value_div_of_dvd`).
* A sum clamped at a bound `M` may be clamped after each step (`min_add_min`).

Nothing here knows what the digits measure.
-/

namespace MixedRadix

variable {B s s' r r' : ℕ}

/-! ### Reading the digits back -/

theorem value_div (hr : r < B) : (s * B + r) / B = s := by
  rw [Nat.add_comm, Nat.add_mul_div_right _ _ (Nat.zero_lt_of_lt hr), Nat.div_eq_of_lt hr,
    Nat.zero_add]

theorem value_mod (hr : r < B) : (s * B + r) % B = r := by
  rw [Nat.add_comm, Nat.add_mul_mod_self_right, Nat.mod_eq_of_lt hr]

/-- The value determines its digits. -/
theorem value_inj (hr : r < B) (hr' : r' < B) : s * B + r = s' * B + r' ↔ s = s' ∧ r = r' := by
  constructor
  · intro h
    exact ⟨by rw [← value_div (s := s) hr, h, value_div hr'],
      by rw [← value_mod (s := s) hr, h, value_mod hr']⟩
  · rintro ⟨rfl, rfl⟩
    rfl

/-- A value with a smaller high digit is smaller, whatever the low digits. -/
theorem value_lt_of_lt (hr : r < B) (hs : s < s') : s * B + r < s' * B + r' :=
  calc s * B + r < s * B + B := Nat.add_lt_add_left hr _
    _ = (s + 1) * B := (Nat.succ_mul s B).symm
    _ ≤ s' * B := Nat.mul_le_mul_right B hs
    _ ≤ s' * B + r' := Nat.le_add_right _ _

/-- **Values compare as their digits do, high digit first.** -/
theorem value_lt_iff (hr : r < B) (hr' : r' < B) :
    s * B + r < s' * B + r' ↔ s < s' ∨ s = s' ∧ r < r' := by
  constructor
  · intro h
    rcases Nat.lt_trichotomy s s' with hs | rfl | hs
    · exact Or.inl hs
    · exact Or.inr ⟨rfl, by omega⟩
    · exact absurd h (Nat.lt_asymm (value_lt_of_lt hr' hs))
  · rintro (hs | ⟨rfl, hlt⟩)
    · exact value_lt_of_lt hr hs
    · omega

/-! ### Changing the unit -/

/-- Writing `n` in base `u` and scaling each unit to `k`: the high digit counts blocks of `u * k`. -/
theorem div_mul_add_mod_mul (n u k : ℕ) : n / u * (u * k) + n % u * k = n * k := by
  rw [← Nat.mul_assoc, ← Nat.add_mul, Nat.div_add_mod']

/-- Dividing by a divisor of the base only rounds the low digit. -/
theorem value_div_of_dvd (s r : ℕ) {u k : ℕ} (hk : 0 < k) :
    (s * (u * k) + r) / k = s * u + r / k := by
  rw [← Nat.mul_assoc, Nat.add_comm, Nat.add_mul_div_right _ _ hk, Nat.add_comm]

/-! ### Saturating sums -/

/-- Clamping a partial sum at `M` before adding the last summand, and the total again, is clamping
the total: a chain of saturating additions is the saturated sum. -/
theorem min_add_min (x y z M : ℕ) : min (min (x + y) M + z) M = min (x + (y + z)) M := by
  omega

end MixedRadix
