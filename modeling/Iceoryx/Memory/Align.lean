import Mathlib.Data.Nat.Bitwise
import Mathlib.Algebra.Group.Nat.Defs

/-!
# `uint64_t` address arithmetic: wrapping, `isPowerOfTwo` and `align`

The memory layer computes addresses and sizes in `uint64_t` (`uintptr_t` on the platforms
`iceoryx` targets). Such a value is a natural number below `2 ^ 64`, and an addition or a
subtraction of the source is the one of `ℕ` taken modulo `2 ^ 64` (`wrap`).

`iox::align(value, alignment)` (`memory.hpp`) rounds up with the bit trick
`(value + (alignment - 1)) & (~alignment + 1)`, and `iox::isPowerOfTwo(n)` (`algorithm.hpp`) is
`n > 0 && (n & (n - 1)) == 0`. Both are translated as the source writes them, and the two bridge
lemmas `isPowerOfTwo_iff` and `align_eq` give their arithmetic meaning: a power of two, and the
least multiple of the alignment at or above the value, as long as the rounding does not leave
`uint64_t` (the note of `align`: `value + alignment - 1` must not exceed the maximum). Every other fact (`le_align`, `align_lt`, `dvd_align`, `align_of_dvd`,
`align_add_of_dvd`, `align_sub_le`) is read off the closed form and is what the layout proofs of the chunk header
use.
-/

namespace Iox

/-- `uintptr_t` and `uint64_t` arithmetic, modulo `2 ^ 64`. -/
def wrap (n : ℕ) : ℕ := n % 2 ^ 64

theorem wrap_of_lt {n : ℕ} (h : n < 2 ^ 64) : wrap n = n := Nat.mod_eq_of_lt h

/-- Subtracting in `uintptr_t` a base at or below the pointer does not wrap. -/
theorem wrap_add_sub {a b : ℕ} (h : b ≤ a) (ha : a < 2 ^ 64) : wrap (a + (2 ^ 64 - b)) = a - b := by
  unfold wrap
  rw [show a + (2 ^ 64 - b) = a - b + 2 ^ 64 by omega, Nat.add_mod_right, Nat.mod_eq_of_lt (by omega)]

/-! ### `isPowerOfTwo` -/

/-- `iox::isPowerOfTwo(n)`. -/
def isPowerOfTwo (n : ℕ) : Bool := n > 0 && n &&& (n - 1) == 0

theorem isPowerOfTwo_iff {n : ℕ} : isPowerOfTwo n = true ↔ n.isPowerOfTwo := by
  rw [← Nat.ne_zero_and_sub_one_eq_zero_iff_isPowerOfTwo]
  simp [isPowerOfTwo, Nat.pos_iff_ne_zero]

/-- Of two powers of two, the smaller divides the larger. -/
theorem dvd_of_isPowerOfTwo_of_le {a b : ℕ} (ha : a.isPowerOfTwo) (hb : b.isPowerOfTwo)
    (hab : a ≤ b) : a ∣ b := by
  obtain ⟨i, rfl⟩ := ha
  obtain ⟨j, rfl⟩ := hb
  exact Nat.pow_dvd_pow 2 ((Nat.pow_le_pow_iff_right (by omega)).1 hab)

/-! ### `align` -/

/-- `iox::align(value, alignment)` on `uint64_t`: `(value + (alignment - 1)) & (~alignment + 1)`,
where `~alignment + 1` is `2 ^ 64 - alignment`. -/
def align (value alignment : ℕ) : ℕ :=
  wrap (value + wrap (alignment + (2 ^ 64 - 1))) &&& wrap (2 ^ 64 - 1 - alignment + 1)

/-- Masking with `2 ^ n - 2 ^ k` clears the low `k` bits of a value below `2 ^ n`. -/
theorem and_two_pow_sub_two_pow {x n k : ℕ} (hx : x < 2 ^ n) (hk : k ≤ n) :
    x &&& (2 ^ n - 2 ^ k) = x / 2 ^ k * 2 ^ k := by
  have hmask : 2 ^ n - 2 ^ k = (2 ^ (n - k) - 1) * 2 ^ k := by
    rw [Nat.sub_one_mul, ← Nat.pow_add, Nat.sub_add_cancel hk]
  apply Nat.eq_of_testBit_eq
  intro j
  rw [hmask, Nat.testBit_and, Nat.testBit_mul_two_pow, Nat.testBit_mul_two_pow,
    Nat.testBit_two_pow_sub_one, Nat.testBit_div_two_pow]
  -- the bits below `k` are cleared on both sides; above `n` the value has none
  by_cases hkj : k ≤ j
  · rw [Nat.sub_add_cancel hkj]
    by_cases hjn : j < n
    · simp [hkj, show j - k < n - k by omega]
    · have : x.testBit j = false :=
        Nat.testBit_lt_two_pow (lt_of_lt_of_le hx (Nat.pow_le_pow_right (by omega) (by omega)))
      simp [this]
  · simp [hkj]

section PowerOfTwo

variable {value alignment : ℕ}

/-- **`align` rounds up to the next multiple** of a power-of-two alignment, as long as the
rounding stays in `uint64_t`. -/
theorem align_eq (hpow : alignment.isPowerOfTwo) (halign : alignment < 2 ^ 64)
    (hfit : value + alignment ≤ 2 ^ 64) :
    align value alignment = (value + (alignment - 1)) / alignment * alignment := by
  have hpos : 0 < alignment := Nat.pos_of_isPowerOfTwo hpow
  -- `alignment - 1` and `~alignment + 1` computed in `uint64_t`
  have hsub : wrap (alignment + (2 ^ 64 - 1)) = alignment - 1 := by
    unfold wrap
    rw [show alignment + (2 ^ 64 - 1) = alignment - 1 + 2 ^ 64 by omega, Nat.add_mod_right]
    exact Nat.mod_eq_of_lt (by omega)
  have hneg : wrap (2 ^ 64 - 1 - alignment + 1) = 2 ^ 64 - alignment := by
    rw [wrap_of_lt (n := 2 ^ 64 - 1 - alignment + 1) (by omega)]
    omega
  rw [align, hsub, wrap_of_lt (n := value + (alignment - 1)) (by omega), hneg]
  obtain ⟨k, rfl⟩ := hpow
  have hk64 : k ≤ 64 := (Nat.pow_le_pow_iff_right (by omega)).1 halign.le
  exact and_two_pow_sub_two_pow (by omega) hk64

variable (hpow : alignment.isPowerOfTwo) (halign : alignment < 2 ^ 64)
  (hfit : value + alignment ≤ 2 ^ 64)
include hpow halign hfit

theorem le_align : value ≤ align value alignment := by
  have hpos : 0 < alignment := Nat.pos_of_isPowerOfTwo hpow
  rw [align_eq hpow halign hfit]
  have := Nat.lt_div_mul_add (a := value + (alignment - 1)) hpos
  omega

theorem align_lt : align value alignment < value + alignment := by
  have hpos : 0 < alignment := Nat.pos_of_isPowerOfTwo hpow
  rw [align_eq hpow halign hfit]
  have := Nat.div_mul_le_self (value + (alignment - 1)) alignment
  omega

theorem dvd_align : alignment ∣ align value alignment := by
  rw [align_eq hpow halign hfit]
  exact Nat.dvd_mul_left _ _

theorem align_of_dvd (h : alignment ∣ value) : align value alignment = value := by
  have hpos : 0 < alignment := Nat.pos_of_isPowerOfTwo hpow
  obtain ⟨m, rfl⟩ := h
  rw [align_eq hpow halign hfit, Nat.mul_comm alignment m, Nat.add_comm, Nat.add_mul_div_right _ _ hpos,
    Nat.div_eq_of_lt (by omega), Nat.zero_add]

/-- Aligning past a base that is itself aligned is aligning the distance from it. -/
theorem align_add_of_dvd {base : ℕ} (hbase : alignment ∣ base) (hfit' : base + value + alignment ≤ 2 ^ 64) :
    align (base + value) alignment = base + align value alignment := by
  have hpos : 0 < alignment := Nat.pos_of_isPowerOfTwo hpow
  obtain ⟨m, rfl⟩ := hbase
  rw [align_eq hpow halign hfit', align_eq hpow halign hfit,
    show alignment * m + value + (alignment - 1) = value + (alignment - 1) + alignment * m by omega,
    Nat.add_mul_div_left _ _ hpos, Nat.add_mul, Nat.mul_comm m alignment, Nat.add_comm]

/-- **The padding `align` adds is at most `alignment - granule`** when the value and the
alignment are both multiples of the granule. -/
theorem align_sub_le {granule : ℕ} (hv : granule ∣ value) (ha : granule ∣ alignment) :
    align value alignment - value ≤ alignment - granule := by
  have hle := le_align hpow halign hfit
  have hlt := align_lt hpow halign hfit
  -- the padding is a multiple of the granule below the alignment, itself a multiple of it
  obtain ⟨t, ht⟩ : granule ∣ align value alignment - value :=
    Nat.dvd_sub ((ha.trans (dvd_align hpow halign hfit))) hv
  obtain ⟨u, rfl⟩ := ha
  have htu : t < u := by
    by_contra h
    have : granule * u ≤ granule * t := Nat.mul_le_mul_left _ (by omega)
    omega
  rw [ht]
  have : granule * (t + 1) ≤ granule * u := Nat.mul_le_mul_left _ htu
  rw [Nat.mul_add, Nat.mul_one] at this
  omega

end PowerOfTwo

section Monotone

variable {alignment : ℕ} (hpow : alignment.isPowerOfTwo) (halign : alignment < 2 ^ 64)
include hpow halign

/-- `align` is monotone in the value, as long as the larger rounding stays in `uint64_t`. -/
theorem align_mono {value value' : ℕ} (hfit' : value' + alignment ≤ 2 ^ 64) (h : value ≤ value') :
    align value alignment ≤ align value' alignment := by
  rw [align_eq hpow halign (by omega), align_eq hpow halign hfit']
  exact Nat.mul_le_mul_right _ (Nat.div_le_div_right (by omega))

/-- A positive value rounds up to at least one alignment. -/
theorem alignment_le_align {value : ℕ} (hfit : value + alignment ≤ 2 ^ 64) (hvalue : 0 < value) :
    alignment ≤ align value alignment :=
  Nat.le_of_dvd (Nat.lt_of_lt_of_le hvalue (le_align hpow halign hfit)) (dvd_align hpow halign hfit)

end Monotone

end Iox
