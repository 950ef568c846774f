import Mathlib.Algebra.Group.Nat.Defs
import Mathlib.Data.Nat.ModEq
import Mathlib.Data.Int.Init

/-!
# `CyclicIndex`: positions of the lock-free queues

`iox::concurrent::CyclicIndex<CycleLength, ValueType>` (`cyclic_index.inl`) is one unsigned
integer `m_value`, read as the **index** `m_value % CycleLength` in the **cycle**
`m_value / CycleLength`. The index queue stores such values both as its read and write positions
and in its cells, and decides emptiness and fullness by comparing cycles only.

## The model

`ValueType` is an unsigned type of `valueBits` bits, so `m_value` is a natural number below
`2 ^ valueBits`, kept as a field with its bound; every computation the source does in
`ValueType` goes through `ofValue`, which reduces modulo `2 ^ valueBits` as the type does. The
constants `MAX_VALUE`, `MAX_CYCLE`, `INDEX_AT_MAX_VALUE` and `OVERFLOW_START_INDEX` are defined
as the header defines them.

The source handles the overflow of `m_value` explicitly: `next()` of `MAX_VALUE` and
`operator+` past it restart at `OVERFLOW_START_INDEX`, chosen so that the **index** sequence
goes on without a jump, and `isOneCycleBehind` treats cycle `0` as the successor of `MAX_CYCLE`.

## Positions

Over a run the queue's positions only ever move by `+ 1`, so each position is determined by
how many steps it has taken. `pos C w p` is the value reached from `0` after `p` calls of `next()`
(`next_pos`): it counts up to `MAX_VALUE` and then laps between `OVERFLOW_START_INDEX` and
`MAX_VALUE`. Its index is always `p % CycleLength` (`getIndex_pos`), whatever the overflow.
Its cycle is `p / CycleLength` before the first overflow, and in general only when
`CycleLength` divides `2 ^ valueBits`: then each lap holds whole cycles, and the position `C`
steps back is exactly one cycle behind (`isOneCycleBehind_pos`). When `CycleLength` does not
divide `2 ^ valueBits` the last cycle before the overflow is cut short, the cycle jumps from
`MAX_CYCLE - 1` (for the cells of the cut part) to `0`, and `isOneCycleBehind` no longer
recognises the cell of the previous lap; the index queue module shows what that does.
-/

namespace Iox.Concurrent

/-- `CyclicIndex<CycleLength, ValueType>` for a `ValueType` of `valueBits` bits: the value
`m_value`, with the bound its type gives it. -/
@[ext]
structure CyclicIndex (cycleLength valueBits : ℕ) where
  /-- `m_value`. -/
  value : ℕ
  value_lt : value < 2 ^ valueBits
  deriving DecidableEq

namespace CyclicIndex

section Constants

variable (cycleLength valueBits : ℕ)

/-- `MAX_VALUE`, the largest value of `ValueType`. -/
def maxValue : ℕ := 2 ^ valueBits - 1

/-- `MAX_CYCLE = MAX_VALUE / CycleLength`. -/
def maxCycle : ℕ := maxValue valueBits / cycleLength

/-- `INDEX_AT_MAX_VALUE = MAX_VALUE % CycleLength`. -/
def indexAtMaxValue : ℕ := maxValue valueBits % cycleLength

/-- `OVERFLOW_START_INDEX = (INDEX_AT_MAX_VALUE + 1) % CycleLength`, where `next()` restarts. -/
def overflowStartIndex : ℕ := (indexAtMaxValue cycleLength valueBits + 1) % cycleLength

end Constants

variable {cycleLength valueBits : ℕ}

/-- The explicit constructor `CyclicIndex(ValueType value)`, the argument first converted to
`ValueType`. -/
def ofValue (v : ℕ) : CyclicIndex cycleLength valueBits :=
  ⟨v % 2 ^ valueBits, Nat.mod_lt _ (Nat.two_pow_pos _)⟩

/-- `CyclicIndex(index, cycle)`: the value `index + cycle * CycleLength`, computed in
`ValueType`. -/
def ofIndexCycle (index cycle : ℕ) : CyclicIndex cycleLength valueBits :=
  ofValue (index + cycle * cycleLength)

/-- `getIndex()`. -/
def getIndex (x : CyclicIndex cycleLength valueBits) : ℕ := x.value % cycleLength

/-- `getCycle()`. -/
def getCycle (x : CyclicIndex cycleLength valueBits) : ℕ := x.value / cycleLength

/-- `operator+(value)`: if the sum would pass `MAX_VALUE`, the excess is counted from
`OVERFLOW_START_INDEX`. -/
def add (x : CyclicIndex cycleLength valueBits) (value : ℕ) : CyclicIndex cycleLength valueBits :=
  let delta := maxValue valueBits - value
  if delta < x.value then
    ofValue (overflowStartIndex cycleLength valueBits + (x.value - delta - 1))
  else
    ofValue (x.value + value)

/-- `next()`: one step, restarting at `OVERFLOW_START_INDEX` after `MAX_VALUE`. -/
def next (x : CyclicIndex cycleLength valueBits) : CyclicIndex cycleLength valueBits :=
  if x.value = maxValue valueBits then ofValue (overflowStartIndex cycleLength valueBits)
  else ofValue (x.value + 1)

/-- `isOneCycleBehind(other)`: the cycle of `other` follows this one, cycle `0` following
`MAX_CYCLE`. -/
def isOneCycleBehind (x other : CyclicIndex cycleLength valueBits) : Bool :=
  if x.getCycle = maxCycle cycleLength valueBits then other.getCycle == 0
  else x.getCycle + 1 == other.getCycle

/-- `static_cast<int64_t>` of a 64-bit unsigned value. -/
def toInt64 (n : ℕ) : ℤ := if n < 2 ^ 63 then n else n - 2 ^ 64

/-- `operator-(rhs)`: the difference of the values in `ValueType`, converted to `int64_t`. -/
def sub (x rhs : CyclicIndex cycleLength valueBits) : ℤ :=
  toInt64 ((x.value + 2 ^ valueBits - rhs.value) % 2 ^ valueBits)

/-! ### Positions -/

/-- The value after `p` calls of `next()` from `0`: `p` itself up to `MAX_VALUE`, then laps of
`2 ^ valueBits - OVERFLOW_START_INDEX` values starting at `OVERFLOW_START_INDEX`. -/
def posValue (cycleLength valueBits p : ℕ) : ℕ :=
  if p < 2 ^ valueBits then p
  else overflowStartIndex cycleLength valueBits +
    (p - 2 ^ valueBits) % (2 ^ valueBits - overflowStartIndex cycleLength valueBits)

/-- The position `p` steps of `next()` after `0`. -/
def pos (cycleLength valueBits p : ℕ) : CyclicIndex cycleLength valueBits :=
  ofValue (posValue cycleLength valueBits p)

theorem posValue_of_lt {p : ℕ} (hp : p < 2 ^ valueBits) :
    posValue cycleLength valueBits p = p :=
  if_pos hp

/-- Before the first overflow a position is its step count. -/
theorem pos_of_lt {p : ℕ} (hp : p < 2 ^ valueBits) :
    pos cycleLength valueBits p = ofValue p := by
  rw [pos, posValue_of_lt hp]

@[simp] theorem ofValue_value (v : ℕ) :
    (ofValue v : CyclicIndex cycleLength valueBits).value = v % 2 ^ valueBits :=
  rfl

theorem ofValue_of_lt {v : ℕ} (h : v < 2 ^ valueBits) :
    (ofValue v : CyclicIndex cycleLength valueBits).value = v :=
  Nat.mod_eq_of_lt h

/-- The restart value is where an index count that ran on past `MAX_VALUE` would be. -/
theorem overflowStartIndex_eq :
    overflowStartIndex cycleLength valueBits = 2 ^ valueBits % cycleLength := by
  rw [overflowStartIndex, indexAtMaxValue, maxValue, Nat.mod_add_mod,
    Nat.sub_add_cancel Nat.one_le_two_pow]

/-- The class's `static_assert`s: `CycleLength >= 1` and `CycleLength < MAX_VALUE / 2`. -/
structure Admissible (cycleLength valueBits : ℕ) : Prop where
  one_le : 1 ≤ cycleLength
  lt_half : cycleLength < maxValue valueBits / 2

namespace Admissible

variable (h : Admissible cycleLength valueBits)
include h

theorem pos : 0 < cycleLength := h.one_le

theorem lt_maxValue : cycleLength < maxValue valueBits :=
  lt_of_lt_of_le h.lt_half (Nat.div_le_self _ 2)

theorem lt_two_pow : cycleLength < 2 ^ valueBits := by
  have := h.lt_maxValue
  unfold maxValue at this
  omega

theorem maxCycle_pos : 0 < maxCycle cycleLength valueBits :=
  Nat.div_pos h.lt_maxValue.le h.pos

theorem overflowStartIndex_lt : overflowStartIndex cycleLength valueBits < cycleLength :=
  Nat.mod_lt _ h.pos

end Admissible

/-- Over `uint64_t` the cycle length is below `2 ^ 63`, so a distance of positions up to it is
exact in `int64_t`. -/
theorem Admissible.lt_two_pow_63 {c : ℕ} (h : Admissible c 64) : c < 2 ^ 63 := by
  have := h.lt_half
  simp only [maxValue] at this
  omega

/-- One lap after the overflow, from `OVERFLOW_START_INDEX` to `MAX_VALUE`, is a whole number of
cycles long. -/
theorem dvd_lap : cycleLength ∣ 2 ^ valueBits - overflowStartIndex cycleLength valueBits := by
  rw [overflowStartIndex_eq]
  exact Nat.dvd_sub_mod _

/-- When the cycle length divides `2 ^ valueBits` the restart value is `0` and positions are
plain residues. -/
theorem posValue_of_dvd (hd : cycleLength ∣ 2 ^ valueBits) (p : ℕ) :
    posValue cycleLength valueBits p = p % 2 ^ valueBits := by
  have hO : overflowStartIndex cycleLength valueBits = 0 := by
    rw [overflowStartIndex_eq]
    exact Nat.mod_eq_zero_of_dvd hd
  unfold posValue
  split
  · rename_i hp
    exact (Nat.mod_eq_of_lt hp).symm
  · rename_i hp
    rw [hO, Nat.sub_zero, Nat.zero_add, ← Nat.mod_eq_sub_mod (by omega)]

/-- Subtraction of residues modulo `N`, with `N` added to keep it in `ℕ`. -/
theorem mod_add_sub_mod {N R W : ℕ} (hN : 0 < N) (hRW : R ≤ W) :
    (W % N + N - R % N) % N = (W - R) % N := by
  have hR := Nat.mod_lt R hN
  refine Nat.ModEq.add_right_cancel' (R % N) ?_
  rw [Nat.sub_add_cancel (by omega)]
  calc W % N + N ≡ W [MOD N] := by simp [Nat.ModEq]
    _ = W - R + R := by omega
    _ ≡ W - R + R % N [MOD N] := Nat.ModEq.add_left _ (Nat.mod_modEq R N).symm

section Positions

variable (h : Admissible cycleLength valueBits)
include h

theorem posValue_lt (p : ℕ) : posValue cycleLength valueBits p < 2 ^ valueBits := by
  unfold posValue
  split
  · assumption
  · have hO := h.overflowStartIndex_lt
    have hC := h.lt_two_pow
    have := Nat.mod_lt (p - 2 ^ valueBits)
      (show 0 < 2 ^ valueBits - overflowStartIndex cycleLength valueBits by omega)
    omega

theorem value_pos (p : ℕ) :
    (pos cycleLength valueBits p).value = posValue cycleLength valueBits p :=
  ofValue_of_lt (posValue_lt h p)

/-- **`pos` counts calls of `next()`.** -/
theorem next_pos (p : ℕ) :
    (pos cycleLength valueBits p).next = pos cycleLength valueBits (p + 1) := by
  have hO := h.overflowStartIndex_lt
  have hC := h.lt_two_pow
  ext
  rw [value_pos h, next, value_pos h]
  by_cases hp : p + 1 < 2 ^ valueBits
  · -- before the overflow both sides are `p + 1`
    have hne : posValue cycleLength valueBits p ≠ maxValue valueBits := by
      rw [posValue, if_pos (by omega), maxValue]
      omega
    rw [if_neg hne, ofValue_value, posValue, if_pos (by omega), posValue, if_pos hp,
      Nat.mod_eq_of_lt hp]
  by_cases hp' : p + 1 = 2 ^ valueBits
  · -- the step from `MAX_VALUE` restarts at `OVERFLOW_START_INDEX`
    have heq : posValue cycleLength valueBits p = maxValue valueBits := by
      rw [posValue, if_pos (by omega), maxValue]
      omega
    rw [if_pos heq, ofValue_value, Nat.mod_eq_of_lt (by omega), posValue, if_neg (by omega), hp',
      Nat.sub_self, Nat.zero_mod, Nat.add_zero]
  · -- after the overflow `p` moves one place in its lap, wrapping at the end of the lap
    have hL : 0 < 2 ^ valueBits - overflowStartIndex cycleLength valueBits := by omega
    obtain ⟨m, hm⟩ : ∃ m, m = (p - 2 ^ valueBits) %
        (2 ^ valueBits - overflowStartIndex cycleLength valueBits) := ⟨_, rfl⟩
    have hmL : m < 2 ^ valueBits - overflowStartIndex cycleLength valueBits :=
      hm ▸ Nat.mod_lt _ hL
    have hv : posValue cycleLength valueBits p = overflowStartIndex cycleLength valueBits + m := by
      rw [posValue, if_neg (by omega), hm]
    have hv' : posValue cycleLength valueBits (p + 1) = overflowStartIndex cycleLength valueBits +
        (m + 1) % (2 ^ valueBits - overflowStartIndex cycleLength valueBits) := by
      rw [posValue, if_neg (by omega), hm, Nat.mod_add_mod,
        show p - 2 ^ valueBits + 1 = p + 1 - 2 ^ valueBits by omega]
    rw [hv, hv']
    by_cases hend : m + 1 = 2 ^ valueBits - overflowStartIndex cycleLength valueBits
    · rw [if_pos (by unfold maxValue; omega), hend, Nat.mod_self, ofValue_value,
        Nat.mod_eq_of_lt (by omega), Nat.add_zero]
    · rw [if_neg (by unfold maxValue; omega), Nat.mod_eq_of_lt (by omega), ofValue_value,
        Nat.mod_eq_of_lt (by omega)]
      omega

/-- `n` calls of `next()` from a position reach the position `n` steps further. -/
theorem iterate_next_pos (p n : ℕ) :
    next^[n] (pos cycleLength valueBits p) = pos cycleLength valueBits (p + n) := by
  induction n with
  | zero => rfl
  | succ n ih => rw [Function.iterate_succ_apply', ih, next_pos h, Nat.add_assoc]

/-- **`+ 1` is `next()`**: the overflow branch of `operator+` agrees with the one of `next()`. -/
theorem add_one (x : CyclicIndex cycleLength valueBits) : x.add 1 = x.next := by
  have hC := h.lt_maxValue
  have hx := x.value_lt
  unfold add next maxValue at *
  by_cases hmax : x.value = 2 ^ valueBits - 1
  · rw [if_pos (by omega), if_pos hmax]
    congr 1
    omega
  · rw [if_neg (by omega), if_neg hmax]

/-- **The index of a position is its step count modulo the cycle length**, across any number of
overflows. -/
theorem getIndex_pos (p : ℕ) :
    (pos cycleLength valueBits p).getIndex = p % cycleLength := by
  rw [getIndex, value_pos h, posValue]
  split
  · rfl
  · rename_i hp
    rw [Nat.add_mod, Nat.mod_mod_of_dvd _ dvd_lap, overflowStartIndex_eq, Nat.mod_mod,
      ← Nat.add_mod, Nat.add_sub_cancel' (by omega)]

/-- When the cycle length divides `2 ^ valueBits` the cycles are counted modulo
`2 ^ valueBits / CycleLength`. -/
theorem getCycle_pos_of_dvd (hd : cycleLength ∣ 2 ^ valueBits) (p : ℕ) :
    (pos cycleLength valueBits p).getCycle =
      p / cycleLength % (2 ^ valueBits / cycleLength) := by
  rw [getCycle, value_pos h, posValue_of_dvd hd]
  obtain ⟨M, hM⟩ := hd
  rw [hM, Nat.mod_mul_right_div_self, Nat.mul_div_cancel_left M h.pos]

theorem maxCycle_of_dvd (hd : cycleLength ∣ 2 ^ valueBits) :
    maxCycle cycleLength valueBits = 2 ^ valueBits / cycleLength - 1 := by
  obtain ⟨M, hM⟩ := hd
  have hC := h.pos
  have hM0 : 0 < M := Nat.pos_of_ne_zero fun h0 ↦ by
    have := Nat.two_pow_pos valueBits
    rw [hM, h0, Nat.mul_zero] at this
    exact Nat.lt_irrefl 0 this
  rw [maxCycle, maxValue, hM, Nat.mul_div_cancel_left M hC]
  apply Nat.div_eq_of_lt_le
  · have : (M - 1) * cycleLength = cycleLength * M - cycleLength := by
      rw [Nat.sub_mul, Nat.one_mul, Nat.mul_comm]
    omega
  · have : (M - 1 + 1) * cycleLength = cycleLength * M := by
      rw [Nat.sub_add_cancel hM0, Nat.mul_comm]
    have : 0 < cycleLength * M := Nat.mul_pos hC hM0
    omega

/-- **The cell a lap back is one cycle behind** the position `p`: before the first overflow
always, and after it when the cycle length divides `2 ^ valueBits`. -/
theorem isOneCycleBehind_pos {p : ℕ} (hp : cycleLength ≤ p)
    (hsafe : p < 2 ^ valueBits ∨ cycleLength ∣ 2 ^ valueBits) :
    (pos cycleLength valueBits (p - cycleLength)).isOneCycleBehind
      (pos cycleLength valueBits p) = true := by
  have hC := h.pos
  rcases hsafe with hlt | hd
  · -- before the overflow the two cycles are `p / C - 1` and `p / C`
    have hc₁ : (pos cycleLength valueBits (p - cycleLength)).getCycle =
        p / cycleLength - 1 := by
      rw [getCycle, value_pos h, posValue, if_pos (by omega)]
      simpa using Nat.sub_mul_div p cycleLength 1
    have hc₂ : (pos cycleLength valueBits p).getCycle = p / cycleLength := by
      rw [getCycle, value_pos h, posValue, if_pos hlt]
    have hle : p / cycleLength ≤ maxCycle cycleLength valueBits :=
      Nat.div_le_div_right (by unfold maxValue; omega)
    have hone : 1 ≤ p / cycleLength := (Nat.le_div_iff_mul_le hC).2 (by omega)
    rw [isOneCycleBehind, hc₁, hc₂, if_neg (by omega)]
    simp only [beq_iff_eq]
    omega
  · -- otherwise cycles are residues modulo `M = MAX_CYCLE + 1` and the earlier one is `k`
    have hM : 0 < 2 ^ valueBits / cycleLength := Nat.div_pos h.lt_two_pow.le hC
    have hk : (p - cycleLength) / cycleLength + 1 = p / cycleLength := by
      have := Nat.sub_mul_div p cycleLength 1
      have hone : 1 ≤ p / cycleLength := (Nat.le_div_iff_mul_le hC).2 (by omega)
      rw [Nat.mul_one] at this
      omega
    rw [isOneCycleBehind, getCycle_pos_of_dvd h hd, getCycle_pos_of_dvd h hd,
      maxCycle_of_dvd h hd, ← hk]
    generalize 2 ^ valueBits / cycleLength = M at hM ⊢
    generalize (p - cycleLength) / cycleLength = k
    have hstep : (k + 1) % M = (k % M + 1) % M := (Nat.mod_add_mod k M 1).symm
    split
    · rename_i hend
      rw [hstep, hend, Nat.sub_add_cancel hM, Nat.mod_self]
      rfl
    · have := Nat.mod_lt k hM
      rw [hstep, Nat.mod_eq_of_lt (show k % M + 1 < M by omega)]
      simp

/-- No value is one cycle behind itself, since `MAX_CYCLE` is not `0`. -/
theorem isOneCycleBehind_self (x : CyclicIndex cycleLength valueBits) :
    x.isOneCycleBehind x = false := by
  have := h.maxCycle_pos
  unfold isOneCycleBehind
  split
  · simp only [beq_eq_false_iff_ne]
    omega
  · simp

theorem getCycle_ne_of_isOneCycleBehind {x y : CyclicIndex cycleLength valueBits}
    (hxy : x.isOneCycleBehind y = true) : x.getCycle ≠ y.getCycle := by
  have := h.maxCycle_pos
  unfold isOneCycleBehind at hxy
  split at hxy
  · simp only [beq_iff_eq] at hxy
    omega
  · simp only [beq_iff_eq] at hxy
    omega

/-- **The distance of two positions**: `operator-` returns the number of steps between them
when it is below `2 ^ 63`, before the first overflow, or after it when the cycle length divides
`2 ^ valueBits`. -/
theorem sub_pos {R W : ℕ} (hRW : R ≤ W) (hk : W - R < 2 ^ 63) (hkw : W - R < 2 ^ valueBits)
    (hsafe : W < 2 ^ valueBits ∨ cycleLength ∣ 2 ^ valueBits) :
    (pos cycleLength valueBits W).sub (pos cycleLength valueBits R) = ((W - R : ℕ) : ℤ) := by
  have hdiff : ((pos cycleLength valueBits W).value + 2 ^ valueBits -
      (pos cycleLength valueBits R).value) % 2 ^ valueBits = W - R := by
    rw [value_pos h, value_pos h]
    rcases hsafe with hlt | hd
    · rw [posValue, if_pos hlt, posValue, if_pos (by omega),
        show W + 2 ^ valueBits - R = W - R + 2 ^ valueBits by omega, Nat.add_mod_right,
        Nat.mod_eq_of_lt hkw]
    · rw [posValue_of_dvd hd, posValue_of_dvd hd, mod_add_sub_mod (Nat.two_pow_pos _) hRW,
        Nat.mod_eq_of_lt hkw]
  rw [sub, hdiff, toInt64, if_pos hk]

end Positions

/-- **Across the overflow the arithmetic and the steps disagree** when the cycle length does not
divide `2 ^ 64`. With `CycleLength = 3` (`OVERFLOW_START_INDEX = 1`) the step from `MAX_VALUE` to
`1` moves the index from `0` to `1` and the cycle from `MAX_CYCLE` to `0`; `operator-` counts that
one step as `2`; and three steps from `MAX_VALUE` reach the index `0` again, in cycle `1`, which
`isOneCycleBehind` does not accept. With `CycleLength = 7` (`OVERFLOW_START_INDEX = 2`),
`operator+` adds `MAX_VALUE` to `MAX_VALUE` by restarting at `0`, where `MAX_VALUE` calls of
`next()` reach `2`. -/
theorem cyclicIndex_steps_disagree_across_wrap :
    let x : CyclicIndex 3 64 := ofValue (maxValue 64)
    let y : CyclicIndex 7 64 := ofValue (maxValue 64)
    Admissible 3 64 ∧ Admissible 7 64 ∧
      x.getIndex = 0 ∧ x.next.getIndex = 1 ∧ x.getCycle = maxCycle 3 64 ∧ x.next.getCycle = 0 ∧
      x.next.sub x = 2 ∧
      x.next.next.next.getIndex = x.getIndex ∧ x.isOneCycleBehind x.next.next.next = false ∧
      (y.add (maxValue 64)).value = 0 ∧ (next^[maxValue 64] y).value = 2 := by
  have h₃ : Admissible 3 64 := ⟨by decide, by decide⟩
  have h₇ : Admissible 7 64 := ⟨by decide, by decide⟩
  -- the `MAX_VALUE` steps are counted by `pos`, whose value after the overflow is closed
  have hsteps : (next^[maxValue 64] (ofValue (maxValue 64) : CyclicIndex 7 64)).value = 2 := by
    rw [← pos_of_lt (by decide), iterate_next_pos h₇, value_pos h₇]
    decide
  exact ⟨h₃, h₇, by decide, by decide, by decide, by decide, by decide, by decide, by decide,
    by decide, hsteps⟩

/-! ### Values stored in cells -/

/-- A value built from an index below the cycle length reads that index back, if it fits. -/
theorem getIndex_ofIndexCycle {i c : ℕ} (hi : i < cycleLength)
    (hfit : i + c * cycleLength < 2 ^ valueBits) :
    (ofIndexCycle i c : CyclicIndex cycleLength valueBits).getIndex = i := by
  rw [getIndex, ofIndexCycle, ofValue_of_lt hfit, Nat.add_mul_mod_self_right, Nat.mod_eq_of_lt hi]

/-- A value built from an index below the cycle length reads its cycle back, if it fits. -/
theorem getCycle_ofIndexCycle {i c : ℕ} (hi : i < cycleLength)
    (hfit : i + c * cycleLength < 2 ^ valueBits) :
    (ofIndexCycle i c : CyclicIndex cycleLength valueBits).getCycle = c := by
  rw [getCycle, ofIndexCycle, ofValue_of_lt hfit, Nat.add_mul_div_right _ _ (by omega),
    Nat.div_eq_of_lt hi, Nat.zero_add]

/-- An index no larger than a position's own index fits in that position's cycle. -/
theorem fits_of_le_getIndex {i : ℕ} {x : CyclicIndex cycleLength valueBits}
    (hi : i ≤ x.getIndex) : i + x.getCycle * cycleLength < 2 ^ valueBits := by
  have := Nat.mod_add_div' x.value cycleLength
  have := x.value_lt
  unfold getIndex at hi
  unfold getCycle
  omega

/-- When the cycle length divides `2 ^ valueBits` every index fits in every cycle. -/
theorem fits_of_dvd (hd : cycleLength ∣ 2 ^ valueBits) {i : ℕ} (hi : i < cycleLength)
    (x : CyclicIndex cycleLength valueBits) : i + x.getCycle * cycleLength < 2 ^ valueBits := by
  have hlt : x.getCycle < 2 ^ valueBits / cycleLength :=
    Nat.div_lt_div_of_lt_of_dvd hd x.value_lt
  have hmul : (x.getCycle + 1) * cycleLength ≤ 2 ^ valueBits / cycleLength * cycleLength :=
    Nat.mul_le_mul_right cycleLength hlt
  rw [Nat.div_mul_cancel hd, Nat.add_mul, Nat.one_mul] at hmul
  omega

/-- `isOneCycleBehind` reads only the cycles. -/
theorem isOneCycleBehind_congr {x y : CyclicIndex cycleLength valueBits}
    (hxy : x.getCycle = y.getCycle) (z : CyclicIndex cycleLength valueBits) :
    x.isOneCycleBehind z = y.isOneCycleBehind z := by
  simp only [isOneCycleBehind, hxy]

end CyclicIndex

end Iox.Concurrent
