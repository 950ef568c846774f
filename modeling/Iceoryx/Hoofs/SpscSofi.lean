import Mathlib.Data.Nat.ModEq
import Iceoryx.Machine.Run
import Iceoryx.Data.BoundedQueue

/-!
# `SpscSofi`: the safely overflowing single-producer single-consumer ring

`iox::concurrent::SpscSofi<ValueType, CapacityValue>` (`spsc_sofi.inl`) stores its elements in a
ring of `m_size` slots addressed by two ever-growing counters: the element at position `p` sits in
slot `p % m_size`, the live positions are `m_readPosition ≤ p < m_writePosition`, and one slot
more than the capacity is allocated (`INTERNAL_CAPACITY_ADDON`), so `capacity() = m_size - 1`.
A push writes its slot first and only then decides whether the ring overflowed; if it did, it
advances the read position itself and hands the evicted oldest element back through `valueOut`.

## The model

This module is the sequential model: one call at a time, every compare-exchange succeeding at its
first attempt and the retry loops running once, exactly as the source behaves without a
concurrent partner. The state is the slot array as a function, `m_size` and the two positions.
The positions are `uint64_t` values: every `+ 1U` on them, and the sum `currentReadPosition +
m_size` of the full-check, is taken modulo `2^64`, and `size()` is their difference modulo
`2^64`. The two other computations that wrap in a single call are kept with their widths too:
`INTERNAL_SPSC_SOFI_CAPACITY` is a `uint32_t` and `setCapacity` computes
`newSize + INTERNAL_CAPACITY_ADDON` in `uint64_t`. The slots of a fresh ring are uninitialised
memory; `new` takes their contents as an argument, and nothing proved depends on it.

## What is proved

`sofi` is the ring as a machine and `spec` the abstract queue it implements: a `BoundedQueue`
with an evicting push, and a capacity that can be set to any `n ≤ CapacityValue` while the queue
is empty. `Represents` is the simulation relation: `m_size` is the abstract capacity plus one,
the read position plus the queue length is the write position, and slot `(readPosition + i) %
m_size` holds the `i`-th element. While the positions stay below `2^64` no sum wraps and every
operation keeps the relation with equal results (`represents_sofiStep`). Each push advances the
write position by one and a `setCapacity` resets it, so every run with fewer than
`2^64 - CapacityValue - 1` pushes answers as the abstract queue does
(`spscSofi_refines_overwriting_fifo`).

Three boundary cases fall outside, and `spscSofi_refinement_fails_beyond_bounds` shows each: a
`CapacityValue ≥ 2^32 - 1` does not fit the `uint32_t` internal capacity; `setCapacity(2^64 -
1)` wraps to an internal size of zero and succeeds, leaving a ring whose next push divides by
zero; and after `2^64 - 3` pushes and pops on a ring of capacity two, the sum `currentReadPosition
+ m_size` wraps to `0`, so a push into the empty ring evicts the value it just wrote.
-/

namespace Iox.Concurrent

/-- `INTERNAL_CAPACITY_ADDON`. -/
def internalCapacityAddon : ℕ := 1

/-- `INTERNAL_SPSC_SOFI_CAPACITY = CapacityValue + INTERNAL_CAPACITY_ADDON`, a `uint32_t`. -/
def internalSpscSofiCapacity (capacityValue : ℕ) : ℕ :=
  (capacityValue + internalCapacityAddon) % 2 ^ 32

theorem internalSpscSofiCapacity_eq {capacityValue : ℕ} (hfit : capacityValue + 1 < 2 ^ 32) :
    internalSpscSofiCapacity capacityValue = capacityValue + 1 :=
  Nat.mod_eq_of_lt hfit

/-- The fields of an `SpscSofi<ValueType, CapacityValue>`: `m_data`, `m_size`,
`m_readPosition` and `m_writePosition`. -/
structure SpscSofi (α : Type*) (capacityValue : ℕ) where
  /-- `m_data`, slot by slot. -/
  data : ℕ → α
  /-- `m_size`, the number of slots in use. -/
  size : ℕ
  /-- `m_readPosition`. -/
  readPosition : ℕ
  /-- `m_writePosition`. -/
  writePosition : ℕ

namespace SpscSofi

variable {α : Type*} {capacityValue : ℕ}

/-- The default constructor, on slots holding whatever `junk` says. -/
def new (junk : ℕ → α) : SpscSofi α capacityValue :=
  ⟨junk, internalSpscSofiCapacity capacityValue, 0, 0⟩

/-- `capacity()`: `m_size - INTERNAL_CAPACITY_ADDON` in `uint64_t`. -/
def capacity (s : SpscSofi α capacityValue) : ℕ :=
  (s.size + 2 ^ 64 - internalCapacityAddon) % 2 ^ 64

/-- `size()`: the write position minus the read position, in `uint64_t`. -/
def sizeOf (s : SpscSofi α capacityValue) : ℕ :=
  (s.writePosition + 2 ^ 64 - s.readPosition) % 2 ^ 64

/-- `empty()`: the two positions agree. -/
def empty (s : SpscSofi α capacityValue) : Bool :=
  s.readPosition == s.writePosition

/-- `setCapacity(newSize)`: on an empty ring whose new internal size (computed in `uint64_t`)
fits `INTERNAL_SPSC_SOFI_CAPACITY`, adopt it and reset both positions. -/
def setCapacity (s : SpscSofi α capacityValue) (newSize : ℕ) : SpscSofi α capacityValue × Bool :=
  if s.empty ∧ (newSize + internalCapacityAddon) % 2 ^ 64 ≤ internalSpscSofiCapacity capacityValue
  then
    ({ s with
        size := (newSize + internalCapacityAddon) % 2 ^ 64
        readPosition := 0
        writePosition := 0 },
      true)
  else
    (s, false)

/-- `pop(valueOut)`: `none` on an empty ring, otherwise the slot of the read position, which
advances in `uint64_t`. -/
def pop (s : SpscSofi α capacityValue) : SpscSofi α capacityValue × Option α :=
  if s.readPosition = s.writePosition then
    (s, none)
  else
    ({ s with readPosition := (s.readPosition + 1) % 2 ^ 64 },
      some (s.data (s.readPosition % s.size)))

theorem pop_of_eq {s : SpscSofi α capacityValue} (h : s.readPosition = s.writePosition) :
    pop s = (s, none) :=
  if_pos h

theorem pop_of_ne {s : SpscSofi α capacityValue} (h : s.readPosition ≠ s.writePosition) :
    pop s = ({ s with readPosition := (s.readPosition + 1) % 2 ^ 64 },
      some (s.data (s.readPosition % s.size))) :=
  if_neg h

/-- `push(valueIn, valueOut)`: write the slot of the write position and advance it; if the next
write position is not below `currentReadPosition + m_size` (both in `uint64_t`) the ring
overflowed, the read position advances and the slot it left is returned as `valueOut` (result
`some`, i.e. `push` returned `false`). -/
def push (s : SpscSofi α capacityValue) (valueIn : α) : SpscSofi α capacityValue × Option α :=
  let nextWritePosition := (s.writePosition + 1) % 2 ^ 64
  let data := Function.update s.data (s.writePosition % s.size) valueIn
  if nextWritePosition < (s.readPosition + s.size) % 2 ^ 64 then
    ({ s with data := data, writePosition := nextWritePosition }, none)
  else
    ({ s with
        data := data
        writePosition := nextWritePosition
        readPosition := (s.readPosition + 1) % 2 ^ 64 },
      some (data (s.readPosition % s.size)))

/-- A push that finds room for the next write. -/
theorem push_of_room {s : SpscSofi α capacityValue}
    (h : (s.writePosition + 1) % 2 ^ 64 < (s.readPosition + s.size) % 2 ^ 64) (v : α) :
    push s v = ({ s with
        data := Function.update s.data (s.writePosition % s.size) v
        writePosition := (s.writePosition + 1) % 2 ^ 64 },
      none) :=
  if_pos h

/-- A push that overflows. -/
theorem push_of_overflow {s : SpscSofi α capacityValue}
    (h : ¬(s.writePosition + 1) % 2 ^ 64 < (s.readPosition + s.size) % 2 ^ 64) (v : α) :
    push s v = ({ s with
        data := Function.update s.data (s.writePosition % s.size) v
        writePosition := (s.writePosition + 1) % 2 ^ 64
        readPosition := (s.readPosition + 1) % 2 ^ 64 },
      some (Function.update s.data (s.writePosition % s.size) v (s.readPosition % s.size))) :=
  if_neg h

/-- Below `2^64`, a push with room is the push of unbounded positions. -/
theorem push_of_lt {s : SpscSofi α capacityValue} (hr : s.readPosition ≤ s.writePosition)
    (hfit : s.writePosition + s.size < 2 ^ 64)
    (h : s.writePosition + 1 < s.readPosition + s.size) (v : α) :
    push s v = ({ s with
        data := Function.update s.data (s.writePosition % s.size) v
        writePosition := s.writePosition + 1 },
      none) := by
  have hw : (s.writePosition + 1) % 2 ^ 64 = s.writePosition + 1 := Nat.mod_eq_of_lt (by omega)
  rw [push_of_room (by rw [hw, Nat.mod_eq_of_lt (by omega)]; exact h), hw]

/-- Below `2^64`, an overflowing push is the push of unbounded positions. -/
theorem push_of_ge {s : SpscSofi α capacityValue} (hfit : s.writePosition + s.size < 2 ^ 64)
    (hsize : 0 < s.size)
    (h : s.readPosition + s.size ≤ s.writePosition + 1) (v : α) :
    push s v = ({ s with
        data := Function.update s.data (s.writePosition % s.size) v
        writePosition := s.writePosition + 1
        readPosition := s.readPosition + 1 },
      some (Function.update s.data (s.writePosition % s.size) v (s.readPosition % s.size))) := by
  have hw : (s.writePosition + 1) % 2 ^ 64 = s.writePosition + 1 := Nat.mod_eq_of_lt (by omega)
  have hr' : (s.readPosition + 1) % 2 ^ 64 = s.readPosition + 1 := Nat.mod_eq_of_lt (by omega)
  rw [push_of_overflow (by rw [hw, Nat.mod_eq_of_lt (by omega)]; omega), hw, hr']

/-- Every push moves the write position on by one, below `2^64`. -/
theorem push_writePosition {s : SpscSofi α capacityValue} (hfit : s.writePosition + 1 < 2 ^ 64)
    (v : α) : (push s v).1.writePosition = s.writePosition + 1 := by
  by_cases h : (s.writePosition + 1) % 2 ^ 64 < (s.readPosition + s.size) % 2 ^ 64
  · rw [push_of_room h]
    exact Nat.mod_eq_of_lt hfit
  · rw [push_of_overflow h]
    exact Nat.mod_eq_of_lt hfit

/-- A pop leaves the write position. -/
theorem pop_writePosition (s : SpscSofi α capacityValue) :
    (pop s).1.writePosition = s.writePosition := by
  unfold pop
  split_ifs <;> rfl

/-- A call on the ring: the three mutators and the three observers. -/
inductive Op (α : Type*) where
  | push (valueIn : α)
  | pop
  | setCapacity (newSize : ℕ)
  | size
  | empty
  | capacity

/-- How far a call moves the write position: one for a push. -/
def Op.writes : Op α → ℕ
  | .push _ => 1
  | _ => 0

/-- What a call returns. A push reports `valueOut` when it returned `false`. -/
inductive Result (α : Type*) where
  | pushed (valueOut : Option α)
  | popped (valueOut : Option α)
  | capacitySet (ok : Bool)
  | size (n : ℕ)
  | empty (b : Bool)
  | capacity (n : ℕ)
  deriving DecidableEq

/-- One call on the ring. -/
def sofiStep (s : SpscSofi α capacityValue) : Op α → SpscSofi α capacityValue × Result α
  | .push v => ((push s v).1, .pushed (push s v).2)
  | .pop => ((pop s).1, .popped (pop s).2)
  | .setCapacity n => ((setCapacity s n).1, .capacitySet (setCapacity s n).2)
  | .size => (s, .size s.sizeOf)
  | .empty => (s, .empty s.empty)
  | .capacity => (s, .capacity s.capacity)

/-- The ring as a machine. -/
def sofi (α : Type*) (capacityValue : ℕ) : Machine (SpscSofi α capacityValue) (Op α) (Result α) :=
  ⟨sofiStep⟩

/-! ### The abstract queue -/

/-- One call on the abstract queue: an evicting push, a pop, a capacity change allowed on an
empty queue up to `capacityValue`, and the three observers. -/
def specStep (capacityValue : ℕ) (q : BoundedQueue α) : Op α → BoundedQueue α × Result α
  | .push v => ((q.push v).1, .pushed (q.push v).2)
  | .pop => (q.pop.1, .popped q.pop.2)
  | .setCapacity n =>
    if q.items = [] ∧ n ≤ capacityValue then (⟨[], n⟩, .capacitySet true)
    else (q, .capacitySet false)
  | .size => (q, .size q.items.length)
  | .empty => (q, .empty (q.items.isEmpty))
  | .capacity => (q, .capacity q.capacity)

/-- **The abstract `SpscSofi`**: a bounded FIFO that overwrites its oldest element, with a
capacity settable while empty. -/
def spec (α : Type*) (capacityValue : ℕ) : Machine (BoundedQueue α) (Op α) (Result α) :=
  ⟨specStep capacityValue⟩

/-- The guard of the refinement: `setCapacity` is not called with `2^64 - 1`. -/
def SetCapacityFits : BoundedQueue α → Op α → Prop
  | _, .setCapacity n => n + internalCapacityAddon < 2 ^ 64
  | _, _ => True


/-! ### The simulation relation -/

/-- The ring **represents** the queue `q`: `m_size` is its capacity plus one, that capacity is at
most `CapacityValue`, the write position is the read position plus its length, and slot
`(readPosition + i) % m_size` holds its `i`-th element. -/
structure Represents (s : SpscSofi α capacityValue) (q : BoundedQueue α) : Prop where
  size_eq : s.size = q.capacity + 1
  capacity_le : q.capacity ≤ capacityValue
  length_le : q.items.length ≤ q.capacity
  writePosition_eq : s.writePosition = s.readPosition + q.items.length
  slot_eq : ∀ i (hi : i < q.items.length), s.data ((s.readPosition + i) % s.size) = q.items[i]

variable {s : SpscSofi α capacityValue} {q : BoundedQueue α}

/-- A write to the slot of position `r + n` keeps the slots of `r + i` for `i < n < m_size`. -/
theorem slot_update_of_lt {r n m i : ℕ} {d : ℕ → α} {v : α} (hn : n < m) (hi : i < n) :
    Function.update d ((r + n) % m) v ((r + i) % m) = d ((r + i) % m) :=
  update_mod_of_lt_of_lt (by omega) (by omega)

/-- A ring whose positions agree represents the empty queue of capacity `m_size - 1`. -/
theorem represents_nil {k : ℕ} (hsize : s.size = k + 1) (hk : k ≤ capacityValue)
    (hpos : s.writePosition = s.readPosition) : Represents s ⟨[], k⟩ where
  size_eq := hsize
  capacity_le := hk
  length_le := Nat.zero_le _
  writePosition_eq := hpos
  slot_eq := fun _ hi ↦ absurd hi (Nat.not_lt_zero _)

/-- The fresh ring represents the empty queue of capacity `CapacityValue` when the internal
capacity fits its `uint32_t`. -/
theorem represents_new (junk : ℕ → α) (hfit : capacityValue + 1 < 2 ^ 32) :
    Represents (new junk : SpscSofi α capacityValue) ⟨[], capacityValue⟩ :=
  represents_nil (internalSpscSofiCapacity_eq hfit) le_rfl rfl

/-! ### One operation at a time

While the write position and every position a push reads stay below `2^64`
(`writePosition + m_size < 2^64`, the read position being behind the write position), no sum
wraps and each operation acts as on unbounded positions. -/

/-- **Pop**: an empty ring answers `none`; otherwise the read slot holds the head. -/
theorem represents_pop (h : Represents s q) (hfit : s.writePosition < 2 ^ 64) :
    (pop s).2 = q.pop.2 ∧ Represents (pop s).1 q.pop.1 := by
  obtain ⟨hsize, hcap, hlen, hw, hslot⟩ := h
  rcases q with ⟨_ | ⟨a, rest⟩, c⟩
  · have hrw : s.readPosition = s.writePosition := by simpa using hw.symm
    rw [pop_of_eq hrw, BoundedQueue.pop_nil]
    exact ⟨rfl, represents_nil hsize hcap hrw.symm⟩
  · simp only [List.length_cons] at hw hlen
    rw [pop_of_ne (by omega), Nat.mod_eq_of_lt (by omega), BoundedQueue.pop_cons]
    refine ⟨congrArg some (hslot 0 (by simp)), ⟨hsize, hcap, by simp; omega, by dsimp only; omega,
      fun i hi ↦ ?_⟩⟩
    -- the `i`-th element of the rest was the `i + 1`-th of the queue
    dsimp only at hi ⊢
    rw [show s.readPosition + 1 + i = s.readPosition + (i + 1) by omega]
    exact hslot (i + 1) (by simp; omega)

/-- **Push into a ring with room**: the element lands in the slot after the queue. -/
theorem represents_push_of_lt (h : Represents s q) (hfit : s.writePosition + s.size < 2 ^ 64)
    (hroom : q.items.length < q.capacity) (v : α) :
    (push s v).2 = (q.push v).2 ∧ Represents (push s v).1 (q.push v).1 := by
  obtain ⟨hsize, hcap, hlen, hw, hslot⟩ := h
  rw [push_of_lt (by omega) hfit (by omega), BoundedQueue.push_of_lt hroom]
  refine ⟨rfl, ⟨hsize, hcap, by simp; omega, by simp [hw]; omega, fun i hi ↦ ?_⟩⟩
  simp only [List.length_append, List.length_singleton] at hi
  dsimp only
  rw [hw]
  rcases Nat.lt_succ_iff_lt_or_eq.1 hi with hi | rfl
  · rw [slot_update_of_lt (by omega) hi, hslot i hi, List.getElem_append_left hi]
  · simp

/-- **Push into a full ring**: the slot written is the one just before the head, one lap ahead,
so the head survives the write, is handed back, and the read position moves past it. -/
theorem represents_push_of_full (h : Represents s q) (hfit : s.writePosition + s.size < 2 ^ 64)
    (hfull : q.items.length = q.capacity) (v : α) :
    (push s v).2 = (q.push v).2 ∧ Represents (push s v).1 (q.push v).1 := by
  obtain ⟨hsize, hcap, hlen, hw, hslot⟩ := h
  rw [push_of_ge hfit (by omega) (by omega), BoundedQueue.push_of_le hfull.ge]
  have hkeep : ∀ i, i < q.capacity →
      Function.update s.data (s.writePosition % s.size) v ((s.readPosition + i) % s.size) =
        s.data ((s.readPosition + i) % s.size) := by
    intro i hi
    rw [hw, hfull]
    exact slot_update_of_lt (by omega) hi
  rcases q with ⟨_ | ⟨a, rest⟩, c⟩
  · -- capacity zero: the element pushed is the one handed back
    simp only [List.length_nil] at hfull hw
    subst hfull
    have hs : s.size = 1 := hsize
    refine ⟨by simp [hs, Nat.mod_one], ⟨hsize, hcap, by simp, by simp [hw],
      fun i hi ↦ by simp at hi⟩⟩
  · dsimp only at hfull hw hsize hcap hslot hkeep
    simp only [List.length_cons] at hfull hw
    refine ⟨?_, ⟨hsize, hcap, by simp; omega, by simp; omega, fun i hi ↦ ?_⟩⟩
    · have h0 := hkeep 0 (by omega)
      rw [Nat.add_zero] at h0
      rw [h0]
      exact congrArg some (hslot 0 (by simp))
    · simp only [List.cons_append, List.tail_cons, List.length_append, List.length_singleton]
        at hi ⊢
      rcases Nat.lt_succ_iff_lt_or_eq.1 hi with hi | rfl
      · rw [show s.readPosition + 1 + i = s.readPosition + (i + 1) by omega,
          hkeep (i + 1) (by omega), hslot (i + 1) (by simp; omega),
          List.getElem_append_left hi]
        simp
      · rw [show s.readPosition + 1 + rest.length = s.writePosition by omega]
        simp

/-- **Push**, both cases. -/
theorem represents_push (h : Represents s q) (hfit : s.writePosition + s.size < 2 ^ 64) (v : α) :
    (push s v).2 = (q.push v).2 ∧ Represents (push s v).1 (q.push v).1 := by
  rcases Nat.lt_or_ge q.items.length q.capacity with hlt | hge
  · exact represents_push_of_lt h hfit hlt v
  · exact represents_push_of_full h hfit (le_antisymm h.length_le hge) v

/-- **Set capacity**: the ring and the queue agree on emptiness, and below `2^64 - 1` the
`uint64_t` sum does not wrap, so the ring accepts exactly the sizes up to `CapacityValue`. -/
theorem setCapacity_eq (h : Represents s q) (hfit : capacityValue + 1 < 2 ^ 32) {n : ℕ}
    (hn : n + internalCapacityAddon < 2 ^ 64) :
    setCapacity s n = if q.items = [] ∧ n ≤ capacityValue then
      ({ s with size := n + 1, readPosition := 0, writePosition := 0 }, true) else (s, false) := by
  have hmod : (n + internalCapacityAddon) % 2 ^ 64 = n + 1 := Nat.mod_eq_of_lt hn
  have hint := internalSpscSofiCapacity_eq hfit
  have hempty : s.empty = true ↔ q.items = [] := by
    simp [empty, h.writePosition_eq]
  by_cases hq : q.items = [] ∧ n ≤ capacityValue
  · rw [if_pos hq, setCapacity, if_pos (by rw [hmod, hint, hempty]; exact ⟨hq.1, by omega⟩),
      hmod]
  · rw [if_neg hq, setCapacity,
      if_neg (by rw [hmod, hint, hempty]; exact fun hc ↦ hq ⟨hc.1, by omega⟩)]

/-- The relation of a run that has `n` pushes to go: the ring represents the queue, and `n` more
pushes keep its write position and every position a push reads below `2^64`, whatever the
capacity is set to in between. -/
structure RepresentsWithin (n : ℕ) (s : SpscSofi α capacityValue) (q : BoundedQueue α) :
    Prop where
  represents : Represents s q
  fits : s.writePosition + capacityValue + 1 + n < 2 ^ 64

/-- The positions of a represented ring within its budget fit a push. -/
theorem RepresentsWithin.fits_push {n : ℕ} (h : RepresentsWithin n s q) :
    s.writePosition + s.size < 2 ^ 64 := by
  have := h.fits
  have := h.represents.size_eq
  have := h.represents.capacity_le
  omega

/-- **Every call within the budget keeps the relation with equal results**, provided the
internal capacity fits and no `setCapacity` argument wraps: a push spends one unit, the other
calls none. -/
theorem represents_sofiStep (hfit : capacityValue + 1 < 2 ^ 32) :
    (sofi α capacityValue).SimulationWithin (spec α capacityValue) SetCapacityFits Op.writes
      RepresentsWithin := by
  intro n s q o h ho
  have hpush := h.fits_push
  have hfits := h.fits
  cases o with
  | push v =>
    obtain ⟨hres, hrep⟩ := represents_push h.represents hpush v
    refine ⟨congrArg Result.pushed hres, hrep, ?_⟩
    -- the write position moves on by one, paid by the unit the push spent
    have hw := push_writePosition (s := s) (by have := h.represents.size_eq; omega) v
    simp only [sofi, sofiStep, Op.writes] at hfits ⊢
    omega
  | pop =>
    obtain ⟨hres, hrep⟩ := represents_pop h.represents (by omega)
    refine ⟨congrArg Result.popped hres, hrep, ?_⟩
    -- a pop leaves the write position
    have hw := pop_writePosition s
    simp only [sofi, sofiStep, Op.writes] at hfits ⊢
    omega
  | setCapacity m =>
    have hset := setCapacity_eq h.represents hfit ho
    simp only [Op.writes] at hfits
    by_cases hq : q.items = [] ∧ m ≤ capacityValue
    · rw [if_pos hq] at hset
      refine ⟨by simp only [sofi, spec, sofiStep, specStep, hset, if_pos hq], ?_⟩
      simp only [sofi, spec, sofiStep, specStep, hset, if_pos hq]
      -- the positions restart at zero
      exact ⟨represents_nil rfl hq.2 rfl, by dsimp only; omega⟩
    · rw [if_neg hq] at hset
      refine ⟨by simp only [sofi, spec, sofiStep, specStep, hset, if_neg hq], ?_⟩
      simp only [sofi, spec, sofiStep, specStep, hset, if_neg hq]
      exact ⟨h.represents, hfits⟩
  | size =>
    -- the `uint64_t` difference does not wrap: the read position is behind the write position
    have hw := h.represents.writePosition_eq
    refine ⟨?_, h⟩
    simp only [sofi, spec, sofiStep, specStep, sizeOf, hw]
    rw [show s.readPosition + q.items.length + 2 ^ 64 - s.readPosition =
      q.items.length + 2 ^ 64 by omega, Nat.add_mod_right, Nat.mod_eq_of_lt (by omega)]
  | empty =>
    refine ⟨?_, h⟩
    simp only [sofi, spec, sofiStep, specStep, empty, h.represents.writePosition_eq]
    cases q.items <;> simp
  | capacity =>
    -- `m_size - 1` does not wrap: the abstract capacity is below `2^32`
    have hlt : q.capacity < 2 ^ 64 := by have := h.represents.capacity_le; omega
    refine ⟨?_, h⟩
    simp only [sofi, spec, sofiStep, specStep, capacity, h.represents.size_eq,
      internalCapacityAddon]
    rw [show q.capacity + 1 + 2 ^ 64 - 1 = q.capacity + 2 ^ 64 by omega, Nat.add_mod_right,
      Nat.mod_eq_of_lt hlt]

/-! ### Whole runs -/

/-- **`SpscSofi` refines the overwrite-oldest FIFO.** For every `CapacityValue` whose internal
capacity fits `uint32_t` and every sequence of calls with fewer than `2^64 - CapacityValue - 1`
pushes in which `setCapacity` is never passed `2^64 - 1`, the ring returns exactly what the
abstract queue returns, and its positions keep
`readPosition ≤ writePosition ≤ readPosition + m_size - 1`. -/
theorem spscSofi_refines_overwriting_fifo (hfit : capacityValue + 1 < 2 ^ 32) (junk : ℕ → α)
    (ops : List (Op α)) (hpushes : capacityValue + 1 + Machine.totalCost Op.writes ops < 2 ^ 64)
    (hops : (spec α capacityValue).Admits SetCapacityFits ⟨[], capacityValue⟩ ops) :
    ((sofi α capacityValue).run (new junk) ops).2 =
        ((spec α capacityValue).run ⟨[], capacityValue⟩ ops).2 ∧
      ((sofi α capacityValue).run (new junk) ops).1.readPosition ≤
        ((sofi α capacityValue).run (new junk) ops).1.writePosition ∧
      ((sofi α capacityValue).run (new junk) ops).1.writePosition + 1 ≤
        ((sofi α capacityValue).run (new junk) ops).1.readPosition +
          ((sofi α capacityValue).run (new junk) ops).1.size := by
  have hstart : RepresentsWithin (0 + Machine.totalCost Op.writes ops) (new junk : SpscSofi α capacityValue)
      ⟨[], capacityValue⟩ :=
    ⟨represents_new junk hfit, by dsimp only [new]; omega⟩
  obtain ⟨hres, hrep⟩ := (represents_sofiStep hfit).run ops hstart hops
  have hw := hrep.represents.writePosition_eq
  have hlen := hrep.represents.length_le
  have hsize := hrep.represents.size_eq
  exact ⟨hres, by omega, by omega⟩

/-- The refinement at `CapacityValue = 1` on two pushes, a pop and a reset to capacity zero. -/
theorem spscSofi_refines_overwriting_fifo_capacity_one :
    1 + 1 < 2 ^ 32 ∧ 1 + 1 + Machine.totalCost Op.writes
        ([.push 7, .push 8, .pop, .setCapacity 0] : List (Op ℕ)) < 2 ^ 64 ∧
      (spec ℕ 1).Admits SetCapacityFits ⟨[], 1⟩ [.push 7, .push 8, .pop, .setCapacity 0] ∧
      ((sofi ℕ 1).run (new fun _ ↦ 0) [.push 7, .push 8, .pop, .setCapacity 0]).2 =
          ((spec ℕ 1).run ⟨[], 1⟩ [.push 7, .push 8, .pop, .setCapacity 0]).2 ∧
        ((sofi ℕ 1).run (new fun _ ↦ 0) [.push 7, .push 8, .pop, .setCapacity 0]).1.readPosition ≤
          ((sofi ℕ 1).run (new fun _ ↦ 0)
            [.push 7, .push 8, .pop, .setCapacity 0]).1.writePosition ∧
        ((sofi ℕ 1).run (new fun _ ↦ 0)
            [.push 7, .push 8, .pop, .setCapacity 0]).1.writePosition + 1 ≤
          ((sofi ℕ 1).run (new fun _ ↦ 0)
              [.push 7, .push 8, .pop, .setCapacity 0]).1.readPosition +
            ((sofi ℕ 1).run (new fun _ ↦ 0) [.push 7, .push 8, .pop, .setCapacity 0]).1.size :=
  have hops : (spec ℕ 1).Admits SetCapacityFits ⟨[], 1⟩ [.push 7, .push 8, .pop, .setCapacity 0] :=
    ⟨trivial, trivial, trivial, show 0 + internalCapacityAddon < 2 ^ 64 by decide, trivial⟩
  ⟨by decide, by decide, hops, spscSofi_refines_overwriting_fifo (by decide) _ _ (by decide) hops⟩

/-! ### Beyond the bounds -/

/-- With `CapacityValue = 2^32` the `uint32_t` internal capacity wraps to one slot and
`capacity()` reports `0`; and `setCapacity(2^64 - 1)` wraps its internal size to `0` and
succeeds, after which `writePosition ≤ readPosition + m_size - 1` fails (the next push would
compute `% 0`). -/
theorem spscSofi_capacity_boundary :
    capacity (new (fun _ ↦ 0) : SpscSofi ℕ (2 ^ 32)) = 0 ∧
      (setCapacity (new (fun _ ↦ 0) : SpscSofi ℕ 1) (2 ^ 64 - 1)).2 = true ∧
      ¬ ((setCapacity (new (fun _ ↦ 0) : SpscSofi ℕ 1) (2 ^ 64 - 1)).1.writePosition + 1 ≤
        (setCapacity (new (fun _ ↦ 0) : SpscSofi ℕ 1) (2 ^ 64 - 1)).1.readPosition +
          (setCapacity (new (fun _ ↦ 0) : SpscSofi ℕ 1) (2 ^ 64 - 1)).1.size) := by
  decide

/-- `n` rounds of a push of `v` followed by a pop. -/
def pushPopRounds (v : α) : ℕ → List (Op α)
  | 0 => []
  | n + 1 => .push v :: .pop :: pushPopRounds v n

/-- **Rounds of a push and a pop on an empty ring** move both positions on by one each, and
answer `true` and then `v`, as long as no position a push reads reaches `2^64`. -/
theorem run_pushPopRounds (v : α) :
    ∀ (n : ℕ) (s : SpscSofi α capacityValue), s.readPosition = s.writePosition → 2 ≤ s.size →
      s.writePosition + n + s.size ≤ 2 ^ 64 →
      ((sofi α capacityValue).run s (pushPopRounds v n)).1.readPosition = s.writePosition + n ∧
      ((sofi α capacityValue).run s (pushPopRounds v n)).1.writePosition = s.writePosition + n ∧
      ((sofi α capacityValue).run s (pushPopRounds v n)).1.size = s.size ∧
      ((sofi α capacityValue).run s (pushPopRounds v n)).2 =
        (List.replicate n [Result.pushed none, Result.popped (some v)]).flatten
  | 0, s, _, _, _ => ⟨by simp [pushPopRounds]; omega, by simp [pushPopRounds], rfl, rfl⟩
  | n + 1, s, hrw, hsize, hfit => by
    -- one round: the push finds room, and the pop reads the slot just written
    have hpush := push_of_lt (s := s) hrw.le (by omega) (by omega) v
    set s₁ := (push s v).1 with hs₁
    have hpop : pop s₁ = ({ s₁ with readPosition := s.readPosition + 1 }, some v) := by
      rw [pop_of_ne (by rw [hs₁, hpush]; dsimp only; omega)]
      simp only [hs₁, hpush, hrw, Function.update_self, Prod.mk.injEq, and_true]
      congr 1
      exact Nat.mod_eq_of_lt (by omega)
    obtain ⟨hr, hw, hs, hres⟩ := run_pushPopRounds v n { s₁ with readPosition := s.readPosition + 1 }
      (by rw [hs₁, hpush, hrw]) (by rw [hs₁, hpush]; exact hsize)
      (by rw [hs₁, hpush]; dsimp only; omega)
    simp only [pushPopRounds, Machine.run_cons, sofi, sofiStep, ← hs₁, hpop] at hr hw hs hres ⊢
    rw [hpush] at hs₁
    refine ⟨by rw [hr, hs₁]; dsimp only; omega, by rw [hw, hs₁]; dsimp only; omega,
      by rw [hs, hs₁], ?_⟩
    rw [hres, hpush, List.replicate_succ, List.flatten_cons]
    rfl

/-- The same rounds on the abstract queue, from the empty queue. -/
theorem spec_run_pushPopRounds (v : α) {k : ℕ} (hk : 0 < k) :
    ∀ n, ((spec α capacityValue).run ⟨[], k⟩ (pushPopRounds v n)).1 = ⟨[], k⟩ ∧
      ((spec α capacityValue).run ⟨[], k⟩ (pushPopRounds v n)).2 =
        (List.replicate n [Result.pushed none, Result.popped (some v)]).flatten
  | 0 => ⟨rfl, rfl⟩
  | n + 1 => by
    obtain ⟨hq, hres⟩ := spec_run_pushPopRounds v hk n
    have hpush : BoundedQueue.push ⟨[], k⟩ v = (⟨[v], k⟩, none) :=
      BoundedQueue.push_of_lt (q := ⟨[], k⟩) (by simpa using hk) v
    simp only [pushPopRounds, Machine.run_cons, spec, specStep, hpush, BoundedQueue.pop_cons] at hq hres ⊢
    exact ⟨hq, by rw [hres, List.replicate_succ, List.flatten_cons]; rfl⟩

/-- **After `2^64 - 3` rounds the ring evicts from an empty queue.** On a ring of capacity two
(`m_size = 3`), both positions reach `2^64 - 3`; the next push computes `currentReadPosition +
m_size = 2^64`, which wraps to `0`, finds no room, and hands back the value it has just written,
where the abstract queue, empty, takes it. -/
theorem spscSofi_push_evicts_after_wrap :
    ((sofi ℕ 2).run (new fun _ ↦ 0) (pushPopRounds 0 (2 ^ 64 - 3) ++ [.push 1])).2.getLast? =
        some (.pushed (some 1)) ∧
      ((spec ℕ 2).run ⟨[], 2⟩ (pushPopRounds 0 (2 ^ 64 - 3) ++ [.push 1])).2.getLast? =
        some (.pushed none) := by
  obtain ⟨hr, hw, hs, -⟩ := run_pushPopRounds 0 (2 ^ 64 - 3)
    (new fun _ ↦ 0 : SpscSofi ℕ 2) rfl (by decide) (by decide)
  obtain ⟨hq, -⟩ := @spec_run_pushPopRounds ℕ 2 0 2 (by decide) (2 ^ 64 - 3)
  rw [Machine.run_append, Machine.run_append]
  set t := ((sofi ℕ 2).run (new fun _ ↦ 0) (pushPopRounds 0 (2 ^ 64 - 3))).1
  have hsize : t.size = 3 := hs
  have hr' : t.readPosition = 2 ^ 64 - 3 := hr
  have hw' : t.writePosition = 2 ^ 64 - 3 := hw
  -- `(2^64 - 3) + 3` wraps to `0`: no room
  have hfull : ¬(t.writePosition + 1) % 2 ^ 64 < (t.readPosition + t.size) % 2 ^ 64 := by
    rw [hr', hw', hsize]
    decide
  refine ⟨?_, ?_⟩
  · simp only [Machine.run_cons, Machine.run_nil, sofi, sofiStep, push_of_overflow hfull,
      hr', hw', Function.update_self, List.getLast?_append, List.getLast?_singleton, Option.some_or]
  · rw [hq]
    simp only [Machine.run_cons, Machine.run_nil, spec, specStep,
      BoundedQueue.push_of_lt (q := ⟨[], 2⟩) (by decide) 1, List.getLast?_append,
      List.getLast?_singleton, Option.some_or]

/-- **Outside the bounds the refinement fails**: the capacity and `setCapacity` boundaries, and a
run of more than `2^64 - CapacityValue - 1` pushes. -/
theorem spscSofi_refinement_fails_beyond_bounds :
    (capacity (new (fun _ ↦ 0) : SpscSofi ℕ (2 ^ 32)) = 0 ∧
      (setCapacity (new (fun _ ↦ 0) : SpscSofi ℕ 1) (2 ^ 64 - 1)).2 = true ∧
      ¬ ((setCapacity (new (fun _ ↦ 0) : SpscSofi ℕ 1) (2 ^ 64 - 1)).1.writePosition + 1 ≤
        (setCapacity (new (fun _ ↦ 0) : SpscSofi ℕ 1) (2 ^ 64 - 1)).1.readPosition +
          (setCapacity (new (fun _ ↦ 0) : SpscSofi ℕ 1) (2 ^ 64 - 1)).1.size)) ∧
    (((sofi ℕ 2).run (new fun _ ↦ 0) (pushPopRounds 0 (2 ^ 64 - 3) ++ [.push 1])).2.getLast? =
        some (.pushed (some 1)) ∧
      ((spec ℕ 2).run ⟨[], 2⟩ (pushPopRounds 0 (2 ^ 64 - 3) ++ [.push 1])).2.getLast? =
        some (.pushed none)) :=
  ⟨spscSofi_capacity_boundary, spscSofi_push_evicts_after_wrap⟩

end SpscSofi

end Iox.Concurrent
