import Mathlib.Data.List.Range
import Iceoryx.Machine.Run
import Iceoryx.Data.BoundedQueue
import Iceoryx.Hoofs.CyclicIndex

/-!
# `MpmcIndexQueue`: a FIFO of indices decided by cycles

`iox::concurrent::MpmcIndexQueue<Capacity>` (`mpmc_index_queue.inl`) stores indices below
`Capacity` in `Capacity` cells. The read and write positions are `CyclicIndex<Capacity>` values
over `uint64_t`, and each cell holds the pushed index together with the cycle of the write
position that stored it. Pop never clears a cell: a cell is free for the writer when its cycle is
one behind the write position, and readable when its cycle equals the read position's.

## The model

Calls are sequential. Each `do { ... } while` loop is a `Loop.iterate` with fuel, so a call that
goes round forever is `none` at every fuel. The compare-exchanges on `m_readPosition` and
`m_writePosition` are `compareExchange`; the one on a cell in `push` compares the cell with the
value just loaded from it, so sequentially it is a store. Weak compare-exchanges are taken not
to fail spuriously.

## The invariant

`Holds q R Q` reads the queue as the list `Q` of indices starting at logical read position `R`,
with logical write position `W = R + Q.length` and concrete positions `pos R`, `pos W` (the
values `next()` reaches from `0` in that many steps). Every cell records the cycle of the last
position that wrote it, one of the `Capacity` positions before `W`, and the cells of positions
`R, ..., W - 1` hold `Q`. The step lemmas need the cycle comparisons at `W` to be sound
(`CycleSound`): before the 64-bit overflow, or for a capacity dividing `2 ^ 64`.

## What is proved

* every operation keeps `Holds` and returns what the abstract queue returns
  (`push_of_holds`, `pop_of_holds_cons`, `popIfFull_of_full`, `empty_of_holds`, ...);
* for a capacity dividing `2 ^ 64` the queue refines the FIFO on every run, positions
  overflowing or not (`mpmcIndexQueue_refines_fifo_of_dvd`);
* for `Capacity = 3`, after `2 ^ 64 - 3` pairs of `push(0)` and `pop()` from the empty queue,
  the write position has overflowed to `OVERFLOW_START_INDEX = 1` in cycle `0` while the cell
  it points at still carries cycle `MAX_CYCLE - 1`, and the next `push` never returns
  (`mpmcIndexQueue_push_hangs_after_wrap`).
-/

namespace Iox.Concurrent

open CyclicIndex

/-- The state of an `MpmcIndexQueue<Capacity>`: `m_cells`, `m_readPosition` and
`m_writePosition`, all `CyclicIndex<Capacity>` over `uint64_t`. Only cells below `Capacity` are
ever addressed. -/
structure MpmcIndexQueue (capacity : ℕ) where
  /-- `m_cells`. -/
  cells : ℕ → CyclicIndex capacity 64
  /-- `m_readPosition`. -/
  readPosition : CyclicIndex capacity 64
  /-- `m_writePosition`. -/
  writePosition : CyclicIndex capacity 64

namespace MpmcIndexQueue

variable {capacity : ℕ}

/-- `MpmcIndexQueue(ConstructEmpty)`: both positions at `Index(Capacity)`, every cell
`Index(0)`. -/
def constructEmpty : MpmcIndexQueue capacity where
  cells := fun _ ↦ ofValue 0
  readPosition := ofValue capacity
  writePosition := ofValue capacity

/-- `MpmcIndexQueue(ConstructFull)`: read position `Index(0)`, write position
`Index(Capacity)`, cell `i` holding `Index(i)`. -/
def constructFull : MpmcIndexQueue capacity where
  cells := fun i ↦ ofValue i
  readPosition := ofValue 0
  writePosition := ofValue capacity

/-- `loadvalueAt(position)`: the cell of the position's index. -/
def loadvalueAt (q : MpmcIndexQueue capacity) (position : CyclicIndex capacity 64) :
    CyclicIndex capacity 64 :=
  q.cells position.getIndex

/-- One pass of the loop of `push(index)` from the local `writePosition`: publish into a free
cell (case 1), help move a lagging `m_writePosition` on (case 2), or reload it (cases 3, 4). -/
def pushPass (index : ℕ) :
    CyclicIndex capacity 64 × MpmcIndexQueue capacity →
      (CyclicIndex capacity 64 × MpmcIndexQueue capacity) ⊕
        (CyclicIndex capacity 64 × MpmcIndexQueue capacity)
  | (writePosition, q) =>
    let oldValue := q.loadvalueAt writePosition
    if oldValue.isOneCycleBehind writePosition then
      .inr (writePosition,
        { q with
          cells := Function.update q.cells writePosition.getIndex
            (ofIndexCycle index writePosition.getCycle) })
    else if oldValue.getCycle = writePosition.getCycle then
      let (current, expected, _) :=
        compareExchange q.writePosition writePosition (writePosition.add 1)
      .inl (expected, { q with writePosition := current })
    else
      .inl (q.writePosition, q)

/-- `push(index)`: the loop, then the compare-exchange of `m_writePosition` to the next
position. `none` when the loop did not leave within `fuel` passes. -/
def push (fuel : ℕ) (q : MpmcIndexQueue capacity) (index : ℕ) :
    Option (MpmcIndexQueue capacity) :=
  (Loop.iterate (pushPass index) fuel (q.writePosition, q)).map fun (writePosition, q) ↦
    { q with
      writePosition := (compareExchange q.writePosition writePosition (writePosition.add 1)).1 }

/-- One pass of the loop of `pop(index)` from the local `readPosition`: take a cell of the same
cycle by moving `m_readPosition` on (case 1), report an empty queue when the cell is one cycle
behind (case 2), or reload (cases 3, 4). -/
def popPass :
    CyclicIndex capacity 64 × MpmcIndexQueue capacity →
      (CyclicIndex capacity 64 × MpmcIndexQueue capacity) ⊕ (MpmcIndexQueue capacity × Option ℕ)
  | (readPosition, q) =>
    let value := q.loadvalueAt readPosition
    if readPosition.getCycle = value.getCycle then
      let (current, expected, ownershipGained) :=
        compareExchange q.readPosition readPosition (readPosition.add 1)
      if ownershipGained then .inr ({ q with readPosition := current }, some value.getIndex)
      else .inl (expected, q)
    else if value.isOneCycleBehind readPosition then
      .inr (q, none)
    else
      .inl (q.readPosition, q)

/-- `pop()`: the index popped, or `none` for an empty queue; `none` outside when the loop did
not leave within `fuel` passes. -/
def pop (fuel : ℕ) (q : MpmcIndexQueue capacity) : Option (MpmcIndexQueue capacity × Option ℕ) :=
  Loop.iterate popPass fuel (q.readPosition, q)

/-- `popIfFull()`: pop only when the write position has the read position's index one cycle
ahead. -/
def popIfFull (q : MpmcIndexQueue capacity) : MpmcIndexQueue capacity × Option ℕ :=
  let writePosition := q.writePosition
  let readPosition := q.readPosition
  let value := q.loadvalueAt readPosition
  if writePosition.getIndex = readPosition.getIndex ∧
      readPosition.isOneCycleBehind writePosition then
    let (current, _, ownershipGained) :=
      compareExchange q.readPosition readPosition (readPosition.add 1)
    ({ q with readPosition := current }, if ownershipGained then some value.getIndex else none)
  else
    (q, none)

/-- `popIfSizeIsAtLeast(minSize)`: `pop()` for `0`; otherwise pop when the signed distance
`writePosition - readPosition` is at least `minSize`. -/
def popIfSizeIsAtLeast (fuel minSize : ℕ) (q : MpmcIndexQueue capacity) :
    Option (MpmcIndexQueue capacity × Option ℕ) :=
  if minSize = 0 then pop fuel q
  else
    let writePosition := q.writePosition
    let readPosition := q.readPosition
    let delta := writePosition.sub readPosition
    if delta < 0 then some (q, none)
    else if minSize ≤ delta.toNat then
      let value := q.loadvalueAt readPosition
      let (current, _, ownershipGained) :=
        compareExchange q.readPosition readPosition (readPosition.add 1)
      some ({ q with readPosition := current },
        if ownershipGained then some value.getIndex else none)
    else some (q, none)

/-- `empty()`: the cell at the read position is one cycle behind it. -/
def empty (q : MpmcIndexQueue capacity) : Bool :=
  (q.loadvalueAt q.readPosition).isOneCycleBehind q.readPosition

/-! ### The invariant -/

/-- The cycle comparisons at the logical position `W` are sound: `W` has not passed the 64-bit
overflow, or the capacity divides `2 ^ 64`. -/
def CycleSound (capacity W : ℕ) : Prop := W < 2 ^ 64 ∨ capacity ∣ 2 ^ 64

/-- The queue **holds** the list `Q` from the logical read position `R`: the positions are
`pos R` and `pos W` for `W = R + Q.length`, each cell carries the cycle of the last of the
`Capacity` positions before `W` that maps to it, and the cells of `R, ..., W - 1` hold `Q`. -/
structure Holds (q : MpmcIndexQueue capacity) (R : ℕ) (Q : List ℕ) : Prop where
  readPosition_eq : q.readPosition = pos capacity 64 R
  writePosition_eq : q.writePosition = pos capacity 64 (R + Q.length)
  length_le : Q.length ≤ capacity
  capacity_le : capacity ≤ R + Q.length
  lt_capacity : ∀ i ∈ Q, i < capacity
  cycle_eq : ∀ p, R + Q.length - capacity ≤ p → p < R + Q.length →
    (q.cells (p % capacity)).getCycle = (pos capacity 64 p).getCycle
  index_eq : ∀ k (hk : k < Q.length), (q.cells ((R + k) % capacity)).getIndex = Q[k]

section Steps

variable (h : Admissible capacity 64)
include h

theorem loadvalueAt_pos (q : MpmcIndexQueue capacity) (p : ℕ) :
    q.loadvalueAt (pos capacity 64 p) = q.cells (p % capacity) := by
  rw [loadvalueAt, getIndex_pos h]

/-- The empty queue holds `[]` from position `Capacity`: its cells are in cycle `0`, one
behind the positions. -/
theorem holds_constructEmpty : Holds (constructEmpty : MpmcIndexQueue capacity) capacity [] where
  readPosition_eq := (pos_of_lt h.lt_two_pow).symm
  writePosition_eq := (pos_of_lt h.lt_two_pow).symm
  length_le := Nat.zero_le _
  capacity_le := le_rfl
  lt_capacity := fun _ hi ↦ absurd hi List.not_mem_nil
  cycle_eq := fun p _ hp ↦ by
    have hp' : p < 2 ^ 64 := by have := h.lt_two_pow; simp at hp; omega
    simp only [constructEmpty, getCycle, ofValue_value, pos_of_lt hp', Nat.zero_mod, Nat.zero_div]
    simp at hp
    rw [Nat.mod_eq_of_lt hp', Nat.div_eq_of_lt hp]
  index_eq := fun _ hk ↦ absurd hk (Nat.not_lt_zero _)

/-- The full queue holds `0, ..., Capacity - 1` from position `0`. -/
theorem holds_constructFull :
    Holds (constructFull : MpmcIndexQueue capacity) 0 (List.range capacity) where
  readPosition_eq := (pos_of_lt (Nat.two_pow_pos 64)).symm
  writePosition_eq := by
    rw [List.length_range, Nat.zero_add]
    exact (pos_of_lt h.lt_two_pow).symm
  length_le := by simp
  capacity_le := by simp
  lt_capacity := fun _ hi ↦ List.mem_range.1 hi
  cycle_eq := fun p _ hp ↦ by
    have hp' : p < capacity := by simpa using hp
    have hp'' : p < 2 ^ 64 := hp'.trans h.lt_two_pow
    simp only [constructFull, getCycle, ofValue_value, pos_of_lt hp'', Nat.mod_eq_of_lt hp']
  index_eq := fun k hk ↦ by
    have hk' : k < capacity := by simpa using hk
    simp only [constructFull, getIndex, ofValue_value, Nat.zero_add, Nat.mod_eq_of_lt hk',
      Nat.mod_eq_of_lt (hk'.trans h.lt_two_pow), List.getElem_range]

/-- The cell of the write position was last written one lap back. -/
theorem Holds.cycle_write {q : MpmcIndexQueue capacity} {R : ℕ} {Q : List ℕ} (hq : Holds q R Q) :
    (q.cells ((R + Q.length) % capacity)).getCycle =
      (pos capacity 64 (R + Q.length - capacity)).getCycle := by
  have := hq.cycle_eq (R + Q.length - capacity) le_rfl (by have := h.pos; have := hq.capacity_le; omega)
  rwa [← Nat.mod_eq_sub_mod hq.capacity_le] at this

omit h in
/-- The cell of the read position of a nonempty queue was written at the read position. -/
theorem Holds.cycle_read {q : MpmcIndexQueue capacity} {R a : ℕ} {Q : List ℕ}
    (hq : Holds q R (a :: Q)) : (q.cells (R % capacity)).getCycle = (pos capacity 64 R).getCycle :=
  hq.cycle_eq R (by have := hq.length_le; simp at this ⊢; omega) (by simp)

omit h in
/-- Moving the read position past the head leaves the rest of the list held. -/
theorem Holds.pop {q : MpmcIndexQueue capacity} {R a : ℕ} {Q : List ℕ}
    (hq : Holds q R (a :: Q)) : Holds { q with readPosition := pos capacity 64 (R + 1) } (R + 1) Q where
  readPosition_eq := rfl
  writePosition_eq := by
    rw [show R + 1 + Q.length = R + (a :: Q).length by simp; omega]
    exact hq.writePosition_eq
  length_le := by have := hq.length_le; simp at this; omega
  capacity_le := by have := hq.capacity_le; simp at this; omega
  lt_capacity := fun i hi ↦ hq.lt_capacity i (List.mem_cons_of_mem a hi)
  cycle_eq := fun p hp₁ hp₂ ↦ hq.cycle_eq p (by simp; omega) (by simp; omega)
  index_eq := fun k hk ↦ by
    -- the `k`-th of the rest is the `k + 1`-th of the whole list
    have := hq.index_eq (k + 1) (by simp; omega)
    rwa [show R + (k + 1) = R + 1 + k by omega, List.getElem_cons_succ] at this

/-- **Push** into a queue with room, at a write position where the cycles are sound and the
index fits its cycle: the loop leaves at its first pass, having written the free cell, and
`m_writePosition` moves on. -/
theorem push_of_holds {q : MpmcIndexQueue capacity} {R i : ℕ} {Q : List ℕ} (hq : Holds q R Q)
    (hroom : Q.length < capacity) (hi : i < capacity)
    (hsafe : CycleSound capacity (R + Q.length))
    (hfit : i + (pos capacity 64 (R + Q.length)).getCycle * capacity < 2 ^ 64) (fuel : ℕ) :
    ∃ q', q.push (fuel + 1) i = some q' ∧ Holds q' R (Q ++ [i]) := by
  have hC := h.pos
  have hcap := hq.capacity_le
  -- the cell of the write position was written a lap back, so it is free
  have hfree : (q.loadvalueAt (pos capacity 64 (R + Q.length))).isOneCycleBehind
      (pos capacity 64 (R + Q.length)) = true := by
    rw [loadvalueAt_pos h, isOneCycleBehind_congr (hq.cycle_write h)]
    exact isOneCycleBehind_pos h hcap hsafe
  -- the value published: the index in the cycle of the write position
  set cell : CyclicIndex capacity 64 := ofIndexCycle i (pos capacity 64 (R + Q.length)).getCycle
  have hpass : pushPass i (q.writePosition, q) = .inr (q.writePosition,
      { q with cells := Function.update q.cells ((R + Q.length) % capacity) cell }) := by
    simp only [pushPass, hq.writePosition_eq, hfree, if_true, getIndex_pos h, cell]
  refine ⟨{ q with
      cells := Function.update q.cells ((R + Q.length) % capacity) cell
      writePosition := pos capacity 64 (R + Q.length + 1) }, ?_, ?_⟩
  · rw [push, Loop.iterate_succ_of_inr hpass, Option.map_some]
    simp only [compareExchange_self, hq.writePosition_eq, add_one h, next_pos h]
  · constructor
    · exact hq.readPosition_eq
    · simp [Nat.add_assoc]
    · simp; omega
    · simp; omega
    · intro j hj
      rcases List.mem_append.1 hj with hj | hj
      · exact hq.lt_capacity j hj
      · rw [List.mem_singleton.1 hj]
        exact hi
    · -- the new cell is in the cycle of `W`; the other cells of the window are untouched
      intro p hp₁ hp₂
      simp only [List.length_append, List.length_singleton] at hp₁ hp₂
      dsimp only
      rcases Nat.lt_succ_iff_lt_or_eq.1 (by omega : p < R + Q.length + 1) with hp | rfl
      · rw [update_mod_of_lt_of_lt hp (by omega)]
        exact hq.cycle_eq p (by omega) hp
      · rw [Function.update_self, getCycle_ofIndexCycle hi hfit]
    · intro k hk
      simp only [List.length_append, List.length_singleton] at hk
      dsimp only
      rcases Nat.lt_succ_iff_lt_or_eq.1 hk with hk | rfl
      · rw [update_mod_of_lt_of_lt (by omega) (by omega), hq.index_eq k hk,
          List.getElem_append_left hk]
      · rw [Function.update_self, getIndex_ofIndexCycle hi hfit]
        simp

/-- **Pop** from a nonempty queue: the read cell has the read position's cycle, the
compare-exchange moves `m_readPosition` on, and the head is returned. -/
theorem pop_of_holds_cons {q : MpmcIndexQueue capacity} {R a : ℕ} {Q : List ℕ}
    (hq : Holds q R (a :: Q)) (fuel : ℕ) :
    q.pop (fuel + 1) = some ({ q with readPosition := pos capacity 64 (R + 1) }, some a) := by
  have hidx : (q.cells (R % capacity)).getIndex = a := hq.index_eq 0 (by simp)
  have hpass : popPass (q.readPosition, q) =
      .inr ({ q with readPosition := pos capacity 64 (R + 1) }, some a) := by
    simp only [popPass, hq.readPosition_eq, loadvalueAt_pos h, hq.cycle_read, if_true,
      compareExchange_self, add_one h, next_pos h, hidx]
  rw [pop, Loop.iterate_succ_of_inr hpass]

/-- **Pop** from an empty queue: the read cell is one cycle behind, so `pop` reports empty. -/
theorem pop_of_holds_nil {q : MpmcIndexQueue capacity} {R : ℕ} (hq : Holds q R [])
    (hsafe : CycleSound capacity R) (fuel : ℕ) : q.pop (fuel + 1) = some (q, none) := by
  have hcell : (q.cells (R % capacity)).getCycle = (pos capacity 64 (R - capacity)).getCycle := by
    simpa using hq.cycle_write h
  have hbehind : (pos capacity 64 (R - capacity)).isOneCycleBehind (pos capacity 64 R) = true :=
    isOneCycleBehind_pos h (by simpa using hq.capacity_le) hsafe
  have hne : (pos capacity 64 R).getCycle ≠ (q.cells (R % capacity)).getCycle := by
    rw [hcell]
    exact (getCycle_ne_of_isOneCycleBehind h hbehind).symm
  have hpass : popPass (q.readPosition, q) = .inr (q, none) := by
    simp only [popPass, hq.readPosition_eq, loadvalueAt_pos h, if_neg hne,
      isOneCycleBehind_congr hcell, hbehind, if_true]
  rw [pop, Loop.iterate_succ_of_inr hpass]

/-- `popIfFull` on a full queue: the write position has the read position's index one cycle
ahead, and the head is popped. -/
theorem popIfFull_of_full {q : MpmcIndexQueue capacity} {R a : ℕ} {Q : List ℕ}
    (hq : Holds q R (a :: Q)) (hfull : Q.length + 1 = capacity)
    (hsafe : CycleSound capacity (R + capacity)) :
    q.popIfFull = ({ q with readPosition := pos capacity 64 (R + 1) }, some a) := by
  have hW : q.writePosition = pos capacity 64 (R + capacity) := by
    rw [hq.writePosition_eq, List.length_cons, hfull]
  have hidx : (pos capacity 64 (R + capacity)).getIndex = (pos capacity 64 R).getIndex := by
    rw [getIndex_pos h, getIndex_pos h, Nat.add_mod_right]
  have hbehind : (pos capacity 64 R).isOneCycleBehind (pos capacity 64 (R + capacity)) = true := by
    have := isOneCycleBehind_pos h (Nat.le_add_left capacity R) hsafe
    rwa [Nat.add_sub_cancel] at this
  have hhead : (q.cells (R % capacity)).getIndex = a := hq.index_eq 0 (by simp)
  simp only [popIfFull, hW, hq.readPosition_eq, hidx, hbehind, and_self, if_true,
    compareExchange_self, add_one h, next_pos h, loadvalueAt_pos h, hhead]

/-- `popIfFull` on a queue that is not full: either the indices of the positions differ, or
they are equal because the queue is empty and the read position is not one cycle behind
itself. -/
theorem popIfFull_of_not_full {q : MpmcIndexQueue capacity} {R : ℕ} {Q : List ℕ}
    (hq : Holds q R Q) (hnf : Q.length ≠ capacity) : q.popIfFull = (q, none) := by
  have hnot : ¬ ((pos capacity 64 (R + Q.length)).getIndex = (pos capacity 64 R).getIndex ∧
      (pos capacity 64 R).isOneCycleBehind (pos capacity 64 (R + Q.length)) = true) := by
    rintro ⟨hidx, hbehind⟩
    rcases Nat.eq_zero_or_pos Q.length with h0 | hpos
    · rw [h0, Nat.add_zero, isOneCycleBehind_self h] at hbehind
      exact Bool.false_ne_true hbehind
    · rw [getIndex_pos h, getIndex_pos h] at hidx
      have := hq.length_le
      exact mod_ne_of_lt_of_lt (by omega : R < R + Q.length) (by omega) hidx.symm
  simp only [popIfFull, hq.writePosition_eq, hq.readPosition_eq]
  rw [if_neg hnot]

/-- `popIfSizeIsAtLeast` with a positive bound the queue meets: the distance of the positions is
the length, and the head is popped. -/
theorem popIfSizeIsAtLeast_of_le {q : MpmcIndexQueue capacity} {R a n : ℕ} {Q : List ℕ}
    (hq : Holds q R (a :: Q)) (hn : 0 < n) (hle : n ≤ Q.length + 1)
    (hsafe : CycleSound capacity (R + (Q.length + 1))) (fuel : ℕ) :
    q.popIfSizeIsAtLeast fuel n =
      some ({ q with readPosition := pos capacity 64 (R + 1) }, some a) := by
  have hlen := hq.length_le
  have hC := h.lt_two_pow_63
  have hdelta : (pos capacity 64 (R + (Q.length + 1))).sub (pos capacity 64 R) =
      ((Q.length + 1 : ℕ) : ℤ) := by
    have := sub_pos h (Nat.le_add_right R (Q.length + 1)) (by simp at hlen; omega)
      (by have := h.lt_two_pow; simp at hlen; omega) hsafe
    rwa [Nat.add_sub_cancel_left] at this
  have hhead : (q.cells (R % capacity)).getIndex = a := hq.index_eq 0 (by simp)
  simp only [popIfSizeIsAtLeast, Nat.pos_iff_ne_zero.1 hn, if_false, hq.writePosition_eq,
    List.length_cons, hq.readPosition_eq, hdelta, loadvalueAt_pos h, compareExchange_self,
    add_one h, next_pos h, hhead, if_true]
  rw [if_neg (by omega), if_pos (by simp; omega)]

/-- `popIfSizeIsAtLeast` with a positive bound above the length leaves the queue alone. -/
theorem popIfSizeIsAtLeast_of_lt {q : MpmcIndexQueue capacity} {R n : ℕ} {Q : List ℕ}
    (hq : Holds q R Q) (hn : 0 < n) (hlt : Q.length < n)
    (hsafe : CycleSound capacity (R + Q.length)) (fuel : ℕ) :
    q.popIfSizeIsAtLeast fuel n = some (q, none) := by
  have hlen := hq.length_le
  have hC := h.lt_two_pow_63
  have hdelta : (pos capacity 64 (R + Q.length)).sub (pos capacity 64 R) =
      ((Q.length : ℕ) : ℤ) := by
    have := sub_pos h (Nat.le_add_right R Q.length) (by omega)
      (by have := h.lt_two_pow; omega) hsafe
    rwa [Nat.add_sub_cancel_left] at this
  simp only [popIfSizeIsAtLeast, Nat.pos_iff_ne_zero.1 hn, if_false, hq.writePosition_eq,
    hq.readPosition_eq, hdelta]
  rw [if_neg (by omega), if_neg (by simp; omega)]

/-- **`empty()`** reads the read cell's cycle: one behind for an empty queue, equal otherwise. -/
theorem empty_of_holds {q : MpmcIndexQueue capacity} {R : ℕ} {Q : List ℕ} (hq : Holds q R Q)
    (hsafe : CycleSound capacity (R + Q.length)) : q.empty = Q.isEmpty := by
  cases Q with
  | nil =>
    have hcell : (q.cells (R % capacity)).getCycle =
        (pos capacity 64 (R - capacity)).getCycle := by
      simpa using hq.cycle_write h
    rw [empty, hq.readPosition_eq, loadvalueAt_pos h, isOneCycleBehind_congr hcell,
      isOneCycleBehind_pos h (by simpa using hq.capacity_le) (by simpa [CycleSound] using hsafe)]
    rfl
  | cons a Q =>
    rw [empty, hq.readPosition_eq, loadvalueAt_pos h, isOneCycleBehind_congr hq.cycle_read,
      isOneCycleBehind_self h]
    rfl

/-- **A push that never returns**: when the cell of the write position carries a cycle that is
neither the write position's nor one behind it, every pass of the loop reloads the same write
position. -/
theorem push_of_stuck {q : MpmcIndexQueue capacity} {R : ℕ} {Q : List ℕ} (hq : Holds q R Q)
    (hbehind : (pos capacity 64 (R + Q.length - capacity)).isOneCycleBehind
      (pos capacity 64 (R + Q.length)) = false)
    (hcyc : (pos capacity 64 (R + Q.length - capacity)).getCycle ≠
      (pos capacity 64 (R + Q.length)).getCycle) (i fuel : ℕ) : q.push fuel i = none := by
  have hpass : pushPass i (q.writePosition, q) = .inl (q.writePosition, q) := by
    simp only [pushPass, hq.writePosition_eq, loadvalueAt_pos h,
      isOneCycleBehind_congr (hq.cycle_write h), hbehind, hq.cycle_write h, hcyc]
    rfl
  rw [push, Loop.iterate_of_fixpoint hpass, Option.map_none]

end Steps

/-! ### Runs -/

/-- A call on the index queue. -/
inductive Op where
  | push (index : ℕ)
  | pop
  | popIfFull
  | popIfSizeIsAtLeast (minSize : ℕ)
  | empty

/-- What a call returns; `stuck` for a call whose loop did not leave within the fuel. -/
inductive Result where
  | pushed
  | popped (index : Option ℕ)
  | empty (isEmpty : Bool)
  | stuck
  deriving DecidableEq

/-- The state and result after a popping call, or `stuck`. -/
def popResult : Option (MpmcIndexQueue capacity × Option ℕ) →
    Option (MpmcIndexQueue capacity) × Result
  | some (q, index) => (some q, .popped index)
  | none => (none, .stuck)

/-- One call with `fuel` passes for each loop; after a call that got stuck nothing returns. -/
def queueStep (fuel : ℕ) :
    Option (MpmcIndexQueue capacity) → Op → Option (MpmcIndexQueue capacity) × Result
  | none, _ => (none, .stuck)
  | some q, .push index =>
    match q.push fuel index with
    | some q' => (some q', .pushed)
    | none => (none, .stuck)
  | some q, .pop => popResult (q.pop fuel)
  | some q, .popIfFull => (some q.popIfFull.1, .popped q.popIfFull.2)
  | some q, .popIfSizeIsAtLeast minSize => popResult (q.popIfSizeIsAtLeast fuel minSize)
  | some q, .empty => (some q, .empty q.empty)

/-- The index queue as a machine. -/
def machine (capacity fuel : ℕ) : Machine (Option (MpmcIndexQueue capacity)) Op Result :=
  ⟨queueStep fuel⟩

/-- One call on the abstract FIFO of indices. -/
def specStep (q : BoundedQueue ℕ) : Op → BoundedQueue ℕ × Result
  | .push index => (⟨q.items ++ [index], q.capacity⟩, .pushed)
  | .pop => (q.pop.1, .popped q.pop.2)
  | .popIfFull =>
    if q.items.length = q.capacity then (q.pop.1, .popped q.pop.2) else (q, .popped none)
  | .popIfSizeIsAtLeast minSize =>
    if minSize ≤ q.items.length then (q.pop.1, .popped q.pop.2) else (q, .popped none)
  | .empty => (q, .empty q.items.isEmpty)

/-- **The abstract index queue**: a FIFO of capacity `Capacity` whose conditional pops test the
length. -/
def spec : Machine (BoundedQueue ℕ) Op Result := ⟨specStep⟩

/-- The caller's obligation: only indices below the capacity are pushed, and only into a queue
with room (the queue is used for a bounded set of indices and "cannot overflow"). -/
def Pushable : BoundedQueue ℕ → Op → Prop
  | q, .push index => index < q.capacity ∧ q.items.length < q.capacity
  | _, _ => True

/-- The concrete queue has returned from every call so far and holds the abstract list. -/
def Abstracts (capacity : ℕ) (s : Option (MpmcIndexQueue capacity)) (Q : BoundedQueue ℕ) :
    Prop :=
  Q.capacity = capacity ∧ ∃ q R, s = some q ∧ Holds q R Q.items

section Refinement

variable (h : Admissible capacity 64)
include h

/-- `pop` as a machine step, from a queue holding `Q` with sound cycles at the write position. -/
theorem abstracts_pop {q : MpmcIndexQueue capacity} {R : ℕ} {Q : BoundedQueue ℕ}
    (hcap : Q.capacity = capacity) (hq : Holds q R Q.items)
    (hsafe : CycleSound capacity (R + Q.items.length)) (fuel : ℕ) :
    (popResult (q.pop (fuel + 1))).2 = .popped Q.pop.2 ∧
      Abstracts capacity (popResult (q.pop (fuel + 1))).1 Q.pop.1 := by
  rcases Q with ⟨_ | ⟨a, rest⟩, c⟩
  · rw [pop_of_holds_nil h hq (by simpa using hsafe)]
    exact ⟨rfl, hcap, q, R, rfl, hq⟩
  · rw [pop_of_holds_cons h hq]
    exact ⟨rfl, hcap, _, R + 1, rfl, hq.pop⟩

omit h in
theorem popIfSizeIsAtLeast_zero (q : MpmcIndexQueue capacity) (fuel : ℕ) :
    q.popIfSizeIsAtLeast fuel 0 = q.pop fuel :=
  if_pos rfl

/-- **Every call keeps the abstraction with the abstract result** when the capacity divides
`2 ^ 64`, as long as some pass of each loop is allowed. -/
theorem abstracts_queueStep (hd : capacity ∣ 2 ^ 64) (fuel : ℕ) :
    (machine capacity (fuel + 1)).Simulation spec Pushable (Abstracts capacity) := by
  rintro s Q o ⟨hcap, q, R, rfl, hq⟩ ho
  have hsafe : ∀ W, CycleSound capacity W := fun _ ↦ Or.inr hd
  cases o with
  | push index =>
    obtain ⟨hi, hroom⟩ := ho
    rw [hcap] at hi hroom
    obtain ⟨q', hpush, hq'⟩ := push_of_holds h hq hroom hi (hsafe _) (fits_of_dvd hd hi _) fuel
    refine ⟨?_, hcap, q', R, ?_, hq'⟩
    · simp only [machine, spec, queueStep, specStep, hpush]
    · simp only [machine, queueStep, hpush]
  | pop => exact abstracts_pop h hcap hq (hsafe _) fuel
  | popIfFull =>
    simp only [machine, spec, queueStep, specStep]
    by_cases hfull : Q.items.length = Q.capacity
    · rcases Q with ⟨_ | ⟨a, rest⟩, c⟩
      · -- an empty queue of positive capacity is not full
        have := h.pos
        simp only [List.length_nil] at hfull hcap
        omega
      · simp only [List.length_cons] at hfull hcap
        rw [popIfFull_of_full h hq (by omega) (hsafe _), if_pos (by simpa using hfull)]
        exact ⟨rfl, hcap, _, R + 1, rfl, hq.pop⟩
    · rw [popIfFull_of_not_full h hq (hcap ▸ hfull), if_neg hfull]
      exact ⟨rfl, hcap, q, R, rfl, hq⟩
  | popIfSizeIsAtLeast n =>
    simp only [machine, spec, queueStep, specStep]
    rcases Nat.eq_zero_or_pos n with rfl | hn
    · rw [popIfSizeIsAtLeast_zero, if_pos (Nat.zero_le _)]
      exact abstracts_pop h hcap hq (hsafe _) fuel
    · by_cases hle : n ≤ Q.items.length
      · rcases Q with ⟨_ | ⟨a, rest⟩, c⟩
        · simp only [List.length_nil] at hle
          omega
        · rw [popIfSizeIsAtLeast_of_le h hq hn (by simpa using hle) (hsafe _), if_pos hle]
          exact ⟨rfl, hcap, _, R + 1, rfl, hq.pop⟩
      · rw [popIfSizeIsAtLeast_of_lt h hq hn (by omega) (hsafe _), if_neg hle]
        exact ⟨rfl, hcap, q, R, rfl, hq⟩
  | empty =>
    refine ⟨?_, hcap, q, R, rfl, hq⟩
    simp only [machine, spec, queueStep, specStep, empty_of_holds h hq (hsafe _)]

/-- **For a capacity dividing `2 ^ 64` the index queue is a FIFO** on every run from either
constructor, however often its positions overflow. -/
theorem mpmcIndexQueue_refines_fifo_of_dvd (hd : capacity ∣ 2 ^ 64) (fuel : ℕ) (ops : List Op) :
    (spec.Admits Pushable ⟨[], capacity⟩ ops →
      ((machine capacity (fuel + 1)).run (some constructEmpty) ops).2 =
        (spec.run ⟨[], capacity⟩ ops).2) ∧
    (spec.Admits Pushable ⟨List.range capacity, capacity⟩ ops →
      ((machine capacity (fuel + 1)).run (some constructFull) ops).2 =
        (spec.run ⟨List.range capacity, capacity⟩ ops).2) :=
  ⟨fun hops ↦ ((abstracts_queueStep h hd fuel).run ops
      ⟨rfl, _, _, rfl, holds_constructEmpty h⟩ hops).1,
    fun hops ↦ ((abstracts_queueStep h hd fuel).run ops
      ⟨rfl, _, _, rfl, holds_constructFull h⟩ hops).1⟩

end Refinement

/-- Indices `1` and `0` pushed into an empty queue of capacity `2` and one popped: the queue
answers as the abstract one, with `1`. -/
theorem mpmcIndexQueue_refines_fifo_of_dvd_of_two :
    ((machine 2 1).run (some constructEmpty) [.push 1, .push 0, .pop]).2 =
      (spec.run ⟨[], 2⟩ [.push 1, .push 0, .pop]).2 :=
  (mpmcIndexQueue_refines_fifo_of_dvd ⟨by decide, by decide⟩ (by decide) 0 _).1
    ⟨⟨by decide, by decide⟩, ⟨by decide, by decide⟩, trivial, trivial⟩

/-! ### The overflow for a capacity that does not divide `2 ^ 64` -/

/-- `k` rounds of `push(0)` followed by `pop()`. -/
def pushPopPairs (k : ℕ) : List Op := (List.replicate k [.push 0, .pop]).flatten

theorem pushPopPairs_succ (k : ℕ) : pushPopPairs (k + 1) = .push 0 :: .pop :: pushPopPairs k :=
  rfl

/-- The abstract queue answers each round with `pushed` and then the `0` just pushed. -/
theorem spec_run_pushPopPairs (c k : ℕ) :
    spec.run ⟨[], c⟩ (pushPopPairs k) =
      (⟨[], c⟩, (List.replicate k [Result.pushed, .popped (some 0)]).flatten) := by
  induction k with
  | zero => rfl
  | succ k ih =>
    rw [pushPopPairs_succ]
    change ((spec.run ⟨[], c⟩ (pushPopPairs k)).1,
      Result.pushed :: Result.popped (some 0) :: (spec.run ⟨[], c⟩ (pushPopPairs k)).2) = _
    rw [ih]
    rfl

/-- **Rounds before the overflow**: from a queue holding `[]` at `R`, as long as every push
happens before the 64-bit overflow, each round returns as the abstract queue does and the
queue ends holding `[]` at `R + k`. -/
theorem run_pushPopPairs (h : Admissible capacity 64) {q : MpmcIndexQueue capacity} {R : ℕ}
    (hq : Holds q R []) (fuel k : ℕ) (hk : R + k ≤ 2 ^ 64) :
    ∃ q', (machine capacity (fuel + 1)).run (some q) (pushPopPairs k) =
        (some q', (List.replicate k [Result.pushed, .popped (some 0)]).flatten) ∧
      Holds q' (R + k) [] := by
  induction k generalizing q R with
  | zero => exact ⟨q, rfl, hq⟩
  | succ k ih =>
    -- `push(0)` at the write position `R`, before the overflow; `0` fits every cycle
    obtain ⟨q₁, hpush, hq₁⟩ := push_of_holds h hq h.pos h.pos (Or.inl (by simp; omega))
      (fits_of_le_getIndex (Nat.zero_le _)) fuel
    have hq₁' : Holds q₁ R [0] := hq₁
    -- `pop()` returns it
    have hpop := pop_of_holds_cons h hq₁' fuel
    obtain ⟨q', hrun, hq'⟩ := ih hq₁'.pop (by omega)
    have hstep₁ : (machine capacity (fuel + 1)).step (some q) (.push 0) = (some q₁, .pushed) := by
      simp only [machine, queueStep, hpush]
    have hstep₂ : (machine capacity (fuel + 1)).step (some q₁) .pop =
        (some { q₁ with readPosition := pos capacity 64 (R + 1) }, .popped (some 0)) := by
      simp only [machine, queueStep, hpop, popResult]
    refine ⟨q', ?_, by rwa [show R + (k + 1) = R + 1 + k by omega]⟩
    rw [pushPopPairs_succ]
    simp only [Machine.run_cons, hstep₁, hstep₂, hrun]
    rfl

/-- **After the overflow `push` hangs.** For `Capacity = 3` and the empty queue, the first
`2 ^ 64 - 3` rounds of `push(0)`, `pop()` return as the abstract queue does; the write position
is then `OVERFLOW_START_INDEX = 1` in cycle `0`, its cell was last written in cycle
`MAX_CYCLE - 1`, which is neither that cycle nor one behind it, and the next `push(0)` reloads
the same write position forever, where the abstract queue appends. -/
theorem mpmcIndexQueue_push_hangs_after_wrap (fuel : ℕ) :
    ((machine 3 (fuel + 1)).run (some constructEmpty) (pushPopPairs (2 ^ 64 - 3) ++ [.push 0])).2 =
        (spec.run ⟨[], 3⟩ (pushPopPairs (2 ^ 64 - 3))).2 ++ [.stuck] ∧
      (spec.run ⟨[], 3⟩ (pushPopPairs (2 ^ 64 - 3) ++ [.push 0])).2 =
        (spec.run ⟨[], 3⟩ (pushPopPairs (2 ^ 64 - 3))).2 ++ [.pushed] := by
  have h3 : Admissible 3 64 := ⟨by decide, by decide⟩
  obtain ⟨q', hrun, hq'⟩ :=
    run_pushPopPairs h3 (holds_constructEmpty h3) fuel (2 ^ 64 - 3) (by decide)
  have hstuck : q'.push (fuel + 1) 0 = none := push_of_stuck h3 hq' (by decide) (by decide) 0 _
  have hlast : (machine 3 (fuel + 1)).step (some q') (.push 0) = (none, .stuck) := by
    simp only [machine, queueStep, hstuck]
  refine ⟨?_, ?_⟩
  · rw [Machine.run_append, hrun, spec_run_pushPopPairs]
    simp only [Machine.run_cons, Machine.run_nil, hlast]
  · rw [Machine.run_append, spec_run_pushPopPairs]
    rfl

end MpmcIndexQueue

end Iox.Concurrent
