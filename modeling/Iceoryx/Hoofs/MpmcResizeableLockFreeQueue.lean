import Iceoryx.Hoofs.MpmcLockFreeQueue

/-!
# `MpmcResizeableLockFreeQueue`: a lock-free queue whose capacity changes at run time

`iox::concurrent::MpmcResizeableLockFreeQueue<ElementType, MaxCapacity>`
(`mpmc_resizeable_lockfree_queue.inl`) derives from `MpmcLockFreeQueue<ElementType, MaxCapacity>`
and adds `m_capacity` and a vector `m_unusedIndices` of indices that neither index queue holds.
`setCapacity(n, removeHandler)` moves towards `n` in a loop: `increaseCapacity` moves unused
indices back onto the free queue, `decreaseCapacity` first takes free indices and then, through
`tryGetUsedIndex` (`popIfSizeIsAtLeast(capacity())` on the used queue), the oldest used ones,
handing their elements to `removeHandler`. Its `push` evicts through `tryGetUsedIndex` instead of
`popIfFull`; `tryPush`, `pop`, `empty` and `size` are the base class's.

## The model

The state is the base queue of `MpmcLockFreeQueue`, `m_capacity`, `m_resizeInProgress` and
`m_unusedIndices` as a list whose last element is the vector's back. The three loops of
`decreaseCapacity` are one loop over a phase (`takeFree` for the first inner loop, `takeUsed` for
the second); `increaseCapacity`'s loop, bounded by its argument, is structural recursion. A
`setCapacity` returns whether it set the capacity and the elements given to `removeHandler`, in
call order.

## What is proved

`Holds q Rf Ru F U Q` is the base queue's invariant with the unused indices outside both index
queues, and `m_capacity = |F| + |U|`. For a `MaxCapacity` dividing `2 ^ 64` and enough fuel,
every call keeps it and answers as the abstract queue does, with `setCapacity` behaving as
`BoundedQueue.resize` (`mpmcResizeableLockFreeQueue_refines_of_dvd`), as long as no `push` is
made at capacity `0`. That one is excluded because it hangs: with capacity `0` every index is
unused, the free queue is empty, and `tryGetUsedIndex` is `popIfSizeIsAtLeast(0)`, which is a
plain `pop` of the empty used queue; the loop of `pushImpl` goes round forever
(`mpmcResizeableLockFreeQueue_push_hangs_at_capacity_zero`).
-/

namespace Iox.Concurrent

/-- The state of an `MpmcResizeableLockFreeQueue<ElementType, MaxCapacity>`. -/
structure MpmcResizeableLockFreeQueue (α : Type*) (maxCapacity : ℕ) where
  /-- The `MpmcLockFreeQueue<ElementType, MaxCapacity>` base. -/
  base : MpmcLockFreeQueue α maxCapacity
  /-- `m_capacity`. -/
  capacity : ℕ
  /-- `m_resizeInProgress`. -/
  resizeInProgress : Bool
  /-- `m_unusedIndices`, its back last. -/
  unusedIndices : List ℕ

namespace MpmcResizeableLockFreeQueue

variable {α : Type*} {maxCapacity : ℕ}

/-- The default constructor: the base queue with every index free, `m_capacity = MaxCapacity`,
no resize in progress and no unused index. -/
def new : MpmcResizeableLockFreeQueue α maxCapacity where
  base := .new
  capacity := maxCapacity
  resizeInProgress := false
  unusedIndices := []

/-- `tryGetUsedIndex(index)`: `popIfSizeIsAtLeast(capacity())` on the used queue. -/
def tryGetUsedIndex (fuel : ℕ) (q : MpmcResizeableLockFreeQueue α maxCapacity) :
    Option (MpmcIndexQueue maxCapacity × Option ℕ) :=
  q.base.usedIndices.popIfSizeIsAtLeast fuel q.capacity

/-- The loop of `increaseCapacity(toIncrease)` with `remaining = toIncrease - increased` passes
left: each moves the back of `m_unusedIndices` onto the free queue and counts it in
`m_capacity`; it stops early when no index is unused. Returns `increased`. -/
def increaseLoop (fuel : ℕ) :
    ℕ → MpmcResizeableLockFreeQueue α maxCapacity → ℕ →
      Option (MpmcResizeableLockFreeQueue α maxCapacity × ℕ)
  | 0, q, increased => some (q, increased)
  | remaining + 1, q, increased =>
    match q.unusedIndices.getLast? with
    | none => some (q, increased)
    | some index =>
      (q.base.freeIndices.push fuel index).bind fun freeIndices ↦
        increaseLoop fuel remaining
          { q with
            base.freeIndices := freeIndices
            capacity := q.capacity + 1
            unusedIndices := q.unusedIndices.dropLast }
          (increased + 1)

/-- `increaseCapacity(toIncrease)`. -/
def increaseCapacity (fuel toIncrease : ℕ) (q : MpmcResizeableLockFreeQueue α maxCapacity) :
    Option (MpmcResizeableLockFreeQueue α maxCapacity × ℕ) :=
  increaseLoop fuel toIncrease q 0

/-- Which inner loop of `decreaseCapacity` runs: the one taking free indices, or the one taking
used indices through `tryGetUsedIndex`. -/
inductive DecreasePhase where
  | takeFree
  | takeUsed

/-- One pass of the loops of `decreaseCapacity(toDecrease, removeHandler)`, on the state, the
count `decreased`, the elements handed to `removeHandler` so far and the phase. When an inner
loop finds nothing it breaks to the other one; when `m_capacity` was `1` before a decrement the
call returns at once. -/
def decreasePass (fuel toDecrease : ℕ) :
    MpmcResizeableLockFreeQueue α maxCapacity × ℕ × List α × DecreasePhase →
      (MpmcResizeableLockFreeQueue α maxCapacity × ℕ × List α × DecreasePhase) ⊕
        Option (MpmcResizeableLockFreeQueue α maxCapacity × ℕ × List α)
  | (q, decreased, removed, phase) =>
    if toDecrease ≤ decreased then .inr (some (q, decreased, removed))
    else
      match phase with
      | .takeFree =>
        match q.base.freeIndices.pop fuel with
        | none => .inr none
        | some (freeIndices, none) =>
          .inl ({ q with base.freeIndices := freeIndices }, decreased, removed, .takeUsed)
        | some (freeIndices, some index) =>
          let q' :=
            { q with
              base.freeIndices := freeIndices
              unusedIndices := q.unusedIndices ++ [index]
              capacity := q.capacity - 1 }
          if q.capacity = 1 then .inr (some (q', decreased + 1, removed))
          else .inl (q', decreased + 1, removed, .takeFree)
      | .takeUsed =>
        match q.tryGetUsedIndex fuel with
        | none => .inr none
        | some (usedIndices, none) =>
          .inl ({ q with base.usedIndices := usedIndices }, decreased, removed, .takeFree)
        | some (usedIndices, some index) =>
          let (base, result) := { q.base with usedIndices := usedIndices }.readBufferAt index
          let q' :=
            { q with
              base := base
              unusedIndices := q.unusedIndices ++ [index]
              capacity := q.capacity - 1 }
          if q.capacity = 1 then .inr (some (q', decreased + 1, removed ++ result.toList))
          else .inl (q', decreased + 1, removed ++ result.toList, .takeUsed)

/-- `decreaseCapacity(toDecrease, removeHandler)`: returns `decreased` and the elements handed to
`removeHandler`. -/
def decreaseCapacity (fuel toDecrease : ℕ) (q : MpmcResizeableLockFreeQueue α maxCapacity) :
    Option (MpmcResizeableLockFreeQueue α maxCapacity × ℕ × List α) :=
  (Loop.iterate (decreasePass fuel toDecrease) fuel (q, 0, [], .takeFree)).join

/-- One pass of the loop of `setCapacity`: stop at the new capacity, or else increase or decrease
towards it. -/
def resizePass (fuel newCapacity : ℕ) :
    MpmcResizeableLockFreeQueue α maxCapacity × List α →
      (MpmcResizeableLockFreeQueue α maxCapacity × List α) ⊕
        Option (MpmcResizeableLockFreeQueue α maxCapacity × List α)
  | (q, removed) =>
    if q.capacity = newCapacity then .inr (some (q, removed))
    else if q.capacity < newCapacity then
      match q.increaseCapacity fuel (newCapacity - q.capacity) with
      | some (q', _) => .inl (q', removed)
      | none => .inr none
    else
      match q.decreaseCapacity fuel (q.capacity - newCapacity) with
      | some (q', _, removed') => .inl (q', removed ++ removed')
      | none => .inr none

/-- `setCapacity(newCapacity, removeHandler)`: `false` above `MaxCapacity` or during another
resize; otherwise the loop, and `true`. Also returns the elements handed to `removeHandler`. -/
def setCapacity (fuel newCapacity : ℕ) (q : MpmcResizeableLockFreeQueue α maxCapacity) :
    Option (MpmcResizeableLockFreeQueue α maxCapacity × Bool × List α) :=
  if maxCapacity < newCapacity then some (q, false, [])
  else if q.resizeInProgress then some (q, false, [])
  else
    (Loop.iterate (resizePass fuel newCapacity) fuel
        ({ q with resizeInProgress := true }, [])).join.map
      fun (q, removed) ↦ ({ q with resizeInProgress := false }, true, removed)

/-- One pass of the loop of `pushImpl`: take a free index, or else evict through
`tryGetUsedIndex`, or else go round. The inner `none` is a stuck call. -/
def pushPass (fuel : ℕ) (q : MpmcResizeableLockFreeQueue α maxCapacity) :
    MpmcResizeableLockFreeQueue α maxCapacity ⊕
      Option (MpmcResizeableLockFreeQueue α maxCapacity × ℕ × Option α) :=
  match q.base.freeIndices.pop fuel with
  | none => .inr none
  | some (freeIndices, some index) =>
    .inr (some ({ q with base.freeIndices := freeIndices }, index, none))
  | some (freeIndices, none) =>
    let q := { q with base.freeIndices := freeIndices }
    match q.tryGetUsedIndex fuel with
    | none => .inr none
    | some (usedIndices, some index) =>
      let (base, evictedValue) := { q.base with usedIndices := usedIndices }.readBufferAt index
      .inr (some ({ q with base := base }, index, evictedValue))
    | some (usedIndices, none) => .inl { q with base.usedIndices := usedIndices }

/-- `push(value)` (`pushImpl`): the loop, then the value goes into the slot of the index it
obtained, which is pushed onto the used queue; the evicted element, if any, is returned. -/
def push (fuel : ℕ) (q : MpmcResizeableLockFreeQueue α maxCapacity) (value : α) :
    Option (MpmcResizeableLockFreeQueue α maxCapacity × Option α) :=
  (Loop.iterate (pushPass fuel) fuel q).join.bind fun (q, index, evictedValue) ↦
    let base := q.base.writeBufferAt index value
    (base.usedIndices.push fuel index).map fun usedIndices ↦
      ({ q with base := { base with usedIndices := usedIndices } }, evictedValue)

/-- `tryPush(value)`, the base class's. -/
def tryPush (fuel : ℕ) (q : MpmcResizeableLockFreeQueue α maxCapacity) (value : α) :
    Option (MpmcResizeableLockFreeQueue α maxCapacity × Bool) :=
  (q.base.tryPush fuel value).map fun (base, success) ↦ ({ q with base := base }, success)

/-- `pop()`, the base class's. -/
def pop (fuel : ℕ) (q : MpmcResizeableLockFreeQueue α maxCapacity) :
    Option (MpmcResizeableLockFreeQueue α maxCapacity × Option α) :=
  (q.base.pop fuel).map fun (base, value) ↦ ({ q with base := base }, value)

/-! ### The invariant -/

open CyclicIndex
open MpmcIndexQueue (CycleSound)

/-- The queue **holds** `Q`: its base holds `Q` with the unused indices outside both index
queues, and `m_capacity` counts the indices in the two queues. -/
structure Holds (q : MpmcResizeableLockFreeQueue α maxCapacity) (Rf Ru : ℕ) (F U : List ℕ)
    (Q : List α) : Prop where
  base : q.base.Holds Rf Ru F U q.unusedIndices Q
  capacity_eq : F.length + U.length = q.capacity

/-- `capacity() + |m_unusedIndices| = MaxCapacity`. -/
theorem Holds.capacity_add_length {q : MpmcResizeableLockFreeQueue α maxCapacity} {Rf Ru : ℕ}
    {F U : List ℕ} {Q : List α} (hq : Holds q Rf Ru F U Q) :
    q.capacity + q.unusedIndices.length = maxCapacity := by
  have := hq.base.length_add
  have := hq.capacity_eq
  omega

/-- Moving one index between the lists keeps them a permutation of the slots. -/
theorem perm_of_count {l l' : List ℕ} (hl : l.Perm (List.range maxCapacity))
    (hcount : ∀ a, l'.count a = l.count a) : l'.Perm (List.range maxCapacity) :=
  (List.perm_iff_count.2 hcount).trans hl

/-! ### One operation at a time -/

section Steps

variable (h : Admissible maxCapacity 64) (hd : maxCapacity ∣ 2 ^ 64)
include h hd

omit h in
/-- The cycles of both index queues are sound everywhere. -/
theorem cycleSound (W : ℕ) : CycleSound maxCapacity W := Or.inr hd

/-- **`tryPush` with a free index**, the base class's. -/
theorem tryPush_of_cons {q : MpmcResizeableLockFreeQueue α maxCapacity} {Rf Ru i : ℕ}
    {F U : List ℕ} {Q : List α} (hq : Holds q Rf Ru (i :: F) U Q) (v : α) (fuel : ℕ) :
    ∃ b, q.tryPush (fuel + 1) v = some ({ q with base := b }, true) ∧
      Holds { q with base := b } (Rf + 1) Ru F (U ++ [i]) (Q ++ [v]) := by
  obtain ⟨b, htry, hb⟩ := MpmcLockFreeQueue.tryPush_of_cons h hq.base (cycleSound hd _)
    (fits_of_dvd hd (hq.base.lt_of_mem (by simp)) _) v fuel
  refine ⟨b, by simp [tryPush, htry], hb, ?_⟩
  have := hq.capacity_eq
  simp only [List.length_cons, List.length_append, List.length_nil] at this ⊢
  omega

/-- **`tryPush` with no free index** refuses and changes nothing. -/
theorem tryPush_of_nil {q : MpmcResizeableLockFreeQueue α maxCapacity} {Rf Ru : ℕ}
    {U : List ℕ} {Q : List α} (hq : Holds q Rf Ru [] U Q) (v : α) (fuel : ℕ) :
    q.tryPush (fuel + 1) v = some (q, false) := by
  simp [tryPush, MpmcLockFreeQueue.tryPush_of_nil h hq.base (cycleSound hd _)]

/-- **`pop` from a nonempty queue**, the base class's. -/
theorem pop_of_cons {q : MpmcResizeableLockFreeQueue α maxCapacity} {Rf Ru j : ℕ}
    {F U : List ℕ} {a : α} {Q : List α} (hq : Holds q Rf Ru F (j :: U) (a :: Q)) (fuel : ℕ) :
    ∃ b, q.pop (fuel + 1) = some ({ q with base := b }, some a) ∧
      Holds { q with base := b } Rf (Ru + 1) (F ++ [j]) U Q := by
  obtain ⟨b, hpop, hb⟩ := MpmcLockFreeQueue.pop_of_cons h hq.base (cycleSound hd _)
    (fits_of_dvd hd (hq.base.lt_of_mem (by simp)) _) fuel
  refine ⟨b, by simp [pop, hpop], hb, ?_⟩
  have := hq.capacity_eq
  simp only [List.length_cons, List.length_append, List.length_nil] at this ⊢
  omega

/-- **`pop` from an empty queue** reports nothing and changes nothing. -/
theorem pop_of_nil {q : MpmcResizeableLockFreeQueue α maxCapacity} {Rf Ru : ℕ} {F : List ℕ}
    {Q : List α} (hq : Holds q Rf Ru F [] Q) (fuel : ℕ) : q.pop (fuel + 1) = some (q, none) := by
  simp [pop, MpmcLockFreeQueue.pop_of_nil h hq.base (cycleSound hd _)]

/-- **`push` with a free index** appends and evicts nothing. -/
theorem push_of_cons {q : MpmcResizeableLockFreeQueue α maxCapacity} {Rf Ru i : ℕ}
    {F U : List ℕ} {Q : List α} (hq : Holds q Rf Ru (i :: F) U Q) (v : α) (fuel : ℕ) :
    ∃ b, q.push (fuel + 1) v = some ({ q with base := b }, none) ∧
      Holds { q with base := b } (Rf + 1) Ru F (U ++ [i]) (Q ++ [v]) := by
  have hpass : q.pushPass (fuel + 1) = .inr (some ({ q with base.freeIndices :=
      { q.base.freeIndices with readPosition := pos maxCapacity 64 (Rf + 1) } }, i, none)) := by
    simp only [pushPass, MpmcIndexQueue.pop_of_holds_cons h hq.base.free fuel]
  obtain ⟨used, hpush, hb⟩ :=
    MpmcLockFreeQueue.holds_publish_of_cons h hq.base (cycleSound hd _)
      (fits_of_dvd hd (hq.base.lt_of_mem (by simp)) _) v fuel
  refine ⟨_, ?_, hb, ?_⟩
  · rw [push, Loop.iterate_succ_of_inr hpass]
    simp only [Option.join_some, Option.bind_some, MpmcLockFreeQueue.writeBufferAt_usedIndices]
    rw [hpush, Option.map_some]
  · have := hq.capacity_eq
    simp only [List.length_cons, List.length_append, List.length_nil] at this ⊢
    omega

/-- **`push` with no free index and a positive capacity** evicts the head through
`tryGetUsedIndex`: the used queue holds `capacity()` indices, so `popIfSizeIsAtLeast` takes the
head, whose element is returned, and the index is published again with the new value. -/
theorem push_of_full {q : MpmcResizeableLockFreeQueue α maxCapacity} {Rf Ru j : ℕ}
    {U : List ℕ} {a : α} {Q : List α} (hq : Holds q Rf Ru [] (j :: U) (a :: Q)) (v : α)
    (fuel : ℕ) :
    ∃ b, q.push (fuel + 1) v = some ({ q with base := b }, some a) ∧
      Holds { q with base := b } Rf (Ru + 1) [] (U ++ [j]) (Q ++ [v]) := by
  have hcap : q.capacity = U.length + 1 := by simpa using hq.capacity_eq.symm
  have hhead : q.base.buffer j = some a := hq.base.buffer_used 0 (by simp)
  have hused := MpmcIndexQueue.popIfSizeIsAtLeast_of_le (n := q.capacity) h hq.base.used
    (by omega) (by omega) (cycleSound hd _) (fuel + 1)
  have hpass : q.pushPass (fuel + 1) = .inr (some ({ q with base :=
      (MpmcLockFreeQueue.readBufferAt { q.base with usedIndices :=
        { q.base.usedIndices with readPosition := pos maxCapacity 64 (Ru + 1) } } j).1 },
      j, some a)) := by
    simp only [pushPass, MpmcIndexQueue.pop_of_holds_nil h hq.base.free (cycleSound hd _) fuel,
      tryGetUsedIndex, hused, MpmcLockFreeQueue.readBufferAt, hhead]
  obtain ⟨hused', hlen, hbuf, hraw, hsize⟩ := MpmcLockFreeQueue.holds_evict hq.base
  obtain ⟨used, hpush, hb⟩ :=
    MpmcLockFreeQueue.holds_publish (q := (MpmcLockFreeQueue.readBufferAt { q.base with
      usedIndices := { q.base.usedIndices with readPosition := pos maxCapacity 64 (Ru + 1) } }
        j).1)
      h hq.base.free hused' hq.base.perm_used_cons hlen hbuf hraw hsize (cycleSound hd _)
      (fits_of_dvd hd (hq.base.lt_of_mem (by simp)) _) v fuel
  refine ⟨_, ?_, hb, ?_⟩
  · rw [push, Loop.iterate_succ_of_inr hpass]
    simp only [Option.join_some, Option.bind_some, MpmcLockFreeQueue.writeBufferAt_usedIndices]
    rw [hpush, Option.map_some]
  · simp only [List.length_nil, List.length_append, List.length_singleton]
    omega

/-! ### The loops of `decreaseCapacity` -/

omit hd in
/-- **Taking a free index** in `decreaseCapacity`: the head of the free list becomes unused and
`m_capacity` goes down by one; the call returns if it was `1`. -/
theorem decreasePass_takeFree_cons {q : MpmcResizeableLockFreeQueue α maxCapacity}
    {Rf Ru i : ℕ} {F U : List ℕ} {Q : List α} (hq : Holds q Rf Ru (i :: F) U Q)
    {toDecrease decreased : ℕ} (hlt : decreased < toDecrease) (removed : List α) (fuel : ℕ) :
    ∃ q₁, decreasePass (fuel + 1) toDecrease (q, decreased, removed, .takeFree) =
        (if q.capacity = 1 then .inr (some (q₁, decreased + 1, removed))
          else .inl (q₁, decreased + 1, removed, .takeFree)) ∧
      Holds q₁ (Rf + 1) Ru F U Q ∧ q₁.capacity = q.capacity - 1 ∧
      q₁.resizeInProgress = q.resizeInProgress := by
  refine ⟨{ q with
      base.freeIndices := { q.base.freeIndices with readPosition := pos maxCapacity 64 (Rf + 1) }
      unusedIndices := q.unusedIndices ++ [i]
      capacity := q.capacity - 1 }, ?_, ⟨⟨hq.base.free.pop, hq.base.used, ?_, hq.base.length_eq,
        hq.base.buffer_used, fun x hx ↦ ?_, hq.base.size_eq⟩, ?_⟩, rfl, rfl⟩
  · simp only [decreasePass, if_neg (Nat.not_le.2 hlt),
      MpmcIndexQueue.pop_of_holds_cons h hq.base.free fuel]
  · -- the index moves from the free list to the unused ones
    exact perm_of_count hq.base.perm fun a ↦ by simp [List.count_append, List.count_cons]; omega
  · exact hq.base.buffer_raw x (by simp at hx ⊢; tauto)
  · have := hq.capacity_eq
    simp only [List.length_cons] at this
    show F.length + U.length = q.capacity - 1
    omega

/-- With no free index, `decreaseCapacity` breaks to the loop over used indices. -/
theorem decreasePass_takeFree_nil {q : MpmcResizeableLockFreeQueue α maxCapacity} {Rf Ru : ℕ}
    {U : List ℕ} {Q : List α} (hq : Holds q Rf Ru [] U Q) {toDecrease decreased : ℕ}
    (hlt : decreased < toDecrease) (removed : List α) (fuel : ℕ) :
    decreasePass (fuel + 1) toDecrease (q, decreased, removed, .takeFree) =
      .inl (q, decreased, removed, .takeUsed) := by
  simp only [decreasePass, if_neg (Nat.not_le.2 hlt),
    MpmcIndexQueue.pop_of_holds_nil h hq.base.free (cycleSound hd _) fuel]

/-- **Taking a used index** in `decreaseCapacity`: with no free index the used queue holds
`capacity()` indices, so `tryGetUsedIndex` takes the oldest; its element goes to the handler, the
index becomes unused and `m_capacity` goes down by one; the call returns if it was `1`. -/
theorem decreasePass_takeUsed {q : MpmcResizeableLockFreeQueue α maxCapacity} {Rf Ru j : ℕ}
    {U : List ℕ} {a : α} {Q : List α} (hq : Holds q Rf Ru [] (j :: U) (a :: Q))
    {toDecrease decreased : ℕ} (hlt : decreased < toDecrease) (removed : List α) (fuel : ℕ) :
    ∃ q₁, decreasePass (fuel + 1) toDecrease (q, decreased, removed, .takeUsed) =
        (if q.capacity = 1 then .inr (some (q₁, decreased + 1, removed ++ [a]))
          else .inl (q₁, decreased + 1, removed ++ [a], .takeUsed)) ∧
      Holds q₁ Rf (Ru + 1) [] U Q ∧ q₁.capacity = q.capacity - 1 ∧
      q₁.resizeInProgress = q.resizeInProgress := by
  have hcap : q.capacity = U.length + 1 := by simpa using hq.capacity_eq.symm
  have hhead : q.base.buffer j = some a := hq.base.buffer_used 0 (by simp)
  have hused := MpmcIndexQueue.popIfSizeIsAtLeast_of_le (n := q.capacity) h hq.base.used
    (by omega) (by omega) (cycleSound hd _) (fuel + 1)
  obtain ⟨hused', hlen, hbuf, hraw, hsize⟩ := MpmcLockFreeQueue.holds_evict hq.base
  refine ⟨{ q with
      base := (MpmcLockFreeQueue.readBufferAt { q.base with usedIndices :=
        { q.base.usedIndices with readPosition := pos maxCapacity 64 (Ru + 1) } } j).1
      unusedIndices := q.unusedIndices ++ [j]
      capacity := q.capacity - 1 }, ?_, ⟨⟨hq.base.free, hused', ?_, hlen, hbuf, fun x hx ↦ ?_,
        hsize⟩, ?_⟩, rfl, rfl⟩
  · simp only [decreasePass, if_neg (Nat.not_le.2 hlt), tryGetUsedIndex, hused,
      MpmcLockFreeQueue.readBufferAt, hhead, Option.toList_some]
  · -- the index moves from the used list to the unused ones
    exact perm_of_count hq.base.perm fun a ↦ by simp [List.count_append, List.count_cons]; omega
  · -- the slot just emptied is raw, and so are the unused ones
    simp only [List.nil_append, List.mem_append, List.mem_singleton] at hx
    rcases hx with hx | rfl
    · exact hraw x (by simpa using hx)
    · simp [MpmcLockFreeQueue.readBufferAt]
  · show 0 + U.length = q.capacity - 1
    omega

/-- **The loop over used indices**: with no free index, `r` more decrements evict the `r`
oldest elements, in order, given `r` passes and one more to leave. -/
theorem iterate_decreasePass_takeUsed (toDecrease fuel : ℕ) :
    ∀ (r : ℕ) {q : MpmcResizeableLockFreeQueue α maxCapacity} {Rf Ru : ℕ} {U : List ℕ}
      {Q : List α} (decreased n : ℕ) (removed : List α), Holds q Rf Ru [] U Q →
      decreased + r = toDecrease → r ≤ q.capacity → r + 1 ≤ n →
      ∃ q', Loop.iterate (decreasePass (fuel + 1) toDecrease) n
          (q, decreased, removed, .takeUsed) = some (some (q', toDecrease, removed ++ Q.take r)) ∧
        Holds q' Rf (Ru + r) [] (U.drop r) (Q.drop r) ∧ q'.capacity = q.capacity - r ∧
        q'.resizeInProgress = q.resizeInProgress
  | 0, q, Rf, Ru, U, Q, decreased, n, removed, hq, hr, _, hn => by
    obtain ⟨n, rfl⟩ : ∃ m, n = m + 1 := ⟨n - 1, by omega⟩
    obtain rfl : toDecrease = decreased := by omega
    refine ⟨q, Loop.iterate_succ_of_inr ?_ n, by simpa using hq, by simp, rfl⟩
    simp [decreasePass]
  | r + 1, q, Rf, Ru, U, Q, decreased, n, removed, hq, hr, hcap, hn => by
    obtain ⟨n, rfl⟩ : ∃ m, n = m + 1 := ⟨n - 1, by omega⟩
    -- the used list has `capacity()` entries, so it is not empty
    have hlen : U.length = q.capacity := by simpa using hq.capacity_eq
    obtain ⟨j, U, rfl⟩ := List.exists_cons_of_length_pos (show 0 < U.length by omega)
    obtain ⟨a, Q, rfl⟩ := List.exists_cons_of_length_pos
      (show 0 < Q.length by rw [← hq.base.length_eq]; simp)
    obtain ⟨q₁, hpass, hq₁, hcap₁, hres₁⟩ :=
      decreasePass_takeUsed h hd hq (by omega : decreased < toDecrease) removed fuel
    by_cases hone : q.capacity = 1
    · -- `m_capacity` reached `0`: the call returns with this last decrement
      obtain rfl : r = 0 := by omega
      obtain rfl : toDecrease = decreased + 1 := by omega
      rw [if_pos hone] at hpass
      exact ⟨q₁, by rw [Loop.iterate_succ_of_inr hpass n]; simp, by simpa using hq₁,
        by simp [hcap₁], hres₁⟩
    · rw [if_neg hone] at hpass
      obtain ⟨q', hrun, hq', hcap', hres'⟩ := iterate_decreasePass_takeUsed toDecrease fuel r
        (decreased + 1) n (removed ++ [a]) hq₁ (by omega) (by omega) (by omega)
      refine ⟨q', by rw [Loop.iterate_succ_of_inl hpass, hrun]; simp, ?_, by omega,
        hres'.trans hres₁⟩
      rwa [show Ru + (r + 1) = Ru + 1 + r by omega]

/-- **The loops of `decreaseCapacity`** from the loop over free indices: `r` more decrements take
the free indices first and then evict the oldest `r - |F|` elements, in order, given `r` passes,
one more to switch loops and one to leave. -/
theorem iterate_decreasePass_takeFree (toDecrease fuel : ℕ) :
    ∀ (r : ℕ) {q : MpmcResizeableLockFreeQueue α maxCapacity} {Rf Ru : ℕ} {F U : List ℕ}
      {Q : List α} (decreased n : ℕ) (removed : List α), Holds q Rf Ru F U Q →
      decreased + r = toDecrease → r ≤ q.capacity → r + 2 ≤ n →
      ∃ q', Loop.iterate (decreasePass (fuel + 1) toDecrease) n
          (q, decreased, removed, .takeFree) =
            some (some (q', toDecrease, removed ++ Q.take (r - F.length))) ∧
        Holds q' (Rf + min r F.length) (Ru + (r - F.length)) (F.drop r)
          (U.drop (r - F.length)) (Q.drop (r - F.length)) ∧
        q'.capacity = q.capacity - r ∧ q'.resizeInProgress = q.resizeInProgress
  | 0, q, Rf, Ru, F, U, Q, decreased, n, removed, hq, hr, _, hn => by
    obtain ⟨n, rfl⟩ : ∃ m, n = m + 1 := ⟨n - 1, by omega⟩
    obtain rfl : toDecrease = decreased := by omega
    refine ⟨q, Loop.iterate_succ_of_inr ?_ n, by simpa using hq, by simp, rfl⟩
    simp [decreasePass]
  | r + 1, q, Rf, Ru, [], U, Q, decreased, n, removed, hq, hr, hcap, hn => by
    -- no free index: one pass to switch to the used ones
    obtain ⟨n, rfl⟩ : ∃ m, n = m + 1 := ⟨n - 1, by omega⟩
    rw [Loop.iterate_succ_of_inl (decreasePass_takeFree_nil h hd hq (by omega) removed fuel)]
    simpa using iterate_decreasePass_takeUsed h hd toDecrease fuel (r + 1) decreased n removed hq hr hcap
      (by omega)
  | r + 1, q, Rf, Ru, i :: F, U, Q, decreased, n, removed, hq, hr, hcap, hn => by
    obtain ⟨n, rfl⟩ : ∃ m, n = m + 1 := ⟨n - 1, by omega⟩
    obtain ⟨q₁, hpass, hq₁, hcap₁, hres₁⟩ :=
      decreasePass_takeFree_cons h hq (by omega : decreased < toDecrease) removed fuel
    by_cases hone : q.capacity = 1
    · -- `m_capacity` reached `0`: the call returns with this last decrement
      obtain rfl : r = 0 := by omega
      obtain rfl : toDecrease = decreased + 1 := by omega
      rw [if_pos hone] at hpass
      exact ⟨q₁, by rw [Loop.iterate_succ_of_inr hpass n]; simp, by simpa using hq₁,
        by simp [hcap₁], hres₁⟩
    · rw [if_neg hone] at hpass
      obtain ⟨q', hrun, hq', hcap', hres'⟩ := iterate_decreasePass_takeFree toDecrease fuel r
        (decreased + 1) n removed hq₁ (by omega) (by omega) (by omega)
      have hsub : r + 1 - (i :: F).length = r - F.length := by simp
      refine ⟨q', by rw [Loop.iterate_succ_of_inl hpass, hrun, hsub], ?_, by omega,
        hres'.trans hres₁⟩
      rwa [hsub, List.drop_succ_cons, show Rf + min (r + 1) (i :: F).length =
        Rf + 1 + min r F.length by simp; omega]

/-! ### `increaseCapacity` and `setCapacity` -/

/-- **The loop of `increaseCapacity`**: with at least `r` unused indices, `r` passes move `r` of
them, from the back, onto the free queue and raise `m_capacity` by `r`. -/
theorem increaseLoop_holds (fuel : ℕ) :
    ∀ (r : ℕ) {q : MpmcResizeableLockFreeQueue α maxCapacity} {Rf Ru : ℕ} {F U : List ℕ}
      {Q : List α} (increased : ℕ), Holds q Rf Ru F U Q → r ≤ q.unusedIndices.length →
      ∃ q' F', q.increaseLoop (fuel + 1) r increased = some (q', increased + r) ∧
        Holds q' Rf Ru F' U Q ∧ q'.capacity = q.capacity + r ∧
        q'.resizeInProgress = q.resizeInProgress
  | 0, q, Rf, Ru, F, U, Q, increased, hq, _ => ⟨q, F, rfl, hq, rfl, rfl⟩
  | r + 1, q, Rf, Ru, F, U, Q, increased, hq, hr => by
    -- the back of `m_unusedIndices`
    obtain ⟨X, x, hX⟩ : ∃ X x, q.unusedIndices = X ++ [x] := by
      rcases List.eq_nil_or_concat q.unusedIndices with hnil | ⟨X, x, hX⟩
      · rw [hnil] at hr
        simp at hr
      · exact ⟨X, x, by simpa using hX⟩
    have hx : x < maxCapacity := hq.base.lt_of_mem (by simp [hX])
    have hlength := hq.base.length_add
    rw [hX] at hlength
    simp only [List.length_append, List.length_singleton] at hlength
    obtain ⟨free, hpush, hfree⟩ := MpmcIndexQueue.push_of_holds h hq.base.free (by omega) hx
      (cycleSound hd _) (fits_of_dvd hd hx _) fuel
    have hq₁ : Holds { q with
        base.freeIndices := free
        capacity := q.capacity + 1
        unusedIndices := q.unusedIndices.dropLast } Rf Ru (F ++ [x]) U Q := by
      refine ⟨⟨hfree, hq.base.used, ?_, hq.base.length_eq, hq.base.buffer_used, fun y hy ↦ ?_,
        hq.base.size_eq⟩, ?_⟩
      · -- the index moves from the unused ones to the free list
        refine perm_of_count hq.base.perm fun a ↦ ?_
        simp only [hX, List.dropLast_concat]
        simp [List.count_append, List.count_cons]
        omega
      · refine hq.base.buffer_raw y ?_
        simp only [hX, List.dropLast_concat, List.mem_append, List.mem_singleton] at hy ⊢
        tauto
      · have := hq.capacity_eq
        simp only [List.length_append, List.length_singleton]
        show F.length + 1 + U.length = q.capacity + 1
        omega
    obtain ⟨q', F', hrun, hq', hcap', hres'⟩ :=
      increaseLoop_holds fuel r (increased + 1) hq₁ (by simp [hX] at hr ⊢; omega)
    refine ⟨q', F', ?_, hq', by rw [hcap']; show q.capacity + 1 + r = _; omega, hres'⟩
    have hlast : q.unusedIndices.getLast? = some x := by rw [hX, List.getLast?_concat]
    simp only [increaseLoop, hlast, hpush, Option.bind_some]
    rw [hrun, show increased + 1 + r = increased + (r + 1) by omega]

/-- **`setCapacity(n)` with `n ≤ MaxCapacity`**, given enough fuel for the loops, returns `true`
with capacity `n`, having handed the `|Q| - n` oldest elements to the handler, oldest first, and
keeping the others. -/
theorem setCapacity_of_le {q : MpmcResizeableLockFreeQueue α maxCapacity} {Rf Ru : ℕ}
    {F U : List ℕ} {Q : List α} (hq : Holds q Rf Ru F U Q) (hres : q.resizeInProgress = false)
    {n : ℕ} (hn : n ≤ maxCapacity) {fuel : ℕ} (hfuel : maxCapacity + 2 ≤ fuel) :
    ∃ q' Rf' Ru' F' U', q.setCapacity fuel n = some (q', true, Q.take (Q.length - n)) ∧
      Holds q' Rf' Ru' F' U' (Q.drop (Q.length - n)) ∧ q'.capacity = n ∧
      q'.resizeInProgress = false := by
  obtain ⟨f, rfl⟩ : ∃ f, fuel = f + 1 + 1 := ⟨fuel - 2, by omega⟩
  have hlen : Q.length ≤ q.capacity := by
    have := hq.capacity_eq
    have := hq.base.length_eq
    omega
  have hq₀ : Holds { q with resizeInProgress := true } Rf Ru F U Q := ⟨hq.base, hq.capacity_eq⟩
  have hsetCapacity : ∀ q₁ : MpmcResizeableLockFreeQueue α maxCapacity, ∀ removed,
      q₁.capacity = n →
      resizePass (f + 1 + 1) n ({ q with resizeInProgress := true }, []) = .inl (q₁, removed) →
      q.setCapacity (f + 1 + 1) n = some ({ q₁ with resizeInProgress := false }, true, removed) := by
    intro q₁ removed hcap₁ hpass
    have hstop : resizePass (f + 1 + 1) n (q₁, removed) = .inr (some (q₁, removed)) := by
      simp [resizePass, hcap₁]
    simp only [setCapacity, if_neg (Nat.not_lt.2 hn), hres, Bool.false_eq_true, if_false]
    rw [Loop.iterate_succ_of_inl hpass, Loop.iterate_succ_of_inr hstop]
    rfl
  rcases lt_trichotomy q.capacity n with hlt | heq | hgt
  · -- too small: `increaseCapacity` moves `n - capacity()` unused indices to the free queue
    obtain ⟨q₁, F₁, hinc, hq₁, hcap₁, hres₁⟩ := increaseLoop_holds h hd (f + 1) (n - q.capacity)
      0 hq₀ (by have := hq.capacity_add_length; simp; omega)
    have hpass : resizePass (f + 1 + 1) n ({ q with resizeInProgress := true }, []) =
        .inl (q₁, []) := by
      simp only [resizePass, if_neg (Nat.ne_of_lt hlt), if_pos hlt, increaseCapacity, hinc]
    have hcap : q₁.capacity = n := by rw [hcap₁]; show q.capacity + (n - q.capacity) = n; omega
    refine ⟨{ q₁ with resizeInProgress := false }, Rf, Ru, F₁, U, ?_, ?_, hcap, rfl⟩
    · rw [show Q.length - n = 0 by omega, List.take_zero]
      exact hsetCapacity q₁ [] hcap hpass
    · rw [show Q.length - n = 0 by omega, List.drop_zero]
      exact ⟨hq₁.base, hq₁.capacity_eq⟩
  · -- already there: the loop leaves at once
    refine ⟨{ q with resizeInProgress := false }, Rf, Ru, F, U, ?_, ?_, heq, rfl⟩
    · rw [show Q.length - n = 0 by omega, List.take_zero]
      have hstop : resizePass (f + 1 + 1) n ({ q with resizeInProgress := true }, []) =
          .inr (some ({ q with resizeInProgress := true }, [])) := by
        simp [resizePass, heq]
      simp only [setCapacity, if_neg (Nat.not_lt.2 hn), hres, Bool.false_eq_true, if_false]
      rw [Loop.iterate_succ_of_inr hstop]
      rfl
    · rw [show Q.length - n = 0 by omega, List.drop_zero]
      exact ⟨hq.base, hq.capacity_eq⟩
  · -- too large: `decreaseCapacity` takes `capacity() - n` indices, free ones first
    have hmax := hq.capacity_add_length
    obtain ⟨q₁, hdec, hq₁, hcap₁, hres₁⟩ := iterate_decreasePass_takeFree h hd
      (q.capacity - n) (f + 1) (q.capacity - n) 0 (f + 1 + 1) [] hq₀ (by simp) (by simp)
      (by omega)
    have hevict : q.capacity - n - F.length = Q.length - n := by
      have := hq.capacity_eq
      have := hq.base.length_eq
      omega
    rw [hevict] at hdec hq₁
    have hpass : resizePass (f + 1 + 1) n ({ q with resizeInProgress := true }, []) =
        .inl (q₁, Q.take (Q.length - n)) := by
      simp only [resizePass, if_neg (Nat.ne_of_gt hgt), if_neg (Nat.not_lt.2 hgt.le),
        decreaseCapacity, hdec, Option.join_some, List.nil_append]
    have hcap : q₁.capacity = n := by rw [hcap₁]; show q.capacity - (q.capacity - n) = n; omega
    exact ⟨_, _, _, _, _, hsetCapacity q₁ _ hcap hpass, ⟨hq₁.base, hq₁.capacity_eq⟩, hcap, rfl⟩

/-- **`push` at capacity `0` never returns.** Every index is unused, so the free queue is empty;
`tryGetUsedIndex` is then `popIfSizeIsAtLeast(0)`, which is a plain `pop` of the empty used
queue, and each pass of the loop of `pushImpl` comes back to the state it started from. -/
theorem push_of_capacity_zero {q : MpmcResizeableLockFreeQueue α maxCapacity} {Rf Ru : ℕ}
    {F U : List ℕ} {Q : List α} (hq : Holds q Rf Ru F U Q) (hzero : q.capacity = 0) (v : α) :
    ∀ fuel, q.push fuel v = none
  | 0 => rfl
  | fuel + 1 => by
    obtain ⟨rfl, rfl⟩ : F = [] ∧ U = [] := by
      have := hq.capacity_eq
      rw [hzero] at this
      exact ⟨List.eq_nil_of_length_eq_zero (by omega), List.eq_nil_of_length_eq_zero (by omega)⟩
    -- `popIfSizeIsAtLeast(0)` is `pop()`, and the used queue is empty
    have hget : q.base.usedIndices.popIfSizeIsAtLeast (fuel + 1) q.capacity =
        some (q.base.usedIndices, none) := by
      rw [hzero, MpmcIndexQueue.popIfSizeIsAtLeast_zero,
        MpmcIndexQueue.pop_of_holds_nil h hq.base.used (cycleSound hd _) fuel]
    have hpass : q.pushPass (fuel + 1) = .inl q := by
      simp only [pushPass, MpmcIndexQueue.pop_of_holds_nil h hq.base.free (cycleSound hd _) fuel,
        tryGetUsedIndex, hget]
    rw [push, Loop.iterate_of_fixpoint hpass]
    rfl

omit hd in
/-- The default constructor holds the empty list with every index free. -/
theorem holds_new :
    Holds (new : MpmcResizeableLockFreeQueue α maxCapacity) 0 maxCapacity
      (List.range maxCapacity) [] [] :=
  ⟨MpmcLockFreeQueue.holds_new h, by simp [new]⟩

end Steps

/-! ### Runs -/

/-- A call on the queue. -/
inductive Op (α : Type*) where
  | tryPush (value : α)
  | push (value : α)
  | pop
  | setCapacity (newCapacity : ℕ)
  | capacity
  | empty
  | size

/-- What a call returns; `stuck` for a call that did not return within the fuel. -/
inductive Result (α : Type*) where
  | tryPushed (success : Bool)
  | pushed (evictedValue : Option α)
  | popped (value : Option α)
  | capacitySet (success : Bool) (removed : List α)
  | capacity (capacity : ℕ)
  | empty (isEmpty : Bool)
  | size (size : ℕ)
  | stuck
  deriving DecidableEq

/-- The state and result after a call that returns a value, or `stuck`. -/
def outcome {β : Type*} (result : β → Result α) :
    Option (MpmcResizeableLockFreeQueue α maxCapacity × β) →
      Option (MpmcResizeableLockFreeQueue α maxCapacity) × Result α
  | some (q, b) => (some q, result b)
  | none => (none, .stuck)

/-- One call, with `fuel` passes for each loop; after a call that got stuck nothing returns. -/
def queueStep (fuel : ℕ) :
    Option (MpmcResizeableLockFreeQueue α maxCapacity) → Op α →
      Option (MpmcResizeableLockFreeQueue α maxCapacity) × Result α
  | none, _ => (none, .stuck)
  | some q, .tryPush value => outcome .tryPushed (q.tryPush fuel value)
  | some q, .push value => outcome .pushed (q.push fuel value)
  | some q, .pop => outcome .popped (q.pop fuel)
  | some q, .setCapacity newCapacity =>
    outcome (fun (success, removed) ↦ .capacitySet success removed)
      (q.setCapacity fuel newCapacity)
  | some q, .capacity => (some q, .capacity q.capacity)
  | some q, .empty => (some q, .empty q.base.empty)
  | some q, .size => (some q, .size q.base.size)

/-- The queue as a machine. -/
def machine (maxCapacity fuel : ℕ) :
    Machine (Option (MpmcResizeableLockFreeQueue α maxCapacity)) (Op α) (Result α) :=
  ⟨queueStep fuel⟩

/-- One call on the abstract bounded queue whose capacity is set between `0` and `MaxCapacity`;
shrinking it keeps the newest elements and hands over the others, oldest first. -/
def specStep (maxCapacity : ℕ) (q : BoundedQueue α) : Op α → BoundedQueue α × Result α
  | .tryPush value => ((q.tryPush value).1, .tryPushed (q.tryPush value).2)
  | .push value => ((q.push value).1, .pushed (q.push value).2)
  | .pop => (q.pop.1, .popped q.pop.2)
  | .setCapacity n =>
    if maxCapacity < n then (q, .capacitySet false [])
    else ((q.resize n).1, .capacitySet true (q.resize n).2)
  | .capacity => (q, .capacity q.capacity)
  | .empty => (q, .empty q.items.isEmpty)
  | .size => (q, .size q.items.length)

/-- **The abstract resizeable queue.** -/
def spec (maxCapacity : ℕ) : Machine (BoundedQueue α) (Op α) (Result α) :=
  ⟨specStep maxCapacity⟩

/-- The runs compared: no `push` at capacity `0`. -/
def PushesAtPositiveCapacity : BoundedQueue α → Op α → Prop
  | q, .push _ => 0 < q.capacity
  | _, _ => True

/-- The concrete queue has returned from every call so far, holds the abstract list, has its
capacity, and no resize is in progress. -/
def Abstracts (s : Option (MpmcResizeableLockFreeQueue α maxCapacity)) (Q : BoundedQueue α) :
    Prop :=
  ∃ q Rf Ru F U, s = some q ∧ Holds q Rf Ru F U Q.items ∧ q.capacity = Q.capacity ∧
    q.resizeInProgress = false

section Refinement

variable (h : Admissible maxCapacity 64) (hd : maxCapacity ∣ 2 ^ 64)
include h hd

/-- **Every call keeps the abstraction with the abstract result**, for a `MaxCapacity` dividing
`2 ^ 64`, with fuel for `MaxCapacity + 2` passes of each loop, and no `push` at capacity `0`. -/
theorem abstracts_queueStep {fuel : ℕ} (hfuel : maxCapacity + 2 ≤ fuel) :
    (machine maxCapacity fuel).Simulation (spec maxCapacity) PushesAtPositiveCapacity
      (Abstracts (α := α)) := by
  obtain ⟨f, rfl⟩ : ∃ f, fuel = f + 1 := ⟨fuel - 1, by omega⟩
  rintro s ⟨Q, c⟩ o ⟨q, Rf, Ru, F, U, rfl, hq, hcap, hres⟩ ho
  dsimp only at hq hcap
  subst c
  have hlen := hq.base.length_eq
  have hcapeq := hq.capacity_eq
  cases o with
  | tryPush v =>
    cases F with
    | nil =>
      -- no free index: the queue is full
      have hfull : q.capacity ≤ Q.length := by simp at hcapeq; omega
      simp only [machine, queueStep, spec, specStep, tryPush_of_nil h hd hq v f, outcome,
        BoundedQueue.tryPush_of_le (q := ⟨Q, q.capacity⟩) hfull]
      exact ⟨trivial, q, Rf, Ru, [], U, rfl, hq, rfl, hres⟩
    | cons i F =>
      have hroom : Q.length < q.capacity := by simp at hcapeq; omega
      obtain ⟨b, htry, hb⟩ := tryPush_of_cons h hd hq v f
      simp only [machine, queueStep, spec, specStep, htry, outcome,
        BoundedQueue.tryPush_of_lt (q := ⟨Q, q.capacity⟩) hroom]
      exact ⟨trivial, _, _, _, _, _, rfl, hb, rfl, hres⟩
  | push v =>
    cases F with
    | cons i F =>
      have hroom : Q.length < q.capacity := by simp at hcapeq; omega
      obtain ⟨b, hpush, hb⟩ := push_of_cons h hd hq v f
      simp only [machine, queueStep, spec, specStep, hpush, outcome,
        BoundedQueue.push_of_lt (q := ⟨Q, q.capacity⟩) hroom]
      exact ⟨trivial, _, _, _, _, _, rfl, hb, rfl, hres⟩
    | nil =>
      -- no free index at a positive capacity: the head is evicted
      have hpos : 0 < q.capacity := ho
      rcases U with _ | ⟨j, U⟩
      · simp at hcapeq
        omega
      rcases Q with _ | ⟨a, Q⟩
      · simp at hlen
      have hfull : q.capacity ≤ Q.length + 1 := by simp at hcapeq hlen; omega
      obtain ⟨b, hpush, hb⟩ := push_of_full h hd hq v f
      simp only [machine, queueStep, spec, specStep, hpush, outcome,
        BoundedQueue.push_cons_of_le hfull]
      exact ⟨trivial, _, _, _, _, _, rfl, hb, rfl, hres⟩
  | pop =>
    rcases U with _ | ⟨j, U⟩
    · rcases Q with _ | ⟨a, Q⟩
      · simp only [machine, queueStep, spec, specStep, pop_of_nil h hd hq f, outcome,
          BoundedQueue.pop_nil]
        exact ⟨trivial, q, Rf, Ru, F, [], rfl, hq, rfl, hres⟩
      · simp at hlen
    · rcases Q with _ | ⟨a, Q⟩
      · simp at hlen
      obtain ⟨b, hpop, hb⟩ := pop_of_cons h hd hq f
      simp only [machine, queueStep, spec, specStep, hpop, outcome, BoundedQueue.pop_cons]
      exact ⟨trivial, _, _, _, _, _, rfl, hb, rfl, hres⟩
  | setCapacity n =>
    by_cases hn : maxCapacity < n
    · -- above `MaxCapacity`: refused, nothing changes
      have hset : q.setCapacity (f + 1) n = some (q, false, []) := if_pos hn
      simp only [machine, queueStep, spec, specStep, hset, outcome, if_pos hn]
      exact ⟨trivial, q, Rf, Ru, F, U, rfl, hq, rfl, hres⟩
    · obtain ⟨q', Rf', Ru', F', U', hset, hq', hcap', hres'⟩ :=
        setCapacity_of_le h hd hq hres (Nat.not_lt.1 hn) hfuel
      simp only [machine, queueStep, spec, specStep, hset, outcome, if_neg hn,
        BoundedQueue.resize]
      exact ⟨trivial, q', Rf', Ru', F', U', rfl, hq', hcap', hres'⟩
  | capacity =>
    simp only [machine, queueStep, spec, specStep]
    exact ⟨trivial, q, Rf, Ru, F, U, rfl, hq, rfl, hres⟩
  | empty =>
    simp only [machine, queueStep, spec, specStep,
      MpmcLockFreeQueue.empty_of_holds h hq.base (cycleSound hd _)]
    exact ⟨trivial, q, Rf, Ru, F, U, rfl, hq, rfl, hres⟩
  | size =>
    simp only [machine, queueStep, spec, specStep, hq.base.size_eq]
    exact ⟨trivial, q, Rf, Ru, F, U, rfl, hq, rfl, hres⟩

/-- **For a `MaxCapacity` dividing `2 ^ 64` the resizeable queue is a bounded FIFO with eviction
whose capacity can be set**, on every run from the default constructor that makes no `push` at
capacity `0`, given fuel for `MaxCapacity + 2` passes of each loop: every call returns what the
abstract queue returns, and the free, used and unused indices stay a partition of the slots with
`capacity()` indices in the two queues. -/
theorem mpmcResizeableLockFreeQueue_refines_of_dvd {fuel : ℕ} (hfuel : maxCapacity + 2 ≤ fuel)
    (ops : List (Op α))
    (hops : (spec maxCapacity).Admits PushesAtPositiveCapacity ⟨[], maxCapacity⟩ ops) :
    ((machine maxCapacity fuel).run (some new) ops).2 =
        ((spec maxCapacity).run ⟨[], maxCapacity⟩ ops).2 ∧
      Abstracts ((machine maxCapacity fuel).run (some new) ops).1
        ((spec maxCapacity).run ⟨[], maxCapacity⟩ ops).1 :=
  (abstracts_queueStep h hd hfuel).run ops ⟨new, 0, maxCapacity, _, _, rfl, holds_new h, rfl, rfl⟩
    hops

omit h hd in
/-- `push(7)`, `setCapacity(1)` and `pop()` with `MaxCapacity = 2`. -/
theorem mpmcResizeableLockFreeQueue_refines_of_dvd_of_two :
    ((machine 2 4).run (some new) [.push 7, .setCapacity 1, .pop]).2 =
      ((spec 2).run ⟨[], 2⟩ [.push 7, .setCapacity 1, .pop]).2 :=
  (mpmcResizeableLockFreeQueue_refines_of_dvd ⟨by decide, by decide⟩ (by decide) (by decide) _
    (by simp [PushesAtPositiveCapacity])).1

/-- **`push` hangs at capacity `0`.** From the default constructor, `setCapacity(0)` returns
`true` having removed nothing, and the `push(v)` that follows never returns, where the abstract
queue of capacity `0` hands `v` straight back. -/
theorem mpmcResizeableLockFreeQueue_push_hangs_at_capacity_zero {fuel : ℕ}
    (hfuel : maxCapacity + 2 ≤ fuel) (v : α) :
    (machine maxCapacity fuel).run (some new) [.setCapacity 0, .push v] =
        (none, [.capacitySet true [], .stuck]) ∧
      ((spec maxCapacity).run ⟨[], maxCapacity⟩ [.setCapacity 0, .push v]).2 =
        [.capacitySet true [], .pushed (some v)] := by
  obtain ⟨q', Rf', Ru', F', U', hset, hq', hcap', -⟩ :=
    setCapacity_of_le h hd (holds_new h (α := α)) rfl (Nat.zero_le _) hfuel
  have hpush : q'.push fuel v = none := push_of_capacity_zero h hd hq' hcap' v fuel
  refine ⟨?_, ?_⟩
  · simp only [Machine.run_cons, Machine.run_nil, machine, queueStep, hset, outcome, hpush]
    rfl
  · simp [spec, specStep, BoundedQueue.resize, BoundedQueue.push]

end Refinement

/-- The hang with `MaxCapacity = 1` and fuel for three passes of each loop. -/
theorem mpmcResizeableLockFreeQueue_push_hangs_at_capacity_zero_of_one :
    Admissible 1 64 ∧ 1 ∣ 2 ^ 64 ∧ 1 + 2 ≤ 3 ∧
      (machine 1 3).run (some (new : MpmcResizeableLockFreeQueue ℕ 1))
          [.setCapacity 0, .push 7] = (none, [.capacitySet true [], .stuck]) ∧
      ((spec 1).run ⟨[], 1⟩ [Op.setCapacity 0, .push (7 : ℕ)]).2 =
        [.capacitySet true [], .pushed (some 7)] :=
  have h1 : Admissible 1 64 := ⟨by decide, by decide⟩
  ⟨h1, by decide, by decide,
    mpmcResizeableLockFreeQueue_push_hangs_at_capacity_zero h1 (by decide) (by decide) 7⟩

end MpmcResizeableLockFreeQueue

end Iox.Concurrent
