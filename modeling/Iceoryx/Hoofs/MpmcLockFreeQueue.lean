import Mathlib.Data.List.Perm.Basic
import Mathlib.Data.List.Rotate
import Iceoryx.Hoofs.MpmcIndexQueue

/-!
# `MpmcLockFreeQueue`: elements moved between two index queues

`iox::concurrent::MpmcLockFreeQueue<ElementType, Capacity>` (`mpmc_lockfree_queue.inl`) keeps
its elements in a raw buffer of `Capacity` slots and two `MpmcIndexQueue`s of slot indices:
`m_freeIndices`, built full, and `m_usedIndices`, built empty. A push takes a free index, builds
the element in its slot and pushes the index onto the used queue; a pop takes the oldest used
index, moves the element out, destroys the slot and gives the index back. `push` always
succeeds: when no index is free it evicts the oldest element through `popIfFull`.

## The model

The buffer is a function from slots to `Option ElementType`: `some v` for a slot holding a
constructed element, `none` for raw memory, so `writeBufferAt` and `readBufferAt` are exactly
the placement-new and the move-out-and-destroy of the source. `m_size` is a natural number. Calls
into the index queues carry their fuel; a call that got stuck makes the whole operation stuck.

## What is proved

`Holds q Rf Ru F U X Q` reads the queue as the element list `Q`: the free and used index queues
hold the index lists `F` and `U` (from logical read positions `Rf`, `Ru`), `F ++ U ++ X` is a
permutation of `0, ..., Capacity - 1` where `X` are the indices held outside both queues (none
here, the unused ones of the resizeable queue), the slots of `U` hold `Q` in order, the slots of
`F` and `X` are raw, and `m_size = |Q|`. Each operation keeps it and answers as the abstract bounded queue with
eviction (`BoundedQueue.tryPush`, `BoundedQueue.push`, `BoundedQueue.pop`), given sound cycles
in the index queues. For a capacity dividing `2 ^ 64` this holds on every run
(`mpmcLockFreeQueue_refines_fifo_of_dvd`). For `Capacity = 3`, rounds of `tryPush` and `pop`
move both index queues on by one position each, and the `tryPush` after `2 ^ 64 - 3` rounds
pushes into the used queue at its overflowed write position and never returns
(`mpmcLockFreeQueue_tryPush_hangs_after_wrap`).
-/

namespace Iox.Concurrent

/-- The state of an `MpmcLockFreeQueue<ElementType, Capacity>`: `m_freeIndices`,
`m_usedIndices`, `m_buffer` and `m_size`. -/
structure MpmcLockFreeQueue (α : Type*) (capacity : ℕ) where
  /-- `m_freeIndices`. -/
  freeIndices : MpmcIndexQueue capacity
  /-- `m_usedIndices`. -/
  usedIndices : MpmcIndexQueue capacity
  /-- `m_buffer`: `some v` where an element is constructed. -/
  buffer : ℕ → Option α
  /-- `m_size`. -/
  size : ℕ

namespace MpmcLockFreeQueue

variable {α : Type*} {capacity : ℕ}

/-- The constructor: all indices free, none used, every slot raw. -/
def new : MpmcLockFreeQueue α capacity where
  freeIndices := .constructFull
  usedIndices := .constructEmpty
  buffer := fun _ ↦ none
  size := 0

/-- `writeBufferAt(index, value)`: construct the element in its slot and count it. -/
def writeBufferAt (q : MpmcLockFreeQueue α capacity) (index : ℕ) (value : α) :
    MpmcLockFreeQueue α capacity :=
  { q with buffer := Function.update q.buffer index (some value), size := q.size + 1 }

/-- `readBufferAt(index)`: uncount, move the element out of its slot and destroy it. -/
def readBufferAt (q : MpmcLockFreeQueue α capacity) (index : ℕ) :
    MpmcLockFreeQueue α capacity × Option α :=
  ({ q with buffer := Function.update q.buffer index none, size := q.size - 1 }, q.buffer index)

/-- `tryPush(value)`: `false` when no index is free; otherwise the value goes into the slot of a
free index, which is pushed onto the used queue. -/
def tryPush (fuel : ℕ) (q : MpmcLockFreeQueue α capacity) (value : α) :
    Option (MpmcLockFreeQueue α capacity × Bool) :=
  match q.freeIndices.pop fuel with
  | none => none
  | some (freeIndices, none) => some ({ q with freeIndices := freeIndices }, false)
  | some (freeIndices, some index) =>
    let q := writeBufferAt { q with freeIndices := freeIndices } index value
    (q.usedIndices.push fuel index).map fun usedIndices ↦ ({ q with usedIndices := usedIndices }, true)

/-- One pass of the loop of `pushImpl`: take a free index, or else evict the oldest element
through `popIfFull`, or else go round. The inner `none` is a stuck call. -/
def pushPass (fuel : ℕ) (q : MpmcLockFreeQueue α capacity) :
    MpmcLockFreeQueue α capacity ⊕ Option (MpmcLockFreeQueue α capacity × ℕ × Option α) :=
  match q.freeIndices.pop fuel with
  | none => .inr none
  | some (freeIndices, some index) => .inr (some ({ q with freeIndices := freeIndices }, index, none))
  | some (freeIndices, none) =>
    match q.usedIndices.popIfFull with
    | (usedIndices, some index) =>
      let (q, evictedValue) :=
        readBufferAt { q with freeIndices := freeIndices, usedIndices := usedIndices } index
      .inr (some (q, index, evictedValue))
    | (usedIndices, none) => .inl { q with freeIndices := freeIndices, usedIndices := usedIndices }

/-- `push(value)` (`pushImpl`): the loop, then the value goes into the slot of the index it
obtained, which is pushed onto the used queue; the evicted element, if any, is returned. -/
def push (fuel : ℕ) (q : MpmcLockFreeQueue α capacity) (value : α) :
    Option (MpmcLockFreeQueue α capacity × Option α) :=
  (Loop.iterate (pushPass fuel) fuel q).join.bind fun (q, index, evictedValue) ↦
    let q := writeBufferAt q index value
    (q.usedIndices.push fuel index).map fun usedIndices ↦
      ({ q with usedIndices := usedIndices }, evictedValue)

/-- `pop()`: `nullopt` when no index is used; otherwise the element of the oldest used index is
moved out and the index freed. -/
def pop (fuel : ℕ) (q : MpmcLockFreeQueue α capacity) :
    Option (MpmcLockFreeQueue α capacity × Option α) :=
  match q.usedIndices.pop fuel with
  | none => none
  | some (usedIndices, none) => some ({ q with usedIndices := usedIndices }, none)
  | some (usedIndices, some index) =>
    let (q, result) := readBufferAt { q with usedIndices := usedIndices } index
    (q.freeIndices.push fuel index).map fun freeIndices ↦ ({ q with freeIndices := freeIndices }, result)

/-- `empty()`: the used queue is empty. -/
def empty (q : MpmcLockFreeQueue α capacity) : Bool := q.usedIndices.empty

@[simp] theorem writeBufferAt_freeIndices (q : MpmcLockFreeQueue α capacity) (i : ℕ) (v : α) :
    (q.writeBufferAt i v).freeIndices = q.freeIndices := rfl

@[simp] theorem writeBufferAt_usedIndices (q : MpmcLockFreeQueue α capacity) (i : ℕ) (v : α) :
    (q.writeBufferAt i v).usedIndices = q.usedIndices := rfl

@[simp] theorem readBufferAt_freeIndices (q : MpmcLockFreeQueue α capacity) (i : ℕ) :
    (q.readBufferAt i).1.freeIndices = q.freeIndices := rfl

@[simp] theorem readBufferAt_usedIndices (q : MpmcLockFreeQueue α capacity) (i : ℕ) :
    (q.readBufferAt i).1.usedIndices = q.usedIndices := rfl

/-! ### The invariant -/

open CyclicIndex
open MpmcIndexQueue (CycleSound)

/-- The queue **holds** the element list `Q`: the free index queue holds `F` from `Rf`, the used
index queue holds `U` from `Ru`, and together with the indices `X` that neither queue holds they
are a permutation of the slots; the slots of `U` hold `Q` in order, the slots of `F` and `X` are
raw, and `m_size` counts `Q`. The queue alone keeps every index in its two queues (`X = []`);
the resizeable queue keeps its unused indices outside them. -/
structure Holds (q : MpmcLockFreeQueue α capacity) (Rf Ru : ℕ) (F U X : List ℕ) (Q : List α) :
    Prop where
  free : q.freeIndices.Holds Rf F
  used : q.usedIndices.Holds Ru U
  perm : (F ++ U ++ X).Perm (List.range capacity)
  length_eq : U.length = Q.length
  buffer_used : ∀ k (hk : k < U.length), q.buffer U[k] = Q[k]?
  buffer_raw : ∀ i ∈ F ++ X, q.buffer i = none
  size_eq : q.size = Q.length

section Partition

variable {q : MpmcLockFreeQueue α capacity} {Rf Ru : ℕ} {F U X : List ℕ} {Q : List α}

theorem Holds.length_add (hq : Holds q Rf Ru F U X Q) :
    F.length + U.length + X.length = capacity := by
  simpa [Nat.add_assoc] using hq.perm.length_eq

theorem Holds.lt_of_mem (hq : Holds q Rf Ru F U X Q) {i : ℕ} (hi : i ∈ F ++ U ++ X) :
    i < capacity :=
  List.mem_range.1 (hq.perm.subset hi)

/-- An index in hand that, with the lists, partitions the slots is in none of them. -/
theorem not_mem_of_perm_cons {i : ℕ} {l : List ℕ} (hp : (i :: l).Perm (List.range capacity)) :
    i ∉ l :=
  (List.nodup_cons.1 (hp.nodup_iff.2 List.nodup_range)).1

/-- The head of the used list, taken in hand. -/
theorem Holds.perm_used_cons {j : ℕ} (hq : Holds q Rf Ru F (j :: U) X Q) :
    (j :: (F ++ U ++ X)).Perm (List.range capacity) := by
  have hp := hq.perm
  rw [List.append_assoc, List.cons_append] at hp
  rw [List.append_assoc]
  exact List.perm_middle.symm.trans hp

end Partition

/-- Destroying the element of a slot leaves every raw slot raw. -/
theorem update_none_of_raw {b : ℕ → Option α} {j x : ℕ} (hx : x ≠ j → b x = none) :
    Function.update b j none x = none := by
  by_cases hxj : x = j
  · rw [hxj, Function.update_self]
  · rw [Function.update_of_ne hxj, hx hxj]

/-! ### One operation at a time -/

section Steps

variable (h : Admissible capacity 64)
include h

/-- **Publishing an index in hand.** When the slot of an index that no list holds gets the value
and the index is pushed onto the used queue, at a write position with sound cycles where the
index fits its cycle, the queue holds `Q ++ [v]`. This is the common tail of `tryPush`, `push`
and the evictions. -/
theorem holds_publish {q : MpmcLockFreeQueue α capacity} {Rf Ru i : ℕ} {F U X : List ℕ}
    {Q : List α} (hf : q.freeIndices.Holds Rf F) (hu : q.usedIndices.Holds Ru U)
    (hperm : (i :: (F ++ U ++ X)).Perm (List.range capacity)) (hlen : U.length = Q.length)
    (hbuf : ∀ k (hk : k < U.length), q.buffer U[k] = Q[k]?)
    (hraw : ∀ j ∈ F ++ X, q.buffer j = none) (hsize : q.size = Q.length)
    (hsafe : CycleSound capacity (Ru + U.length))
    (hfit : i + (pos capacity 64 (Ru + U.length)).getCycle * capacity < 2 ^ 64)
    (v : α) (fuel : ℕ) :
    ∃ used, q.usedIndices.push (fuel + 1) i = some used ∧
      Holds { q.writeBufferAt i v with usedIndices := used } Rf Ru F (U ++ [i]) X (Q ++ [v]) := by
  have hnot : i ∉ F ++ U ++ X := not_mem_of_perm_cons hperm
  have hlength : F.length + U.length + X.length + 1 = capacity := by
    simpa [Nat.add_assoc] using hperm.length_eq
  have hi : i < capacity := List.mem_range.1 (hperm.subset List.mem_cons_self)
  obtain ⟨used, hpush, hused⟩ :=
    MpmcIndexQueue.push_of_holds h hu (by omega) hi hsafe hfit fuel
  refine ⟨used, hpush, ⟨hf, hused, ?_, by simp [hlen], fun k hk ↦ ?_, fun j hj ↦ ?_, ?_⟩⟩
  · rw [show F ++ (U ++ [i]) ++ X = F ++ U ++ i :: X by simp]
    exact List.perm_middle.trans hperm
  · simp only [List.length_append, List.length_singleton] at hk
    rcases Nat.lt_succ_iff_lt_or_eq.1 hk with hk | rfl
    · -- an older slot: the write went elsewhere
      have hne : U[k] ≠ i := fun heq ↦ hnot (by simp [← heq])
      simp only [writeBufferAt, List.getElem_append_left hk, Function.update_of_ne hne,
        hbuf k hk, List.getElem?_append_left (hlen ▸ hk)]
    · simp [writeBufferAt, hlen]
  · have hne : j ≠ i := by
      rintro rfl
      exact hnot (by simp at hj ⊢; tauto)
    simp only [writeBufferAt, Function.update_of_ne hne, hraw j hj]
  · simp [writeBufferAt, hsize]

/-- **Publishing the head of the free list**: once `pop` of the free queue has handed out its
head `i`, publishing `i` appends `v`. The common part of `tryPush` and `push` with a free index. -/
theorem holds_publish_of_cons {q : MpmcLockFreeQueue α capacity} {Rf Ru i : ℕ}
    {F U X : List ℕ} {Q : List α} (hq : Holds q Rf Ru (i :: F) U X Q)
    (hsafe : CycleSound capacity (Ru + U.length))
    (hfit : i + (pos capacity 64 (Ru + U.length)).getCycle * capacity < 2 ^ 64)
    (v : α) (fuel : ℕ) :
    ∃ used, q.usedIndices.push (fuel + 1) i = some used ∧
      Holds { writeBufferAt { q with freeIndices :=
          { q.freeIndices with readPosition := pos capacity 64 (Rf + 1) } } i v with
        usedIndices := used } (Rf + 1) Ru F (U ++ [i]) X (Q ++ [v]) :=
  holds_publish (q := { q with freeIndices :=
      { q.freeIndices with readPosition := pos capacity 64 (Rf + 1) } }) h hq.free.pop hq.used hq.perm hq.length_eq hq.buffer_used
    (fun j hj ↦ hq.buffer_raw j (by simp at hj ⊢; tauto)) hq.size_eq hsafe hfit v fuel

/-- **`tryPush` with a free index**: the head of the free list is taken and published. -/
theorem tryPush_of_cons {q : MpmcLockFreeQueue α capacity} {Rf Ru i : ℕ} {F U X : List ℕ}
    {Q : List α} (hq : Holds q Rf Ru (i :: F) U X Q)
    (hsafe : CycleSound capacity (Ru + U.length))
    (hfit : i + (pos capacity 64 (Ru + U.length)).getCycle * capacity < 2 ^ 64)
    (v : α) (fuel : ℕ) :
    ∃ q', q.tryPush (fuel + 1) v = some (q', true) ∧
      Holds q' (Rf + 1) Ru F (U ++ [i]) X (Q ++ [v]) := by
  have hpop := MpmcIndexQueue.pop_of_holds_cons h hq.free fuel
  obtain ⟨used, hpush, hq'⟩ :=
    holds_publish_of_cons h hq hsafe hfit v fuel
  refine ⟨_, ?_, hq'⟩
  simp only [tryPush, hpop, writeBufferAt_usedIndices]
  rw [hpush, Option.map_some]

/-- **`tryPush` with no free index** refuses and changes nothing. -/
theorem tryPush_of_nil {q : MpmcLockFreeQueue α capacity} {Rf Ru : ℕ} {U X : List ℕ}
    {Q : List α} (hq : Holds q Rf Ru [] U X Q) (hsafe : CycleSound capacity Rf) (v : α)
    (fuel : ℕ) : q.tryPush (fuel + 1) v = some (q, false) := by
  simp only [tryPush, MpmcIndexQueue.pop_of_holds_nil h hq.free hsafe fuel]

/-- The first pass of `pushImpl` with a free index leaves the loop with it and evicts nothing. -/
theorem pushPass_of_cons {q : MpmcLockFreeQueue α capacity} {Rf Ru i : ℕ} {F U X : List ℕ}
    {Q : List α} (hq : Holds q Rf Ru (i :: F) U X Q) (fuel : ℕ) :
    q.pushPass (fuel + 1) = .inr (some ({ q with freeIndices :=
      { q.freeIndices with readPosition := pos capacity 64 (Rf + 1) } }, i, none)) := by
  simp only [pushPass, MpmcIndexQueue.pop_of_holds_cons h hq.free fuel]

/-- The first pass of `pushImpl` with no free index: the used queue is full, `popIfFull` takes
its head, and the head's element is moved out as the evicted value. -/
theorem pushPass_of_full {q : MpmcLockFreeQueue α capacity} {Rf Ru j : ℕ} {U : List ℕ}
    {a : α} {Q : List α} (hq : Holds q Rf Ru [] (j :: U) [] (a :: Q))
    (hsafeF : CycleSound capacity Rf) (hsafeU : CycleSound capacity (Ru + capacity)) (fuel : ℕ) :
    q.pushPass (fuel + 1) = .inr (some ((readBufferAt { q with usedIndices :=
      { q.usedIndices with readPosition := pos capacity 64 (Ru + 1) } } j).1, j, some a)) := by
  have hfull : U.length + 1 = capacity := by simpa using hq.length_add
  have hhead : q.buffer j = some a := hq.buffer_used 0 (by simp)
  simp only [pushPass, MpmcIndexQueue.pop_of_holds_nil h hq.free hsafeF fuel,
    MpmcIndexQueue.popIfFull_of_full h hq.used hfull hsafeU, readBufferAt, hhead]

/-- **`push` with a free index** appends and evicts nothing. -/
theorem push_of_cons {q : MpmcLockFreeQueue α capacity} {Rf Ru i : ℕ} {F U X : List ℕ}
    {Q : List α} (hq : Holds q Rf Ru (i :: F) U X Q)
    (hsafe : CycleSound capacity (Ru + U.length))
    (hfit : i + (pos capacity 64 (Ru + U.length)).getCycle * capacity < 2 ^ 64)
    (v : α) (fuel : ℕ) :
    ∃ q', q.push (fuel + 1) v = some (q', none) ∧
      Holds q' (Rf + 1) Ru F (U ++ [i]) X (Q ++ [v]) := by
  obtain ⟨used, hpush, hq'⟩ :=
    holds_publish_of_cons h hq hsafe hfit v fuel
  refine ⟨_, ?_, hq'⟩
  rw [push, Loop.iterate_succ_of_inr (pushPass_of_cons h hq fuel)]
  simp only [Option.join_some, Option.bind_some, writeBufferAt_usedIndices]
  rw [hpush, Option.map_some]

omit h in
/-- **Evicting the head of the used list**: with its index taken off the used queue (whose read
position moved on) and its element moved out, the index is in hand, the rest of the used list
still holds the rest of `Q`, and every raw slot stays raw. -/
theorem holds_evict {q : MpmcLockFreeQueue α capacity} {Rf Ru j : ℕ} {F U X : List ℕ} {a : α}
    {Q : List α} (hq : Holds q Rf Ru F (j :: U) X (a :: Q)) :
    let q' := (readBufferAt { q with usedIndices :=
      { q.usedIndices with readPosition := pos capacity 64 (Ru + 1) } } j).1
    q'.usedIndices.Holds (Ru + 1) U ∧ U.length = Q.length ∧
      (∀ k (hk : k < U.length), q'.buffer U[k] = Q[k]?) ∧
      (∀ x ∈ F ++ X, q'.buffer x = none) ∧ q'.size = Q.length := by
  have hnot : j ∉ F ++ U ++ X := not_mem_of_perm_cons hq.perm_used_cons
  refine ⟨hq.used.pop, by simpa using hq.length_eq, fun k hk ↦ ?_, fun x hx ↦ ?_, ?_⟩
  · have hne : U[k] ≠ j := fun heq ↦ hnot (by simp [← heq])
    simp only [readBufferAt, Function.update_of_ne hne]
    exact hq.buffer_used (k + 1) (by simp; omega)
  · exact update_none_of_raw fun _ ↦ hq.buffer_raw x hx
  · simp [readBufferAt, hq.size_eq]

/-- **`push` on a full queue** evicts the head: its index is taken from the used queue by
`popIfFull`, its element is moved out and returned, and the index is published again with the
new value, now at the back. -/
theorem push_of_full {q : MpmcLockFreeQueue α capacity} {Rf Ru j : ℕ} {U : List ℕ} {a : α}
    {Q : List α} (hq : Holds q Rf Ru [] (j :: U) [] (a :: Q)) (hsafeF : CycleSound capacity Rf)
    (hsafeU : CycleSound capacity (Ru + capacity))
    (hfit : j + (pos capacity 64 (Ru + capacity)).getCycle * capacity < 2 ^ 64)
    (v : α) (fuel : ℕ) :
    ∃ q', q.push (fuel + 1) v = some (q', some a) ∧
      Holds q' Rf (Ru + 1) [] (U ++ [j]) [] (Q ++ [v]) := by
  have hfull : Ru + 1 + U.length = Ru + capacity := by
    have := hq.length_add
    simp only [List.length_nil, List.length_cons] at this
    omega
  obtain ⟨hused, hlen, hbuf, hraw, hsize⟩ := holds_evict hq
  obtain ⟨used, hpush, hq'⟩ :=
    holds_publish (q := (readBufferAt { q with usedIndices :=
      { q.usedIndices with readPosition := pos capacity 64 (Ru + 1) } } j).1)
      h hq.free hused hq.perm_used_cons hlen hbuf hraw hsize (by rwa [hfull]) (by rwa [hfull])
      v fuel
  refine ⟨_, ?_, hq'⟩
  rw [push, Loop.iterate_succ_of_inr (pushPass_of_full h hq hsafeF hsafeU fuel)]
  simp only [Option.join_some, Option.bind_some, writeBufferAt_usedIndices]
  rw [hpush, Option.map_some]

/-- **`pop` from a nonempty queue**: the head's index is taken from the used queue, its element
moved out, and the index pushed back onto the free queue. -/
theorem pop_of_cons {q : MpmcLockFreeQueue α capacity} {Rf Ru j : ℕ} {F U X : List ℕ} {a : α}
    {Q : List α} (hq : Holds q Rf Ru F (j :: U) X (a :: Q))
    (hsafe : CycleSound capacity (Rf + F.length))
    (hfit : j + (pos capacity 64 (Rf + F.length)).getCycle * capacity < 2 ^ 64) (fuel : ℕ) :
    ∃ q', q.pop (fuel + 1) = some (q', some a) ∧ Holds q' Rf (Ru + 1) (F ++ [j]) U X Q := by
  have hlength := hq.length_add
  simp only [List.length_cons] at hlength
  have hj : j < capacity := hq.lt_of_mem (by simp)
  have hhead : q.buffer j = some a := hq.buffer_used 0 (by simp)
  obtain ⟨hused, hlen, hbuf, hraw, hsize⟩ := holds_evict hq
  obtain ⟨free, hpush, hfree⟩ :=
    MpmcIndexQueue.push_of_holds h hq.free (by omega) hj hsafe hfit fuel
  refine ⟨{ (readBufferAt { q with usedIndices :=
      { q.usedIndices with readPosition := pos capacity 64 (Ru + 1) } } j).1 with
        freeIndices := free }, ?_, ⟨hfree, hused, by simpa using hq.perm, hlen, hbuf, ?_, hsize⟩⟩
  · simp only [pop, MpmcIndexQueue.pop_of_holds_cons h hq.used fuel, readBufferAt_freeIndices]
    rw [hpush, Option.map_some]
    simp [readBufferAt, hhead]
  · -- the freed slot was just destroyed; the others were raw before
    intro x hx
    refine update_none_of_raw fun hxj ↦ hq.buffer_raw x ?_
    simp only [List.mem_append, List.mem_singleton] at hx ⊢
    tauto

/-- **`pop` from an empty queue** reports nothing and changes nothing. -/
theorem pop_of_nil {q : MpmcLockFreeQueue α capacity} {Rf Ru : ℕ} {F X : List ℕ} {Q : List α}
    (hq : Holds q Rf Ru F [] X Q) (hsafe : CycleSound capacity Ru) (fuel : ℕ) :
    q.pop (fuel + 1) = some (q, none) := by
  simp only [pop, MpmcIndexQueue.pop_of_holds_nil h hq.used hsafe fuel]

/-- **`empty()`** answers whether `Q` is empty. -/
theorem empty_of_holds {q : MpmcLockFreeQueue α capacity} {Rf Ru : ℕ} {F U X : List ℕ}
    {Q : List α} (hq : Holds q Rf Ru F U X Q) (hsafe : CycleSound capacity (Ru + U.length)) :
    q.empty = Q.isEmpty := by
  have hlen := hq.length_eq
  rw [empty, MpmcIndexQueue.empty_of_holds h hq.used hsafe]
  -- the two lists have the same length, so both are empty or neither is
  cases U <;> cases Q <;> simp at hlen ⊢

/-- **A `tryPush` that never returns**: the free index is taken, and the push of it onto the used
queue is stuck. -/
theorem tryPush_of_push_none {q : MpmcLockFreeQueue α capacity} {Rf Ru i : ℕ} {F U X : List ℕ}
    {Q : List α} (hq : Holds q Rf Ru (i :: F) U X Q) {fuel : ℕ}
    (hnone : q.usedIndices.push (fuel + 1) i = none) (v : α) :
    q.tryPush (fuel + 1) v = none := by
  simp only [tryPush, MpmcIndexQueue.pop_of_holds_cons h hq.free fuel, writeBufferAt_usedIndices]
  rw [hnone, Option.map_none]

/-- The constructor holds the empty list: every index is free, from position `0`, and the used
queue is empty at position `Capacity`. -/
theorem holds_new :
    Holds (new : MpmcLockFreeQueue α capacity) 0 capacity (List.range capacity) [] [] [] where
  free := MpmcIndexQueue.holds_constructFull h
  used := MpmcIndexQueue.holds_constructEmpty h
  perm := by simp only [List.append_nil, List.Perm.refl]
  length_eq := rfl
  buffer_used := fun _ hk ↦ absurd hk (Nat.not_lt_zero _)
  buffer_raw := fun _ _ ↦ rfl
  size_eq := rfl

end Steps

/-! ### Runs -/

/-- A call on the queue. -/
inductive Op (α : Type*) where
  | tryPush (value : α)
  | push (value : α)
  | pop
  | empty
  | size

/-- What a call returns; `stuck` for a call that did not return within the fuel. -/
inductive Result (α : Type*) where
  | tryPushed (success : Bool)
  | pushed (evictedValue : Option α)
  | popped (value : Option α)
  | empty (isEmpty : Bool)
  | size (size : ℕ)
  | stuck
  deriving DecidableEq

/-- The state and result after a call that returns a value, or `stuck`. -/
def outcome {β : Type*} (result : β → Result α) :
    Option (MpmcLockFreeQueue α capacity × β) → Option (MpmcLockFreeQueue α capacity) × Result α
  | some (q, b) => (some q, result b)
  | none => (none, .stuck)

/-- One call, with `fuel` passes for each loop; after a call that got stuck nothing returns. -/
def queueStep (fuel : ℕ) :
    Option (MpmcLockFreeQueue α capacity) → Op α → Option (MpmcLockFreeQueue α capacity) × Result α
  | none, _ => (none, .stuck)
  | some q, .tryPush value => outcome .tryPushed (q.tryPush fuel value)
  | some q, .push value => outcome .pushed (q.push fuel value)
  | some q, .pop => outcome .popped (q.pop fuel)
  | some q, .empty => (some q, .empty q.empty)
  | some q, .size => (some q, .size q.size)

/-- The queue as a machine. -/
def machine (capacity fuel : ℕ) :
    Machine (Option (MpmcLockFreeQueue α capacity)) (Op α) (Result α) :=
  ⟨queueStep fuel⟩

/-- One call on the abstract bounded queue with eviction. -/
def specStep (q : BoundedQueue α) : Op α → BoundedQueue α × Result α
  | .tryPush value => ((q.tryPush value).1, .tryPushed (q.tryPush value).2)
  | .push value => ((q.push value).1, .pushed (q.push value).2)
  | .pop => (q.pop.1, .popped q.pop.2)
  | .empty => (q, .empty q.items.isEmpty)
  | .size => (q, .size q.items.length)

/-- **The abstract queue**: a FIFO of capacity `Capacity` whose `push` evicts the oldest element
when full. -/
def spec : Machine (BoundedQueue α) (Op α) (Result α) := ⟨specStep⟩

/-- The concrete queue has returned from every call so far and holds the abstract list. -/
def Abstracts (capacity : ℕ) (s : Option (MpmcLockFreeQueue α capacity)) (Q : BoundedQueue α) :
    Prop :=
  Q.capacity = capacity ∧ ∃ q Rf Ru F U, s = some q ∧ Holds q Rf Ru F U [] Q.items

section Refinement

variable (h : Admissible capacity 64)
include h

/-- **Every call keeps the abstraction with the abstract result** when the capacity divides
`2 ^ 64`, as long as some pass of each loop is allowed. -/
theorem abstracts_queueStep (hd : capacity ∣ 2 ^ 64) (fuel : ℕ) :
    (machine capacity (fuel + 1)).Simulation spec (fun _ _ ↦ True)
      (Abstracts (α := α) capacity) := by
  rintro s ⟨Q, c⟩ o ⟨hcap, q, Rf, Ru, F, U, rfl, hq⟩ -
  dsimp only at hcap hq
  subst c
  have hsafe : ∀ W, CycleSound capacity W := fun _ ↦ Or.inr hd
  have hlength := hq.length_add
  have hlen := hq.length_eq
  cases o with
  | tryPush v =>
    cases F with
    | nil =>
      -- no free index: every slot is used, and the abstract queue is full too
      have hfull : capacity ≤ Q.length := by simp at hlength; omega
      simp only [machine, queueStep, spec, specStep, tryPush_of_nil h hq (hsafe _), outcome,
        BoundedQueue.tryPush_of_le (q := ⟨Q, capacity⟩) hfull]
      exact ⟨trivial, rfl, q, Rf, Ru, [], U, rfl, hq⟩
    | cons i F =>
      have hroom : Q.length < capacity := by simp at hlength; omega
      obtain ⟨q', htry, hq'⟩ := tryPush_of_cons h hq (hsafe _)
        (fits_of_dvd hd (hq.lt_of_mem (by simp)) _) v fuel
      simp only [machine, queueStep, spec, specStep, htry, outcome,
        BoundedQueue.tryPush_of_lt (q := ⟨Q, capacity⟩) hroom]
      exact ⟨trivial, rfl, q', _, _, _, _, rfl, hq'⟩
  | push v =>
    cases F with
    | cons i F =>
      have hroom : Q.length < capacity := by simp at hlength; omega
      obtain ⟨q', hpush, hq'⟩ := push_of_cons h hq (hsafe _)
        (fits_of_dvd hd (hq.lt_of_mem (by simp)) _) v fuel
      simp only [machine, queueStep, spec, specStep, hpush, outcome,
        BoundedQueue.push_of_lt (q := ⟨Q, capacity⟩) hroom]
      exact ⟨trivial, rfl, q', _, _, _, _, rfl, hq'⟩
    | nil =>
      -- no free index: the used queue is full and its head is evicted
      rcases U with _ | ⟨j, U⟩
      · have := h.pos
        simp at hlength
        omega
      rcases Q with _ | ⟨a, Q⟩
      · simp at hlen
      have hfull : capacity ≤ Q.length + 1 := by simp at hlength hlen; omega
      obtain ⟨q', hpush, hq'⟩ := push_of_full h hq (hsafe _) (hsafe _)
        (fits_of_dvd hd (hq.lt_of_mem (by simp)) _) v fuel
      simp only [machine, queueStep, spec, specStep, hpush, outcome,
        BoundedQueue.push_cons_of_le hfull]
      exact ⟨trivial, rfl, q', _, _, _, _, rfl, hq'⟩
  | pop =>
    rcases U with _ | ⟨j, U⟩
    · rcases Q with _ | ⟨a, Q⟩
      · simp only [machine, queueStep, spec, specStep, pop_of_nil h hq (hsafe _) fuel, outcome,
          BoundedQueue.pop_nil]
        exact ⟨trivial, rfl, q, Rf, Ru, F, [], rfl, hq⟩
      · simp at hlen
    · rcases Q with _ | ⟨a, Q⟩
      · simp at hlen
      obtain ⟨q', hpop, hq'⟩ := pop_of_cons h hq (hsafe _)
        (fits_of_dvd hd (hq.lt_of_mem (by simp)) _) fuel
      simp only [machine, queueStep, spec, specStep, hpop, outcome, BoundedQueue.pop_cons]
      exact ⟨trivial, rfl, q', _, _, _, _, rfl, hq'⟩
  | empty =>
    simp only [machine, queueStep, spec, specStep, empty_of_holds h hq (hsafe _)]
    exact ⟨trivial, rfl, q, Rf, Ru, F, U, rfl, hq⟩
  | size =>
    simp only [machine, queueStep, spec, specStep, hq.size_eq]
    exact ⟨trivial, rfl, q, Rf, Ru, F, U, rfl, hq⟩

/-- **For a capacity dividing `2 ^ 64` the queue is a bounded FIFO with eviction** on every run
from the constructor, however often the positions of its index queues overflow: every call
returns what the abstract queue returns, and the indices stay partitioned with the used slots
holding the abstract queue. -/
theorem mpmcLockFreeQueue_refines_fifo_of_dvd (hd : capacity ∣ 2 ^ 64) (fuel : ℕ)
    (ops : List (Op α)) :
    ((machine capacity (fuel + 1)).run (some new) ops).2 = (spec.run ⟨[], capacity⟩ ops).2 ∧
      Abstracts capacity ((machine capacity (fuel + 1)).run (some new) ops).1
        (spec.run ⟨[], capacity⟩ ops).1 :=
  (abstracts_queueStep h hd fuel).run ops ⟨rfl, _, _, _, _, _, rfl, holds_new h⟩
    (Machine.admits_true _ _ _)

end Refinement

/-- `tryPush(7)`, `push(8)` and `pop()` on a queue of capacity `2`. -/
theorem mpmcLockFreeQueue_refines_fifo_of_dvd_of_two :
    ((machine 2 1).run (some new) [.tryPush 7, .push 8, .pop]).2 =
      (spec.run ⟨[], 2⟩ [.tryPush 7, .push 8, .pop]).2 :=
  (mpmcLockFreeQueue_refines_fifo_of_dvd ⟨by decide, by decide⟩ (by decide) 0 _).1

/-! ### The overflow for a capacity that does not divide `2 ^ 64` -/

/-- `k` rounds of `tryPush(value)` followed by `pop()`. -/
def tryPushPopRounds (value : α) (k : ℕ) : List (Op α) :=
  (List.replicate k [.tryPush value, .pop]).flatten

theorem tryPushPopRounds_succ (value : α) (k : ℕ) :
    tryPushPopRounds value (k + 1) = .tryPush value :: .pop :: tryPushPopRounds value k :=
  rfl

/-- The abstract queue of positive capacity answers each round with `true` and the value just
pushed. -/
theorem spec_run_tryPushPopRounds {c : ℕ} (hc : 0 < c) (v : α) (k : ℕ) :
    spec.run ⟨[], c⟩ (tryPushPopRounds v k) =
      (⟨[], c⟩, (List.replicate k [Result.tryPushed true, .popped (some v)]).flatten) := by
  induction k with
  | zero => rfl
  | succ k ih =>
    have hround : spec.run ⟨[], c⟩ [Op.tryPush v, .pop] =
        (⟨[], c⟩, [Result.tryPushed true, .popped (some v)]) := by
      simp [spec, specStep, BoundedQueue.tryPush_of_lt (q := ⟨[], c⟩) hc]
    rw [tryPushPopRounds_succ]
    change spec.run ⟨[], c⟩ ([Op.tryPush v, .pop] ++ tryPushPopRounds v k) = _
    rw [Machine.run_append, hround, ih]
    rfl

/-- Rotating a list whose head is `i` by one more step puts `i` at the back. -/
theorem rotate_succ_of_cons {l F : List ℕ} {i k : ℕ} (hl : l.rotate k = i :: F) :
    l.rotate (k + 1) = F ++ [i] := by
  rw [← List.rotate_rotate, hl, List.rotate_cons_succ, List.rotate_zero]

/-- **Rounds before the overflow.** From a queue holding nothing, whose free list is the slots
rotated by `k` from the logical read position `k` and whose used queue is at `Capacity + k`, each
round of `tryPush(v)`, `pop()` takes the free index `k % Capacity`, publishes it at the used
write position `Capacity + k` (whose index is the same, so it fits the cycle), pops it, and frees
it again at the free write position `k + Capacity`; as long as those positions are before the
64-bit overflow, the rounds return as the abstract queue does. -/
theorem run_tryPushPopRounds (h : Admissible capacity 64) {q : MpmcLockFreeQueue α capacity}
    {k : ℕ} (hq : Holds q k (capacity + k) ((List.range capacity).rotate k) [] [] []) (v : α)
    (fuel n : ℕ) (hn : capacity + k + n ≤ 2 ^ 64) :
    ∃ q', (machine capacity (fuel + 1)).run (some q) (tryPushPopRounds v n) =
        (some q', (List.replicate n [Result.tryPushed true, .popped (some v)]).flatten) ∧
      Holds q' (k + n) (capacity + (k + n)) ((List.range capacity).rotate (k + n)) [] [] [] := by
  induction n generalizing q k with
  | zero => exact ⟨q, rfl, hq⟩
  | succ n ih =>
    have hC := h.pos
    -- the free list is nonempty and starts with the index `k % Capacity`
    obtain ⟨i, F, hF⟩ := List.exists_cons_of_ne_nil
      (show (List.range capacity).rotate k ≠ [] by simp; omega)
    have hi : i = k % capacity := by
      have := List.getElem_rotate (List.range capacity) k 0 (by simp; omega)
      simp only [hF, List.getElem_cons_zero, List.getElem_range, List.length_range,
        Nat.zero_add] at this
      exact this
    rw [hF] at hq
    have hlenF : F.length + 1 = capacity := by simpa using hq.length_add
    -- `tryPush(v)` publishes `i` at the used write position `Capacity + k`
    have hfit : ∀ W, W % capacity = k % capacity →
        i + (pos capacity 64 W).getCycle * capacity < 2 ^ 64 := fun W hW ↦
      fits_of_le_getIndex (by rw [getIndex_pos h, hW, hi])
    obtain ⟨q₁, htry, hq₁⟩ := tryPush_of_cons h hq (Or.inl (by simp; omega))
      (hfit _ (by simp)) v fuel
    -- `pop()` frees it again at the free write position `k + Capacity`
    obtain ⟨q₂, hpop, hq₂⟩ := pop_of_cons (U := []) (Q := []) h hq₁ (Or.inl (by omega))
      (hfit _ (by rw [show k + 1 + F.length = k + capacity by omega, Nat.add_mod_right])) fuel
    rw [← rotate_succ_of_cons hF] at hq₂
    obtain ⟨q', hrun, hq'⟩ := ih (by rwa [show capacity + k + 1 = capacity + (k + 1) by omega]
      at hq₂) (by omega)
    refine ⟨q', ?_, by rwa [show k + 1 + n = k + (n + 1) by omega] at hq'⟩
    have hstep₁ : (machine capacity (fuel + 1)).step (some q) (.tryPush v) =
        (some q₁, .tryPushed true) := by
      simp only [machine, queueStep, htry, outcome]
    have hstep₂ : (machine capacity (fuel + 1)).step (some q₁) .pop =
        (some q₂, .popped (some v)) := by
      simp only [machine, queueStep, hpop, outcome]
    rw [tryPushPopRounds_succ]
    simp only [Machine.run_cons, hstep₁, hstep₂, hrun]
    rfl

/-- **After the overflow `tryPush` hangs.** For `Capacity = 3`, from the constructor, the first
`2 ^ 64 - 3` rounds of `tryPush(7)`, `pop()` return as the abstract queue does. The used index
queue's write position is then at the overflow, `OVERFLOW_START_INDEX = 1` in cycle `0`, while
its cell was last written in cycle `MAX_CYCLE - 1`; so the next `tryPush(7)` takes a free index
and pushes it onto the used queue forever, where the abstract queue appends. -/
theorem mpmcLockFreeQueue_tryPush_hangs_after_wrap (fuel : ℕ) :
    ((machine 3 (fuel + 1)).run (some new)
        (tryPushPopRounds (7 : ℕ) (2 ^ 64 - 3) ++ [.tryPush 7])).2 =
        (spec.run ⟨[], 3⟩ (tryPushPopRounds (7 : ℕ) (2 ^ 64 - 3))).2 ++ [.stuck] ∧
      (spec.run ⟨[], 3⟩ (tryPushPopRounds (7 : ℕ) (2 ^ 64 - 3) ++ [.tryPush 7])).2 =
        (spec.run ⟨[], 3⟩ (tryPushPopRounds (7 : ℕ) (2 ^ 64 - 3))).2 ++ [.tryPushed true] := by
  have h3 : Admissible 3 64 := ⟨by decide, by decide⟩
  have hnew : Holds (new : MpmcLockFreeQueue ℕ 3) 0 (3 + 0) ((List.range 3).rotate 0) [] [] [] :=
    holds_new h3
  obtain ⟨q', hrun, hq'⟩ := run_tryPushPopRounds h3 hnew 7 fuel (2 ^ 64 - 3) (by decide)
  obtain ⟨i, F, hF⟩ := List.exists_cons_of_ne_nil
    (show (List.range 3).rotate (0 + (2 ^ 64 - 3)) ≠ [] by simp)
  rw [hF] at hq'
  have hstuck : q'.usedIndices.push (fuel + 1) i = none :=
    MpmcIndexQueue.push_of_stuck h3 hq'.used (by decide) (by decide) i _
  have hlast : (machine 3 (fuel + 1)).step (some q') (.tryPush 7) = (none, .stuck) := by
    simp only [machine, queueStep, tryPush_of_push_none h3 hq' hstuck, outcome]
  refine ⟨?_, ?_⟩
  · rw [Machine.run_append, hrun, spec_run_tryPushPopRounds (by decide)]
    simp only [Machine.run_cons, Machine.run_nil, hlast]
  · rw [Machine.run_append, spec_run_tryPushPopRounds (by decide)]
    rfl

end MpmcLockFreeQueue

end Iox.Concurrent
