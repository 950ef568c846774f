import Iceoryx.Data.BoundedQueue
import Iceoryx.Mepoo.MemoryManager

/-!
# `ChunkQueueData`, `ChunkQueuePusher` and `ChunkQueuePopper`

A subscriber's chunks wait in a `ChunkQueueData` (`chunk_queue_data.hpp`), a `VariantQueue` of
`ShmSafeUnmanagedChunk`s: each entry is one reference to a chunk. The queue kind is chosen at
construction (`variant_queue.inl`): the two FiFo kinds refuse a push on a full queue and hand the
new entry back, the two SoFi kinds accept it and hand back the oldest entry. A
`ChunkQueuePusher` pushes (`chunk_queue_pusher.inl`) and drops what the queue hands back; a
`ChunkQueuePopper` pops (`chunk_queue_popper.inl`) and clears.

## The model

The contents of every kind are the abstract `BoundedQueue` of `Iceoryx.Data.BoundedQueue`, which
`Iceoryx.Hoofs.SpscSofi` and `Iceoryx.Hoofs.MpmcLockFreeQueue` show the concrete queues
implement. Reference counts are those of `Iceoryx.Mepoo.MemoryManager`: a `SharedChunk` copy
that is destroyed before its function returns, such as the by-value argument of `push`, adds
and removes one reference to a chunk that a caller still holds, and is left out; the conversion
to `ShmSafeUnmanagedChunk` that the queue keeps is an increment, and the `SharedChunk` that
`releaseToSharedChunk` returns and that goes out of scope is a decrement, which frees the chunk
when it was the last reference.

## What is proved

The queue entries are a place where references are held: with the references `F` held
elsewhere, `push` of a chunk that `F` holds keeps the memory manager accounting exactly for `F`
and the new entries (`push_owns`), `tryPop` moves one entry to its caller (`tryPop_items`), and
`clear` drops them all (`clear_owns`). None of them can fail.
-/

namespace Iox.Popo

open Iox.Mepoo

/-- `VariantQueueTypes`. -/
inductive VariantQueueTypes where
  | fiFo_SingleProducerSingleConsumer
  | soFi_SingleProducerSingleConsumer
  | fiFo_MultiProducerSingleConsumer
  | soFi_MultiProducerSingleConsumer
  deriving DecidableEq, Repr

/-- `QueueFullPolicy`, what a subscriber asks of a publisher whose chunks do not fit. -/
inductive QueueFullPolicy where
  | blockProducer
  | discardOldestData
  deriving DecidableEq, Repr

/-- `ConsumerTooSlowPolicy`, what a publisher does with a subscriber whose queue is full. -/
inductive ConsumerTooSlowPolicy where
  | waitForConsumer
  | discardOldestData
  deriving DecidableEq, Repr

/-- A `VariantQueue<ValueType, Capacity>`: its kind `m_type` and its contents. -/
structure VariantQueue (α : Type*) where
  /-- `m_type`. -/
  type : VariantQueueTypes
  /-- The contents of `m_fifo`, oldest first, and its current capacity. -/
  fifo : BoundedQueue α

namespace VariantQueue

variable {α : Type*}

/-- `push(value)`: what the queue hands back. A FiFo refuses on a full queue and hands back
`value`; a SoFi always stores and hands back the entry it overwrote. -/
def push (q : VariantQueue α) (value : α) : VariantQueue α × Option α :=
  match q.type with
  | .fiFo_SingleProducerSingleConsumer =>
    let (fifo, hadSpace) := q.fifo.tryPush value
    ({ q with fifo }, if hadSpace then none else some value)
  | .soFi_SingleProducerSingleConsumer =>
    let (fifo, overriddenValue) := q.fifo.push value
    ({ q with fifo }, overriddenValue)
  | .fiFo_MultiProducerSingleConsumer =>
    let (fifo, hadSpace) := q.fifo.tryPush value
    ({ q with fifo }, if hadSpace then none else some value)
  | .soFi_MultiProducerSingleConsumer =>
    let (fifo, evicted) := q.fifo.push value
    ({ q with fifo }, evicted)

/-- `pop()`: the oldest entry, if any; the same for every kind. -/
def pop (q : VariantQueue α) : VariantQueue α × Option α :=
  let (fifo, value) := q.fifo.pop
  ({ q with fifo }, value)

/-- A push keeps every entry it is given: the entries afterwards and the one handed back are the
old entries and the new one. -/
theorem push_perm (q : VariantQueue α) (value : α) :
    ((q.push value).1.fifo.items ++ (q.push value).2.toList).Perm (q.fifo.items ++ [value]) := by
  have htry := BoundedQueue.tryPush_items q.fifo value
  have hpush := BoundedQueue.push_perm q.fifo value
  -- the two FiFo kinds refuse, the two SoFi kinds evict
  cases q with
  | mk type fifo =>
    cases type <;> simp only [push] <;>
      first
      | exact hpush
      | (cases h : (fifo.tryPush value).2 <;> simp_all)

@[simp] theorem type_push (q : VariantQueue α) (value : α) : (q.push value).1.type = q.type := by
  cases q with
  | mk type fifo => cases type <;> rfl

@[simp] theorem capacity_push (q : VariantQueue α) (value : α) :
    (q.push value).1.fifo.capacity = q.fifo.capacity := by
  cases q with
  | mk type fifo => cases type <;> simp [push]

theorem pop_items (q : VariantQueue α) : q.pop.2.toList ++ q.pop.1.fifo.items = q.fifo.items :=
  BoundedQueue.pop_items q.fifo

@[simp] theorem type_pop (q : VariantQueue α) : q.pop.1.type = q.type := rfl

end VariantQueue

/-- The fields of a `ChunkQueueData` that the building blocks read and write; the condition
variable is left out. -/
structure ChunkQueueData where
  /-- `m_uniqueId`. -/
  uniqueId : ℕ
  /-- `m_queue`, of `ShmSafeUnmanagedChunk`s, named by their management. -/
  queue : VariantQueue ℕ
  /-- `m_queueHasLostChunks`. -/
  queueHasLostChunks : Bool
  /-- `m_queueFullPolicy`. -/
  queueFullPolicy : QueueFullPolicy

namespace ChunkQueueData

/-- The references the queue holds. -/
def items (q : ChunkQueueData) : List ℕ := q.queue.fifo.items

end ChunkQueueData

namespace ChunkQueuePusher

/-- `push(chunk)`: the queue keeps a new reference to `chunk`, and the reference it hands back,
if any, is dropped; `true` when nothing was handed back. The notification of the condition
variable is left out. -/
def push (mm : MemoryManager) (q : ChunkQueueData) (chunk : ℕ) :
    Option (MemoryManager × ChunkQueueData × Bool) :=
  -- the `ShmSafeUnmanagedChunk` that the queue is given holds a reference of its own
  let mm := mm.incrementReferenceCounter chunk
  let (queue, pushRet) := q.queue.push chunk
  match pushRet with
  | none => some (mm, { q with queue }, true)
  | some value => (mm.decrementReferenceCounter value).map fun mm ↦ (mm, { q with queue }, false)

/-- `lostAChunk()`. -/
def lostAChunk (q : ChunkQueueData) : ChunkQueueData :=
  { q with queueHasLostChunks := true }

end ChunkQueuePusher

namespace ChunkQueuePopper

/-- `tryPop()`: the oldest reference moves to the caller. The check of the chunk header version
is left out: every chunk here carries the current version. -/
def tryPop (q : ChunkQueueData) : ChunkQueueData × Option ℕ :=
  let (queue, retVal) := q.queue.pop
  ({ q with queue }, retVal)

/-- `clear()`: popping until the queue is empty drops its references, oldest first. -/
def clear (mm : MemoryManager) (q : ChunkQueueData) : Option (MemoryManager × ChunkQueueData) :=
  (mm.decrementEach q.items).map fun mm ↦
    (mm, { q with queue := { q.queue with fifo := ⟨[], q.queue.fifo.capacity⟩ } })

end ChunkQueuePopper

/-! ### References held by a queue -/

section Accounting

variable {mm : MemoryManager} {q : ChunkQueueData} {F : List ℕ}

/-- **A push keeps the accounting**: with the references `F` held elsewhere, pushing a chunk that
`F` holds succeeds, changes only the queue's contents, and the memory manager accounts for `F`
and the new contents. -/
theorem ChunkQueuePusher.push_owns {chunk : ℕ} (hchunk : chunk ∈ F)
    (h : MemoryManager.Owns mm (F ++ q.items)) :
    ∃ mm' queue b, ChunkQueuePusher.push mm q chunk = some (mm', { q with queue }, b) ∧
      queue.type = q.queue.type ∧ queue.fifo.capacity = q.queue.fifo.capacity ∧
      MemoryManager.Owns mm' (F ++ queue.fifo.items) := by
  -- the entry the queue is given is one more reference
  have h₁ := h.increment (List.mem_append_left _ hchunk)
  have hperm := VariantQueue.push_perm q.queue chunk
  have htype := VariantQueue.type_push q.queue chunk
  have hcap := VariantQueue.capacity_push q.queue chunk
  unfold ChunkQueuePusher.push
  generalize q.queue.push chunk = r at hperm htype hcap ⊢
  obtain ⟨queue, pushRet⟩ := r
  dsimp only at hperm htype hcap
  -- the references before the push, and the one handed back, against those after it
  have hcount : ∀ a, (F ++ queue.fifo.items ++ pushRet.toList).count a =
      (chunk :: (F ++ q.items)).count a := fun a ↦ by
    have := hperm.count_eq a
    simp only [List.count_append, List.count_cons, List.count_nil, ChunkQueueData.items] at this ⊢
    omega
  cases pushRet with
  | none =>
    refine ⟨_, queue, true, rfl, htype, hcap, h₁.perm (List.perm_iff_count.2 fun a ↦ ?_)⟩
    simpa using (hcount a).symm
  | some value =>
    -- the handed-back reference is dropped
    have h₂ : MemoryManager.Owns (mm.incrementReferenceCounter chunk)
        (value :: (F ++ queue.fifo.items)) :=
      h₁.perm (List.perm_iff_count.2 fun a ↦ by
        have := hcount a
        simp only [List.count_append, List.count_cons, Option.toList_some, List.count_nil]
          at this ⊢
        omega)
    obtain ⟨mm', hdec, hown⟩ := h₂.decrement
    exact ⟨mm', queue, false, by simp [hdec], htype, hcap, hown⟩

/-- **`tryPop` moves the oldest reference** to the caller: the entries before are the popped one
and the entries after. -/
theorem ChunkQueuePopper.tryPop_items (q : ChunkQueueData) :
    (ChunkQueuePopper.tryPop q).2.toList ++ (ChunkQueuePopper.tryPop q).1.items = q.items :=
  VariantQueue.pop_items q.queue

/-- **`clear` drops every entry** and never fails. -/
theorem ChunkQueuePopper.clear_owns (h : MemoryManager.Owns mm (q.items ++ F)) :
    ∃ mm', ChunkQueuePopper.clear mm q =
      some (mm', { q with queue := { q.queue with fifo := ⟨[], q.queue.fifo.capacity⟩ } }) ∧
      MemoryManager.Owns mm' F := by
  obtain ⟨mm', hdec, hown⟩ := h.decrementEach
  exact ⟨mm', by simp [ChunkQueuePopper.clear, hdec], hown⟩

end Accounting

end Iox.Popo
