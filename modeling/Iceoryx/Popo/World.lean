import Iceoryx.Popo.ChunkQueue
import Iceoryx.Popo.UsedChunkList

/-!
# Senders, receivers and the chunks they share

The building blocks of publish/subscribe share one `MemoryManager`. A `ChunkSenderData`
(`chunk_sender_data.hpp`) extends a `ChunkDistributorData` (`chunk_distributor_data.hpp`): the
registered queues, the history, and what the sender's user holds. A `ChunkReceiverData` extends
a `ChunkQueueData` with what the receiver's user holds. A `World` is a memory manager, senders,
receivers, and the `SharedChunk`s that users hold outside any of them (from `tryPop` on a
queue). Pointers between the parts are positions: a distributor names its queues by the
position of their receiver.

## Where references are held

`World.refs` lists every reference in the world, one entry per holder: the slots of every
`UsedChunkList`, a sender's `m_lastChunkUnmanaged`, the history entries, the queue entries, and
the users' `SharedChunk`s. The reference-count invariant of the building blocks is
`MemoryManager.Owns w.mm w.refs`, and the functions of the building blocks keep it with the
references of their own locals added in front.

The lemmas here are the frame rules for that list: when one sender or one receiver changes, the
references elsewhere stay as they are (`refs_setSender_perm`, `refs_setReceiver_perm`), so an
accounting fact about the part that changes lifts to the world.
-/

namespace Iox.Popo

open Iox.Mepoo

/-- The fields of a `ChunkDistributorData`. -/
structure ChunkDistributorData where
  /-- `m_historyCapacity`. -/
  historyCapacity : ℕ
  /-- `m_queues`, each queue named by the position of its receiver. -/
  queues : List ℕ
  /-- `MAX_QUEUES`, the capacity of `m_queues`. -/
  maxQueues : ℕ
  /-- `m_history`, oldest first. -/
  history : List ℕ
  /-- `m_consumerTooSlowPolicy`. -/
  consumerTooSlowPolicy : ConsumerTooSlowPolicy

/-- The fields of a `ChunkSenderData`. -/
structure ChunkSenderData extends ChunkDistributorData where
  /-- `m_chunksInUse`. -/
  chunksInUse : UsedChunkList
  /-- `m_sequenceNumber`. -/
  sequenceNumber : UInt64
  /-- `m_lastChunkUnmanaged`; `none` is the logical nullptr. -/
  lastChunkUnmanaged : Option ℕ

/-- The fields of a `ChunkReceiverData`. -/
structure ChunkReceiverData extends ChunkQueueData where
  /-- `m_chunksInUse`. -/
  chunksInUse : UsedChunkList

/-- A memory manager and the building blocks that share it. -/
structure World where
  /-- The memory manager all chunks come from. -/
  mm : MemoryManager
  /-- The senders, each with its distributor. -/
  senders : List ChunkSenderData
  /-- The receivers, each with its queue. -/
  receivers : List ChunkReceiverData
  /-- The `SharedChunk`s that users hold. -/
  handles : List ℕ

/-- The references a sender holds: its used chunks, its last chunk and its history. -/
def ChunkSenderData.refs (s : ChunkSenderData) : List ℕ :=
  s.chunksInUse.contents ++ s.lastChunkUnmanaged.toList ++ s.history

/-- The references a receiver holds: its queue entries and its used chunks. -/
def ChunkReceiverData.refs (r : ChunkReceiverData) : List ℕ :=
  r.items ++ r.chunksInUse.contents

/-- What a sender's constructor fixes: `m_historyCapacity`, `MAX_QUEUES` and
`m_consumerTooSlowPolicy`. -/
def ChunkSenderData.constants (s : ChunkSenderData) : ℕ × ℕ × ConsumerTooSlowPolicy :=
  (s.historyCapacity, s.maxQueues, s.consumerTooSlowPolicy)

/-- What a receiver's constructor fixes: `m_uniqueId`, `m_queueFullPolicy` and the queue kind. -/
def ChunkReceiverData.constants (r : ChunkReceiverData) : ℕ × QueueFullPolicy × VariantQueueTypes :=
  (r.uniqueId, r.queueFullPolicy, r.queue.type)

namespace World

/-- Every reference held in the world. -/
def refs (w : World) : List ℕ :=
  w.senders.flatMap ChunkSenderData.refs ++ w.receivers.flatMap ChunkReceiverData.refs ++ w.handles

/-- The world with sender `i` replaced. -/
def setSender (w : World) (i : ℕ) (s : ChunkSenderData) : World :=
  { w with senders := w.senders.set i s }

/-- The world with receiver `i` replaced. -/
def setReceiver (w : World) (i : ℕ) (r : ChunkReceiverData) : World :=
  { w with receivers := w.receivers.set i r }

/-- The references held outside sender `i`. -/
def refsOutsideSender (w : World) (i : ℕ) : List ℕ :=
  (w.senders.eraseIdx i).flatMap ChunkSenderData.refs ++
    w.receivers.flatMap ChunkReceiverData.refs ++ w.handles

/-- The references held outside receiver `i`. -/
def refsOutsideReceiver (w : World) (i : ℕ) : List ℕ :=
  w.senders.flatMap ChunkSenderData.refs ++
    (w.receivers.eraseIdx i).flatMap ChunkReceiverData.refs ++ w.handles

/-- The lists of the world are well formed, and distributors name existing receivers. -/
structure WellFormed (w : World) : Prop where
  senders : ∀ s ∈ w.senders, s.chunksInUse.Inv
  queues_lt : ∀ s ∈ w.senders, ∀ q ∈ s.queues, q < w.receivers.length
  receivers : ∀ r ∈ w.receivers, r.chunksInUse.Inv

variable {w : World} {i : ℕ}

@[simp] theorem setSender_mm (s : ChunkSenderData) : (w.setSender i s).mm = w.mm := rfl

@[simp] theorem setSender_receivers (s : ChunkSenderData) :
    (w.setSender i s).receivers = w.receivers :=
  rfl

@[simp] theorem setReceiver_mm (r : ChunkReceiverData) : (w.setReceiver i r).mm = w.mm := rfl

@[simp] theorem setReceiver_senders (r : ChunkReceiverData) :
    (w.setReceiver i r).senders = w.senders :=
  rfl

@[simp] theorem length_setReceiver (r : ChunkReceiverData) :
    (w.setReceiver i r).receivers.length = w.receivers.length :=
  List.length_set ..

/-! ### Frame rules -/

/-- **Replacing a sender replaces its share** of the references. -/
theorem refs_setSender_perm (hi : i < w.senders.length) (s : ChunkSenderData) :
    (w.setSender i s).refs.Perm (s.refs ++ w.refsOutsideSender i) := by
  have h := List.flatMap_set_perm_eraseIdx ChunkSenderData.refs hi s
  refine List.perm_iff_count.2 fun a ↦ ?_
  have := h.count_eq a
  simp only [refs, refsOutsideSender, setSender, List.count_append] at this ⊢
  omega

/-- The references are those of sender `i` and those outside it. -/
theorem refs_perm_sender (hi : i < w.senders.length) :
    w.refs.Perm (w.senders[i].refs ++ w.refsOutsideSender i) := by
  have h := refs_setSender_perm hi w.senders[i]
  rwa [setSender, List.set_getElem_self] at h

/-- **Replacing a receiver replaces its share** of the references. -/
theorem refs_setReceiver_perm (hi : i < w.receivers.length) (r : ChunkReceiverData) :
    (w.setReceiver i r).refs.Perm (r.refs ++ w.refsOutsideReceiver i) := by
  have h := List.flatMap_set_perm_eraseIdx ChunkReceiverData.refs hi r
  refine List.perm_iff_count.2 fun a ↦ ?_
  have := h.count_eq a
  simp only [refs, refsOutsideReceiver, setReceiver, List.count_append] at this ⊢
  omega

/-- The references are those of receiver `i` and those outside it. -/
theorem refs_perm_receiver (hi : i < w.receivers.length) :
    w.refs.Perm (w.receivers[i].refs ++ w.refsOutsideReceiver i) := by
  have h := refs_setReceiver_perm hi w.receivers[i]
  rwa [setReceiver, List.set_getElem_self] at h

/-- `w'` has the parts of `w`, each with what its constructor fixed. -/
structure SameParts (w w' : World) : Prop where
  senders : w'.senders.map ChunkSenderData.constants = w.senders.map ChunkSenderData.constants
  receivers :
    w'.receivers.map ChunkReceiverData.constants = w.receivers.map ChunkReceiverData.constants

namespace SameParts

variable {w' w'' : World}

@[refl] theorem refl (w : World) : SameParts w w := ⟨rfl, rfl⟩

@[trans] theorem trans (h : SameParts w w') (h' : SameParts w' w'') : SameParts w w'' :=
  ⟨h'.senders.trans h.senders, h'.receivers.trans h.receivers⟩

theorem length_senders (h : SameParts w w') : w'.senders.length = w.senders.length := by
  simpa using congrArg List.length h.senders

theorem length_receivers (h : SameParts w w') : w'.receivers.length = w.receivers.length := by
  simpa using congrArg List.length h.receivers

theorem with_mm (mm : MemoryManager) : SameParts w ({ w with mm } : World) := ⟨rfl, rfl⟩

theorem with_handles (handles : List ℕ) : SameParts w ({ w with handles } : World) := ⟨rfl, rfl⟩

theorem receiver_constants (h : SameParts w w') (q : ℕ) :
    (w'.receivers[q]?).map ChunkReceiverData.constants =
      (w.receivers[q]?).map ChunkReceiverData.constants := by
  rw [← List.getElem?_map, h.receivers, List.getElem?_map]

theorem setSender {s : ChunkSenderData} (hi : i < w.senders.length)
    (hs : s.constants = w.senders[i].constants) : SameParts w (w.setSender i s) := by
  refine ⟨?_, rfl⟩
  rw [World.setSender, List.map_set, hs, ← List.getElem_map (f := ChunkSenderData.constants),
    List.set_getElem_self]
  simpa using hi

theorem setReceiver {r : ChunkReceiverData} (hi : i < w.receivers.length)
    (hr : r.constants = w.receivers[i].constants) : SameParts w (w.setReceiver i r) := by
  refine ⟨rfl, ?_⟩
  rw [World.setReceiver, List.map_set, hr, ← List.getElem_map (f := ChunkReceiverData.constants),
    List.set_getElem_self]
  simpa using hi

end SameParts

/-! ### Well-formedness -/

namespace WellFormed

/-- A world that differs only in its memory manager is as well formed. -/
theorem with_mm (h : w.WellFormed) (mm : MemoryManager) : ({ w with mm } : World).WellFormed :=
  ⟨h.senders, h.queues_lt, h.receivers⟩

theorem setSender (h : w.WellFormed) {s : ChunkSenderData} (hs : s.chunksInUse.Inv)
    (hq : ∀ q ∈ s.queues, q < w.receivers.length) : (w.setSender i s).WellFormed := by
  refine ⟨fun s' hs' ↦ ?_, fun s' hs' ↦ ?_, h.receivers⟩
  · rcases List.mem_or_eq_of_mem_set hs' with hs' | rfl
    exacts [h.senders s' hs', hs]
  · rcases List.mem_or_eq_of_mem_set hs' with hs' | rfl
    exacts [h.queues_lt s' hs', hq]

theorem setReceiver (h : w.WellFormed) {r : ChunkReceiverData} (hr : r.chunksInUse.Inv) :
    (w.setReceiver i r).WellFormed := by
  refine ⟨h.senders, fun s hs q hq ↦ ?_, fun r' hr' ↦ ?_⟩
  · simpa using h.queues_lt s hs q hq
  · rcases List.mem_or_eq_of_mem_set hr' with hr' | rfl
    exacts [h.receivers r' hr', hr]

end WellFormed

/-! ### Accounting -/

/-- **The world is accounted for**, with the references `E` that a running function holds in
locals: the memory manager accounts exactly for `E` and the references of the world, and the
world is well formed. -/
structure Accounted (E : List ℕ) (w : World) : Prop where
  owns : MemoryManager.Owns w.mm (E ++ w.refs)
  wellFormed : w.WellFormed

@[simp] theorem refs_with_mm (mm : MemoryManager) : ({ w with mm } : World).refs = w.refs := rfl

theorem refsOutsideReceiver_setReceiver (r : ChunkReceiverData) :
    (w.setReceiver i r).refsOutsideReceiver i = w.refsOutsideReceiver i := by
  simp [refsOutsideReceiver, setReceiver, List.eraseIdx_set_eq]

variable {E : List ℕ}

/-- Accounting up to the order of the locals. -/
theorem Accounted.perm {E' : List ℕ} (h : Accounted E w) (hp : E.Perm E') : Accounted E' w :=
  ⟨h.owns.perm (hp.append_right _), h.wellFormed⟩

/-- The accounting of the world seen from sender `i`: its references, and those outside it. -/
theorem owns_frame_sender {mm : MemoryManager} (hi : i < w.senders.length)
    (h : MemoryManager.Owns mm (E ++ w.refs)) :
    MemoryManager.Owns mm (E ++ w.refsOutsideSender i ++ w.senders[i].refs) :=
  h.perm (by
    rw [List.append_assoc]
    exact ((refs_perm_sender hi).trans List.perm_append_comm).append_left E)

/-- **Frame rule for a sender**: an accounting fact about the new references of sender `i` and
those outside it is one about the world. -/
theorem owns_setSender {mm : MemoryManager} {s : ChunkSenderData} (hi : i < w.senders.length)
    (h : MemoryManager.Owns mm (E ++ w.refsOutsideSender i ++ s.refs)) :
    MemoryManager.Owns mm (E ++ (w.setSender i s).refs) :=
  h.perm (by
    rw [List.append_assoc]
    exact (List.perm_append_comm.trans (refs_setSender_perm hi s).symm).append_left E)

/-- The accounting of the world seen from receiver `i`. -/
theorem owns_frame_receiver {mm : MemoryManager} (hi : i < w.receivers.length)
    (h : MemoryManager.Owns mm (E ++ w.refs)) :
    MemoryManager.Owns mm (E ++ w.refsOutsideReceiver i ++ w.receivers[i].refs) :=
  h.perm (by
    rw [List.append_assoc]
    exact ((refs_perm_receiver hi).trans List.perm_append_comm).append_left E)

/-- **Frame rule for a receiver**. -/
theorem owns_setReceiver {mm : MemoryManager} {r : ChunkReceiverData}
    (hi : i < w.receivers.length)
    (h : MemoryManager.Owns mm (E ++ w.refsOutsideReceiver i ++ r.refs)) :
    MemoryManager.Owns mm (E ++ (w.setReceiver i r).refs) :=
  h.perm (by
    rw [List.append_assoc]
    exact (List.perm_append_comm.trans (refs_setReceiver_perm hi r).symm).append_left E)

/-- **Changing a receiver's fields other than its references** keeps the accounting. -/
theorem Accounted.setReceiver_of_refs_eq (h : Accounted E w) (hi : i < w.receivers.length)
    {r : ChunkReceiverData} (hrefs : r.refs = w.receivers[i].refs) (hr : r.chunksInUse.Inv) :
    Accounted E (w.setReceiver i r) := by
  refine ⟨h.owns.perm (List.Perm.append_left E ?_), h.wellFormed.setReceiver hr⟩
  have hw := refs_perm_receiver hi
  rw [← hrefs] at hw
  exact hw.trans (refs_setReceiver_perm hi r).symm

/-- **Changing a sender**: when the new sender and the new locals `E'` hold what the old sender
and the old locals held, the accounting carries over. -/
theorem Accounted.setSender_of_perm {E' : List ℕ} (h : Accounted E w) (hi : i < w.senders.length)
    {s : ChunkSenderData} (hrefs : (E' ++ s.refs).Perm (E ++ w.senders[i].refs))
    (hs : s.chunksInUse.Inv) (hq : ∀ q ∈ s.queues, q < w.receivers.length) :
    Accounted E' (w.setSender i s) := by
  refine ⟨owns_setSender hi ((owns_frame_sender hi h.owns).perm ?_), h.wellFormed.setSender hs hq⟩
  refine List.perm_iff_count.2 fun a ↦ ?_
  have := hrefs.count_eq a
  simp only [List.count_append] at this ⊢
  omega

/-- **Releasing locals**: the references `ms` among the locals are dropped. -/
theorem Accounted.decrementEach {ms : List ℕ} (h : Accounted (ms ++ E) w) :
    ∃ mm', w.mm.decrementEach ms = some mm' ∧ Accounted E { w with mm := mm' } := by
  have hown : MemoryManager.Owns w.mm (ms ++ (E ++ w.refs)) := by
    simpa only [List.append_assoc] using h.owns
  obtain ⟨mm', hdec, hown'⟩ := hown.decrementEach
  exact ⟨mm', hdec, hown', h.wellFormed.with_mm mm'⟩

/-- **Releasing an unmanaged chunk**: the reference of `chunk`, if any, among the locals is
dropped. -/
theorem Accounted.releaseToSharedChunk {chunk : Option ℕ} (h : Accounted (chunk.toList ++ E) w) :
    ∃ mm', w.mm.releaseToSharedChunk chunk = some mm' ∧ Accounted E { w with mm := mm' } := by
  have hown : MemoryManager.Owns w.mm (chunk.toList ++ (E ++ w.refs)) := by
    simpa only [List.append_assoc] using h.owns
  obtain ⟨mm', hrel, hown'⟩ := hown.releaseToSharedChunk
  exact ⟨mm', hrel, hown', h.wellFormed.with_mm mm'⟩

/-- **Changing a receiver**: when the new receiver and the new locals `E'` hold what the old
receiver and the old locals held, the accounting carries over. -/
theorem Accounted.setReceiver_of_perm {E' : List ℕ} (h : Accounted E w)
    (hi : i < w.receivers.length) {r : ChunkReceiverData}
    (hrefs : (E' ++ r.refs).Perm (E ++ w.receivers[i].refs)) (hr : r.chunksInUse.Inv) :
    Accounted E' (w.setReceiver i r) := by
  refine ⟨owns_setReceiver hi ((owns_frame_receiver hi h.owns).perm ?_), h.wellFormed.setReceiver hr⟩
  refine List.perm_iff_count.2 fun a ↦ ?_
  have := hrefs.count_eq a
  simp only [List.count_append] at this ⊢
  omega

/-- Writing chunk headers keeps the accounting. -/
theorem Accounted.with_chunkHeaders (h : Accounted E w) (chunkHeaders : ℕ × ℕ → ChunkHeader) :
    Accounted E { w with mm := { w.mm with chunkHeaders } } :=
  ⟨h.owns.with_chunkHeaders chunkHeaders, h.wellFormed.with_mm _⟩

/-- The end of the scope of a local `SharedChunk`: its reference is dropped. -/
def dropLocal (w : World) (chunk : ℕ) : Option World := do
  let mm ← w.mm.decrementReferenceCounter chunk
  return { w with mm }

/-- **Dropping a local** keeps the accounting of the other references. -/
theorem dropLocal_accounted {chunk : ℕ} (h : Accounted (E ++ [chunk]) w) :
    ∃ w', dropLocal w chunk = some w' ∧ Accounted E w' ∧ SameParts w w' ∧
      w'.senders = w.senders ∧ w'.handles = w.handles := by
  have hown : MemoryManager.Owns w.mm (chunk :: (E ++ w.refs)) := h.owns.perm (by
    rw [List.append_assoc, List.singleton_append]
    exact List.perm_middle)
  obtain ⟨mm', hdec, hown'⟩ := hown.decrement
  exact ⟨{ w with mm := mm' }, by simp [dropLocal, hdec], ⟨hown', h.wellFormed.with_mm mm'⟩,
    SameParts.with_mm mm', rfl, rfl⟩

/-- **Changing what a sender registers**, but not what it holds, keeps the accounting. -/
theorem Accounted.setSender_of_refs_eq (h : Accounted E w) (hi : i < w.senders.length)
    {s : ChunkSenderData} (hrefs : s.refs = w.senders[i].refs) (hs : s.chunksInUse.Inv)
    (hq : ∀ q ∈ s.queues, q < w.receivers.length) : Accounted E (w.setSender i s) := by
  refine ⟨h.owns.perm (List.Perm.append_left E ?_), h.wellFormed.setSender hs hq⟩
  have hw := refs_perm_sender hi
  rw [← hrefs] at hw
  exact hw.trans (refs_setSender_perm hi s).symm

end World

end Iox.Popo
