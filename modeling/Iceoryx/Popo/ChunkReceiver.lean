import Iceoryx.Popo.ChunkDistributor

/-!
# `ChunkReceiver`

A `ChunkReceiver` (`chunk_receiver.inl`) is the `ChunkQueuePopper` of a subscriber's queue together
with what its user holds: the chunks taken with `tryGet` and not yet released (`m_chunksInUse`).
`tryGet` pops the oldest entry and records it in the used list, or drops it when the user already
holds as many chunks as the list has slots; `release` removes a used chunk by its header and drops
it; `releaseAll` drops every used chunk and clears the queue.

## The model

The functions act on receiver `r` of a `World`. The popper's own `tryPop` and `clear` are here
too, at the level of the world: the `SharedChunk` that `tryPop` returns is a local of its caller,
which `tryGet` records or drops. Reference counts follow the convention of
`Iceoryx.Popo.ChunkQueue`. An unknown chunk released is reported with `IOX_REPORT` and changes
nothing; the model does not record the report.

## What is proved

Every function keeps the accounting of the world, fails for no existing receiver, and leaves the
senders and the users' handles as they are (`ChunkDistributor.Delivered`): `tryPop` moves the
oldest entry's reference to the caller (`tryPop_accounted`), `tryGet` moves it on into the used
list or drops it (`tryGet_accounted`), `release` drops the reference of the chunk it finds, and
`releaseAll` and `clear` drop every reference they held, once each.
-/

namespace Iox.Popo

open Iox.Mepoo

/-- `ChunkReceiveResult`. -/
inductive ChunkReceiveResult where
  | tooManyChunksHeldInParallel
  | noChunkAvailable
  deriving DecidableEq, Repr

namespace ChunkReceiver

/-- `tryPop()` on the queue of receiver `r`: the oldest entry's reference moves to the returned
`SharedChunk`. -/
def tryPop (w : World) (r : ℕ) : Option (World × Option ℕ) := do
  let d ← w.receivers[r]?
  let (q, chunk) := ChunkQueuePopper.tryPop d.toChunkQueueData
  return (w.setReceiver r { d with toChunkQueueData := q }, chunk)

/-- `clear()` on the queue of receiver `r`. -/
def clear (w : World) (r : ℕ) : Option World := do
  let d ← w.receivers[r]?
  let (mm, q) ← ChunkQueuePopper.clear w.mm d.toChunkQueueData
  return { w.setReceiver r { d with toChunkQueueData := q } with mm }

/-- `tryGet()`: the popped chunk is recorded in the used list, and its header returned; when the
list is full it is dropped. -/
def tryGet (w : World) (r : ℕ) : Option (World × Except ChunkReceiveResult (ℕ × ℕ)) := do
  let (w, popRet) ← tryPop w r
  match popRet with
  | none => return (w, .error .noChunkAvailable)
  | some sharedChunk =>
    let d ← w.receivers[r]?
    let (chunksInUse, inserted) := d.chunksInUse.insert (some sharedChunk)
    if inserted then
      -- the slot's reference and the destruction of `sharedChunk` cancel
      return (w.setReceiver r { d with chunksInUse }, .ok (w.mm.chunkHeaderOf sharedChunk))
    else
      -- `sharedChunk = nullptr` drops the popped reference
      let w ← w.dropLocal sharedChunk
      return (w, .error .tooManyChunksHeldInParallel)

/-- `release(chunkHeader)`: a used chunk with that header is removed and its reference dropped;
an unknown header is reported and changes nothing. -/
def release (w : World) (r : ℕ) (chunkHeader : ℕ × ℕ) : Option World := do
  let d ← w.receivers[r]?
  let (chunksInUse, chunk) ← d.chunksInUse.remove w.mm.chunkHeaderOf chunkHeader
  let w := w.setReceiver r { d with chunksInUse }
  match chunk with
  | none => return w
  | some chunk => w.dropLocal chunk

/-- `releaseAll()`: `m_chunksInUse.cleanup()`, whose references are dropped, then `clear()`. -/
def releaseAll (w : World) (r : ℕ) : Option World := do
  let d ← w.receivers[r]?
  let (chunksInUse, released) := d.chunksInUse.cleanup
  let mm ← w.mm.decrementEach released
  clear { w.setReceiver r { d with chunksInUse } with mm } r

/-! ### Accounting -/

open World ChunkDistributor

variable {E : List ℕ} {w : World} {r : ℕ}

/-- **`tryPop` moves the oldest entry's reference** to the caller's local, and never fails. -/
theorem tryPop_accounted (h : Accounted E w) (hr : r < w.receivers.length) :
    ∃ w' chunk, tryPop w r = some (w', chunk) ∧ Delivered (E ++ chunk.toList) w w' := by
  have hrget : w.receivers[r]? = some w.receivers[r] := List.getElem?_eq_getElem hr
  have hitems := ChunkQueuePopper.tryPop_items w.receivers[r].toChunkQueueData
  let d : ChunkReceiverData := { w.receivers[r] with
    toChunkQueueData := (ChunkQueuePopper.tryPop w.receivers[r].toChunkQueueData).1 }
  refine ⟨w.setReceiver r d, (ChunkQueuePopper.tryPop w.receivers[r].toChunkQueueData).2,
    by simp [tryPop, hrget, d], ⟨?_, SameParts.setReceiver hr ?_, rfl, rfl⟩⟩
  · refine h.setReceiver_of_perm hr (List.perm_iff_count.2 fun a ↦ ?_)
      (h.wellFormed.receivers w.receivers[r] (List.getElem_mem hr))
    have := congrArg (List.count a) hitems
    simp only [d, ChunkReceiverData.refs, List.count_append] at this ⊢
    omega
  · -- a pop keeps the queue's kind
    simp [d, ChunkReceiverData.constants, ChunkQueuePopper.tryPop]

/-- **`clear` drops every entry of the queue** once, and never fails. -/
theorem clear_accounted (h : Accounted E w) (hr : r < w.receivers.length) :
    ∃ w', clear w r = some w' ∧ Delivered E w w' := by
  have hrget : w.receivers[r]? = some w.receivers[r] := List.getElem?_eq_getElem hr
  have hinv := h.wellFormed.receivers _ (List.getElem_mem hr)
  have hframe := owns_frame_receiver hr h.owns
  generalize hd : w.receivers[r] = d at hrget hinv hframe
  -- the entries first, so that `clear_owns` drops them
  have hown : MemoryManager.Owns w.mm
      (d.items ++ (E ++ w.refsOutsideReceiver r ++ d.chunksInUse.contents)) :=
    hframe.perm (List.perm_iff_count.2 fun a ↦ by
      simp only [ChunkReceiverData.refs, List.count_append]
      omega)
  obtain ⟨mm', hclear, hown'⟩ := ChunkQueuePopper.clear_owns hown
  let d' : ChunkReceiverData := { d with toChunkQueueData :=
    { d.toChunkQueueData with queue := { d.queue with fifo := ⟨[], d.queue.fifo.capacity⟩ } } }
  refine ⟨{ w.setReceiver r d' with mm := mm' }, by simp [clear, hrget, hclear, d'],
    ⟨⟨owns_setReceiver hr (hown'.perm ?_), ?_⟩, ?_, rfl, rfl⟩⟩
  · simp [d', ChunkReceiverData.refs, ChunkQueueData.items]
  · exact (h.wellFormed.setReceiver (i := r) (r := d') hinv).with_mm mm'
  · have hparts : SameParts w (w.setReceiver r d') := by
      refine SameParts.setReceiver hr ?_
      rw [hd]
      rfl
    exact hparts.trans (SameParts.with_mm mm')

/-- **`tryGet` keeps the accounting**: the popped chunk's reference moves into the used list, or
is dropped when the list is full. -/
theorem tryGet_accounted (h : Accounted E w) (hr : r < w.receivers.length) :
    ∃ w' result, tryGet w r = some (w', result) ∧ Delivered E w w' := by
  obtain ⟨w₁, chunk, hpop, hd₁⟩ := tryPop_accounted h hr
  cases chunk with
  | none => exact ⟨w₁, .error .noChunkAvailable, by simp [tryGet, hpop], by simpa using hd₁⟩
  | some chunk =>
    have hr₁ : r < w₁.receivers.length := hd₁.sameParts.length_receivers ▸ hr
    have hrget₁ : w₁.receivers[r]? = some w₁.receivers[r] := List.getElem?_eq_getElem hr₁
    obtain ⟨hinv', hperm⟩ := UsedChunkList.insert_spec
      (hd₁.accounted.wellFormed.receivers _ (List.getElem_mem hr₁)) chunk
    cases hins : (w₁.receivers[r].chunksInUse.insert (some chunk)).2 with
    | true =>
      -- the local moves into the slot
      let d : ChunkReceiverData :=
        { w₁.receivers[r] with chunksInUse := (w₁.receivers[r].chunksInUse.insert (some chunk)).1 }
      refine ⟨w₁.setReceiver r d, .ok (w₁.mm.chunkHeaderOf chunk),
        by simp [tryGet, hpop, hrget₁, hins, d],
        hd₁.trans ⟨?_, SameParts.setReceiver hr₁ rfl, rfl, rfl⟩⟩
      refine hd₁.accounted.setReceiver_of_perm hr₁ (List.perm_iff_count.2 fun a ↦ ?_) hinv'
      rw [hins, if_pos rfl] at hperm
      have := hperm.count_eq a
      simp only [d, ChunkReceiverData.refs, Option.toList_some, List.count_append] at this ⊢
      omega
    | false =>
      -- the list is full: the local is dropped
      obtain ⟨w₂, hdrop, h₂, hp₂, hs₂, hh₂⟩ := dropLocal_accounted hd₁.accounted
      exact ⟨w₂, .error .tooManyChunksHeldInParallel, by simp [tryGet, hpop, hrget₁, hins, hdrop],
        hd₁.trans ⟨h₂, hp₂, hs₂, hh₂⟩⟩

/-- **`release` keeps the accounting**: a used chunk found leaves the list and its reference is
dropped. -/
theorem release_accounted {chunkHeader : ℕ × ℕ} (h : Accounted E w)
    (hr : r < w.receivers.length) :
    ∃ w', release w r chunkHeader = some w' ∧ Delivered E w w' := by
  have hrget : w.receivers[r]? = some w.receivers[r] := List.getElem?_eq_getElem hr
  obtain ⟨chunksInUse, chunk, hremove, hinv, hkeep⟩ := UsedChunkList.remove_perm
    (h.wellFormed.receivers _ (List.getElem_mem hr)) w.mm.chunkHeaderOf chunkHeader
  -- the chunk found, if any, joins the locals
  have h₁ : Delivered (E ++ chunk.toList) w
      (w.setReceiver r { w.receivers[r] with chunksInUse }) := by
    refine ⟨h.setReceiver_of_perm hr (List.perm_iff_count.2 fun a ↦ ?_) hinv,
      SameParts.setReceiver hr rfl, rfl, rfl⟩
    have := hkeep.count_eq a
    simp only [ChunkReceiverData.refs, List.count_append] at this ⊢
    omega
  cases chunk with
  | none =>
    exact ⟨w.setReceiver r { w.receivers[r] with chunksInUse },
      by simp [release, hrget, hremove], by simpa using h₁⟩
  | some chunk =>
    obtain ⟨w', hdrop, h', hp', hs', hh'⟩ := dropLocal_accounted h₁.accounted
    exact ⟨w', by simp [release, hrget, hremove, hdrop], h₁.trans ⟨h', hp', hs', hh'⟩⟩

/-- **`releaseAll` keeps the accounting**: the used chunks and the queue entries are all
dropped, and the call always returns. -/
theorem releaseAll_accounted (h : Accounted E w) (hr : r < w.receivers.length) :
    ∃ w', releaseAll w r = some w' ∧ Delivered E w w' := by
  have hrget : w.receivers[r]? = some w.receivers[r] := List.getElem?_eq_getElem hr
  obtain ⟨hinv₁, -, hnil, hreleased⟩ :=
    UsedChunkList.cleanup_spec (h.wellFormed.receivers _ (List.getElem_mem hr))
  -- the used list is emptied into the locals, which are then released
  let d₁ : ChunkReceiverData :=
    { w.receivers[r] with chunksInUse := w.receivers[r].chunksInUse.cleanup.1 }
  have h₁ : Accounted (w.receivers[r].chunksInUse.cleanup.2 ++ E) (w.setReceiver r d₁) := by
    refine h.setReceiver_of_perm hr (List.perm_iff_count.2 fun a ↦ ?_) hinv₁
    simp only [d₁, ChunkReceiverData.refs, hnil, hreleased, List.count_append, List.count_nil]
    omega
  obtain ⟨mm₁, hdec, h₂⟩ := h₁.decrementEach
  rw [setReceiver_mm] at hdec
  have hp₂ : SameParts w { w.setReceiver r d₁ with mm := mm₁ } :=
    (SameParts.setReceiver (r := d₁) hr rfl).trans (SameParts.with_mm _)
  obtain ⟨w₃, hclear, h₃⟩ := clear_accounted h₂ (hp₂.length_receivers ▸ hr)
  refine ⟨w₃, ?_, ⟨h₃.accounted, hp₂.trans h₃.sameParts, h₃.senders_eq, h₃.handles_eq⟩⟩
  simp only [releaseAll, hrget, Option.bind_eq_bind, Option.bind_some, hdec]
  exact hclear

end ChunkReceiver

end Iox.Popo
