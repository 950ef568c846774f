import Iceoryx.Popo.ChunkDistributor

/-!
# `ChunkSender`

A `ChunkSender` (`chunk_sender.inl`) is the distributor of a publisher together with what its
user holds: the chunks allocated and not yet sent or released (`m_chunksInUse`), and the last
chunk sent (`m_lastChunkUnmanaged`), which `tryAllocate` reuses when nobody else holds it and it
is large enough.

## The model

The functions act on sender `s` of a `World`, and a chunk header is named by its address, the
pair of `MemoryManager.chunkHeaderOf`. `ChunkSettings::create` is left out: `tryAllocate` is
given its result, the required chunk size or nothing for invalid settings. Reports of
`IOX_REPORT` with a runtime error (an unknown chunk released or sent) leave the world as it is;
the model does not record the report. Reference counts follow the convention of
`Iceoryx.Popo.ChunkQueue`; where a local `SharedChunk` ends its life holding the last
reference, its destructor is modelled.

## What is proved

Every function keeps the accounting of the world, and fails only where a delivery waits for a
consumer. `tryAllocate` hands out a chunk that, afterwards, only the sender's used list and its
last chunk hold (`tryAllocate_fresh`): when the last chunk is reused, its reference count was
one, so no queue, history or receiver held it.
-/

namespace Iox.Popo

open Iox.Mepoo

/-- `AllocationError`. -/
inductive AllocationError where
  | undefinedError
  | noMempoolsAvailable
  | runningOutOfChunks
  | tooManyChunksAllocatedInParallel
  | invalidParameterForUserPayloadOrUserHeader
  | invalidParameterForRequestHeader
  deriving DecidableEq, Repr

/-- `from<MemoryManager::Error, AllocationError>`. -/
def AllocationError.fromMemoryManagerError : Error → AllocationError
  | .noMempoolsAvailable => .noMempoolsAvailable
  | .noMempoolForRequestedChunkSize => .noMempoolsAvailable
  | .mempoolOutOfChunks => .runningOutOfChunks

namespace ChunkSender

/-- `m_lastChunkUnmanaged.isNotLogicalNullptrAndHasNoOtherOwners()`. -/
def isNotLogicalNullptrAndHasNoOtherOwners (mm : MemoryManager) (lastChunkUnmanaged : Option ℕ) :
    Bool :=
  match lastChunkUnmanaged with
  | some chunk => (mm.chunkManagement chunk).referenceCounter == 1
  | none => false

/-- The `else` branch of `tryAllocate`: a new chunk from the memory manager, which the used list
takes over, or which is released when the list is full. -/
def tryAllocateNewChunk (w : World) (s : ℕ) (d : ChunkSenderData) (originId requiredChunkSize : ℕ) :
    Option (World × Except AllocationError (ℕ × ℕ)) := do
  match ← w.mm.getChunk requiredChunkSize with
  | .error e => return (w, .error (.fromMemoryManagerError e))
  | .ok (mm, chunk) =>
    let (chunksInUse, inserted) := d.chunksInUse.insert (some chunk)
    if inserted then
      -- the slot's reference and the destruction of `chunk` cancel
      let chunkHeader := mm.chunkHeaderOf chunk
      let header := { mm.chunkHeaders chunkHeader with originId }
      let mm := { mm with chunkHeaders := Function.update mm.chunkHeaders chunkHeader header }
      return ({ w.setSender s { d with chunksInUse } with mm }, .ok chunkHeader)
    else
      -- `chunk = nullptr` drops the only reference
      let mm ← mm.decrementReferenceCounter chunk
      return ({ w with mm }, .error .tooManyChunksAllocatedInParallel)

/-- `tryAllocate(originId, ...)`, given the result of `ChunkSettings::create`: the last chunk is
reused if nobody else holds it and it is large enough; otherwise a new chunk is taken. The
address of the chunk header is returned. -/
def tryAllocate (w : World) (s originId : ℕ) (chunkSettingsResult : Option ℕ) :
    Option (World × Except AllocationError (ℕ × ℕ)) := do
  let d ← w.senders[s]?
  match chunkSettingsResult with
  | none => return (w, .error .invalidParameterForUserPayloadOrUserHeader)
  | some requiredChunkSize =>
    let lastChunkChunkHeader :=
      if isNotLogicalNullptrAndHasNoOtherOwners w.mm d.lastChunkUnmanaged then
        d.lastChunkUnmanaged
      else
        none
    match lastChunkChunkHeader with
    | some chunk =>
      let chunkHeader := w.mm.chunkHeaderOf chunk
      let chunkSize := (w.mm.chunkHeaders chunkHeader).chunkSize
      if requiredChunkSize ≤ chunkSize then
        -- `cloneToSharedChunk`, kept by the slot of the used list
        let (chunksInUse, inserted) := d.chunksInUse.insert (some chunk)
        if inserted then
          let mm := w.mm.incrementReferenceCounter chunk
          -- a new header in place, with the origin set
          let header : ChunkHeader := ⟨chunkSize, originId, 0⟩
          let mm := { mm with chunkHeaders := Function.update mm.chunkHeaders chunkHeader header }
          return ({ w.setSender s { d with chunksInUse } with mm }, .ok chunkHeader)
        else
          return (w, .error .tooManyChunksAllocatedInParallel)
      else
        tryAllocateNewChunk w s d originId requiredChunkSize
    | none => tryAllocateNewChunk w s d originId requiredChunkSize

/-- `release(chunkHeader)`: a used chunk with that header is removed and its reference dropped;
an unknown header is reported and changes nothing. -/
def release (w : World) (s : ℕ) (chunkHeader : ℕ × ℕ) : Option World := do
  let d ← w.senders[s]?
  let (chunksInUse, chunk) ← d.chunksInUse.remove w.mm.chunkHeaderOf chunkHeader
  let w := w.setSender s { d with chunksInUse }
  match chunk with
  | none => return w
  | some chunk => w.dropLocal chunk

/-- `getChunkReadyForSend(chunkHeader, chunk)`: the used chunk with that header moves to the
caller's `chunk` and gets the next sequence number. -/
def getChunkReadyForSend (w : World) (s : ℕ) (chunkHeader : ℕ × ℕ) :
    Option (World × Option ℕ) := do
  let d ← w.senders[s]?
  let (chunksInUse, chunk) ← d.chunksInUse.remove w.mm.chunkHeaderOf chunkHeader
  match chunk with
  | none => return (w.setSender s { d with chunksInUse }, none)
  | some chunk =>
    let address := w.mm.chunkHeaderOf chunk
    let header := { w.mm.chunkHeaders address with sequenceNumber := d.sequenceNumber }
    let mm := { w.mm with chunkHeaders := Function.update w.mm.chunkHeaders address header }
    return ({ w.setSender s { d with chunksInUse, sequenceNumber := d.sequenceNumber + 1 } with mm },
      some chunk)

/-- `m_lastChunkUnmanaged.releaseToSharedChunk(); m_lastChunkUnmanaged = chunk;`: the old last
chunk's reference is dropped, and the new one gets a reference of its own. -/
def replaceLastChunk (w : World) (s chunk : ℕ) : Option World := do
  let d ← w.senders[s]?
  let mm ← w.mm.releaseToSharedChunk d.lastChunkUnmanaged
  return { w.setSender s { d with lastChunkUnmanaged := some chunk } with
    mm := mm.incrementReferenceCounter chunk }

/-- `send(chunkHeader)`: the chunk is delivered to every stored queue and added to the history,
and becomes the last chunk. Returns the number of queues it was delivered to. -/
def send (retries : ℕ) (w : World) (s : ℕ) (chunkHeader : ℕ × ℕ) : Option (World × ℕ) := do
  let (w, chunk) ← getChunkReadyForSend w s chunkHeader
  match chunk with
  | none => return (w, 0)
  | some chunk =>
    let (w, numberOfReceiverTheChunkWasDelivered) ←
      ChunkDistributor.deliverToAllStoredQueues retries w s chunk
    let w ← replaceLastChunk w s chunk
    let w ← w.dropLocal chunk
    return (w, numberOfReceiverTheChunkWasDelivered)

/-- `sendToQueue(chunkHeader, uniqueQueueId, lastKnownQueueIndex)`. -/
def sendToQueue (retries : ℕ) (w : World) (s : ℕ) (chunkHeader : ℕ × ℕ)
    (uniqueQueueId lastKnownQueueIndex : ℕ) : Option (World × Bool) := do
  let (w, chunk) ← getChunkReadyForSend w s chunkHeader
  match chunk with
  | none => return (w, false)
  | some chunk =>
    let (w, deliveryResult) ← ChunkDistributor.deliverToQueue retries w s uniqueQueueId
      lastKnownQueueIndex chunk
    let w ← replaceLastChunk w s chunk
    let w ← w.dropLocal chunk
    return (w, deliveryResult.isOk)

/-- `pushToHistory(chunkHeader)`. -/
def pushToHistory (w : World) (s : ℕ) (chunkHeader : ℕ × ℕ) : Option World := do
  let (w, chunk) ← getChunkReadyForSend w s chunkHeader
  match chunk with
  | none => return w
  | some chunk =>
    let w ← ChunkDistributor.addToHistoryWithoutDelivery w s chunk
    let w ← replaceLastChunk w s chunk
    w.dropLocal chunk

/-- `releaseAll()`: the used chunks, the history (`ChunkDistributor::cleanup`, whose `tryLock`
succeeds in a run of one thread) and the last chunk are released. -/
def releaseAll (w : World) (s : ℕ) : Option World := do
  let d ← w.senders[s]?
  let (chunksInUse, released) := d.chunksInUse.cleanup
  let mm ← w.mm.decrementEach released
  let w ← ChunkDistributor.clearHistory { w.setSender s { d with chunksInUse } with mm } s
  let d ← w.senders[s]?
  let mm ← w.mm.releaseToSharedChunk d.lastChunkUnmanaged
  return { w.setSender s { d with lastChunkUnmanaged := none } with mm }

/-! ### Accounting -/

open World ChunkDistributor

/-- **Only sender `s` holds the chunk with header `chunkHeader`**: some chunk in its used list
has that header, and the references to it, counting the locals `E`, are those of the used list
and of the last chunk. -/
def OnlySenderHolds (E : List ℕ) (w : World) (s : ℕ) (chunkHeader : ℕ × ℕ) : Prop :=
  ∃ d ∈ w.senders[s]?, ∃ chunk ∈ d.chunksInUse.contents, w.mm.chunkHeaderOf chunk = chunkHeader ∧
    (E ++ w.refs).count chunk =
      d.chunksInUse.contents.count chunk + d.lastChunkUnmanaged.toList.count chunk

variable {E : List ℕ} {w : World} {s : ℕ}

/-- **Removing a used chunk moves it to a local**: the chunk found, if any, leaves the used list
of sender `s` and joins the locals, and any sender with the new list and the same distributor
and last chunk is accounted for. -/
theorem remove_accounted (chunkHeader : ℕ × ℕ) (h : Accounted E w) (hs : s < w.senders.length) :
    ∃ chunksInUse chunk,
      w.senders[s].chunksInUse.remove w.mm.chunkHeaderOf chunkHeader = some (chunksInUse, chunk) ∧
      ∀ d : ChunkSenderData, d.chunksInUse = chunksInUse →
        d.toChunkDistributorData = w.senders[s].toChunkDistributorData →
        d.lastChunkUnmanaged = w.senders[s].lastChunkUnmanaged →
        Accounted (E ++ chunk.toList) (w.setSender s d) := by
  have hq := h.wellFormed.queues_lt _ (List.getElem_mem hs)
  obtain ⟨chunksInUse, chunk, hremove, hinv, hkeep⟩ := UsedChunkList.remove_perm
    (h.wellFormed.senders _ (List.getElem_mem hs)) w.mm.chunkHeaderOf chunkHeader
  refine ⟨chunksInUse, chunk, hremove, fun d hc hd hl ↦ ?_⟩
  refine h.setSender_of_perm hs (List.perm_iff_count.2 fun a ↦ ?_) (hc ▸ hinv)
    (by simpa only [hd] using hq)
  have := hkeep.count_eq a
  simp only [ChunkSenderData.refs, hc, hd, hl, List.count_append] at this ⊢
  omega

/-- **`getChunkReadyForSend` moves the used chunk to a local**: the accounting holds with the
chunk found, if any, added to the locals, and the distributors are unchanged. -/
theorem getChunkReadyForSend_accounted (chunkHeader : ℕ × ℕ) (h : Accounted E w)
    (hs : s < w.senders.length) :
    ∃ w' chunk, getChunkReadyForSend w s chunkHeader = some (w', chunk) ∧
      Accounted (E ++ chunk.toList) w' ∧ SameParts w w' ∧
      w'.senders.map ChunkSenderData.toChunkDistributorData =
        w.senders.map ChunkSenderData.toChunkDistributorData ∧
      w'.handles = w.handles := by
  have hsget : w.senders[s]? = some w.senders[s] := List.getElem?_eq_getElem hs
  have hdist : ∀ d : ChunkSenderData,
      d.toChunkDistributorData = w.senders[s].toChunkDistributorData →
      (w.setSender s d).senders.map ChunkSenderData.toChunkDistributorData =
        w.senders.map ChunkSenderData.toChunkDistributorData := fun d hd ↦ by
    rw [World.setSender, List.map_set, hd,
      ← List.getElem_map (f := ChunkSenderData.toChunkDistributorData), List.set_getElem_self]
    simpa using hs
  obtain ⟨chunksInUse, chunk, hremove, hacc⟩ := remove_accounted chunkHeader h hs
  cases chunk with
  | none =>
    refine ⟨w.setSender s { w.senders[s] with chunksInUse }, none,
      by simp [getChunkReadyForSend, hsget, hremove], hacc _ rfl rfl rfl,
      SameParts.setSender hs rfl, hdist _ rfl, rfl⟩
  | some chunk =>
    let d : ChunkSenderData :=
      { w.senders[s] with chunksInUse, sequenceNumber := w.senders[s].sequenceNumber + 1 }
    let address := w.mm.chunkHeaderOf chunk
    let chunkHeaders := Function.update w.mm.chunkHeaders address
      { w.mm.chunkHeaders address with sequenceNumber := w.senders[s].sequenceNumber }
    refine ⟨{ w.setSender s d with mm := { w.mm with chunkHeaders } }, some chunk,
      by simp [getChunkReadyForSend, hsget, hremove, d, chunkHeaders, address],
      (hacc d rfl rfl rfl).with_chunkHeaders _,
      (SameParts.setSender (s := d) hs rfl).trans (SameParts.with_mm _), hdist d rfl, rfl⟩

/-- **`replaceLastChunk` trades the last chunk's reference**: the old last chunk's reference is
dropped, and the local `chunk` is copied into the slot. -/
theorem replaceLastChunk_accounted (chunk : ℕ) (h : Accounted E w) (hs : s < w.senders.length)
    (hchunk : chunk ∈ E) :
    ∃ w', replaceLastChunk w s chunk = some w' ∧ Accounted E w' ∧ SameParts w w' ∧
      w'.receivers = w.receivers ∧ w'.handles = w.handles := by
  have hsget : w.senders[s]? = some w.senders[s] := List.getElem?_eq_getElem hs
  have hframe := owns_frame_sender hs h.owns
  have hinv := h.wellFormed.senders _ (List.getElem_mem hs)
  have hq := h.wellFormed.queues_lt _ (List.getElem_mem hs)
  have hparts := SameParts.setSender (s := { w.senders[s] with lastChunkUnmanaged := some chunk })
    hs rfl
  generalize w.senders[s] = d at hsget hframe hinv hq hparts
  let R := E ++ w.refsOutsideSender s ++ d.chunksInUse.contents ++ d.history
  have hown : MemoryManager.Owns w.mm (d.lastChunkUnmanaged.toList ++ R) :=
    hframe.perm (List.perm_iff_count.2 fun a ↦ by
      simp only [R, ChunkSenderData.refs, List.count_append]
      omega)
  obtain ⟨mm, hrelease, hown'⟩ := hown.releaseToSharedChunk
  -- the copy into the slot is a reference of its own
  have hinc := hown'.increment (m := chunk) (by simp [R, hchunk])
  refine ⟨{ w.setSender s { d with lastChunkUnmanaged := some chunk } with
      mm := mm.incrementReferenceCounter chunk },
    by simp [replaceLastChunk, hsget, hrelease], ⟨?_, ?_⟩,
    hparts.trans (SameParts.with_mm _), rfl, rfl⟩
  · refine (owns_setSender hs (hinc.perm (List.perm_iff_count.2 fun a ↦ ?_)))
    simp only [R, ChunkSenderData.refs, List.count_append, List.count_cons, Option.toList_some,
      List.count_nil]
    omega
  · exact (h.wellFormed.setSender (s := { d with lastChunkUnmanaged := some chunk }) hinv hq).with_mm _

/-- **`release` keeps the accounting**: a used chunk found leaves the list and its reference is
dropped. -/
theorem release_accounted {chunkHeader : ℕ × ℕ} (h : Accounted E w) (hs : s < w.senders.length) :
    ∃ w', release w s chunkHeader = some w' ∧ Accounted E w' ∧ SameParts w w' ∧
      w'.handles = w.handles := by
  have hsget : w.senders[s]? = some w.senders[s] := List.getElem?_eq_getElem hs
  obtain ⟨chunksInUse, chunk, hremove, hacc⟩ := remove_accounted chunkHeader h hs
  have h₁ := hacc { w.senders[s] with chunksInUse } rfl rfl rfl
  have hp₁ := SameParts.setSender (s := { w.senders[s] with chunksInUse }) hs rfl
  cases chunk with
  | none => exact ⟨_, by simp [release, hsget, hremove], by simpa using h₁, hp₁, rfl⟩
  | some chunk =>
    obtain ⟨w', hdrop, h', hp', -, hh'⟩ := dropLocal_accounted h₁
    exact ⟨w', by simp [release, hsget, hremove, hdrop], h', hp₁.trans hp', hh'⟩

/-- The end of `send`, `sendToQueue` and `pushToHistory`: the local chunk becomes the last chunk
and the local goes out of scope. -/
theorem replaceLastChunk_dropLocal {chunk : ℕ} (h : Accounted (E ++ [chunk]) w)
    (hs : s < w.senders.length) :
    ∃ w₁ w', replaceLastChunk w s chunk = some w₁ ∧ w₁.dropLocal chunk = some w' ∧
      Accounted E w' ∧ SameParts w w' ∧ w'.handles = w.handles := by
  obtain ⟨w₁, hrep, h₁, hp₁, -, hh₁⟩ := replaceLastChunk_accounted chunk h hs (by simp)
  obtain ⟨w', hdrop, h', hp', -, hh'⟩ := dropLocal_accounted h₁
  exact ⟨w₁, w', hrep, hdrop, h', hp₁.trans hp', hh'.trans hh₁⟩

/-- **`send` keeps the accounting**, and fails only where a delivery may wait for a consumer. -/
theorem send_accounted (retries : ℕ) {chunkHeader : ℕ × ℕ} (h : Accounted E w)
    (hs : s < w.senders.length) :
    (∀ w' n, send retries w s chunkHeader = some (w', n) →
      Accounted E w' ∧ SameParts w w' ∧ w'.handles = w.handles) ∧
    (send retries w s chunkHeader = none → MayWait w s) := by
  obtain ⟨w₁, chunk, hget, h₁, hp₁, hd₁, hh₁⟩ := getChunkReadyForSend_accounted chunkHeader h hs
  cases chunk with
  | none =>
    -- an unknown chunk header: nothing is sent
    refine ⟨fun w' n heq ↦ ?_, fun heq ↦ by simp [send, hget] at heq⟩
    simp only [send, hget, Option.bind_eq_bind, Option.bind_some, Option.pure_def,
      Option.some.injEq, Prod.mk.injEq] at heq
    obtain ⟨rfl, -⟩ := heq
    exact ⟨by simpa using h₁, hp₁, hh₁⟩
  | some chunk =>
    have hs₁ : s < w₁.senders.length := hp₁.length_senders ▸ hs
    obtain ⟨hok, hwait⟩ := deliverToAllStoredQueues_accounted retries h₁ hs₁
      (List.mem_append_right E (List.mem_singleton_self chunk))
    cases hdel : deliverToAllStoredQueues retries w₁ s chunk with
    | none =>
      refine ⟨fun w' n heq ↦ by simp [send, hget, hdel] at heq, fun _ ↦ ?_⟩
      exact mayWait_of_eq hd₁ hp₁ (hwait hdel)
    | some r =>
      obtain ⟨w₂, n⟩ := r
      obtain ⟨h₂, hp₂, hh₂⟩ := hok w₂ n hdel
      obtain ⟨w₃, w₄, hrep, hdrop, h₄, hp₄, hh₄⟩ :=
        replaceLastChunk_dropLocal h₂ (hp₂.length_senders ▸ hs₁)
      refine ⟨fun w' n' heq ↦ ?_, fun heq ↦ by simp [send, hget, hdel, hrep, hdrop] at heq⟩
      simp only [send, hget, hdel, hrep, hdrop, Option.bind_eq_bind, Option.bind_some,
        Option.pure_def, Option.some.injEq, Prod.mk.injEq] at heq
      obtain ⟨rfl, -⟩ := heq
      exact ⟨h₄, hp₁.trans (hp₂.trans hp₄), by rw [hh₄, hh₂, hh₁]⟩

/-- **`sendToQueue` keeps the accounting**, and fails only where the delivery may wait for the
consumer. -/
theorem sendToQueue_accounted (retries : ℕ) {chunkHeader : ℕ × ℕ}
    {uniqueQueueId lastKnownQueueIndex : ℕ} (h : Accounted E w) (hs : s < w.senders.length) :
    (∀ w' b, sendToQueue retries w s chunkHeader uniqueQueueId lastKnownQueueIndex = some (w', b) →
      Accounted E w' ∧ SameParts w w' ∧ w'.handles = w.handles) ∧
    (sendToQueue retries w s chunkHeader uniqueQueueId lastKnownQueueIndex = none →
      MayWait w s) := by
  obtain ⟨w₁, chunk, hget, h₁, hp₁, hd₁, hh₁⟩ :=
    getChunkReadyForSend_accounted chunkHeader h hs
  cases chunk with
  | none =>
    refine ⟨fun w' b heq ↦ ?_, fun heq ↦ by simp [sendToQueue, hget] at heq⟩
    simp only [sendToQueue, hget, Option.bind_eq_bind, Option.bind_some, Option.pure_def,
      Option.some.injEq, Prod.mk.injEq] at heq
    obtain ⟨rfl, -⟩ := heq
    exact ⟨by simpa using h₁, hp₁, hh₁⟩
  | some chunk =>
    have hs₁ : s < w₁.senders.length := hp₁.length_senders ▸ hs
    obtain ⟨hok, hwait⟩ := deliverToQueue_accounted retries uniqueQueueId lastKnownQueueIndex h₁ hs₁
      (List.mem_append_right E (List.mem_singleton_self chunk))
    cases hdel : deliverToQueue retries w₁ s uniqueQueueId lastKnownQueueIndex chunk with
    | none =>
      refine ⟨fun w' b heq ↦ by simp [sendToQueue, hget, hdel] at heq, fun _ ↦ ?_⟩
      exact mayWait_of_eq hd₁ hp₁ (hwait hdel)
    | some r =>
      obtain ⟨w₂, result⟩ := r
      have h₂ := hok w₂ result hdel
      obtain ⟨w₃, w₄, hrep, hdrop, h₄, hp₄, hh₄⟩ :=
        replaceLastChunk_dropLocal h₂.accounted (h₂.sameParts.length_senders ▸ hs₁)
      refine ⟨fun w' b heq ↦ ?_, fun heq ↦ by simp [sendToQueue, hget, hdel, hrep, hdrop] at heq⟩
      simp only [sendToQueue, hget, hdel, hrep, hdrop, Option.bind_eq_bind, Option.bind_some,
        Option.pure_def, Option.some.injEq, Prod.mk.injEq] at heq
      obtain ⟨rfl, -⟩ := heq
      exact ⟨h₄, hp₁.trans (h₂.sameParts.trans hp₄), by rw [hh₄, h₂.handles_eq, hh₁]⟩

/-- **`pushToHistory` keeps the accounting** and always returns. -/
theorem pushToHistory_accounted {chunkHeader : ℕ × ℕ} (h : Accounted E w)
    (hs : s < w.senders.length) :
    ∃ w', pushToHistory w s chunkHeader = some w' ∧ Accounted E w' ∧ SameParts w w' ∧
      w'.handles = w.handles := by
  obtain ⟨w₁, chunk, hget, h₁, hp₁, -, hh₁⟩ :=
    getChunkReadyForSend_accounted chunkHeader h hs
  cases chunk with
  | none => exact ⟨w₁, by simp [pushToHistory, hget], by simpa using h₁, hp₁, hh₁⟩
  | some chunk =>
    have hs₁ : s < w₁.senders.length := hp₁.length_senders ▸ hs
    obtain ⟨w₂, hadd, h₂, hp₂, -, hh₂⟩ :=
      addToHistoryWithoutDelivery_accounted h₁ hs₁
      (List.mem_append_right E (List.mem_singleton_self chunk))
    obtain ⟨w₃, w₄, hrep, hdrop, h₄, hp₄, hh₄⟩ :=
      replaceLastChunk_dropLocal h₂ (hp₂.length_senders ▸ hs₁)
    exact ⟨w₄, by simp [pushToHistory, hget, hadd, hrep, hdrop], h₄,
      hp₁.trans (hp₂.trans hp₄), by rw [hh₄, hh₂, hh₁]⟩

/-- **`releaseAll` keeps the accounting**: the used chunks, the history and the last chunk are
all released, and the call always returns. -/
theorem releaseAll_accounted (h : Accounted E w) (hs : s < w.senders.length) :
    ∃ w', releaseAll w s = some w' ∧ Accounted E w' ∧ SameParts w w' ∧
      w'.handles = w.handles := by
  have hsget : w.senders[s]? = some w.senders[s] := List.getElem?_eq_getElem hs
  obtain ⟨hinv₁, -, hnil, hreleased⟩ :=
    UsedChunkList.cleanup_spec (h.wellFormed.senders _ (List.getElem_mem hs))
  -- the used list is emptied into the locals, which are then released
  let d₁ : ChunkSenderData :=
    { w.senders[s] with chunksInUse := w.senders[s].chunksInUse.cleanup.1 }
  have h₁ : Accounted (w.senders[s].chunksInUse.cleanup.2 ++ E) (w.setSender s d₁) := by
    refine h.setSender_of_perm hs (List.perm_iff_count.2 fun a ↦ ?_) hinv₁
      (h.wellFormed.queues_lt w.senders[s] (List.getElem_mem hs))
    simp only [d₁, ChunkSenderData.refs, hnil, hreleased, List.count_append, List.count_nil]
    omega
  obtain ⟨mm₁, hdec, h₂⟩ := h₁.decrementEach
  rw [setSender_mm] at hdec
  have hp₂ : SameParts w { w.setSender s d₁ with mm := mm₁ } :=
    (SameParts.setSender (s := d₁) hs rfl).trans (SameParts.with_mm _)
  obtain ⟨w₃, hclear, h₃, hp₃, hh₃⟩ := clearHistory_accounted h₂ (hp₂.length_senders ▸ hs)
  have hs₃ : s < w₃.senders.length := (hp₂.trans hp₃).length_senders ▸ hs
  have hsget₃ : w₃.senders[s]? = some w₃.senders[s] := List.getElem?_eq_getElem hs₃
  -- the last chunk is moved into the locals and released
  let d₄ : ChunkSenderData := { w₃.senders[s] with lastChunkUnmanaged := none }
  have h₄ : Accounted (w₃.senders[s].lastChunkUnmanaged.toList ++ E) (w₃.setSender s d₄) := by
    refine h₃.setSender_of_perm hs₃ (List.perm_iff_count.2 fun a ↦ ?_)
      (h₃.wellFormed.senders w₃.senders[s] (List.getElem_mem hs₃))
      (h₃.wellFormed.queues_lt w₃.senders[s] (List.getElem_mem hs₃))
    simp only [d₄, ChunkSenderData.refs, List.count_append, Option.toList_none, List.count_nil]
    omega
  obtain ⟨mm₄, hrel, h₅⟩ := h₄.releaseToSharedChunk
  rw [setSender_mm] at hrel
  refine ⟨_, ?_, h₅, ?_, ?_⟩
  · simp only [releaseAll, hsget, Option.bind_eq_bind, Option.bind_some, hdec]
    rw [hclear]
    simp [hsget₃, hrel, d₄]
  · exact (hp₂.trans hp₃).trans ((SameParts.setSender (s := d₄) hs₃ rfl).trans (SameParts.with_mm _))
  · simpa [setSender] using hh₃

/-- **A chunk inserted into the used list** of sender `s` gets the slot's reference; when only the
used list and the last chunk held it before, only they hold it afterwards. -/
theorem insert_accounted {mm : MemoryManager} {chunk : ℕ} (h : Accounted E w)
    (hs : s < w.senders.length) (hown : MemoryManager.Owns mm (chunk :: (E ++ w.refs)))
    (hins : (w.senders[s].chunksInUse.insert (some chunk)).2 = true)
    (chunkHeaders : ℕ × ℕ → ChunkHeader) :
    let w' : World := { w.setSender s
      { w.senders[s] with chunksInUse := (w.senders[s].chunksInUse.insert (some chunk)).1 } with
        mm := { mm with chunkHeaders } }
    Accounted E w' ∧ SameParts w w' ∧ w'.handles = w.handles ∧
      ((E ++ w.refs).count chunk = w.senders[s].chunksInUse.contents.count chunk +
          w.senders[s].lastChunkUnmanaged.toList.count chunk →
        OnlySenderHolds E w' s (mm.chunkHeaderOf chunk)) := by
  intro w'
  let d : ChunkSenderData :=
    { w.senders[s] with chunksInUse := (w.senders[s].chunksInUse.insert (some chunk)).1 }
  obtain ⟨hinv', hperm⟩ :=
    UsedChunkList.insert_spec (h.wellFormed.senders _ (List.getElem_mem hs)) chunk
  rw [hins, if_pos rfl] at hperm
  -- first with the new reference among the locals, then moved into the slot
  have h₀ : Accounted (chunk :: E) { w with mm } := ⟨hown, h.wellFormed.with_mm mm⟩
  have h₁ : Accounted E w' := by
    refine (h₀.setSender_of_perm (i := s) (s := d) hs (List.perm_iff_count.2 fun a ↦ ?_) hinv'
      (h.wellFormed.queues_lt w.senders[s] (List.getElem_mem hs))).with_chunkHeaders chunkHeaders
    have := hperm.count_eq a
    simp only [d, ChunkSenderData.refs, List.count_append, List.count_cons, List.count_nil] at this ⊢
    omega
  refine ⟨h₁, (SameParts.setSender (s := d) hs rfl).trans (SameParts.with_mm _), rfl,
    fun hcount ↦ ⟨d, by simp [w', d, setSender, hs], chunk, hperm.mem_iff.2 (by simp), rfl, ?_⟩⟩
  -- the counter of `chunk` is read in both accountings
  have hrc : (E ++ w'.refs).count chunk = (chunk :: (E ++ w.refs)).count chunk :=
    (h₁.owns.referenceCounter_eq chunk).symm.trans (hown.referenceCounter_eq chunk)
  have := hperm.count_eq chunk
  rw [List.count_cons_self] at hrc
  simp only [List.count_append, List.count_singleton_self] at this
  simp only [d]
  omega

/-- **`tryAllocateNewChunk` keeps the accounting**, and the chunk handed out is held by the used
list only. -/
theorem tryAllocateNewChunk_accounted (h : Accounted E w) (hs : s < w.senders.length)
    (originId requiredChunkSize : ℕ) :
    ∃ w' r, tryAllocateNewChunk w s w.senders[s] originId requiredChunkSize = some (w', r) ∧
      Accounted E w' ∧ SameParts w w' ∧ w'.handles = w.handles ∧
      ∀ chunkHeader, r = .ok chunkHeader → OnlySenderHolds E w' s chunkHeader := by
  obtain ⟨r, hget, hok⟩ := h.owns.getChunk requiredChunkSize
  rcases r with e | ⟨mm, chunk⟩
  · exact ⟨w, .error (.fromMemoryManagerError e), by simp [tryAllocateNewChunk, hget], h,
      .refl _, rfl, by simp⟩
  obtain ⟨hfresh, hown⟩ := hok mm chunk rfl
  cases hins : (w.senders[s].chunksInUse.insert (some chunk)).2 with
  | false =>
    -- the used list is full: the new chunk's only reference is dropped again
    obtain ⟨mm', hdec, hown'⟩ := hown.decrement
    exact ⟨{ w with mm := mm' }, .error .tooManyChunksAllocatedInParallel,
      by simp [tryAllocateNewChunk, hget, hins, hdec],
      ⟨hown', h.wellFormed.with_mm _⟩, SameParts.with_mm _, rfl, by simp⟩
  | true =>
    let chunkHeaders := Function.update mm.chunkHeaders (mm.chunkHeaderOf chunk)
      { mm.chunkHeaders (mm.chunkHeaderOf chunk) with originId }
    obtain ⟨hacc, hparts, hhandles, honly⟩ := insert_accounted h hs hown hins chunkHeaders
    refine ⟨_, .ok (mm.chunkHeaderOf chunk), by simp [tryAllocateNewChunk, hget, hins, chunkHeaders],
      hacc, hparts, hhandles, ?_⟩
    rintro _ ⟨⟩
    -- a new chunk: nobody held it before
    have hnot : chunk ∉ w.senders[s].refs := fun hm ↦
      hfresh (List.mem_append_right E ((refs_perm_sender hs).mem_iff.2 (List.mem_append_left _ hm)))
    have hc : chunk ∉ w.senders[s].chunksInUse.contents := fun hm ↦ hnot (by simp [ChunkSenderData.refs, hm])
    have hl : chunk ∉ w.senders[s].lastChunkUnmanaged.toList := fun hm ↦ hnot (by simp [ChunkSenderData.refs, hm])
    apply honly
    rw [List.count_eq_zero.2 hfresh, List.count_eq_zero.2 hc, List.count_eq_zero.2 hl]

/-- **`tryAllocate` keeps the accounting**, and the chunk header handed out is that of a chunk
held by the sender's used list and last chunk only: reusing the last chunk rewrites a chunk that
no queue, history or receiver holds. -/
theorem tryAllocate_accounted {originId : ℕ} {chunkSettingsResult : Option ℕ}
    (h : Accounted E w) (hs : s < w.senders.length) :
    ∃ w' r, tryAllocate w s originId chunkSettingsResult = some (w', r) ∧
      Accounted E w' ∧ SameParts w w' ∧ w'.handles = w.handles ∧
      ∀ chunkHeader, r = .ok chunkHeader → OnlySenderHolds E w' s chunkHeader := by
  have hsget : w.senders[s]? = some w.senders[s] := List.getElem?_eq_getElem hs
  cases chunkSettingsResult with
  | none =>
    exact ⟨w, .error .invalidParameterForUserPayloadOrUserHeader, by simp [tryAllocate, hsget], h,
      .refl _, rfl, by simp⟩
  | some requiredChunkSize =>
    obtain ⟨w', r, hnew, hnew'⟩ := tryAllocateNewChunk_accounted h hs originId requiredChunkSize
    -- every path but the reuse of the last chunk takes a new chunk
    cases hlast : w.senders[s].lastChunkUnmanaged with
    | none =>
      exact ⟨w', r, Eq.trans (by simp [tryAllocate, hsget, hlast,
        isNotLogicalNullptrAndHasNoOtherOwners]) hnew, hnew'⟩
    | some chunk =>
      by_cases hone : (w.mm.chunkManagement chunk).referenceCounter = 1
      swap
      · exact ⟨w', r, Eq.trans (by simp [tryAllocate, hsget, hlast,
          isNotLogicalNullptrAndHasNoOtherOwners, hone]) hnew, hnew'⟩
      by_cases hsize : requiredChunkSize ≤ (w.mm.chunkHeaders (w.mm.chunkHeaderOf chunk)).chunkSize
      swap
      · exact ⟨w', r, Eq.trans (by simp [tryAllocate, hsget, hlast,
          isNotLogicalNullptrAndHasNoOtherOwners, hone, hsize]) hnew, hnew'⟩
      -- the last chunk is reused
      have hmem : chunk ∈ E ++ w.refs := List.mem_append_right E
        ((refs_perm_sender hs).mem_iff.2 (List.mem_append_left _ (by simp [ChunkSenderData.refs, hlast])))
      cases hins : (w.senders[s].chunksInUse.insert (some chunk)).2 with
      | false =>
        exact ⟨w, .error .tooManyChunksAllocatedInParallel, by simp [tryAllocate, hsget, hlast,
          isNotLogicalNullptrAndHasNoOtherOwners, hone, hsize, hins], h, .refl _, rfl, by simp⟩
      | true =>
        let address := w.mm.chunkHeaderOf chunk
        let chunkHeaders := Function.update (w.mm.incrementReferenceCounter chunk).chunkHeaders address
          ⟨(w.mm.chunkHeaders address).chunkSize, originId, 0⟩
        obtain ⟨hacc, hparts, hhandles, honly⟩ :=
          insert_accounted h hs (h.owns.increment hmem) hins chunkHeaders
        refine ⟨_, .ok address, by simp [tryAllocate, hsget, hlast,
          isNotLogicalNullptrAndHasNoOtherOwners, hone, hsize, hins, chunkHeaders, address],
          hacc, hparts, hhandles, ?_⟩
        rintro _ ⟨⟩
        have haddress : (w.mm.incrementReferenceCounter chunk).chunkHeaderOf chunk = address := by
          simp [MemoryManager.incrementReferenceCounter, address]
        rw [← haddress]
        -- its one reference is the last chunk's
        have hcount : (E ++ w.refs).count chunk = 1 := by
          rw [← h.owns.referenceCounter_eq, hone]
        have hsplit := (refs_perm_sender hs).count_eq chunk
        simp only [ChunkSenderData.refs, hlast, List.count_append, List.count_append] at hsplit hcount
        apply honly
        simp only [hlast, List.count_append]
        simp at hsplit hcount ⊢
        omega

end ChunkSender

end Iox.Popo
