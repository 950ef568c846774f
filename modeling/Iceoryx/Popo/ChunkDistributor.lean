import Mathlib.Data.List.Sort
import Iceoryx.Machine.Run
import Iceoryx.Popo.World

/-!
# `ChunkDistributor`

A `ChunkDistributor` (`chunk_distributor.inl`) delivers the chunks of one sender to the queues
registered with it, and keeps the last `m_historyCapacity` of them in `m_history` for queues that
register later. Every function takes the distributor's lock; `deliverToAllStoredQueues` takes it
several times: once to deliver to every stored queue, then once per retry of the queues that
were full and asked the producer to wait, then once to add the chunk to the history. Each lock
block is a function here (`deliverToStoredQueues`, `retryBlock`, `addToHistoryWithoutDelivery`),
so that a model of concurrent callers can take them as its atomic steps.

## The model

A distributor is named by its sender's position in the `World`, and its queues by their
receivers' positions; a queue that is not in the world is a dangling pointer and ends the run
(`none`). The busy-wait loops (the retries of `deliverToAllStoredQueues` and the `do … while`
of `deliverToQueue`) are `Loop.iterate` with `retries + 1` passes: in a run of one thread no
consumer empties a full queue between two passes, so a loop that has to retry never leaves, and
`none` then stands for that wait. The queues are sorted "by address" in the retry blocks; here
the order of addresses is the order of positions. Reference counts follow the convention of
`Iceoryx.Popo.ChunkQueue`: a `SharedChunk` that is copied and destroyed within the call while
another holder keeps the chunk (the by-value `chunk` argument, the clone of a history entry that
is pushed) is left out.

## What is proved

Each function keeps the reference accounting `Owns w.mm (E ++ w.refs)`, where `E` are the
references the caller holds in locals, and the well-formedness of the world; none of them fails
except by the busy wait, and a busy wait needs a producer that waits for a consumer and a queue
that blocks the producer.
-/

namespace Iox.Popo

open Iox.Mepoo

/-- `ChunkDistributorError`. -/
inductive ChunkDistributorError where
  | queueContainerOverflow
  | queueNotInContainer
  deriving DecidableEq, Repr

namespace ChunkDistributor

/-- `pushToQueue(queue, chunk)`, that is `ChunkQueuePusher(queue).push(chunk)`. -/
def pushToQueue (w : World) (queue chunk : ℕ) : Option (World × Bool) := do
  let r ← w.receivers[queue]?
  let (mm, q, pushed) ← ChunkQueuePusher.push w.mm r.toChunkQueueData chunk
  return ({ w.setReceiver queue { r with toChunkQueueData := q } with mm }, pushed)

/-- `ChunkQueuePusher(queue).lostAChunk()`. -/
def lostAChunk (w : World) (queue : ℕ) : World :=
  match w.receivers[queue]? with
  | some r =>
    w.setReceiver queue { r with toChunkQueueData := ChunkQueuePusher.lostAChunk r.toChunkQueueData }
  | none => w

/-- Push each of `chunks` to `queue`, ignoring the results: the loop of `tryAddQueue` over the
history. -/
def pushEach (w : World) (queue : ℕ) (chunks : List ℕ) : Option World :=
  chunks.foldlM (fun w chunk ↦ (pushToQueue w queue chunk).map Prod.fst) w

/-- `tryAddQueue(queueToAdd, requestedHistory)`: a queue that is not yet registered is added if
the container has room, and is pushed the last `requestedHistory` chunks of the history (all of
it if it is shorter). -/
def tryAddQueue (w : World) (s queueToAdd requestedHistory : ℕ) :
    Option (World × Except ChunkDistributorError Unit) := do
  let d ← w.senders[s]?
  -- `queueToAdd` is a pointer to an existing queue
  let _ ← w.receivers[queueToAdd]?
  if queueToAdd ∈ d.queues then
    return (w, .ok ())
  else if d.queues.length < d.maxQueues then
    let w := w.setSender s { d with queues := d.queues ++ [queueToAdd] }
    let currChunkHistorySize := d.history.length
    let startIndex :=
      if requestedHistory ≤ currChunkHistorySize then currChunkHistorySize - requestedHistory else 0
    let w ← pushEach w queueToAdd (d.history.drop startIndex)
    return (w, .ok ())
  else
    return (w, .error .queueContainerOverflow)

/-- `tryRemoveQueue(queueToRemove)`: the first registration of the queue is erased. -/
def tryRemoveQueue (w : World) (s queueToRemove : ℕ) :
    Option (World × Except ChunkDistributorError Unit) := do
  let d ← w.senders[s]?
  if queueToRemove ∈ d.queues then
    return (w.setSender s { d with queues := d.queues.erase queueToRemove }, .ok ())
  else
    return (w, .error .queueNotInContainer)

/-- `removeAllQueues()`. -/
def removeAllQueues (w : World) (s : ℕ) : Option World := do
  let d ← w.senders[s]?
  return w.setSender s { d with queues := [] }

/-- The body of the first loop of `deliverToAllStoredQueues` for one queue: a queue that takes
the chunk counts as delivered; a full queue of a blocking producer waits for a retry; any other
full queue counts as delivered and is told that it lost a chunk. -/
def deliverStep (willWaitForConsumer : Bool) (chunk : ℕ) (acc : World × ℕ × List ℕ)
    (queue : ℕ) : Option (World × ℕ × List ℕ) := do
  let (w, numberOfQueuesTheChunkWasDeliveredTo, fullQueuesAwaitingDelivery) := acc
  let r ← w.receivers[queue]?
  let isBlockingQueue := willWaitForConsumer && r.queueFullPolicy == .blockProducer
  let (w, pushed) ← pushToQueue w queue chunk
  if pushed then
    return (w, numberOfQueuesTheChunkWasDeliveredTo + 1, fullQueuesAwaitingDelivery)
  else if isBlockingQueue then
    return (w, numberOfQueuesTheChunkWasDeliveredTo, fullQueuesAwaitingDelivery ++ [queue])
  else
    return (lostAChunk w queue, numberOfQueuesTheChunkWasDeliveredTo + 1,
      fullQueuesAwaitingDelivery)

/-- The first lock block of `deliverToAllStoredQueues(chunk)`: every stored queue is pushed the
chunk. Returns the world, the number of queues delivered to and the queues awaiting delivery. -/
def deliverToStoredQueues (w : World) (s chunk : ℕ) : Option (World × ℕ × List ℕ) := do
  let d ← w.senders[s]?
  let willWaitForConsumer := d.consumerTooSlowPolicy == .waitForConsumer
  d.queues.foldlM (deliverStep willWaitForConsumer chunk) (w, 0, [])

/-- The queue order of the retry blocks, `greaterThan`: descending addresses. -/
def greaterThan (a b : ℕ) : Bool := b ≤ a

/-- The body of the loop of a retry block for one queue: a queue that still refuses waits for
the next block. -/
def retryStep (chunk : ℕ) (acc : World × ℕ × List ℕ) (queue : ℕ) :
    Option (World × ℕ × List ℕ) := do
  let (w, numberOfQueuesTheChunkWasDeliveredTo, fullQueuesAwaitingDelivery) := acc
  let (w, pushed) ← pushToQueue w queue chunk
  if pushed then
    return (w, numberOfQueuesTheChunkWasDeliveredTo + 1, fullQueuesAwaitingDelivery)
  else
    return (w, numberOfQueuesTheChunkWasDeliveredTo, fullQueuesAwaitingDelivery ++ [queue])

/-- A retry lock block of `deliverToAllStoredQueues`: the stored queues are sorted (for good: the
sort is on `m_queues`), the queues awaiting delivery that are still stored are pushed the chunk
again, and those that still refuse await the next block. The `set_intersection` of the two
sorted lists, whose entries are distinct, keeps the stored queues that await delivery. -/
def retryBlock (w : World) (s chunk numberOfQueuesTheChunkWasDeliveredTo : ℕ)
    (fullQueuesAwaitingDelivery : List ℕ) : Option (World × ℕ × List ℕ) := do
  let d ← w.senders[s]?
  let queues := d.queues.mergeSort greaterThan
  let w := w.setSender s { d with queues }
  let fullQueuesAwaitingDelivery := fullQueuesAwaitingDelivery.mergeSort greaterThan
  let remainingQueues := queues.filter (· ∈ fullQueuesAwaitingDelivery)
  remainingQueues.foldlM (retryStep chunk) (w, numberOfQueuesTheChunkWasDeliveredTo, [])

/-- One pass of the busy-wait loop of `deliverToAllStoredQueues`: it leaves when no queue awaits
delivery, and otherwise runs a retry block. -/
def retryPass (s chunk : ℕ) (acc : World × ℕ × List ℕ) :
    (World × ℕ × List ℕ) ⊕ Option (World × ℕ) :=
  if acc.2.2 = [] then
    .inr (some (acc.1, acc.2.1))
  else
    match retryBlock acc.1 s chunk acc.2.1 acc.2.2 with
    | some acc => .inl acc
    | none => .inr none

/-- `addToHistoryWithoutDelivery(chunk)`: with a history of positive capacity, a full history
drops its oldest entry, and the chunk is appended. -/
def addToHistoryWithoutDelivery (w : World) (s chunk : ℕ) : Option World := do
  let d ← w.senders[s]?
  if 0 < d.historyCapacity then
    let (mm, history) ← if d.historyCapacity ≤ d.history.length then
        match d.history with
        | chunkToRemove :: history =>
          (w.mm.decrementReferenceCounter chunkToRemove).map fun mm ↦ (mm, history)
        | [] => some (w.mm, [])
      else
        some (w.mm, d.history)
    -- the `ShmSafeUnmanagedChunk` appended to the history holds a reference of its own
    return { w.setSender s { d with history := history ++ [chunk] } with
      mm := mm.incrementReferenceCounter chunk }
  else
    return w

/-- `deliverToAllStoredQueues(chunk)`: the first block, the retries (at most `retries` of them),
and the history. Returns the world and the number of queues the chunk was delivered to. -/
def deliverToAllStoredQueues (retries : ℕ) (w : World) (s chunk : ℕ) : Option (World × ℕ) := do
  let acc ← deliverToStoredQueues w s chunk
  let (w, numberOfQueuesTheChunkWasDeliveredTo) ← (Loop.iterate (retryPass s chunk) (retries + 1) acc).join
  let w ← addToHistoryWithoutDelivery w s chunk
  return (w, numberOfQueuesTheChunkWasDeliveredTo)

/-- `getQueueIndex(uniqueQueueId, lastKnownQueueIndex)`: the last known index if it still holds
the queue, otherwise the first index that does. -/
def getQueueIndex (w : World) (queues : List ℕ) (uniqueQueueId lastKnownQueueIndex : ℕ) :
    Option ℕ :=
  let hasId (queue : ℕ) : Bool := (w.receivers[queue]?.map (·.uniqueId)) == some uniqueQueueId
  match queues[lastKnownQueueIndex]? with
  | some queue => if hasId queue then some lastKnownQueueIndex else queues.findIdx? hasId
  | none => queues.findIdx? hasId

/-- One pass of the `do … while (retry)` of `deliverToQueue`: the queue is looked up, pushed the
chunk, and a refusal goes round again if the producer waits and the queue blocks, and is
recorded as a lost chunk otherwise. -/
def deliverToQueuePass (s uniqueQueueId lastKnownQueueIndex chunk : ℕ) (w : World) :
    World ⊕ Option (World × Except ChunkDistributorError Unit) :=
  match w.senders[s]? with
  | none => .inr none
  | some d =>
    match (getQueueIndex w d.queues uniqueQueueId lastKnownQueueIndex).bind (d.queues[·]?) with
    | none => .inr (some (w, .error .queueNotInContainer))
    | some queue =>
      match w.receivers[queue]?, pushToQueue w queue chunk with
      | some r, some (w', pushed) =>
        let willWaitForConsumer := d.consumerTooSlowPolicy == .waitForConsumer
        let isBlockingQueue := willWaitForConsumer && r.queueFullPolicy == .blockProducer
        if pushed then .inr (some (w', .ok ()))
        else if isBlockingQueue then .inl w'
        else .inr (some (lostAChunk w' queue, .ok ()))
      | _, _ => .inr none

/-- `deliverToQueue(uniqueQueueId, lastKnownQueueIndex, chunk)`, with at most `retries` retries. -/
def deliverToQueue (retries : ℕ) (w : World) (s uniqueQueueId lastKnownQueueIndex chunk : ℕ) :
    Option (World × Except ChunkDistributorError Unit) :=
  (Loop.iterate (deliverToQueuePass s uniqueQueueId lastKnownQueueIndex chunk) (retries + 1) w).join

/-- `clearHistory()`: every history entry is released, oldest first. -/
def clearHistory (w : World) (s : ℕ) : Option World := do
  let d ← w.senders[s]?
  let mm ← w.mm.decrementEach d.history
  return { w.setSender s { d with history := [] } with mm }

/-! ### Accounting -/

open World

/-- `w'` comes from `w` by calls on its receivers, such as pushes to their queues: it is
accounted for with the locals `E`, has the same parts, and the senders and the users' handles of
`w`. -/
structure Delivered (E : List ℕ) (w w' : World) : Prop where
  accounted : Accounted E w'
  sameParts : SameParts w w'
  senders_eq : w'.senders = w.senders
  handles_eq : w'.handles = w.handles

variable {E : List ℕ} {w : World}

theorem Delivered.trans {E' : List ℕ} {w' w'' : World} (h : Delivered E' w w')
    (h' : Delivered E w' w'') :
    Delivered E w w'' :=
  ⟨h'.accounted, h.sameParts.trans h'.sameParts, h'.senders_eq.trans h.senders_eq,
    h'.handles_eq.trans h.handles_eq⟩

/-- **`pushToQueue` keeps the accounting**: a chunk held by a local, a sender or a user is pushed
to an existing queue without failing, and only that queue and the counts change. -/
theorem pushToQueue_delivered {queue : ℕ} (chunk : ℕ) (h : Accounted E w)
    (hq : queue < w.receivers.length)
    (hchunk : chunk ∈ E ++ w.senders.flatMap ChunkSenderData.refs ++ w.handles) :
    ∃ w' pushed, pushToQueue w queue chunk = some (w', pushed) ∧ Delivered E w w' := by
  have hperm := refs_perm_receiver hq
  have hmem := List.getElem_mem hq
  generalize hr : w.receivers[queue] = r at hperm hmem
  have hget : w.receivers[queue]? = some r := by rw [List.getElem?_eq_getElem hq, hr]
  -- everything but the entries of the queue
  set F := E ++ r.chunksInUse.contents ++ w.refsOutsideReceiver queue
  have hF : chunk ∈ F := by
    simp only [F, refsOutsideReceiver, List.mem_append] at hchunk ⊢
    tauto
  have h₁ : MemoryManager.Owns w.mm (F ++ r.items) :=
    h.owns.perm (List.perm_iff_count.2 fun a ↦ by
      have := hperm.count_eq a
      simp only [F, ChunkReceiverData.refs, List.count_append] at this ⊢
      omega)
  obtain ⟨mm', queue', pushed, hpush, htype, -, hown⟩ := ChunkQueuePusher.push_owns hF h₁
  let r' : ChunkReceiverData :=
    { r with toChunkQueueData := { r.toChunkQueueData with queue := queue' } }
  have hparts : SameParts w (w.setReceiver queue r') :=
    SameParts.setReceiver hq (by simp [r', ChunkReceiverData.constants, htype, hr])
  refine ⟨{ w.setReceiver queue r' with mm := mm' }, pushed, by simp [pushToQueue, hget, hpush, r'],
    ⟨⟨?_, ?_⟩, hparts.trans (SameParts.with_mm mm'), rfl, rfl⟩⟩
  · refine hown.perm (List.perm_iff_count.2 fun a ↦ ?_)
    have := (refs_setReceiver_perm hq r').count_eq a
    simp only [F, r', ChunkReceiverData.refs, ChunkQueueData.items, refs_with_mm,
      List.count_append] at this ⊢
    omega
  · exact (h.wellFormed.setReceiver (i := queue) (r := r') (h.wellFormed.receivers r hmem)).with_mm mm'

/-- `lostAChunk` only raises a flag. -/
theorem lostAChunk_delivered (h : Accounted E w) (queue : ℕ) :
    Delivered E w (lostAChunk w queue) := by
  unfold lostAChunk
  cases hget : w.receivers[queue]? with
  | none => exact ⟨h, SameParts.refl w, rfl, rfl⟩
  | some r =>
    obtain ⟨hq, rfl⟩ := List.getElem?_eq_some_iff.1 hget
    have hinv := h.wellFormed.receivers _ (List.getElem_mem hq)
    exact ⟨h.setReceiver_of_refs_eq hq rfl hinv, SameParts.setReceiver hq rfl, rfl, rfl⟩

/-- **The history replay of `tryAddQueue`** pushes chunks that senders hold, and keeps the
accounting. -/
theorem pushEach_delivered {queue : ℕ} (chunks : List ℕ) (h : Accounted E w)
    (hq : queue < w.receivers.length)
    (hchunks : ∀ c ∈ chunks, c ∈ w.senders.flatMap ChunkSenderData.refs) :
    ∃ w', pushEach w queue chunks = some w' ∧ Delivered E w w' := by
  refine Loop.foldlM_invariant (P := Delivered E w) (fun w₁ c hc h₁ ↦ ?_)
    ⟨h, SameParts.refl w, rfl, rfl⟩
  obtain ⟨w₂, pushed, hpush, h₂⟩ := pushToQueue_delivered c h₁.accounted
    (h₁.sameParts.length_receivers ▸ hq) (by rw [h₁.senders_eq]; simp [hchunks c hc])
  exact ⟨w₂, by simp [hpush], h₁.trans h₂⟩

/-- Registering other existing queues keeps the accounting. -/
theorem accounted_setQueues {s : ℕ} (h : Accounted E w) (hs : s < w.senders.length)
    (queues : List ℕ) (hq : ∀ q ∈ queues, q < w.receivers.length) :
    Accounted E (w.setSender s { w.senders[s] with queues }) ∧
      SameParts w (w.setSender s { w.senders[s] with queues }) :=
  ⟨h.setSender_of_refs_eq hs rfl (h.wellFormed.senders w.senders[s] (List.getElem_mem hs)) hq,
    SameParts.setSender hs rfl⟩

/-- **`tryAddQueue` keeps the accounting** and does not fail for an existing sender and queue. -/
theorem tryAddQueue_accounted {s queueToAdd : ℕ} (h : Accounted E w) (hs : s < w.senders.length)
    (hq : queueToAdd < w.receivers.length) (requestedHistory : ℕ) :
    ∃ w' result, tryAddQueue w s queueToAdd requestedHistory = some (w', result) ∧
      Accounted E w' ∧ SameParts w w' ∧ w'.handles = w.handles := by
  have hsget : w.senders[s]? = some w.senders[s] := List.getElem?_eq_getElem hs
  have hqget : w.receivers[queueToAdd]? = some w.receivers[queueToAdd] :=
    List.getElem?_eq_getElem hq
  by_cases hknown : queueToAdd ∈ w.senders[s].queues
  · exact ⟨w, .ok (), by simp [tryAddQueue, hsget, hqget, hknown], h, SameParts.refl w, rfl⟩
  by_cases hroom : w.senders[s].queues.length < w.senders[s].maxQueues
  · -- the queue is registered, then pushed the end of the history, which the sender holds
    obtain ⟨h₁, hp₁⟩ := accounted_setQueues h hs (w.senders[s].queues ++ [queueToAdd])
      (by simpa [or_imp, forall_and, hq] using h.wellFormed.queues_lt _ (List.getElem_mem hs))
    obtain ⟨w₂, hpush, h₂⟩ := pushEach_delivered (w.senders[s].history.drop
        (if requestedHistory ≤ w.senders[s].history.length then
          w.senders[s].history.length - requestedHistory else 0)) h₁ (by simpa using hq)
      (fun c hc ↦ List.mem_flatMap.2 ⟨_, List.mem_set hs _,
        by simp [ChunkSenderData.refs, List.mem_of_mem_drop hc]⟩)
    exact ⟨w₂, .ok (), by simp [tryAddQueue, hsget, hqget, hknown, hroom, hpush], h₂.accounted,
      hp₁.trans h₂.sameParts, h₂.handles_eq⟩
  · exact ⟨w, .error .queueContainerOverflow, by simp [tryAddQueue, hsget, hqget, hknown, hroom],
      h, SameParts.refl w, rfl⟩

/-- **`tryRemoveQueue` keeps the accounting**: it only unregisters. -/
theorem tryRemoveQueue_accounted {s queueToRemove : ℕ} (h : Accounted E w)
    (hs : s < w.senders.length) :
    ∃ w' result, tryRemoveQueue w s queueToRemove = some (w', result) ∧
      Accounted E w' ∧ SameParts w w' ∧ w'.handles = w.handles := by
  have hsget : w.senders[s]? = some w.senders[s] := List.getElem?_eq_getElem hs
  by_cases hknown : queueToRemove ∈ w.senders[s].queues
  · obtain ⟨h₁, hp₁⟩ := accounted_setQueues h hs (w.senders[s].queues.erase queueToRemove)
      fun q hq ↦ h.wellFormed.queues_lt _ (List.getElem_mem hs) q (List.mem_of_mem_erase hq)
    exact ⟨_, .ok (), by simp [tryRemoveQueue, hsget, hknown], h₁, hp₁, rfl⟩
  · exact ⟨w, .error .queueNotInContainer, by simp [tryRemoveQueue, hsget, hknown], h,
      SameParts.refl w, rfl⟩

/-- **`removeAllQueues` keeps the accounting**. -/
theorem removeAllQueues_accounted {s : ℕ} (h : Accounted E w) (hs : s < w.senders.length) :
    ∃ w', removeAllQueues w s = some w' ∧ Accounted E w' ∧ SameParts w w' ∧
      w'.handles = w.handles := by
  obtain ⟨h₁, hp₁⟩ := accounted_setQueues h hs [] (by simp)
  exact ⟨_, by simp [removeAllQueues, List.getElem?_eq_getElem hs], h₁, hp₁, rfl⟩

/-- **`clearHistory` releases the history** without failing. -/
theorem clearHistory_accounted {s : ℕ} (h : Accounted E w) (hs : s < w.senders.length) :
    ∃ w', clearHistory w s = some w' ∧ Accounted E w' ∧ SameParts w w' ∧
      w'.handles = w.handles := by
  have hsget : w.senders[s]? = some w.senders[s] := List.getElem?_eq_getElem hs
  have hperm := refs_perm_sender hs
  have hinv := h.wellFormed.senders _ (List.getElem_mem hs)
  have hq := h.wellFormed.queues_lt _ (List.getElem_mem hs)
  have hparts := SameParts.setSender (s := { w.senders[s] with history := [] }) hs rfl
  generalize w.senders[s] = d at hsget hperm hinv hq hparts
  -- the history entries are dropped one after another
  have hown : MemoryManager.Owns w.mm (d.history ++
      (E ++ w.refsOutsideSender s ++ ({ d with history := [] } : ChunkSenderData).refs)) :=
    h.owns.perm (List.perm_iff_count.2 fun a ↦ by
      have := hperm.count_eq a
      simp only [ChunkSenderData.refs, List.count_append, List.count_nil] at this ⊢
      omega)
  obtain ⟨mm', hdec, hown'⟩ := hown.decrementEach
  have hw : MemoryManager.Owns mm' (E ++ (w.setSender s { d with history := [] }).refs) :=
    owns_setSender hs hown'
  exact ⟨{ w.setSender s { d with history := [] } with mm := mm' },
    by simp [clearHistory, hsget, hdec],
    ⟨hw, (h.wellFormed.setSender (i := s) (s := { d with history := [] }) hinv hq).with_mm mm'⟩,
    hparts.trans (SameParts.with_mm mm'), rfl⟩

/-- Appending a chunk that a local holds to a sender's history is one more reference. -/
theorem owns_append_history {mm : MemoryManager} {X H : List ℕ} {d : ChunkSenderData}
    {chunk : ℕ} (hchunk : chunk ∈ E)
    (h : MemoryManager.Owns mm (E ++ X ++ ({ d with history := H } : ChunkSenderData).refs)) :
    MemoryManager.Owns (mm.incrementReferenceCounter chunk)
      (E ++ X ++ ({ d with history := H ++ [chunk] } : ChunkSenderData).refs) :=
  (h.increment (by simp [hchunk])).perm (List.perm_iff_count.2 fun a ↦ by
    simp only [ChunkSenderData.refs, List.count_append, List.count_cons, List.count_nil]
    omega)

/-- **`addToHistoryWithoutDelivery` keeps the accounting**: the oldest entry of a full history
is dropped, and the chunk, which a local holds, gains the entry's reference. -/
theorem addToHistoryWithoutDelivery_accounted {s chunk : ℕ} (h : Accounted E w)
    (hs : s < w.senders.length) (hchunk : chunk ∈ E) :
    ∃ w', addToHistoryWithoutDelivery w s chunk = some w' ∧ Accounted E w' ∧ SameParts w w' ∧
      w'.receivers = w.receivers ∧ w'.handles = w.handles := by
  have hsget : w.senders[s]? = some w.senders[s] := List.getElem?_eq_getElem hs
  have hperm := refs_perm_sender hs
  have hinv := h.wellFormed.senders _ (List.getElem_mem hs)
  have hq := h.wellFormed.queues_lt _ (List.getElem_mem hs)
  have hparts : ∀ H, SameParts w (w.setSender s { w.senders[s] with history := H }) :=
    fun _ ↦ SameParts.setSender hs rfl
  generalize w.senders[s] = d at hsget hperm hinv hq hparts
  have hown : MemoryManager.Owns w.mm (E ++ w.refsOutsideSender s ++ d.refs) :=
    h.owns.perm (List.perm_iff_count.2 fun a ↦ by
      have := hperm.count_eq a
      simp only [List.count_append] at this ⊢
      omega)
  -- the world once the history is `H ++ [chunk]`, from a memory manager accounting for `H`
  have hfinish : ∀ (mm₁ : MemoryManager) (H : List ℕ),
      MemoryManager.Owns mm₁ (E ++ w.refsOutsideSender s ++
        ({ d with history := H } : ChunkSenderData).refs) →
      Accounted E { w.setSender s { d with history := H ++ [chunk] } with
        mm := mm₁.incrementReferenceCounter chunk } ∧
      SameParts w { w.setSender s { d with history := H ++ [chunk] } with
        mm := mm₁.incrementReferenceCounter chunk } := fun mm₁ H hown₁ ↦
    ⟨⟨owns_setSender hs (owns_append_history hchunk hown₁),
      (h.wellFormed.setSender (i := s) (s := { d with history := H ++ [chunk] }) hinv hq).with_mm _⟩,
      (hparts _).trans (SameParts.with_mm _)⟩
  unfold addToHistoryWithoutDelivery
  simp only [hsget, Option.bind_eq_bind, Option.bind_some]
  split_ifs with hcap hfull
  · -- a full history drops its oldest entry first
    cases hhist : d.history with
    | nil =>
      have hown₁ : MemoryManager.Owns w.mm (E ++ w.refsOutsideSender s ++
          ({ d with history := [] } : ChunkSenderData).refs) := by
        rw [← hhist]
        exact hown
      exact ⟨_, rfl, (hfinish _ _ hown₁).1, (hfinish _ _ hown₁).2, rfl, rfl⟩
    | cons chunkToRemove history =>
      have hown₀ : MemoryManager.Owns w.mm (chunkToRemove :: (E ++ w.refsOutsideSender s ++
          ({ d with history := history } : ChunkSenderData).refs)) :=
        hown.perm (List.perm_iff_count.2 fun a ↦ by
          simp only [ChunkSenderData.refs, hhist, List.count_append, List.count_cons]
          omega)
      obtain ⟨mm₁, hdec, hown₁⟩ := hown₀.decrement
      exact ⟨_, by simp [hdec], (hfinish _ _ hown₁).1, (hfinish _ _ hown₁).2, rfl, rfl⟩
  · exact ⟨_, rfl, (hfinish _ _ hown).1, (hfinish _ _ hown).2, rfl, rfl⟩
  · exact ⟨w, rfl, h, SameParts.refl w, rfl, rfl⟩

/-! ### Busy waits -/

/-- Queue `q` of `w` asks its producer to block: its `m_queueFullPolicy` is `BLOCK_PRODUCER`. -/
def BlocksProducer (w : World) (q : ℕ) : Prop :=
  ∃ r ∈ w.receivers[q]?, r.queueFullPolicy = .blockProducer

/-- Sender `s` of `w` may wait for a consumer: it waits for consumers, and one of its queues
blocks it. -/
def MayWait (w : World) (s : ℕ) : Prop :=
  ∃ d ∈ w.senders[s]?, d.consumerTooSlowPolicy = .waitForConsumer ∧ ∃ q ∈ d.queues, BlocksProducer w q

theorem blocksProducer_of_sameParts {w' : World} {q : ℕ} (h : SameParts w w')
    (hb : BlocksProducer w' q) : BlocksProducer w q := by
  obtain ⟨r', hr', hpol⟩ := hb
  have hc := h.receiver_constants q
  rw [Option.mem_def.1 hr'] at hc
  cases hr : w.receivers[q]? with
  | none => simp [hr] at hc
  | some r =>
    rw [hr, Option.map_some, Option.map_some, Option.some_inj] at hc
    exact ⟨r, hr, by simpa [ChunkReceiverData.constants, hpol] using (congrArg (·.2.1) hc).symm⟩

/-- Whether a sender may wait depends only on the distributors and on what the receivers' constructors fixed. -/
theorem mayWait_of_eq {w' : World} {s : ℕ}
    (hd : w'.senders.map ChunkSenderData.toChunkDistributorData =
      w.senders.map ChunkSenderData.toChunkDistributorData)
    (hr : SameParts w w') (h : MayWait w' s) : MayWait w s := by
  obtain ⟨d', hd', hwait, q, hq, hb⟩ := h
  have hget := congrArg (·[s]?) hd
  simp only [List.getElem?_map, Option.mem_def.1 hd'] at hget
  cases hs : w.senders[s]? with
  | none => simp [hs] at hget
  | some d =>
    simp only [hs, Option.map_some, Option.some.injEq] at hget
    refine ⟨d, hs, ?_, q, ?_, blocksProducer_of_sameParts hr hb⟩
    · rw [← hwait, ← congrArg ChunkDistributorData.consumerTooSlowPolicy hget]
    · rw [← congrArg ChunkDistributorData.queues hget]
      exact hq

/-- **The first delivery block keeps the accounting**, and a queue it leaves awaiting delivery is
one of the sender's queues that blocks a sender waiting for consumers. -/
theorem deliverToStoredQueues_delivered {s chunk : ℕ} (h : Accounted E w)
    (hs : s < w.senders.length) (hchunk : chunk ∈ E) :
    ∃ w' n full, deliverToStoredQueues w s chunk = some (w', n, full) ∧ Delivered E w w' ∧
      ∀ q ∈ full, q ∈ w.senders[s].queues ∧
        w.senders[s].consumerTooSlowPolicy = .waitForConsumer ∧ BlocksProducer w q := by
  have hsget : w.senders[s]? = some w.senders[s] := List.getElem?_eq_getElem hs
  have hqs := h.wellFormed.queues_lt _ (List.getElem_mem hs)
  -- the invariant of the loop over the stored queues
  let P : World × ℕ × List ℕ → Prop := fun acc ↦ Delivered E w acc.1 ∧
    ∀ q ∈ acc.2.2, q ∈ w.senders[s].queues ∧
      w.senders[s].consumerTooSlowPolicy = .waitForConsumer ∧ BlocksProducer w q
  have hstep : ∀ acc queue, queue ∈ w.senders[s].queues → P acc → ∃ acc',
      deliverStep (w.senders[s].consumerTooSlowPolicy == .waitForConsumer) chunk acc queue =
        some acc' ∧ P acc' := by
    rintro ⟨w₁, n, full⟩ queue hqueue ⟨hd, hfull⟩
    dsimp only at hd hfull
    have hq : queue < w₁.receivers.length := hd.sameParts.length_receivers ▸ hqs queue hqueue
    have hrget : w₁.receivers[queue]? = some w₁.receivers[queue] := List.getElem?_eq_getElem hq
    obtain ⟨w₂, pushed, hpush, hd₂⟩ := pushToQueue_delivered chunk hd.accounted hq
      (by simp [hchunk])
    have hd' := hd.trans hd₂
    by_cases hpushed : pushed = true
    · subst hpushed
      exact ⟨(w₂, n + 1, full), by simp [deliverStep, hrget, hpush], hd', hfull⟩
    by_cases hblock : w.senders[s].consumerTooSlowPolicy = .waitForConsumer ∧
        w₁.receivers[queue].queueFullPolicy = .blockProducer
    · -- a blocking queue awaits a retry
      refine ⟨(w₂, n, full ++ [queue]), by simp [deliverStep, hrget, hpush, hpushed, hblock], hd',
        fun q hq' ↦ ?_⟩
      rcases List.mem_append.1 hq' with hq' | hq'
      · exact hfull q hq'
      · rw [List.mem_singleton.1 hq']
        exact ⟨hqueue, hblock.1, blocksProducer_of_sameParts hd.sameParts
          ⟨_, hrget, hblock.2⟩⟩
    · -- any other full queue has lost the chunk
      exact ⟨(lostAChunk w₂ queue, n + 1, full), by simp [deliverStep, hrget, hpush, hpushed, hblock],
        hd'.trans (lostAChunk_delivered hd'.accounted queue), hfull⟩
  obtain ⟨acc, hacc, hP⟩ := Loop.foldlM_invariant hstep (s := (w, 0, []))
    ⟨⟨h, SameParts.refl w, rfl, rfl⟩, by simp⟩
  exact ⟨acc.1, acc.2.1, acc.2.2, by simp [deliverToStoredQueues, hsget, hacc], hP⟩

/-- **A retry block keeps the accounting**: sorting the stored queues changes no reference, and
the queues still awaiting delivery are stored queues. -/
theorem retryBlock_accounted {s chunk : ℕ} (n : ℕ) (full : List ℕ) (h : Accounted E w)
    (hs : s < w.senders.length) (hchunk : chunk ∈ E) :
    ∃ acc, retryBlock w s chunk n full = some acc ∧ Accounted E acc.1 ∧ SameParts w acc.1 ∧
      acc.1.handles = w.handles := by
  have hsget : w.senders[s]? = some w.senders[s] := List.getElem?_eq_getElem hs
  have hsorted : ∀ q ∈ w.senders[s].queues.mergeSort greaterThan, q < w.receivers.length :=
    fun q hq ↦ h.wellFormed.queues_lt _ (List.getElem_mem hs) q (List.mem_mergeSort.1 hq)
  obtain ⟨h₁, hp₁⟩ := accounted_setQueues h hs _ hsorted
  -- the queues retried are stored, so they exist
  have hstep : ∀ acc queue, queue ∈ (w.senders[s].queues.mergeSort greaterThan).filter
        (· ∈ full.mergeSort greaterThan) →
      Delivered E (w.setSender s { w.senders[s] with
        queues := w.senders[s].queues.mergeSort greaterThan }) acc.1 →
      ∃ acc', retryStep chunk acc queue = some acc' ∧
        Delivered E (w.setSender s { w.senders[s] with
          queues := w.senders[s].queues.mergeSort greaterThan }) acc'.1 := by
    rintro ⟨w₂, n₂, full₂⟩ queue hqueue hd
    dsimp only at hd
    have hq : queue < w₂.receivers.length := by
      rw [hd.sameParts.length_receivers]
      exact hsorted queue (List.mem_of_mem_filter hqueue)
    obtain ⟨w₃, pushed, hpush, hd₃⟩ := pushToQueue_delivered chunk hd.accounted hq
      (by simp [hchunk])
    cases pushed
    · exact ⟨(w₃, n₂, full₂ ++ [queue]), by simp [retryStep, hpush], hd.trans hd₃⟩
    · exact ⟨(w₃, n₂ + 1, full₂), by simp [retryStep, hpush], hd.trans hd₃⟩
  obtain ⟨acc, hacc, hP⟩ := Loop.foldlM_invariant hstep (s := (_, n, []))
    ⟨h₁, SameParts.refl _, rfl, rfl⟩
  refine ⟨acc, ?_, hP.accounted, hp₁.trans hP.sameParts, hP.handles_eq⟩
  simp only [retryBlock, hsget, Option.bind_eq_bind, Option.bind_some]
  exact hacc

/-- **`deliverToAllStoredQueues` keeps the accounting** and adds the chunk to the history; it
fails only by waiting for a consumer, and only a sender that may wait does. -/
theorem deliverToAllStoredQueues_accounted {s chunk : ℕ} (retries : ℕ) (h : Accounted E w)
    (hs : s < w.senders.length) (hchunk : chunk ∈ E) :
    (∀ w' n, deliverToAllStoredQueues retries w s chunk = some (w', n) →
      Accounted E w' ∧ SameParts w w' ∧ w'.handles = w.handles) ∧
    (deliverToAllStoredQueues retries w s chunk = none → MayWait w s) := by
  obtain ⟨w₁, n₁, full₁, hfirst, hd₁, hfull₁⟩ := deliverToStoredQueues_delivered h hs hchunk
  -- the worlds the retry loop passes through
  let P : World × ℕ × List ℕ → Prop := fun acc ↦
    Accounted E acc.1 ∧ SameParts w acc.1 ∧ acc.1.handles = w.handles
  let Q : Option (World × ℕ) → Prop := fun r ↦ ∀ x ∈ r, P (x.1, x.2, [])
  have hbody : ∀ acc, P acc → (∀ acc', retryPass s chunk acc = .inl acc' → P acc') ∧
      ∀ r, retryPass s chunk acc = .inr r → Q r := by
    rintro ⟨w₂, n₂, full₂⟩ ⟨h₂, hp₂, hh₂⟩
    have hs₂ : s < w₂.senders.length := hp₂.length_senders ▸ hs
    obtain ⟨acc, hretry, h₃, hp₃, hh₃⟩ := retryBlock_accounted n₂ full₂ h₂ hs₂ hchunk
    unfold retryPass
    split_ifs with hempty
    · refine ⟨fun _ h ↦ (by cases h), fun r hr ↦ ?_⟩
      cases hr
      exact fun x hx ↦ by cases hx; exact ⟨h₂, hp₂, hh₂⟩
    · simp only [hretry]
      refine ⟨fun acc' hacc ↦ ?_, fun r hr ↦ by cases hr⟩
      cases hacc
      exact ⟨h₃, hp₂.trans hp₃, hh₃.trans hh₂⟩
  have hloop : ∀ r, Loop.iterate (retryPass s chunk) (retries + 1) (w₁, n₁, full₁) = some r →
      Q r := fun _ ↦
    Loop.iterate_invariant hbody (retries + 1) ⟨hd₁.accounted, hd₁.sameParts, hd₁.handles_eq⟩
  constructor
  · intro w' n hdeliver
    simp only [deliverToAllStoredQueues, hfirst, Option.bind_eq_bind, Option.bind_some] at hdeliver
    obtain ⟨⟨w₂, n₂⟩, hiter, hhist⟩ := Option.bind_eq_some_iff.1 hdeliver
    obtain ⟨h₂, hp₂, hh₂⟩ := hloop _ (Option.join_eq_some_iff.1 hiter) (w₂, n₂) rfl
    obtain ⟨w₃, hadd, h₃, hp₃, -, hh₃⟩ :=
      addToHistoryWithoutDelivery_accounted h₂ (hp₂.length_senders ▸ hs) hchunk
    simp only [hadd, Option.bind_some] at hhist
    obtain ⟨rfl, -⟩ := hhist
    exact ⟨h₃, hp₂.trans hp₃, hh₃.trans hh₂⟩
  · intro hnone
    -- with no queue awaiting delivery the loop leaves at once
    by_cases hempty : full₁ = []
    · subst hempty
      obtain ⟨w₃, hadd, -⟩ := addToHistoryWithoutDelivery_accounted hd₁.accounted
        (hd₁.sameParts.length_senders ▸ hs) hchunk
      have hiter : Loop.iterate (retryPass s chunk) (retries + 1) (w₁, n₁, []) =
          some (some (w₁, n₁)) :=
        Loop.iterate_succ_of_inr (by simp [retryPass]) retries
      simp [deliverToAllStoredQueues, hfirst, hiter, hadd] at hnone
    · obtain ⟨q, hq⟩ := List.exists_mem_of_ne_nil full₁ hempty
      obtain ⟨hqueue, hwait, hblock⟩ := hfull₁ q hq
      exact ⟨_, List.getElem?_eq_getElem hs, hwait, q, hqueue, hblock⟩

/-- **One pass of `deliverToQueue`** keeps the accounting; it goes round again only for a sender
that may wait. -/
theorem deliverToQueuePass_cases {s chunk : ℕ} (uniqueQueueId lastKnownQueueIndex : ℕ)
    (h : Accounted E w) (hs : s < w.senders.length) (hchunk : chunk ∈ E) :
    (∃ w', deliverToQueuePass s uniqueQueueId lastKnownQueueIndex chunk w = .inl w' ∧
      Delivered E w w' ∧ MayWait w s) ∨
    (∃ x, deliverToQueuePass s uniqueQueueId lastKnownQueueIndex chunk w = .inr (some x) ∧
      Delivered E w x.1) := by
  have hsget : w.senders[s]? = some w.senders[s] := List.getElem?_eq_getElem hs
  unfold deliverToQueuePass
  rw [hsget]
  dsimp only
  cases hfind : (getQueueIndex w w.senders[s].queues uniqueQueueId lastKnownQueueIndex).bind
      (w.senders[s].queues[·]?) with
  | none => exact Or.inr ⟨_, rfl, ⟨h, SameParts.refl w, rfl, rfl⟩⟩
  | some queue =>
    -- the queue found is stored, so it exists
    obtain ⟨i, -, hi⟩ := Option.bind_eq_some_iff.1 hfind
    have hqueue : queue ∈ w.senders[s].queues := List.mem_of_getElem? hi
    have hq := h.wellFormed.queues_lt _ (List.getElem_mem hs) queue hqueue
    have hrget : w.receivers[queue]? = some w.receivers[queue] := List.getElem?_eq_getElem hq
    obtain ⟨w', pushed, hpush, hd⟩ := pushToQueue_delivered chunk h hq (by simp [hchunk])
    simp only [hrget, hpush]
    by_cases hpushed : pushed = true
    · exact Or.inr ⟨(w', .ok ()), by simp [hpushed], hd⟩
    by_cases hblock : w.senders[s].consumerTooSlowPolicy = .waitForConsumer ∧
        w.receivers[queue].queueFullPolicy = .blockProducer
    · exact Or.inl ⟨w', by simp [hpushed, hblock], hd,
        ⟨_, hsget, hblock.1, queue, hqueue, _, hrget, hblock.2⟩⟩
    · exact Or.inr ⟨(lostAChunk w' queue, .ok ()), by simp [hpushed, hblock],
        hd.trans (lostAChunk_delivered hd.accounted queue)⟩

/-- **`deliverToQueue` keeps the accounting**, and fails only by waiting for a consumer, for a
sender that may wait. -/
theorem deliverToQueue_accounted {s chunk : ℕ} (retries uniqueQueueId lastKnownQueueIndex : ℕ)
    (h : Accounted E w) (hs : s < w.senders.length) (hchunk : chunk ∈ E) :
    (∀ w' result,
      deliverToQueue retries w s uniqueQueueId lastKnownQueueIndex chunk = some (w', result) →
        Delivered E w w') ∧
    (deliverToQueue retries w s uniqueQueueId lastKnownQueueIndex chunk = none → MayWait w s) := by
  let Q : Option (World × Except ChunkDistributorError Unit) → Prop :=
    fun r ↦ ∀ x ∈ r, Delivered E w x.1
  have hbody : ∀ w', Delivered E w w' →
      (∀ w'', deliverToQueuePass s uniqueQueueId lastKnownQueueIndex chunk w' = .inl w'' →
        Delivered E w w'') ∧
      ∀ r, deliverToQueuePass s uniqueQueueId lastKnownQueueIndex chunk w' = .inr r → Q r := by
    intro w' hd
    have hs' : s < w'.senders.length := by rw [hd.senders_eq]; exact hs
    rcases deliverToQueuePass_cases uniqueQueueId lastKnownQueueIndex hd.accounted hs' hchunk with
      ⟨w'', hpass, hd', -⟩ | ⟨x, hpass, hd'⟩
    · rw [hpass]
      refine ⟨fun _ he ↦ ?_, fun _ he ↦ (by cases he)⟩
      cases he
      exact hd.trans hd'
    · rw [hpass]
      refine ⟨fun _ he ↦ (by cases he), fun _ he ↦ ?_⟩
      cases he
      intro y hy
      cases hy
      exact hd.trans hd'
  constructor
  · intro w' result hdeliver
    exact Loop.iterate_invariant hbody (retries + 1) ⟨h, SameParts.refl w, rfl, rfl⟩
      (Option.join_eq_some_iff.1 hdeliver) _ rfl
  · intro hnone
    rcases deliverToQueuePass_cases uniqueQueueId lastKnownQueueIndex h hs hchunk with
      ⟨w', -, -, hwait⟩ | ⟨x, hpass, -⟩
    · exact hwait
    · simp [deliverToQueue, Loop.iterate_succ_of_inr hpass] at hnone

end ChunkDistributor

end Iox.Popo
