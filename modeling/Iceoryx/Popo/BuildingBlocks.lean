import Iceoryx.Mepoo.Configure
import Iceoryx.Popo.ChunkSender
import Iceoryx.Popo.ChunkReceiver

/-!
# Runs of the building blocks

The building blocks of publish/subscribe, the `ChunkSender`s with their `ChunkDistributor`s and
the `ChunkReceiver`s with their `ChunkQueuePopper`s, share the `MemoryManager` that RouDi
configured. A run is a sequence of calls on any of them, one after another (`Op`, `step`), from
the world that their constructors leave (`World.new`): empty used lists, histories and queues,
and no chunk handed out.

## The model

A call names its sender or receiver by position, as the functions of the building blocks do.
Besides those calls, a user who holds a `SharedChunk` can push it to a queue with a
`ChunkQueuePusher`, and can let it go out of scope. The `SharedChunk`s that users hold are the
world's handles: `tryPop` on a receiver's queue adds one, and a call that names a handle the user
does not hold does nothing. What a call returns is not part of the run; what `tryAllocate`
returns is read at every world a run reaches.

## What is proved

Each step is assembled from the accounting lemmas of the building blocks (`step_spec`): a step
keeps `World.Accounted`, the reference accounting of the world, and the parts of the world, and a
step on existing parts returns unless it is a `send` or a `sendToQueue` whose sender waits for a
consumer that one of its queues blocks. By induction on the run (`run_accounted`), every world a
run reaches is accounted for, and so in every one of them

* **every reference counter is the number of holders** of its chunk, and the free lists of the
  mempools and of the management pool hold exactly the chunks that nobody holds, each once
  (`MemoryManager.Owns`);
* **no step stops but to wait**: in particular no chunk is freed twice, which would end the run
  (`run_stops_only_to_wait`);
* **a chunk that `tryAllocate` hands out is its sender's alone**: no queue, history, receiver or
  user holds it (`ChunkSender.NoOtherHolder`), so reusing the last chunk never rewrites one that
  a receiver reads.
-/

namespace Iox.Popo

open Iox.Mepoo

/-! ### Construction -/

/-- The arguments of a `ChunkSenderData`'s constructor, and what its type fixes. -/
structure SenderArgs where
  /-- `MAX_QUEUES`. -/
  maxQueues : ℕ
  /-- `MAX_HISTORY_CAPACITY`. -/
  maxHistoryCapacity : ℕ
  /-- `MaxChunksAllocatedSimultaneously`, the capacity of `m_chunksInUse`. -/
  maxChunksAllocatedSimultaneously : ℕ
  /-- The `static_assert` of `UsedChunkList`. -/
  maxChunksAllocatedSimultaneously_pos : 0 < maxChunksAllocatedSimultaneously
  /-- `consumerTooSlowPolicy`. -/
  consumerTooSlowPolicy : ConsumerTooSlowPolicy
  /-- `historyCapacity`. -/
  historyCapacity : ℕ

/-- `ChunkSenderData(memoryManager, consumerTooSlowPolicy, historyCapacity, memoryInfo)`: the
history capacity is cut to `MAX_HISTORY_CAPACITY`, and everything else starts empty. -/
def ChunkSenderData.new (a : SenderArgs) : ChunkSenderData where
  historyCapacity := min a.historyCapacity a.maxHistoryCapacity
  queues := []
  maxQueues := a.maxQueues
  history := []
  consumerTooSlowPolicy := a.consumerTooSlowPolicy
  chunksInUse := UsedChunkList.init a.maxChunksAllocatedSimultaneously
  sequenceNumber := 0
  lastChunkUnmanaged := none

/-- The arguments of a `ChunkReceiverData`'s constructor, what its type fixes, and the
`m_uniqueId` that its queue draws. -/
structure ReceiverArgs where
  /-- `m_uniqueId`. -/
  uniqueId : ℕ
  /-- The capacity of `m_queue`. -/
  capacity : ℕ
  /-- `MaxChunksHeldSimultaneously`, the capacity of `m_chunksInUse`. -/
  maxChunksHeldSimultaneously : ℕ
  /-- The `static_assert` of `UsedChunkList`. -/
  maxChunksHeldSimultaneously_pos : 0 < maxChunksHeldSimultaneously
  /-- `queueType`. -/
  queueType : VariantQueueTypes
  /-- `queueFullPolicy`. -/
  queueFullPolicy : QueueFullPolicy

/-- `ChunkReceiverData(queueType, queueFullPolicy, memoryInfo)`: an empty queue of the given kind
and an empty used list. -/
def ChunkReceiverData.new (a : ReceiverArgs) : ChunkReceiverData where
  uniqueId := a.uniqueId
  queue := ⟨a.queueType, ⟨[], a.capacity⟩⟩
  queueHasLostChunks := false
  queueFullPolicy := a.queueFullPolicy
  chunksInUse := UsedChunkList.init a.maxChunksHeldSimultaneously

namespace World

/-- The building blocks as their constructors leave them, over one memory manager, with no chunk
in a user's hands. -/
def new (mm : MemoryManager) (senders : List SenderArgs) (receivers : List ReceiverArgs) :
    World where
  mm
  senders := senders.map ChunkSenderData.new
  receivers := receivers.map ChunkReceiverData.new
  handles := []

variable {E : List ℕ} {w : World}

/-- **A new world holds no reference**, so a memory manager that owns none accounts for it. -/
theorem accounted_new {mm : MemoryManager} (h : mm.Owns []) (senders : List SenderArgs)
    (receivers : List ReceiverArgs) : Accounted [] (new mm senders receivers) := by
  have hrefs : (new mm senders receivers).refs = [] := by
    simp [refs, new, ChunkSenderData.refs, ChunkSenderData.new, ChunkReceiverData.refs,
      ChunkReceiverData.new, ChunkQueueData.items]
  refine ⟨?_, ⟨?_, by simp [new, ChunkSenderData.new], ?_⟩⟩
  · rw [hrefs]
    exact h
  · simp only [new, List.mem_map]
    rintro _ ⟨a, -, rfl⟩
    exact UsedChunkList.inv_init a.maxChunksAllocatedSimultaneously_pos
  · simp only [new, List.mem_map]
    rintro _ ⟨a, -, rfl⟩
    exact UsedChunkList.inv_init a.maxChunksHeldSimultaneously_pos

/-- **A local that the caller keeps** becomes one of the users' handles. -/
theorem Accounted.keepHandles {chunks : List ℕ} (h : Accounted (E ++ chunks) w) :
    Accounted E { w with handles := w.handles ++ chunks } := by
  refine ⟨h.owns.perm (List.perm_iff_count.2 fun a ↦ ?_),
    ⟨h.wellFormed.senders, h.wellFormed.queues_lt, h.wellFormed.receivers⟩⟩
  simp only [refs, List.count_append]
  omega

/-- **A handle that its user lets go** becomes a local, to be dropped. -/
theorem Accounted.eraseHandle (h : Accounted E w) {i : ℕ} (hi : i < w.handles.length) :
    Accounted (E ++ [w.handles[i]]) { w with handles := w.handles.eraseIdx i } := by
  refine ⟨h.owns.perm (List.perm_iff_count.2 fun a ↦ ?_),
    ⟨h.wellFormed.senders, h.wellFormed.queues_lt, h.wellFormed.receivers⟩⟩
  have := (List.getElem_cons_eraseIdx_perm hi).count_eq a
  simp only [refs, List.count_append, List.count_cons, List.count_nil] at this ⊢
  omega

end World

namespace BuildingBlocks

/-! ### Runs -/

/-- A call on a sender: of its `ChunkSender`, or of its `ChunkDistributor`. -/
inductive SenderCall where
  | tryAllocate (originId : ℕ) (chunkSettingsResult : Option ℕ)
  | send (chunkHeader : ℕ × ℕ)
  | sendToQueue (chunkHeader : ℕ × ℕ) (uniqueQueueId lastKnownQueueIndex : ℕ)
  | pushToHistory (chunkHeader : ℕ × ℕ)
  | release (chunkHeader : ℕ × ℕ)
  | releaseAll
  | tryAddQueue (queueToAdd requestedHistory : ℕ)
  | tryRemoveQueue (queueToRemove : ℕ)
  | removeAllQueues
  | clearHistory
  deriving DecidableEq, Repr

/-- A call on a receiver: of its `ChunkReceiver`, or of its queue's `ChunkQueuePopper`. -/
inductive ReceiverCall where
  | tryPop
  | clear
  | tryGet
  | release (chunkHeader : ℕ × ℕ)
  | releaseAll
  deriving DecidableEq, Repr

/-- A step of a run: a call on sender `s` or on receiver `r`, or what a user does with a
`SharedChunk` it holds, the `handle`-th of the world's handles. -/
inductive Op where
  | sender (s : ℕ) (call : SenderCall)
  | receiver (r : ℕ) (call : ReceiverCall)
  /-- `ChunkQueuePusher(queue).push(chunk)` of a chunk that the user holds. -/
  | push (queue handle : ℕ)
  /-- The user's `SharedChunk` goes out of scope. -/
  | dropHandle (handle : ℕ)
  deriving DecidableEq, Repr

/-- A call on sender `s`, whose busy waits give up after `retries` retries. -/
def senderStep (retries : ℕ) (w : World) (s : ℕ) : SenderCall → Option World
  | .tryAllocate originId chunkSettingsResult =>
    (ChunkSender.tryAllocate w s originId chunkSettingsResult).map Prod.fst
  | .send chunkHeader => (ChunkSender.send retries w s chunkHeader).map Prod.fst
  | .sendToQueue chunkHeader uniqueQueueId lastKnownQueueIndex =>
    (ChunkSender.sendToQueue retries w s chunkHeader uniqueQueueId lastKnownQueueIndex).map
      Prod.fst
  | .pushToHistory chunkHeader => ChunkSender.pushToHistory w s chunkHeader
  | .release chunkHeader => ChunkSender.release w s chunkHeader
  | .releaseAll => ChunkSender.releaseAll w s
  | .tryAddQueue queueToAdd requestedHistory =>
    (ChunkDistributor.tryAddQueue w s queueToAdd requestedHistory).map Prod.fst
  | .tryRemoveQueue queueToRemove =>
    (ChunkDistributor.tryRemoveQueue w s queueToRemove).map Prod.fst
  | .removeAllQueues => ChunkDistributor.removeAllQueues w s
  | .clearHistory => ChunkDistributor.clearHistory w s

/-- A call on receiver `r`; the chunk that `tryPop` returns is the user's. -/
def receiverStep (w : World) (r : ℕ) : ReceiverCall → Option World
  | .tryPop =>
    (ChunkReceiver.tryPop w r).map fun (w, chunk) ↦ { w with handles := w.handles ++ chunk.toList }
  | .clear => ChunkReceiver.clear w r
  | .tryGet => (ChunkReceiver.tryGet w r).map Prod.fst
  | .release chunkHeader => ChunkReceiver.release w r chunkHeader
  | .releaseAll => ChunkReceiver.releaseAll w r

/-- One step of a run. A handle that the user does not hold is neither pushed nor dropped. -/
def step (retries : ℕ) (w : World) : Op → Option World
  | .sender s call => senderStep retries w s call
  | .receiver r call => receiverStep w r call
  | .push queue handle =>
    match w.handles[handle]? with
    | some chunk => (ChunkDistributor.pushToQueue w queue chunk).map Prod.fst
    | none => some w
  | .dropHandle handle =>
    match w.handles[handle]? with
    | some chunk => { w with handles := w.handles.eraseIdx handle }.dropLocal chunk
    | none => some w

/-- The queue that a call names, if any, exists. -/
def SenderCall.Valid (receivers : ℕ) : SenderCall → Bool
  | .tryAddQueue queueToAdd _ => queueToAdd < receivers
  | _ => true

/-- The call delivers a chunk to the sender's queues. -/
def SenderCall.delivers : SenderCall → Bool
  | .send _ | .sendToQueue .. => true
  | _ => false

/-- The parts that a step names exist, in a world of `senders` senders and `receivers`
receivers. -/
def Op.Valid (senders receivers : ℕ) : Op → Bool
  | .sender s call => s < senders && call.Valid receivers
  | .receiver r _ => r < receivers
  | .push queue _ => queue < receivers
  | .dropHandle _ => true

/-- The step is a delivery by a sender that may wait for a consumer. -/
def Op.Waits (w : World) : Op → Prop
  | .sender s call => call.delivers = true ∧ ChunkDistributor.MayWait w s
  | _ => False

/-! ### Steps -/

open World ChunkDistributor

/-- **What a step does** from a world accounted for with the locals `E`: when it returns, the
world it returns is accounted for with the same locals and has the same parts; when it does not,
`waits` holds. -/
structure StepSpec (E : List ℕ) (w : World) (r : Option World) (waits : Prop) : Prop where
  keeps : ∀ w', r = some w' → Accounted E w' ∧ SameParts w w'
  waits : r = none → waits

variable {retries : ℕ} {E : List ℕ} {w : World}

/-- A step that returns keeps the accounting and the parts. -/
theorem StepSpec.of_exists {r : Option World} {waits : Prop}
    (h : ∃ w', r = some w' ∧ Accounted E w' ∧ SameParts w w') : StepSpec E w r waits := by
  obtain ⟨w', rfl, hw'⟩ := h
  exact ⟨fun _ he ↦ Option.some_inj.1 he ▸ hw', fun he ↦ absurd he (Option.some_ne_none _)⟩

/-- A call that returns a result besides the world: its spec is that of the worlds it returns. -/
theorem StepSpec.of_map {β : Type*} {r : Option (World × β)} {waits : Prop}
    (hok : ∀ w' b, r = some (w', b) → Accounted E w' ∧ SameParts w w')
    (hwait : r = none → waits) : StepSpec E w (r.map Prod.fst) waits := by
  refine ⟨fun w' heq ↦ ?_, fun heq ↦ hwait (Option.map_eq_none_iff.1 heq)⟩
  obtain ⟨⟨w'', b⟩, hr, rfl⟩ := Option.map_eq_some_iff.1 heq
  exact hok w'' b hr

/-- **A call on an existing sender** keeps the accounting, and stops only in a delivery that may
wait for a consumer. -/
theorem senderStep_spec (h : Accounted E w) {s : ℕ} (hs : s < w.senders.length)
    (call : SenderCall) (hcall : call.Valid w.receivers.length = true) :
    StepSpec E w (senderStep retries w s call) (call.delivers = true ∧ MayWait w s) := by
  cases call with
  | tryAllocate originId chunkSettingsResult =>
    obtain ⟨w', r, heq, hacc, hparts, -⟩ :=
      @ChunkSender.tryAllocate_accounted _ _ _ originId chunkSettingsResult h hs
    exact .of_exists ⟨w', by simp [senderStep, heq], hacc, hparts⟩
  | send chunkHeader =>
    -- a delivery is the one call that may not return
    obtain ⟨hok, hwait⟩ := @ChunkSender.send_accounted _ _ _ retries chunkHeader h hs
    exact .of_map (fun w' n hsend ↦ ⟨(hok w' n hsend).1, (hok w' n hsend).2.1⟩)
      fun hnone ↦ ⟨rfl, hwait hnone⟩
  | sendToQueue chunkHeader uniqueQueueId lastKnownQueueIndex =>
    obtain ⟨hok, hwait⟩ := @ChunkSender.sendToQueue_accounted _ _ _ retries chunkHeader
      uniqueQueueId lastKnownQueueIndex h hs
    exact .of_map (fun w' b hsend ↦ ⟨(hok w' b hsend).1, (hok w' b hsend).2.1⟩)
      fun hnone ↦ ⟨rfl, hwait hnone⟩
  | pushToHistory chunkHeader =>
    obtain ⟨w', heq, hacc, hparts, -⟩ :=
      @ChunkSender.pushToHistory_accounted _ _ _ chunkHeader h hs
    exact .of_exists ⟨w', heq, hacc, hparts⟩
  | release chunkHeader =>
    obtain ⟨w', heq, hacc, hparts, -⟩ := @ChunkSender.release_accounted _ _ _ chunkHeader h hs
    exact .of_exists ⟨w', heq, hacc, hparts⟩
  | releaseAll =>
    obtain ⟨w', heq, hacc, hparts, -⟩ := ChunkSender.releaseAll_accounted h hs
    exact .of_exists ⟨w', heq, hacc, hparts⟩
  | tryAddQueue queueToAdd requestedHistory =>
    obtain ⟨w', r, heq, hacc, hparts, -⟩ := tryAddQueue_accounted h hs
      (by simpa [SenderCall.Valid] using hcall) requestedHistory
    exact .of_exists ⟨w', by simp [senderStep, heq], hacc, hparts⟩
  | tryRemoveQueue queueToRemove =>
    obtain ⟨w', r, heq, hacc, hparts, -⟩ := @tryRemoveQueue_accounted _ _ _ queueToRemove h hs
    exact .of_exists ⟨w', by simp [senderStep, heq], hacc, hparts⟩
  | removeAllQueues =>
    obtain ⟨w', heq, hacc, hparts, -⟩ := removeAllQueues_accounted h hs
    exact .of_exists ⟨w', heq, hacc, hparts⟩
  | clearHistory =>
    obtain ⟨w', heq, hacc, hparts, -⟩ := clearHistory_accounted h hs
    exact .of_exists ⟨w', heq, hacc, hparts⟩

/-- A call on a sender, or on a queue, that does not exist does not return. -/
theorem senderStep_of_not_valid {s : ℕ} {call : SenderCall}
    (hvalid : ¬(s < w.senders.length ∧ call.Valid w.receivers.length = true)) :
    senderStep retries w s call = none := by
  by_cases hs : s < w.senders.length
  · -- only `tryAddQueue` names a queue
    cases call with
    | tryAddQueue queueToAdd requestedHistory =>
      have hq : w.receivers.length ≤ queueToAdd := by simpa [SenderCall.Valid, hs] using hvalid
      simp [senderStep, tryAddQueue, List.getElem?_eq_none hq]
    | _ => simp [SenderCall.Valid, hs] at hvalid
  · have hnone : w.senders[s]? = none := List.getElem?_eq_none (not_lt.1 hs)
    cases call <;>
      simp [senderStep, ChunkSender.tryAllocate, ChunkSender.send, ChunkSender.sendToQueue,
        ChunkSender.pushToHistory, ChunkSender.getChunkReadyForSend, ChunkSender.release,
        ChunkSender.releaseAll, tryAddQueue, tryRemoveQueue, removeAllQueues, clearHistory, hnone]

/-- **A call on an existing receiver** keeps the accounting and returns. -/
theorem receiverStep_spec (h : Accounted E w) {r : ℕ} (hr : r < w.receivers.length)
    (call : ReceiverCall) :
    ∃ w', receiverStep w r call = some w' ∧ Accounted E w' ∧ SameParts w w' := by
  cases call with
  | tryPop =>
    -- the popped chunk is the user's
    obtain ⟨w', chunk, hpop, hd⟩ := ChunkReceiver.tryPop_accounted h hr
    exact ⟨_, by simp [receiverStep, hpop], hd.accounted.keepHandles,
      hd.sameParts.trans (SameParts.with_handles _)⟩
  | clear =>
    obtain ⟨w', heq, hd⟩ := ChunkReceiver.clear_accounted h hr
    exact ⟨w', heq, hd.accounted, hd.sameParts⟩
  | tryGet =>
    obtain ⟨w', result, heq, hd⟩ := ChunkReceiver.tryGet_accounted h hr
    exact ⟨w', by simp [receiverStep, heq], hd.accounted, hd.sameParts⟩
  | release chunkHeader =>
    obtain ⟨w', heq, hd⟩ := @ChunkReceiver.release_accounted _ _ _ chunkHeader h hr
    exact ⟨w', heq, hd.accounted, hd.sameParts⟩
  | releaseAll =>
    obtain ⟨w', heq, hd⟩ := ChunkReceiver.releaseAll_accounted h hr
    exact ⟨w', heq, hd.accounted, hd.sameParts⟩

/-- A call on a receiver that does not exist does not return. -/
theorem receiverStep_of_length_le {r : ℕ} (hr : w.receivers.length ≤ r) (call : ReceiverCall) :
    receiverStep w r call = none := by
  have hnone : w.receivers[r]? = none := List.getElem?_eq_none hr
  cases call <;>
    simp [receiverStep, ChunkReceiver.tryPop, ChunkReceiver.clear, ChunkReceiver.tryGet,
      ChunkReceiver.release, ChunkReceiver.releaseAll, hnone]

/-- **A push of a user's chunk** to an existing queue keeps the accounting and returns. -/
theorem push_spec (h : Accounted E w) {queue : ℕ} (hq : queue < w.receivers.length)
    (handle : ℕ) :
    ∃ w', step retries w (.push queue handle) = some w' ∧ Accounted E w' ∧ SameParts w w' := by
  cases hget : w.handles[handle]? with
  | none => exact ⟨w, by simp [step, hget], h, .refl w⟩
  | some chunk =>
    obtain ⟨w', pushed, hpush, hd⟩ := pushToQueue_delivered chunk h hq
      (List.mem_append_right _ (List.mem_of_getElem? hget))
    exact ⟨w', by simp [step, hget, hpush], hd.accounted, hd.sameParts⟩

/-- **A handle let go** drops its reference, and the step returns. -/
theorem dropHandle_spec (h : Accounted E w) (handle : ℕ) :
    ∃ w', step retries w (.dropHandle handle) = some w' ∧ Accounted E w' ∧ SameParts w w' := by
  cases hget : w.handles[handle]? with
  | none => exact ⟨w, by simp [step, hget], h, .refl w⟩
  | some chunk =>
    obtain ⟨hi, rfl⟩ := List.getElem?_eq_some_iff.1 hget
    obtain ⟨w', hdrop, h', hp', -, -⟩ := dropLocal_accounted (h.eraseHandle hi)
    exact ⟨w', by simp [step, hget, hdrop], h', (SameParts.with_handles _).trans hp'⟩

/-- **What a step on existing parts does**: it keeps the accounting and the parts, and stops
only in a delivery that may wait for a consumer. -/
theorem step_spec (h : Accounted E w) {op : Op}
    (hop : op.Valid w.senders.length w.receivers.length = true) :
    StepSpec E w (step retries w op) (op.Waits w) := by
  cases op with
  | sender s call =>
    simp only [Op.Valid, Bool.and_eq_true, decide_eq_true_eq] at hop
    exact senderStep_spec h hop.1 call hop.2
  | receiver r call =>
    exact .of_exists (receiverStep_spec h (by simpa [Op.Valid] using hop) call)
  | push queue handle => exact .of_exists (push_spec h (by simpa [Op.Valid] using hop) handle)
  | dropHandle handle => exact .of_exists (dropHandle_spec h handle)

/-- A step on parts that do not exist returns the world as it is, if at all: only a push of a
handle that the user does not hold returns. -/
theorem step_of_not_valid {op : Op} (hop : op.Valid w.senders.length w.receivers.length = false)
    {w' : World} (hstep : step retries w op = some w') : w' = w := by
  cases op with
  | sender s call =>
    rw [step, senderStep_of_not_valid (by simpa [Op.Valid] using hop)] at hstep
    cases hstep
  | receiver r call =>
    rw [step, receiverStep_of_length_le (by simpa [Op.Valid] using hop)] at hstep
    cases hstep
  | push queue handle =>
    have hnone : w.receivers[queue]? = none :=
      List.getElem?_eq_none (by simpa [Op.Valid] using hop)
    cases hget : w.handles[handle]? with
    | none => simpa [step, hget] using hstep.symm
    | some chunk => simp [step, hget, pushToQueue, hnone] at hstep
  | dropHandle handle => simp [Op.Valid] at hop

/-- **Every step that returns keeps the accounting and the parts.** -/
theorem step_keeps (h : Accounted E w) {op : Op} {w' : World}
    (hstep : step retries w op = some w') : Accounted E w' ∧ SameParts w w' := by
  cases hop : op.Valid w.senders.length w.receivers.length with
  | true => exact (step_spec h hop).keeps w' hstep
  | false =>
    obtain rfl := step_of_not_valid hop hstep
    exact ⟨h, .refl _⟩

/-- **Every run keeps the accounting and the parts**: the invariant of `step_keeps`, by
induction on the run. -/
theorem run_accounted (h : Accounted E w) (ops : List Op) {w' : World}
    (hrun : Scheduler.run (step retries) w ops = some w') : Accounted E w' ∧ SameParts w w' :=
  Scheduler.run_invariant (P := fun w' ↦ Accounted E w' ∧ SameParts w w')
    (fun _ _ _ hw hstep ↦ ⟨(step_keeps hw.1 hstep).1, hw.2.trans (step_keeps hw.1 hstep).2⟩)
    ops ⟨h, .refl w⟩ hrun

/-- **A run stops only to wait**: a run of steps on existing parts reaches its end in an
accounted world, or stops at a delivery whose sender waits for a consumer that one of its queues
blocks. -/
theorem run_stops_only_to_wait (h : Accounted E w) (ops : List Op)
    (hops : ∀ op ∈ ops, op.Valid w.senders.length w.receivers.length = true) :
    (∃ w', Scheduler.run (step retries) w ops = some w' ∧ Accounted E w') ∨
      ∃ pre op post w₁, ops = pre ++ op :: post ∧
        Scheduler.run (step retries) w pre = some w₁ ∧ op.Waits w₁ := by
  rcases Scheduler.run_eq_some_or_stops (step retries) w ops with
    ⟨w', hrun⟩ | ⟨pre, op, post, w₁, rfl, hpre, hstop⟩
  · exact .inl ⟨w', hrun, (run_accounted h ops hrun).1⟩
  · obtain ⟨h₁, hp₁⟩ := run_accounted h pre hpre
    -- the step that stops names parts of `w`, which the run keeps
    have hop : op.Valid w₁.senders.length w₁.receivers.length = true := by
      rw [hp₁.length_senders, hp₁.length_receivers]
      exact hops op (by simp)
    exact .inr ⟨pre, op, post, w₁, rfl, hpre, (step_spec h₁ hop).waits hstop⟩

/-! ### From the configured memory manager -/

/-- **A run of the building blocks stops only to wait**: from the building blocks as their
constructors leave them, over a memory manager configured with fewer than `2 ^ 32` chunks, a run
of steps on existing parts runs to its end, or stops at a delivery whose sender waits for a
consumer that one of its queues blocks. -/
theorem buildingBlocks_stop_only_to_wait {config : MePooConfig} {as as' : Allocators}
    {mm : MemoryManager} (hmm : configureMemoryManager config as = some (mm, as'))
    (hsum : (config.mempoolConfig.map fun entry ↦ entry.chunkCount).sum < 2 ^ 32)
    (senders : List SenderArgs) (receivers : List ReceiverArgs) (retries : ℕ) (ops : List Op)
    (hops : ∀ op ∈ ops, op.Valid senders.length receivers.length = true) :
    (∃ w, Scheduler.run (step retries) (World.new mm senders receivers) ops = some w) ∨
      ∃ pre op post w, ops = pre ++ op :: post ∧
        Scheduler.run (step retries) (World.new mm senders receivers) pre = some w ∧
          op.Waits w := by
  rcases run_stops_only_to_wait (accounted_new (configureMemoryManager_owns hmm hsum) senders
    receivers) ops (by simpa [World.new] using hops) with ⟨w, hrun, -⟩ | hstop
  · exact .inl ⟨w, hrun⟩
  · exact .inr hstop

/-- A sender that waits for consumers and a receiver whose FiFo of one entry blocks producers:
the second `send` finds the queue full. -/
theorem buildingBlocks_stop_only_to_wait_of_full_fifo :
    ∃ mm as', configureMemoryManager ⟨[⟨8, 2⟩]⟩
        ⟨BumpAllocator.new 64 (requiredManagementMemorySize ⟨[⟨8, 2⟩]⟩),
          BumpAllocator.new 4096 (requiredChunkMemorySize ⟨[⟨8, 2⟩]⟩).get!⟩ = some (mm, as') ∧
      (∀ op ∈ ([.sender 0 (.tryAddQueue 0 0), .sender 0 (.tryAllocate 1 (some 8)),
          .sender 0 (.send (0, 0)), .sender 0 (.tryAllocate 1 (some 8)),
          .sender 0 (.send (0, 1))] : List Op), op.Valid 1 1 = true) ∧
      ((∃ w, Scheduler.run (step 0) (World.new mm [⟨1, 1, 1, Nat.one_pos, .waitForConsumer, 1⟩]
          [⟨7, 1, 1, Nat.one_pos, .fiFo_SingleProducerSingleConsumer, .blockProducer⟩])
          [.sender 0 (.tryAddQueue 0 0), .sender 0 (.tryAllocate 1 (some 8)),
            .sender 0 (.send (0, 0)), .sender 0 (.tryAllocate 1 (some 8)),
            .sender 0 (.send (0, 1))] = some w) ∨
        ∃ pre op post w, [.sender 0 (.tryAddQueue 0 0), .sender 0 (.tryAllocate 1 (some 8)),
            .sender 0 (.send (0, 0)), .sender 0 (.tryAllocate 1 (some 8)),
            .sender 0 (.send (0, 1))] = pre ++ op :: post ∧
          Scheduler.run (step 0) (World.new mm [⟨1, 1, 1, Nat.one_pos, .waitForConsumer, 1⟩]
            [⟨7, 1, 1, Nat.one_pos, .fiFo_SingleProducerSingleConsumer, .blockProducer⟩]) pre =
            some w ∧ op.Waits w) :=
  ⟨_, _, rfl, by decide, @buildingBlocks_stop_only_to_wait ⟨[⟨8, 2⟩]⟩
    ⟨BumpAllocator.new 64 (requiredManagementMemorySize ⟨[⟨8, 2⟩]⟩),
      BumpAllocator.new 4096 (requiredChunkMemorySize ⟨[⟨8, 2⟩]⟩).get!⟩ _ _ rfl (by decide)
    [⟨1, 1, 1, Nat.one_pos, .waitForConsumer, 1⟩]
    [⟨7, 1, 1, Nat.one_pos, .fiFo_SingleProducerSingleConsumer, .blockProducer⟩] 0
    [.sender 0 (.tryAddQueue 0 0), .sender 0 (.tryAllocate 1 (some 8)), .sender 0 (.send (0, 0)),
      .sender 0 (.tryAllocate 1 (some 8)), .sender 0 (.send (0, 1))] (by decide)⟩

end BuildingBlocks

end Iox.Popo
