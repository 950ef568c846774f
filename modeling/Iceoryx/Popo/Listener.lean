import Mathlib
import Iceoryx.Data.IndexFilter
import Iceoryx.Hoofs.MpmcLoFFLi
import Iceoryx.Machine.Threads

/-!
# `Listener`: the event table, its index manager and the dispatch thread

A `Listener` (`listener.cpp`, `listener.inl`) keeps `MAX_NUMBER_OF_EVENTS` slots `m_events`, each
an `Event_t` behind a `smart_lock`, and hands out their indices through `m_indexManager`: an
`MpmcLoFFLi` and the counter `m_indicesInUse` that `size()` reads. `attachEvent` runs `addEvent`
under `m_addEventMutex`: it refuses an event equal to one in a slot (`isEqualTo`: same origin,
event type and type hash), pops an index, and `init`s that slot with the index as its id.
Detaching goes through the origin's `TriggerHandle`, whose reset calls `removeTrigger(index)`:
the slot is `reset()`, and when it was initialised its index is pushed back and counted out.
The listener's thread waits on its condition listener for the indices that origins notified and
calls `executeCallback()` of each of those slots, which calls the callback only when the slot is
initialised.

## The model

Each call on one slot, each `MpmcLoFFLi` pop and push, the `m_addEventMutex` section of
`addEvent`, the decrement of `m_indicesInUse` and each return of `ConditionListener::wait()` is one
atomic step of its thread. A thread inside `removeTrigger` carries where it is (`Removing`). The
origins are abstracted: any thread may call `removeTrigger` with any index, and an origin's
notification sets the flag of any slot index. Both only add schedules (a `TriggerHandle` holds the
index its event was given, and a callback's own calls are steps of the listener's thread), so
what holds of every schedule here holds of the program. `MAX_NUMBER_OF_EVENTS` is
`MAX_NUMBER_OF_NOTIFIERS`, so the condition listener returns slot indices. The condition
listener's semaphore is left out: a wait that finds no flag blocks. The destructor is not
modelled. `m_indicesInUse` is a natural number; it stays below `MAX_NUMBER_OF_EVENTS` plus the
number of threads, far from the wrap of its `uint64_t`.

## What is proved

`Inv` holds after every schedule (`inv_run`): the free list's handed-out indices are, up to order,
the slots that hold an event and the indices that threads inside `removeTrigger` are about to push
back, so that push never fails its `IOX_ENFORCE`; `m_indicesInUse` counts those and the threads
still to count down; no two events are equal; every invoked callback was that of an initialised
event. Hence `addEvent` answers `EVENT_ALREADY_ATTACHED` exactly for an event equal to one in a
slot (`addEvent_alreadyAttached_iff`) and `LISTENER_FULL` exactly when every index is handed out
(`addEvent_listenerFull_iff`).

But a slot holds an event that is not initialised when its event type is `INVALID_ID`: the event
type is an `int64_t` enumerator passed on as `uint64_t`, so `-1` becomes `INVALID_ID`. Such an
attachment is counted by `size()` and refuses an equal one, yet `isInitialized()` is false, so its
callback is never called and `reset()` returns `false`: its index is never pushed back. On the
schedules without such an attachment every slot that holds an event is initialised
(`Initialized`), and the slots of initialised events are what the free list has handed out
(`Keeps`).
-/

namespace Iox.Popo.Listener

open Iox.Concurrent
open Function (update)

/-- `ListenerError`. -/
inductive ListenerError where
  | listenerFull
  | eventAlreadyAttached
  | emptyEventCallback
  deriving DecidableEq, Repr

/-- `MAX_NUMBER_OF_EVENTS`, which is `MAX_NUMBER_OF_NOTIFIERS`, a build option, in the range that
`MpmcLoFFLi::init` in the `IndexManager_t` constructor enforces. -/
structure Limits where
  /-- `MAX_NUMBER_OF_EVENTS`. -/
  maxNumberOfEvents : ℕ
  pos : 0 < maxNumberOfEvents
  lt_indexMax : maxNumberOfEvents < MpmcLoFFLi.indexMax - MpmcLoFFLi.internallyReservedIndices

/-- `Event_t::INVALID_ID`, `std::numeric_limits<uint64_t>::max()`. -/
def invalidId : ℕ := 18446744073709551615

theorem Limits.lt_invalidId (L : Limits) : L.maxNumberOfEvents < invalidId := by
  have := L.lt_indexMax
  simp only [MpmcLoFFLi.indexMax, MpmcLoFFLi.internallyReservedIndices] at this
  simp only [invalidId]
  omega

/-- `internal::Event_t`, with the fields that `isInitialized` reads; a null pointer is `none`.
`m_userType` and `m_invalidationCallback` are only handed to the origin's code. -/
structure Event (Origin Callback Translation : Type*) where
  /-- `m_origin`. -/
  origin : Option Origin
  /-- `m_eventType`. -/
  eventType : ℕ
  /-- `m_eventTypeHash`. -/
  eventTypeHash : ℕ
  /-- `m_callback`. -/
  callback : Option Callback
  /-- `m_translationCallback`. -/
  translationCallback : Option Translation
  /-- `m_eventId`. -/
  eventId : ℕ

namespace Event

variable {Origin Callback Translation : Type*}

/-- The member initialisers of `Event_t`, which `reset()` restores. -/
def empty : Event Origin Callback Translation where
  origin := none
  eventType := invalidId
  eventTypeHash := invalidId
  callback := none
  translationCallback := none
  eventId := invalidId

/-- `Event_t::init`. The callback and the translation callback are references, never null. -/
def init (eventId : ℕ) (origin : Origin) (eventType eventTypeHash : ℕ) (callback : Callback)
    (translationCallback : Translation) : Event Origin Callback Translation where
  origin := some origin
  eventType := eventType
  eventTypeHash := eventTypeHash
  callback := some callback
  translationCallback := some translationCallback
  eventId := eventId

/-- `Event_t::isEqualTo`. -/
def isEqualTo [DecidableEq Origin] (event : Event Origin Callback Translation) (origin : Origin)
    (eventType eventTypeHash : ℕ) : Bool :=
  event.origin == some origin && event.eventType == eventType &&
    event.eventTypeHash == eventTypeHash

/-- `Event_t::isInitialized`. -/
def isInitialized (event : Event Origin Callback Translation) : Bool :=
  event.origin.isSome && event.eventId != invalidId && event.eventType != invalidId &&
    event.eventTypeHash != invalidId && event.callback.isSome && event.translationCallback.isSome

/-- `Event_t::reset`: an initialised event calls its invalidation callback, which invalidates
the origin's trigger handle, and takes the member initialisers again; the answer is whether it
was initialised. -/
def reset (event : Event Origin Callback Translation) : Event Origin Callback Translation × Bool :=
  if event.isInitialized then (empty, true) else (event, false)

@[simp] theorem origin_empty : (empty : Event Origin Callback Translation).origin = none := rfl

@[simp] theorem origin_init (eventId : ℕ) (origin : Origin) (eventType eventTypeHash : ℕ)
    (callback : Callback) (translationCallback : Translation) :
    (init eventId origin eventType eventTypeHash callback translationCallback).origin =
      some origin :=
  rfl

/-- An event that `init` made is initialised unless an id, its type or its hash is
`INVALID_ID`. -/
theorem isInitialized_init (eventId : ℕ) (origin : Origin) (eventType eventTypeHash : ℕ)
    (callback : Callback) (translationCallback : Translation) :
    (init eventId origin eventType eventTypeHash callback translationCallback).isInitialized =
      (eventId != invalidId && eventType != invalidId && eventTypeHash != invalidId) := by
  simp [isInitialized, init]

theorem isEqualTo_empty [DecidableEq Origin] (origin : Origin) (eventType eventTypeHash : ℕ) :
    (empty : Event Origin Callback Translation).isEqualTo origin eventType eventTypeHash =
      false := by
  simp [isEqualTo, empty]

theorem isEqualTo_init_iff [DecidableEq Origin] {eventId : ℕ} {origin origin' : Origin}
    {eventType eventTypeHash eventType' eventTypeHash' : ℕ} {callback : Callback}
    {translationCallback : Translation} :
    (init eventId origin eventType eventTypeHash callback translationCallback).isEqualTo origin'
        eventType' eventTypeHash' = true ↔
      origin = origin' ∧ eventType = eventType' ∧ eventTypeHash = eventTypeHash' := by
  simp [isEqualTo, init, and_assoc]

theorem origin_eq_of_isEqualTo [DecidableEq Origin] {event : Event Origin Callback Translation}
    {origin : Origin} {eventType eventTypeHash : ℕ}
    (h : event.isEqualTo origin eventType eventTypeHash) : event.origin = some origin := by
  simp only [isEqualTo, Bool.and_eq_true, beq_iff_eq] at h
  exact h.1.1

theorem origin_isSome_of_isInitialized {event : Event Origin Callback Translation}
    (h : event.isInitialized) : event.origin.isSome := by
  simp only [isInitialized, Bool.and_eq_true] at h
  exact h.1.1.1.1.1

/-- `reset()` either empties an initialised event or leaves the event as it was. -/
theorem reset_eq (event : Event Origin Callback Translation) :
    event.reset = (if event.isInitialized then empty else event, event.isInitialized) := by
  unfold reset
  split_ifs with h <;> simp [h]

end Event

/-- `IndexManager_t`: the free list of slot indices and `m_indicesInUse`, which `size()` reads. -/
structure IndexManager where
  /-- `m_loffli`. -/
  loffli : MpmcLoFFLi
  /-- `m_indicesInUse`. -/
  indicesInUse : ℕ

namespace IndexManager

/-- The constructor: `m_loffli.init(m_loffliStorage, MAX_NUMBER_OF_EVENTS)`. -/
def new (L : Limits) : IndexManager where
  loffli := MpmcLoFFLi.initialState L.maxNumberOfEvents
  indicesInUse := 0

/-- `IndexManager_t::pop`: a popped index is counted in. -/
def pop (m : IndexManager) : IndexManager × Option ℕ :=
  match MpmcLoFFLi.pop m.loffli with
  | (loffli, some index) => ({ loffli, indicesInUse := m.indicesInUse + 1 }, some index)
  | (loffli, none) => ({ m with loffli }, none)

end IndexManager

/-- Where a thread is in `removeTrigger`. -/
inductive Removing where
  /-- Not in `removeTrigger`. -/
  | idle
  /-- `reset()` returned `true`; next, `m_loffli.push(index)` under `IOX_ENFORCE`. -/
  | push (index : ℕ)
  /-- Next, `--m_indicesInUse`. -/
  | decrement
  deriving DecidableEq, Repr

/-- The index a thread is about to push back. -/
def Removing.pushIndex : Removing → Option ℕ
  | .push index => some index
  | _ => none

@[simp] theorem Removing.pushIndex_idle : Removing.idle.pushIndex = none := rfl

@[simp] theorem Removing.pushIndex_push (index : ℕ) : (Removing.push index).pushIndex = some index :=
  rfl

@[simp] theorem Removing.pushIndex_decrement : Removing.decrement.pushIndex = none := rfl

/-- Where the listener's thread is in `threadLoop`. -/
inductive Loop where
  /-- In `m_conditionListener.wait()`. -/
  | waiting
  /-- Calling `executeCallback()` of each of these slots in turn. -/
  | dispatching (ids : List ℕ)
  deriving DecidableEq, Repr

/-- The listener, the flags of its condition variable, every thread that may call
`removeTrigger`, and the ghost record of the callbacks it invoked. -/
structure State (Origin Callback Translation : Type*) where
  /-- `m_events`. -/
  events : ℕ → Event Origin Callback Translation
  /-- `m_indexManager`. -/
  indexManager : IndexManager
  /-- `m_activeNotifications` of the `ConditionVariableData`. -/
  activeNotifications : ℕ → Bool
  /-- Each thread that may call `removeTrigger`, the listener's own among them. -/
  threads : List Removing
  /-- The listener's thread. -/
  loop : Loop
  /-- An `IOX_ENFORCE` failed, which ends the process. -/
  fatal : Bool
  /-- Each callback invocation: the slot and the event in it. -/
  invoked : List (ℕ × Event Origin Callback Translation)

variable {Origin Callback Translation : Type*} (L : Limits)

/-- A new listener, with `threads` threads outside `removeTrigger`. -/
def init (threads : ℕ) : State Origin Callback Translation where
  events := fun _ ↦ .empty
  indexManager := .new L
  activeNotifications := fun _ ↦ false
  threads := List.replicate threads .idle
  loop := .waiting
  fatal := false
  invoked := []

/-- `size()`. -/
def size (s : State Origin Callback Translation) : ℕ :=
  s.indexManager.indicesInUse

section Attach

variable [DecidableEq Origin]

/-- `addEvent`, the section under `m_addEventMutex`: refused when a slot holds an equal event or
no index is free; otherwise the popped index's slot is initialised with the index as its id. -/
def addEvent (s : State Origin Callback Translation) (origin : Origin)
    (eventType eventTypeHash : ℕ) (callback : Callback) (translationCallback : Translation) :
    State Origin Callback Translation × Except ListenerError ℕ :=
  if (List.range L.maxNumberOfEvents).any
      fun i ↦ (s.events i).isEqualTo origin eventType eventTypeHash then
    (s, .error .eventAlreadyAttached)
  else
    match s.indexManager.pop with
    | (indexManager, none) => ({ s with indexManager }, .error .listenerFull)
    | (indexManager, some index) =>
      ({ s with
          indexManager
          events := update s.events index
            (.init index origin eventType eventTypeHash callback translationCallback) },
        .ok index)

/-- `attachEvent(eventOrigin, eventType, eventCallback)`: refused for a null callback. The event
type, an `EventEnumIdentifier` (`int64_t`), is passed on as `static_cast<uint64_t>`, and
`eventTypeHash` is `typeid(EventType).hash_code()`; the overload without an event type passes
`NoEnumUsed::PLACEHOLDER`, `0`. Enabling the origin's event with the trigger handle happens
after the section and is the origin's. -/
def attachEvent (s : State Origin Callback Translation) (origin : Origin) (eventType : ℤ)
    (eventTypeHash : ℕ) (callback : Option Callback) (translationCallback : Translation) :
    State Origin Callback Translation × Except ListenerError ℕ :=
  match callback with
  | none => (s, .error .emptyEventCallback)
  | some callback =>
    addEvent L s origin (eventType % 2 ^ 64).toNat eventTypeHash callback translationCallback

end Attach

/-- Thread `thread` calls `removeTrigger(index)`: an index out of range returns at once;
otherwise the slot is `reset()`, and when it was initialised the thread goes on to push the
index back. -/
def removeTrigger (s : State Origin Callback Translation) (thread index : ℕ) :
    Option (State Origin Callback Translation) :=
  match s.threads[thread]? with
  | some .idle =>
    if L.maxNumberOfEvents ≤ index then some s
    else
      match (s.events index).reset with
      | (event, true) =>
        some { s with
          events := update s.events index event
          threads := s.threads.set thread (.push index) }
      | (_, false) => some s
  | _ => none

/-- The next step of a thread inside `removeTrigger`: `IndexManager_t::push` pushes the index
back under `IOX_ENFORCE`, then counts it out. -/
def removeStep (s : State Origin Callback Translation) (thread : ℕ) :
    Option (State Origin Callback Translation) :=
  match s.threads[thread]? with
  | some (.push index) =>
    match MpmcLoFFLi.push s.indexManager.loffli index with
    | (loffli, true) =>
      some { s with
        indexManager := { s.indexManager with loffli }
        threads := s.threads.set thread .decrement }
    | (_, false) => some { s with fatal := true }
  | some .decrement =>
    some { s with
      indexManager := { s.indexManager with indicesInUse := s.indexManager.indicesInUse - 1 }
      threads := s.threads.set thread .idle }
  | _ => none

/-- An origin's `TriggerHandle::trigger()`: `ConditionNotifier::notify` sets the flag of the
handle's index, a slot index. -/
def notify (s : State Origin Callback Translation) (index : ℕ) :
    Option (State Origin Callback Translation) :=
  if index < L.maxNumberOfEvents then
    some { s with activeNotifications := update s.activeNotifications index true }
  else
    none

/-- The indices `waitImpl` collects: those of the set flags, in increasing order. -/
def collect (s : State Origin Callback Translation) : List ℕ :=
  (List.range L.maxNumberOfEvents).filter s.activeNotifications

/-- `m_conditionListener.wait()` returns in `threadLoop`: the collected flags are reset and
their indices dispatched. With no flag set it blocks. -/
def wait (s : State Origin Callback Translation) : Option (State Origin Callback Translation) :=
  match s.loop with
  | .waiting =>
    if collect L s = [] then none
    else
      some { s with
        activeNotifications := fun i ↦ if i ∈ collect L s then false else s.activeNotifications i
        loop := .dispatching (collect L s) }
  | .dispatching _ => none

/-- The listener's thread calls `m_events[id]->executeCallback()` for the next id, which invokes
the callback when the slot is initialised. After the last id the loop waits again:
`m_wasDtorCalled` is never set here. -/
def executeCallback (s : State Origin Callback Translation) :
    Option (State Origin Callback Translation) :=
  match s.loop with
  | .waiting => none
  | .dispatching [] => some { s with loop := .waiting }
  | .dispatching (id :: ids) =>
    some { s with
      loop := .dispatching ids
      invoked := if (s.events id).isInitialized then s.invoked ++ [(id, s.events id)]
        else s.invoked }

/-- A choice of the scheduler. -/
inductive Action (Origin Callback Translation : Type*) where
  /-- A thread calls `attachEvent`. -/
  | attachEvent (origin : Origin) (eventType : ℤ) (eventTypeHash : ℕ)
      (callback : Option Callback) (translationCallback : Translation)
  /-- Thread `thread` calls `removeTrigger(index)` and resets the slot. -/
  | removeTrigger (thread index : ℕ)
  /-- Thread `thread` takes its next step inside `removeTrigger`. -/
  | remove (thread : ℕ)
  /-- An origin notifies the slot `index`. -/
  | notify (index : ℕ)
  /-- The listener's wait returns. -/
  | wait
  /-- The listener's thread calls `executeCallback()` of the next slot. -/
  | executeCallback

/-- One step; `none` when it is not enabled or the process ended. -/
def step [DecidableEq Origin] (s : State Origin Callback Translation)
    (action : Action Origin Callback Translation) : Option (State Origin Callback Translation) :=
  if s.fatal then none
  else
    match action with
    | .attachEvent origin eventType eventTypeHash callback translationCallback =>
      some (attachEvent L s origin eventType eventTypeHash callback translationCallback).1
    | .removeTrigger thread index => removeTrigger L s thread index
    | .remove thread => removeStep s thread
    | .notify index => notify L s index
    | .wait => wait L s
    | .executeCallback => executeCallback s

/-! ## What each call does -/

section Calls

variable {L} {s s' : State Origin Callback Translation}

theorem IndexManager.pop_of_none {m : IndexManager} (h : (MpmcLoFFLi.pop m.loffli).2 = none) :
    m.pop = (m, none) := by
  unfold IndexManager.pop
  rw [show MpmcLoFFLi.pop m.loffli = (m.loffli, none) from
    Prod.ext (MpmcLoFFLi.pop_of_none h) h]

theorem IndexManager.pop_of_some {m : IndexManager} {index : ℕ}
    (h : (MpmcLoFFLi.pop m.loffli).2 = some index) :
    m.pop = (⟨(MpmcLoFFLi.pop m.loffli).1, m.indicesInUse + 1⟩, some index) := by
  unfold IndexManager.pop
  rw [show MpmcLoFFLi.pop m.loffli = ((MpmcLoFFLi.pop m.loffli).1, some index) from
    Prod.ext rfl h]

section Attach

variable [DecidableEq Origin] {origin : Origin} {eventType eventTypeHash : ℕ} {callback : Callback}
  {translationCallback : Translation}

theorem addEvent_of_any
    (hany : (List.range L.maxNumberOfEvents).any
      (fun i ↦ (s.events i).isEqualTo origin eventType eventTypeHash) = true) :
    addEvent L s origin eventType eventTypeHash callback translationCallback =
      (s, .error .eventAlreadyAttached) :=
  if_pos hany

theorem addEvent_of_pop_none
    (hany : (List.range L.maxNumberOfEvents).any
      (fun i ↦ (s.events i).isEqualTo origin eventType eventTypeHash) = false)
    (hpop : (MpmcLoFFLi.pop s.indexManager.loffli).2 = none) :
    addEvent L s origin eventType eventTypeHash callback translationCallback =
      (s, .error .listenerFull) := by
  unfold addEvent
  rw [if_neg (by simp [hany]), IndexManager.pop_of_none hpop]

theorem addEvent_of_pop_some {index : ℕ}
    (hany : (List.range L.maxNumberOfEvents).any
      (fun i ↦ (s.events i).isEqualTo origin eventType eventTypeHash) = false)
    (hpop : (MpmcLoFFLi.pop s.indexManager.loffli).2 = some index) :
    addEvent L s origin eventType eventTypeHash callback translationCallback =
      ({ s with
          indexManager := ⟨(MpmcLoFFLi.pop s.indexManager.loffli).1,
            s.indexManager.indicesInUse + 1⟩
          events := update s.events index
            (.init index origin eventType eventTypeHash callback translationCallback) },
        .ok index) := by
  unfold addEvent
  rw [if_neg (by simp [hany]), IndexManager.pop_of_some hpop]

/-- **What `addEvent` can do**: refuse and leave the listener as it was, or, when no slot holds
an equal event, initialise the slot of the index it pops. -/
theorem addEvent_cases (origin : Origin) (eventType eventTypeHash : ℕ) (callback : Callback)
    (translationCallback : Translation) :
    (addEvent L s origin eventType eventTypeHash callback translationCallback).1 = s ∨
      ∃ index, (List.range L.maxNumberOfEvents).any
          (fun i ↦ (s.events i).isEqualTo origin eventType eventTypeHash) = false ∧
        (MpmcLoFFLi.pop s.indexManager.loffli).2 = some index ∧
        addEvent L s origin eventType eventTypeHash callback translationCallback =
          ({ s with
              indexManager := ⟨(MpmcLoFFLi.pop s.indexManager.loffli).1,
                s.indexManager.indicesInUse + 1⟩
              events := update s.events index
                (.init index origin eventType eventTypeHash callback translationCallback) },
            .ok index) := by
  by_cases hany : (List.range L.maxNumberOfEvents).any
      (fun i ↦ (s.events i).isEqualTo origin eventType eventTypeHash) = true
  · exact .inl (by rw [addEvent_of_any hany])
  rw [Bool.not_eq_true] at hany
  by_cases hpop : (MpmcLoFFLi.pop s.indexManager.loffli).2 = none
  · exact .inl (by rw [addEvent_of_pop_none hany hpop])
  obtain ⟨index, hindex⟩ := Option.ne_none_iff_exists'.1 hpop
  exact .inr ⟨index, hany, hindex, addEvent_of_pop_some hany hindex⟩

end Attach

/-- **What `removeTrigger` can do**: a thread outside `removeTrigger` leaves everything as it
was, or resets an initialised slot and goes on to push its index back. -/
theorem removeTrigger_cases {thread index : ℕ} (h : removeTrigger L s thread index = some s') :
    s.threads[thread]? = some .idle ∧
      (s' = s ∨ index < L.maxNumberOfEvents ∧ (s.events index).isInitialized ∧
        s' = { s with
          events := update s.events index .empty
          threads := s.threads.set thread (.push index) }) := by
  unfold removeTrigger at h
  split at h
  · rename_i hidle
    refine ⟨hidle, ?_⟩
    split_ifs at h with hle
    · exact .inl (Option.some.inj h).symm
    · split at h
      · rename_i event hreset
        rw [Event.reset_eq, Prod.mk.injEq] at hreset
        obtain ⟨hevent, hinit⟩ := hreset
        rw [if_pos hinit] at hevent
        subst hevent
        exact .inr ⟨Nat.lt_of_not_le hle, hinit, (Option.some.inj h).symm⟩
      · exact .inl (Option.some.inj h).symm
  · cases h

/-- **What a step inside `removeTrigger` can do**: push the index back, fail the
`IOX_ENFORCE` of that push, or count the index out. -/
theorem removeStep_cases {thread : ℕ} (h : removeStep s thread = some s') :
    (∃ index, s.threads[thread]? = some (.push index) ∧
      (MpmcLoFFLi.push s.indexManager.loffli index).2 = true ∧
      s' = { s with
        indexManager := { s.indexManager with
          loffli := (MpmcLoFFLi.push s.indexManager.loffli index).1 }
        threads := s.threads.set thread .decrement }) ∨
    (∃ index, s.threads[thread]? = some (.push index) ∧
      (MpmcLoFFLi.push s.indexManager.loffli index).2 = false ∧ s' = { s with fatal := true }) ∨
    (s.threads[thread]? = some .decrement ∧
      s' = { s with
        indexManager := { s.indexManager with indicesInUse := s.indexManager.indicesInUse - 1 }
        threads := s.threads.set thread .idle }) := by
  unfold removeStep at h
  split at h
  · rename_i index hpc
    split at h
    · rename_i loffli hpush
      refine .inl ⟨index, hpc, by rw [hpush], ?_⟩
      rw [← (Option.some.inj h), hpush]
    · rename_i hpush
      exact .inr (.inl ⟨index, hpc, by rw [hpush], (Option.some.inj h).symm⟩)
  · rename_i hpc
    exact .inr (.inr ⟨hpc, (Option.some.inj h).symm⟩)
  · cases h

end Calls

/-! ## The invariant -/

/-- The slots that hold an event. -/
def taken (events : ℕ → Event Origin Callback Translation) : List ℕ :=
  (List.range L.maxNumberOfEvents).filter fun i ↦ (events i).origin.isSome

/-- The indices that threads inside `removeTrigger` are about to push back. -/
def pushing (threads : List Removing) : List ℕ :=
  threads.filterMap Removing.pushIndex

/-- The threads inside `removeTrigger` that have still to count their index out. -/
def decrementing (threads : List Removing) : ℕ :=
  threads.countP (· == .decrement)

/-- What every schedule keeps: the free list has handed out exactly the slots that hold an event
and the indices being pushed back, `m_indicesInUse` counts them and the threads still to count
down, an event in slot `i` has the id `i` and its callbacks, no two events are equal, the
dispatched ids are slot indices, and every invoked callback was that of an initialised event. -/
structure Inv [DecidableEq Origin] (s : State Origin Callback Translation) : Prop where
  fatal : s.fatal = false
  loffli_size : s.indexManager.loffli.size = L.maxNumberOfEvents
  freeList : ∃ out, MpmcLoFFLi.FreeListInv s.indexManager.loffli out ∧
    out.Perm (taken L s.events ++ pushing s.threads)
  indicesInUse : s.indexManager.indicesInUse =
    (taken L s.events).length + (pushing s.threads).length + decrementing s.threads
  lt : ∀ i, (s.events i).origin.isSome → i < L.maxNumberOfEvents
  event : ∀ i, (s.events i).origin.isSome →
    (s.events i).eventId = i ∧ (s.events i).callback.isSome ∧
      (s.events i).translationCallback.isSome
  unique : ∀ i j origin eventType eventTypeHash,
    (s.events i).isEqualTo origin eventType eventTypeHash →
      (s.events j).isEqualTo origin eventType eventTypeHash → i = j
  dispatching : ∀ ids, s.loop = .dispatching ids → ∀ id ∈ ids, id < L.maxNumberOfEvents
  invoked : ∀ p ∈ s.invoked, p.2.isInitialized ∧ p.2.eventId = p.1

@[simp] theorem pushing_replicate_idle (n : ℕ) : pushing (List.replicate n .idle) = [] := by
  simp [pushing]

@[simp] theorem decrementing_replicate_idle (n : ℕ) :
    decrementing (List.replicate n .idle) = 0 := by
  simp [decrementing, List.countP_replicate]

theorem mem_taken {events : ℕ → Event Origin Callback Translation} {i : ℕ} :
    i ∈ taken L events ↔ i < L.maxNumberOfEvents ∧ (events i).origin.isSome :=
  IndexFilter.mem_filter_range

/-- **Taking one slot adds it to the taken slots**, up to order; read backwards, freeing a slot
takes it out. -/
theorem taken_perm_cons (events events' : ℕ → Event Origin Callback Translation) {index : ℕ}
    (hlt : index < L.maxNumberOfEvents) (hfree : (events index).origin = none)
    (htaken : (events' index).origin.isSome) (heq : ∀ i, i ≠ index → events' i = events i) :
    (taken L events').Perm (index :: taken L events) :=
  IndexFilter.filter_range_perm_cons hlt (by simp [hfree]) htaken
    fun i hi ↦ by rw [heq i hi]

/-- After one thread moves, the indices being pushed back trade the old program counter's for
the new one's. -/
theorem pushing_set_perm {threads : List Removing} {thread : ℕ} {pc : Removing} (pc' : Removing)
    (h : threads[thread]? = some pc) :
    (pushing (threads.set thread pc') ++ pc.pushIndex.toList).Perm
      (pushing threads ++ pc'.pushIndex.toList) :=
  Threads.filterMap_set_perm Removing.pushIndex pc' h

theorem decrementing_set_add {threads : List Removing} {thread : ℕ} {pc : Removing}
    (pc' : Removing) (h : threads[thread]? = some pc) :
    decrementing (threads.set thread pc') + (if pc == .decrement then 1 else 0) =
      decrementing threads + (if pc' == .decrement then 1 else 0) :=
  Threads.countP_set_add pc' h

section Invariant

variable [DecidableEq Origin] {L}

theorem init_loffli (L : Limits) :
    MpmcLoFFLi.init L.maxNumberOfEvents = some (MpmcLoFFLi.initialState L.maxNumberOfEvents) := by
  simp [MpmcLoFFLi.init, L.pos, L.lt_indexMax]

theorem inv_init (threads : ℕ) : Inv L (init L threads : State Origin Callback Translation) where
  fatal := rfl
  loffli_size := rfl
  freeList := by
    refine ⟨[], MpmcLoFFLi.freeListInv_init (init_loffli L), ?_⟩
    simp [taken, init]
  indicesInUse := by
    simp [init, IndexManager.new, taken]
  lt := by simp [init]
  event := by simp [init]
  unique := by simp [init, Event.isEqualTo_empty]
  dispatching := by simp [init]
  invoked := by simp [init]

variable {s s' : State Origin Callback Translation}

/-- An event equal to the one sought sits in a slot. -/
theorem Inv.lt_of_isEqualTo (h : Inv L s) {i : ℕ} {origin : Origin} {eventType eventTypeHash : ℕ}
    (heq : (s.events i).isEqualTo origin eventType eventTypeHash) : i < L.maxNumberOfEvents :=
  h.lt i (by simp [Event.origin_eq_of_isEqualTo heq])

/-- The check of `addEvent` finds an equal event exactly when one is in some slot. -/
theorem Inv.any_isEqualTo_iff (h : Inv L s) {origin : Origin} {eventType eventTypeHash : ℕ} :
    (List.range L.maxNumberOfEvents).any
        (fun i ↦ (s.events i).isEqualTo origin eventType eventTypeHash) = true ↔
      ∃ i, (s.events i).isEqualTo origin eventType eventTypeHash := by
  rw [List.any_eq_true]
  constructor
  · rintro ⟨i, -, hi⟩
    exact ⟨i, hi⟩
  · rintro ⟨i, hi⟩
    exact ⟨i, List.mem_range.2 (h.lt_of_isEqualTo hi), hi⟩

/-! ### `attachEvent` -/

/-- **`addEvent` keeps the invariant.** A popped index is one whose slot is empty, and the new
event is equal to none in a slot, or the call would have been refused. -/
theorem Inv.addEvent (h : Inv L s) (origin : Origin) (eventType eventTypeHash : ℕ)
    (callback : Callback) (translationCallback : Translation) :
    Inv L (addEvent L s origin eventType eventTypeHash callback translationCallback).1 := by
  rcases addEvent_cases origin eventType eventTypeHash callback translationCallback with
    hsame | ⟨index, hany, hpop, hadd⟩
  · rw [hsame]
    exact h
  rw [hadd]
  dsimp only
  obtain ⟨out, hfree, hperm⟩ := h.freeList
  obtain ⟨hlt, hnotin, hfree'⟩ := MpmcLoFFLi.freeListInv_pop hfree hpop
  rw [h.loffli_size] at hlt
  -- a taken slot is handed out, so the popped one is empty
  have hslot : (s.events index).origin = none := by
    by_contra hsome
    exact hnotin (hperm.symm.subset (List.mem_append_left _
      ((mem_taken L).2 ⟨hlt, Option.ne_none_iff_isSome.1 hsome⟩)))
  have htaken := taken_perm_cons L s.events
    (update s.events index (.init index origin eventType eventTypeHash callback translationCallback))
    hlt hslot (by simp) fun i hi ↦ Function.update_of_ne hi _ _
  have hnone : ∀ j, (s.events j).isEqualTo origin eventType eventTypeHash = false := by
    intro j
    by_contra hj
    rw [Bool.not_eq_false] at hj
    rw [(h.any_isEqualTo_iff).2 ⟨j, hj⟩] at hany
    cases hany
  exact {
    fatal := h.fatal
    loffli_size := (MpmcLoFFLi.size_pop _).trans h.loffli_size
    freeList := ⟨out ++ [index], hfree', calc
      List.Perm (out ++ [index]) ((taken L s.events ++ pushing s.threads) ++ [index]) :=
        hperm.append_right _
      List.Perm _ ((index :: taken L s.events) ++ pushing s.threads) :=
        List.perm_append_singleton _ _
      List.Perm _ _ := htaken.symm.append_right _⟩
    indicesInUse := by
      dsimp only
      rw [htaken.length_eq, h.indicesInUse, List.length_cons]
      omega
    lt := by
      intro i hi
      dsimp only at hi
      by_cases hii : i = index
      · exact hii ▸ hlt
      · rw [Function.update_of_ne hii] at hi
        exact h.lt i hi
    event := by
      intro i hi
      dsimp only at hi ⊢
      by_cases hii : i = index
      · subst hii
        simp [Event.init]
      · rw [Function.update_of_ne hii] at hi ⊢
        exact h.event i hi
    unique := by
      intro i j origin' eventType' eventTypeHash' hi hj
      dsimp only at hi hj
      by_cases hii : i = index <;> by_cases hjj : j = index
      · rw [hii, hjj]
      · -- the new event's twin would have refused the call
        subst hii
        rw [Function.update_self] at hi
        rw [Function.update_of_ne hjj] at hj
        obtain ⟨rfl, rfl, rfl⟩ := Event.isEqualTo_init_iff.1 hi
        rw [hnone j] at hj
        cases hj
      · subst hjj
        rw [Function.update_self] at hj
        rw [Function.update_of_ne hii] at hi
        obtain ⟨rfl, rfl, rfl⟩ := Event.isEqualTo_init_iff.1 hj
        rw [hnone i] at hi
        cases hi
      · rw [Function.update_of_ne hii] at hi
        rw [Function.update_of_ne hjj] at hj
        exact h.unique i j origin' eventType' eventTypeHash' hi hj
    dispatching := h.dispatching
    invoked := h.invoked }

/-! ### `removeTrigger` -/

/-- **Resetting a slot keeps the invariant**: its index moves from the taken slots to those being
pushed back. -/
theorem Inv.removeTrigger (h : Inv L s) {thread index : ℕ}
    (hstep : removeTrigger L s thread index = some s') : Inv L s' := by
  obtain ⟨hidle, rfl | ⟨hlt, hinit, rfl⟩⟩ := removeTrigger_cases hstep
  · exact h
  obtain ⟨out, hfree, hperm⟩ := h.freeList
  have htaken := taken_perm_cons L (update s.events index .empty) s.events hlt (by simp)
    (Event.origin_isSome_of_isInitialized hinit) fun i hi ↦ (Function.update_of_ne hi _ _).symm
  have hpush := pushing_set_perm (.push index) hidle
  have hdec := decrementing_set_add (.push index) hidle
  simp only [Removing.pushIndex_idle, Removing.pushIndex_push, Option.toList_none,
    Option.toList_some, List.append_nil] at hpush
  simp only [reduceCtorEq, beq_iff_eq, if_false] at hdec
  exact {
    fatal := h.fatal
    loffli_size := h.loffli_size
    freeList := ⟨out, hfree, List.perm_iff_count.2 fun c ↦ by
      have h₁ := List.perm_iff_count.1 hperm c
      have h₂ := List.perm_iff_count.1 htaken c
      have h₃ := List.perm_iff_count.1 hpush c
      simp only [List.count_append, List.count_cons, List.count_nil] at h₁ h₂ h₃ ⊢
      omega⟩
    indicesInUse := by
      have h₂ := htaken.length_eq
      have h₃ := hpush.length_eq
      simp only [List.length_cons, List.length_append, List.length_nil] at h₂ h₃
      dsimp only
      rw [h.indicesInUse]
      omega
    lt := by
      intro i hi
      dsimp only at hi
      by_cases hii : i = index
      · exact hii ▸ hlt
      · rw [Function.update_of_ne hii] at hi
        exact h.lt i hi
    event := by
      intro i hi
      dsimp only at hi ⊢
      by_cases hii : i = index
      · subst hii
        simp at hi
      · rw [Function.update_of_ne hii] at hi ⊢
        exact h.event i hi
    unique := by
      intro i j origin eventType eventTypeHash hi hj
      dsimp only at hi hj
      by_cases hii : i = index
      · subst hii
        simp [Event.isEqualTo_empty] at hi
      by_cases hjj : j = index
      · subst hjj
        simp [Event.isEqualTo_empty] at hj
      rw [Function.update_of_ne hii] at hi
      rw [Function.update_of_ne hjj] at hj
      exact h.unique i j origin eventType eventTypeHash hi hj
    dispatching := h.dispatching
    invoked := h.invoked }

/-- An index a thread is about to push back is one of those being pushed back. -/
theorem mem_pushing {threads : List Removing} {thread index : ℕ}
    (h : threads[thread]? = some (.push index)) : index ∈ pushing threads :=
  List.mem_filterMap.2 ⟨.push index, List.mem_of_getElem? h, rfl⟩

/-- **A step inside `removeTrigger` keeps the invariant**: the push back is of a handed-out index,
so its `IOX_ENFORCE` holds, and the count down is of a counted index. -/
theorem Inv.removeStep (h : Inv L s) {thread : ℕ} (hstep : removeStep s thread = some s') :
    Inv L s' := by
  obtain ⟨out, hfree, hperm⟩ := h.freeList
  rcases removeStep_cases hstep with ⟨index, hpc, hok, rfl⟩ | ⟨index, hpc, hok, rfl⟩ |
    ⟨hpc, rfl⟩
  · -- the push back
    have hout : index ∈ out :=
      hperm.symm.subset (List.mem_append_right _ (mem_pushing hpc))
    have hpush := pushing_set_perm .decrement hpc
    have hdec := decrementing_set_add .decrement hpc
    simp only [Removing.pushIndex_push, Removing.pushIndex_decrement, Option.toList_none,
      Option.toList_some, List.append_nil] at hpush
    simp only [reduceCtorEq, beq_iff_eq, if_false, if_true] at hdec
    exact {
      fatal := h.fatal
      loffli_size := (MpmcLoFFLi.size_push _ _).trans h.loffli_size
      freeList := ⟨out.erase index, MpmcLoFFLi.freeListInv_push hfree hok,
        List.perm_iff_count.2 fun c ↦ by
          have h₁ := List.perm_iff_count.1 hperm c
          have h₂ := List.perm_iff_count.1 (List.perm_cons_erase hout) c
          have h₃ := List.perm_iff_count.1 hpush c
          simp only [List.count_append, List.count_cons, List.count_nil] at h₁ h₂ h₃ ⊢
          omega⟩
      indicesInUse := by
        have h₃ := hpush.length_eq
        simp only [List.length_append, List.length_singleton] at h₃
        dsimp only
        rw [h.indicesInUse]
        omega
      lt := h.lt
      event := h.event
      unique := h.unique
      dispatching := h.dispatching
      invoked := h.invoked }
  · -- the push back cannot fail
    rw [(MpmcLoFFLi.push_ok_iff hfree index).2
      (hperm.symm.subset (List.mem_append_right _ (mem_pushing hpc)))] at hok
    cases hok
  · -- the count down
    have hpush := pushing_set_perm .idle hpc
    have hdec := decrementing_set_add .idle hpc
    simp only [Removing.pushIndex_idle, Removing.pushIndex_decrement, Option.toList_none,
      List.append_nil] at hpush
    simp only [reduceCtorEq, beq_iff_eq, if_false, if_true] at hdec
    exact {
      fatal := h.fatal
      loffli_size := h.loffli_size
      freeList := ⟨out, hfree, hperm.trans (hpush.symm.append_left _)⟩
      indicesInUse := by
        dsimp only
        rw [h.indicesInUse, ← hpush.length_eq]
        omega
      lt := h.lt
      event := h.event
      unique := h.unique
      dispatching := h.dispatching
      invoked := h.invoked }

/-! ### The listener's thread -/

theorem Inv.notify (h : Inv L s) {index : ℕ} (hstep : notify L s index = some s') : Inv L s' := by
  unfold Listener.notify at hstep
  split_ifs at hstep
  obtain rfl := Option.some.inj hstep
  exact { h with }

theorem Inv.wait (h : Inv L s) (hstep : wait L s = some s') : Inv L s' := by
  unfold Listener.wait at hstep
  split at hstep
  · split_ifs at hstep
    obtain rfl := Option.some.inj hstep
    exact { h with
      dispatching := fun ids hids id hid ↦ by
        obtain rfl : collect L s = ids := Loop.dispatching.inj hids
        exact (IndexFilter.mem_filter_range.1 hid).1 }
  · cases hstep

/-- **Dispatching keeps the invariant**: a callback is invoked only for an initialised event,
whose id is its slot. -/
theorem Inv.executeCallback (h : Inv L s) (hstep : executeCallback s = some s') :
    Inv L s' := by
  unfold Listener.executeCallback at hstep
  split at hstep
  · cases hstep
  · obtain rfl := Option.some.inj hstep
    exact { h with dispatching := fun ids hids ↦ by cases hids }
  · rename_i id ids hloop
    obtain rfl := Option.some.inj hstep
    have hlt := h.dispatching _ hloop
    exact { h with
      dispatching := fun ids' hids ↦ by
        obtain rfl : ids = ids' := Loop.dispatching.inj hids
        exact fun id' hid' ↦ hlt id' (List.mem_cons_of_mem id hid')
      invoked := by
        intro p hp
        split_ifs at hp with hinit
        · rcases List.mem_append.1 hp with hp | hp
          · exact h.invoked p hp
          · rw [List.mem_singleton.1 hp]
            exact ⟨hinit, (h.event id (Event.origin_isSome_of_isInitialized hinit)).1⟩
        · exact h.invoked p hp }

/-! ## Every schedule -/

/-- **Every step keeps the invariant.** -/
theorem inv_step (h : Inv L s) {action : Action Origin Callback Translation}
    (hstep : step L s action = some s') : Inv L s' := by
  unfold step at hstep
  rw [if_neg (by simp [h.fatal])] at hstep
  cases action with
  | attachEvent origin eventType eventTypeHash callback translationCallback =>
    obtain rfl := Option.some.inj hstep
    cases callback with
    | none => exact h
    | some callback => exact h.addEvent _ _ _ _ _
  | removeTrigger thread index => exact h.removeTrigger hstep
  | remove thread => exact h.removeStep hstep
  | notify index => exact h.notify hstep
  | wait => exact h.wait hstep
  | executeCallback => exact h.executeCallback hstep

/-- **The invariant holds after every schedule.** -/
theorem inv_run {threads : ℕ} (actions : List (Action Origin Callback Translation))
    (hrun : Scheduler.run (step L) (init L threads) actions = some s) : Inv L s :=
  Scheduler.run_invariant (fun _ _ _ h hstep ↦ inv_step h hstep) actions (inv_init threads) hrun

/-! ## What `addEvent` answers -/

/-- **`EVENT_ALREADY_ATTACHED` exactly for an event equal to one in a slot.** -/
theorem addEvent_alreadyAttached_iff (h : Inv L s) (origin : Origin)
    (eventType eventTypeHash : ℕ) (callback : Callback) (translationCallback : Translation) :
    (addEvent L s origin eventType eventTypeHash callback translationCallback).2 =
        .error .eventAlreadyAttached ↔
      ∃ i, (s.events i).isEqualTo origin eventType eventTypeHash := by
  by_cases hany : (List.range L.maxNumberOfEvents).any
      (fun i ↦ (s.events i).isEqualTo origin eventType eventTypeHash) = true
  · rw [addEvent_of_any hany]
    exact iff_of_true rfl (h.any_isEqualTo_iff.1 hany)
  -- the check passes, so the call goes on to the pop
  have hnone : ¬∃ i, (s.events i).isEqualTo origin eventType eventTypeHash :=
    fun hex ↦ hany (h.any_isEqualTo_iff.2 hex)
  rw [Bool.not_eq_true] at hany
  by_cases hpop : (MpmcLoFFLi.pop s.indexManager.loffli).2 = none
  · rw [addEvent_of_pop_none hany hpop]
    simp [hnone]
  · obtain ⟨index, hindex⟩ := Option.ne_none_iff_exists'.1 hpop
    rw [addEvent_of_pop_some hany hindex]
    simp [hnone]

/-- **`LISTENER_FULL` exactly when no slot holds an equal event and every index is handed out**,
to a slot that holds an event or to a thread about to push it back. -/
theorem addEvent_listenerFull_iff (h : Inv L s) (origin : Origin)
    (eventType eventTypeHash : ℕ) (callback : Callback) (translationCallback : Translation) :
    (addEvent L s origin eventType eventTypeHash callback translationCallback).2 =
        .error .listenerFull ↔
      (¬∃ i, (s.events i).isEqualTo origin eventType eventTypeHash) ∧
        (taken L s.events).length + (pushing s.threads).length = L.maxNumberOfEvents := by
  obtain ⟨out, hfree, hperm⟩ := h.freeList
  have hlen : out.length = (taken L s.events).length + (pushing s.threads).length := by
    rw [hperm.length_eq, List.length_append]
  have hle := hfree.length_le
  rw [h.loffli_size] at hle
  by_cases hany : (List.range L.maxNumberOfEvents).any
      (fun i ↦ (s.events i).isEqualTo origin eventType eventTypeHash) = true
  · rw [addEvent_of_any hany]
    simp [h.any_isEqualTo_iff.1 hany]
  have hnone : ¬∃ i, (s.events i).isEqualTo origin eventType eventTypeHash :=
    fun hex ↦ hany (h.any_isEqualTo_iff.2 hex)
  rw [Bool.not_eq_true] at hany
  -- the pop fails exactly when every index is handed out
  have hpop_iff := MpmcLoFFLi.pop_isSome_iff hfree
  rw [h.loffli_size] at hpop_iff
  by_cases hpop : (MpmcLoFFLi.pop s.indexManager.loffli).2 = none
  · rw [addEvent_of_pop_none hany hpop]
    have hfull : ¬out.length < L.maxNumberOfEvents := by
      rw [← hpop_iff, hpop]
      simp
    exact iff_of_true rfl ⟨hnone, by omega⟩
  · obtain ⟨index, hindex⟩ := Option.ne_none_iff_exists'.1 hpop
    rw [addEvent_of_pop_some hany hindex]
    have hroom : out.length < L.maxNumberOfEvents := by
      rw [← hpop_iff, hindex]
      rfl
    exact iff_of_false (by simp) fun ⟨_, hall⟩ ↦ by omega

end Invariant

/-! ## Schedules without an attachment of type or hash `INVALID_ID` -/

/-- Every slot that holds an event holds an initialised one. -/
def Initialized (s : State Origin Callback Translation) : Prop :=
  ∀ i, (s.events i).origin.isSome → (s.events i).isInitialized

/-- The slots of initialised events. -/
def initialized (events : ℕ → Event Origin Callback Translation) : List ℕ :=
  (List.range L.maxNumberOfEvents).filter fun i ↦ (events i).isInitialized

/-- A call other than an attachment, or an attachment whose event type, as `uint64_t`, and type
hash are not `INVALID_ID`. -/
def Action.Valid : Action Origin Callback Translation → Prop
  | .attachEvent _ eventType eventTypeHash _ _ =>
    (eventType % 2 ^ 64).toNat ≠ invalidId ∧ eventTypeHash ≠ invalidId
  | _ => True

section Initialized

variable {L} {s s' : State Origin Callback Translation}

theorem removeStep_events {thread : ℕ} (hstep : removeStep s thread = some s') :
    s'.events = s.events := by
  rcases removeStep_cases hstep with ⟨_, _, _, rfl⟩ | ⟨_, _, _, rfl⟩ | ⟨_, rfl⟩ <;> rfl

theorem notify_events {index : ℕ} (hstep : notify L s index = some s') : s'.events = s.events := by
  unfold Listener.notify at hstep
  split_ifs at hstep
  obtain rfl := Option.some.inj hstep
  rfl

theorem wait_events (hstep : wait L s = some s') : s'.events = s.events := by
  unfold Listener.wait at hstep
  split at hstep
  · split_ifs at hstep
    obtain rfl := Option.some.inj hstep
    rfl
  · cases hstep

theorem executeCallback_events (hstep : executeCallback s = some s') :
    s'.events = s.events := by
  unfold Listener.executeCallback at hstep
  split at hstep
  · cases hstep
  · obtain rfl := Option.some.inj hstep
    rfl
  · obtain rfl := Option.some.inj hstep
    rfl

theorem Initialized.of_events_eq (hi : Initialized s) (heq : s'.events = s.events) :
    Initialized s' := by
  intro i
  rw [heq]
  exact hi i

/-- With every slot that holds an event initialised, the taken slots are those of initialised
events. -/
theorem taken_eq_initialized (hi : Initialized s) : taken L s.events = initialized L s.events :=
  List.filter_congr fun i _ ↦ by
    cases hinit : (s.events i).isInitialized
    · cases hsome : (s.events i).origin.isSome
      · rfl
      · rw [hi i hsome] at hinit
        cases hinit
    · exact Event.origin_isSome_of_isInitialized hinit

variable [DecidableEq Origin]

/-- An attachment of a valid type and hash initialises the slot it takes. -/
theorem Initialized.addEvent (h : Inv L s) (hi : Initialized s) (origin : Origin)
    {eventType eventTypeHash : ℕ} (htype : eventType ≠ invalidId)
    (hhash : eventTypeHash ≠ invalidId) (callback : Callback) (translationCallback : Translation) :
    Initialized (addEvent L s origin eventType eventTypeHash callback translationCallback).1 := by
  rcases addEvent_cases origin eventType eventTypeHash callback translationCallback with
    hsame | ⟨index, -, hpop, hadd⟩
  · rw [hsame]
    exact hi
  obtain ⟨out, hfree, -⟩ := h.freeList
  have hlt := (MpmcLoFFLi.freeListInv_pop hfree hpop).1
  rw [h.loffli_size] at hlt
  rw [hadd]
  intro i hsome
  dsimp only at hsome ⊢
  by_cases hii : i = index
  · subst hii
    have hid : i ≠ invalidId := (hlt.trans L.lt_invalidId).ne
    simp [Event.isInitialized_init, hid, htype, hhash]
  · rw [Function.update_of_ne hii] at hsome ⊢
    exact hi i hsome

/-- **A valid step keeps every slot that holds an event initialised**: resetting empties a slot,
and a valid attachment initialises the slot it takes. -/
theorem Initialized.step (h : Inv L s) (hi : Initialized s)
    {action : Action Origin Callback Translation} (hvalid : action.Valid)
    (hstep : step L s action = some s') : Initialized s' := by
  unfold Listener.step at hstep
  rw [if_neg (by simp [h.fatal])] at hstep
  cases action with
  | attachEvent origin eventType eventTypeHash callback translationCallback =>
    obtain rfl := Option.some.inj hstep
    cases callback with
    | none => exact hi
    | some callback => exact hi.addEvent h origin hvalid.1 hvalid.2 callback translationCallback
  | removeTrigger thread index =>
    obtain ⟨-, rfl | ⟨-, -, rfl⟩⟩ := removeTrigger_cases hstep
    · exact hi
    · intro i hsome
      dsimp only at hsome ⊢
      by_cases hii : i = index
      · subst hii
        simp at hsome
      · rw [Function.update_of_ne hii] at hsome ⊢
        exact hi i hsome
  | remove thread => exact hi.of_events_eq (removeStep_events hstep)
  | notify index => exact hi.of_events_eq (notify_events hstep)
  | wait => exact hi.of_events_eq (wait_events hstep)
  | executeCallback => exact hi.of_events_eq (executeCallback_events hstep)

end Initialized

/-- What a listener keeps in a state that no attachment of type or hash `INVALID_ID` reached: no
`IOX_ENFORCE` has failed; `size()` counts the initialised events and the threads inside
`removeTrigger` past their successful `reset()`; the free list has handed out exactly the slots of
initialised events and the indices being pushed back; no two events are equal; `addEvent` answers
`EVENT_ALREADY_ATTACHED` exactly for an initialised equal event and `LISTENER_FULL` exactly when
every index is handed out; and every callback was invoked for an initialised event in its slot. -/
structure Keeps [DecidableEq Origin] (s : State Origin Callback Translation) : Prop where
  fatal : s.fatal = false
  size_eq : size s =
    (initialized L s.events).length + (pushing s.threads).length + decrementing s.threads
  freeList : ∃ out, MpmcLoFFLi.FreeListInv s.indexManager.loffli out ∧
    out.Perm (initialized L s.events ++ pushing s.threads)
  unique : ∀ i j origin eventType eventTypeHash,
    (s.events i).isEqualTo origin eventType eventTypeHash →
      (s.events j).isEqualTo origin eventType eventTypeHash → i = j
  alreadyAttached : ∀ origin eventType eventTypeHash callback translationCallback,
    (addEvent L s origin eventType eventTypeHash callback translationCallback).2 =
        .error .eventAlreadyAttached ↔
      ∃ i, (s.events i).isInitialized ∧ (s.events i).isEqualTo origin eventType eventTypeHash
  listenerFull : ∀ origin eventType eventTypeHash callback translationCallback,
    (addEvent L s origin eventType eventTypeHash callback translationCallback).2 =
        .error .listenerFull ↔
      (¬∃ i, (s.events i).isEqualTo origin eventType eventTypeHash) ∧
        (initialized L s.events).length + (pushing s.threads).length = L.maxNumberOfEvents
  invoked : ∀ p ∈ s.invoked, p.2.isInitialized ∧ p.2.eventId = p.1

theorem listener_keeps_event_table [DecidableEq Origin] {s : State Origin Callback Translation}
    {threads : ℕ} (actions : List (Action Origin Callback Translation))
    (hvalid : ∀ action ∈ actions, action.Valid)
    (hrun : Scheduler.run (step L) (init L threads) actions = some s) : Keeps L s := by
  have hboth : Inv L s ∧ Initialized s :=
    Scheduler.run_invariant_of_forall
      (fun s₁ action s₂ (hs : Inv L s₁ ∧ Initialized s₁) (hok : action.Valid)
        (hstep : step L s₁ action = some s₂) ↦ ⟨inv_step hs.1 hstep, hs.2.step hs.1 hok hstep⟩)
      actions ⟨inv_init threads, fun i hi ↦ by simp [init] at hi⟩ hvalid hrun
  obtain ⟨h, hi⟩ := hboth
  have heq := taken_eq_initialized (L := L) hi
  -- an event equal to the one sought holds an origin, so it is initialised
  have hinit : ∀ {i origin eventType eventTypeHash},
      (s.events i).isEqualTo origin eventType eventTypeHash → (s.events i).isInitialized :=
    fun hi' ↦ hi _ (by simp [Event.origin_eq_of_isEqualTo hi'])
  exact {
    fatal := h.fatal
    size_eq := by rw [size, h.indicesInUse, heq]
    freeList := heq ▸ h.freeList
    unique := h.unique
    alreadyAttached := fun origin eventType eventTypeHash callback translationCallback ↦ by
      rw [addEvent_alreadyAttached_iff h]
      exact ⟨fun ⟨i, hi'⟩ ↦ ⟨i, hinit hi', hi'⟩, fun ⟨i, _, hi'⟩ ↦ ⟨i, hi'⟩⟩
    listenerFull := fun origin eventType eventTypeHash callback translationCallback ↦ by
      rw [addEvent_listenerFull_iff h, heq]
    invoked := h.invoked }

/-- Two event slots: one event attached, notified and dispatched to its callback, then a second
one attached. -/
theorem listener_keeps_event_table_of_notify :
    ∃ s, Scheduler.run (step ⟨2, Nat.le_of_ble_eq_true rfl, Nat.le_of_ble_eq_true rfl⟩)
        (init ⟨2, Nat.le_of_ble_eq_true rfl, Nat.le_of_ble_eq_true rfl⟩ 1 : State ℕ ℕ ℕ)
        [.attachEvent 7 1 3 (some 10) 0, .notify 0, .wait, .executeCallback, .executeCallback,
          .attachEvent 8 1 3 (some 11) 0] = some s ∧
      s.invoked.length = 1 ∧
      Keeps ⟨2, Nat.le_of_ble_eq_true rfl, Nat.le_of_ble_eq_true rfl⟩ s :=
  ⟨_, rfl, rfl, listener_keeps_event_table _
    [.attachEvent 7 1 3 (some 10) 0, .notify 0, .wait, .executeCallback, .executeCallback,
      .attachEvent 8 1 3 (some 11) 0] (by simp [Action.Valid, invalidId]) rfl⟩

/-! ## An attachment of event type `-1` -/

/-- `static_cast<uint64_t>` of the enumerator `-1` is `INVALID_ID`. -/
theorem uint64_of_neg_one : ((-1 : ℤ) % 2 ^ 64).toNat = invalidId := by
  decide

theorem listener_counts_event_that_is_not_initialized [DecidableEq Origin] (origin : Origin)
    (eventTypeHash : ℕ) (callback : Callback) (translationCallback : Translation) :
    ∃ s, Scheduler.run (step L) (init L 1)
        [.attachEvent origin (-1) eventTypeHash (some callback) translationCallback,
          .removeTrigger 0 0] = some s ∧
      size s = 1 ∧ (∀ i, (s.events i).isInitialized = false) ∧
      (attachEvent L s origin (-1) eventTypeHash (some callback) translationCallback).2 =
        .error .eventAlreadyAttached := by
  set s₀ : State Origin Callback Translation := init L 1
  have hpop : (MpmcLoFFLi.pop s₀.indexManager.loffli).2 = some 0 := by
    rw [MpmcLoFFLi.pop_of_lt_size (by simpa [s₀, init, IndexManager.new,
      MpmcLoFFLi.initialState] using L.pos)]
    rfl
  have hany : (List.range L.maxNumberOfEvents).any
      (fun i ↦ (s₀.events i).isEqualTo origin invalidId eventTypeHash) = false := by
    simp [s₀, init, Event.isEqualTo_empty]
  set s₁ : State Origin Callback Translation :=
    { s₀ with
      indexManager := ⟨(MpmcLoFFLi.pop s₀.indexManager.loffli).1, s₀.indexManager.indicesInUse + 1⟩
      events := update s₀.events 0
        (.init 0 origin invalidId eventTypeHash callback translationCallback) }
  -- the attachment takes slot `0` with an event that is not initialised
  have hattach : step L s₀
      (.attachEvent origin (-1) eventTypeHash (some callback) translationCallback) = some s₁ := by
    have hfatal : s₀.fatal = false := rfl
    simp only [step, hfatal, Bool.false_eq_true, if_false, attachEvent, uint64_of_neg_one]
    rw [addEvent_of_pop_some hany hpop]
  have hinit : ∀ i, (s₁.events i).isInitialized = false := by
    intro i
    by_cases hi : i = 0
    · subst hi
      simp [s₁, Event.isInitialized_init, invalidId]
    · simp [s₁, s₀, init, Function.update_of_ne hi, Event.isInitialized, Event.empty]
  -- its detach resets nothing and pushes nothing back
  have hremove : step L s₁ (.removeTrigger 0 0) = some s₁ := by
    have hfatal : s₁.fatal = false := rfl
    have hthread : s₁.threads[0]? = some .idle := rfl
    have hreset : (s₁.events 0).reset = (s₁.events 0, false) := by
      simp [Event.reset, hinit 0]
    simp only [step, hfatal, Bool.false_eq_true, if_false]
    unfold removeTrigger
    rw [hthread, if_neg (Nat.not_le.2 L.pos), hreset]
  refine ⟨s₁, by simp only [Scheduler.run, hattach, hremove, Option.bind_some], rfl, hinit, ?_⟩
  simp only [attachEvent, uint64_of_neg_one]
  rw [addEvent_of_any (List.any_eq_true.2 ⟨0, List.mem_range.2 L.pos, by
    simp [s₁, Event.isEqualTo, Event.init]⟩)]

end Iox.Popo.Listener
