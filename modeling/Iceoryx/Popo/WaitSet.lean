import Mathlib.Data.List.Nodup
import Mathlib.Order.Nat
import Mathlib.Tactic.SplitIfs
import Iceoryx.Data.SortedMerge
import Iceoryx.Machine.Run

/-!
# `WaitSet`: trigger slots, pending notifications and what a wait reports

A `WaitSet<Capacity>` (`wait_set.inl`) keeps its attachments in `m_triggerArray`, `Capacity`
slots of `optional<Trigger>`, and the free slots in `m_indexRepository`, a
`stack<uint64_t, Capacity>` that the constructor fills with `0, ..., Capacity - 1`. An attachment's
slot is its unique id: its origin's `TriggerHandle` notifies the condition variable at that index
(`ConditionNotifier::notify` sets `m_activeNotifications[index]` and `m_wasNotified`), and
resetting the handle calls `removeTrigger(id)`, which empties the slot and pushes the id back.

A wait collects the set flags through `ConditionListener::wait` or `timedWait`, merges them into the
wait set's own `m_activeNotifications` (`uniqueMergeSortedNotificationVector`), and then walks that
vector from its end (`createVectorWithTriggeredTriggers`): an index whose slot is empty is erased, a
trigger whose state condition is satisfied is reported, and a reported event-based trigger's index is
erased. State-based indices stay, so they are reported at every wait while their condition holds.

## The model

The calls are sequential. A state-based trigger's `m_hasTriggeredCallback` is read through an
argument `hasTriggered` of the call that reads it, by slot. The `ConditionListener`'s semaphore is
left out: `waitImpl` counts it down to zero before it looks at the flags, so a `wait()` that finds no
flag blocks until another thread notifies (the call does not return here, `none`), and a
`timedWait()` finds none again after its timeout and returns nothing. `IOX_REPORT_FATAL` and a failed
`IOX_ENFORCE` end the process (`State.fatal`). A trigger is its `NotificationInfo` (origin and id),
its unique id, its type, and its origin's trigger type and type hash; a reported trigger is the slot
whose `NotificationInfo` the returned pointer names. The ghost `notifiedSinceAttach` records which
attachments were notified since they were attached or last reported.

## What is proved

`Inv` holds after every sequence of calls (`inv_run`): the occupied slots and the index repository
partition the `Capacity` slots, the trigger in slot `i` has the unique id `i`, no two triggers are
logically equal, `m_activeNotifications` ascends strictly, and a trigger notified since it was
attached has its flag set or its index pending. Hence `size()` counts the attached triggers
(`size_eq`), `attachImpl` answers `ALREADY_ATTACHED` exactly for a logically equal attachment and
`WAIT_SET_FULL` exactly when every slot is taken (`attachImpl_alreadyAttached_iff`,
`attachImpl_waitSetFull_iff`), and a wait reports attached triggers whose condition holds, each
once, among them every trigger notified since it was attached or last reported whose condition
holds (`waitAndReturnTriggeredTriggers_spec`); it returns whenever there is one
(`waitAndReturnTriggeredTriggers_isSome`). `Behaves` gathers these for every reachable state.
-/

namespace Iox.Popo.WaitSet

open Function (update)

/-- `WaitSetError`. -/
inductive WaitSetError where
  | waitSetFull
  | alreadyAttached
  deriving DecidableEq, Repr

/-- What ends the process. -/
inductive Failure where
  /-- `PoshError::POPO__CONDITION_NOTIFIER_INDEX_TOO_LARGE`, from the `ConditionNotifier`'s
  constructor. -/
  | conditionNotifierIndexTooLarge
  /-- The `IOX_ENFORCE` of `removeTrigger`: the released id does not fit the index repository. -/
  | releasedTriggerId
  deriving DecidableEq, Repr

/-- `TriggerType` of a trigger that holds a slot. -/
inductive TriggerType where
  | stateBased
  | eventBased
  deriving DecidableEq, Repr

/-- `ConditionListener::wait` or `ConditionListener::timedWait`. -/
inductive WaitCall where
  | wait
  | timedWait
  deriving DecidableEq, Repr

/-- The sizes of the build. -/
structure Limits where
  /-- `Capacity`. -/
  capacity : ℕ
  /-- `MAX_NUMBER_OF_NOTIFIERS`, the number of flags of a `ConditionVariableData`. -/
  maxNumberOfNotifiers : ℕ
  /-- `Capacity` is a `uint64_t`. -/
  capacity_le : capacity ≤ 18446744073709551615

/-- `Trigger::INVALID_TRIGGER_ID`, `std::numeric_limits<uint64_t>::max()`. -/
def invalidTriggerId : ℕ := 18446744073709551615

/-- The fields of a `Trigger` that the wait set reads. -/
structure Trigger (Origin : Type*) where
  /-- `m_notificationInfo.m_notificationOrigin`. -/
  origin : Origin
  /-- `m_notificationInfo.m_notificationId`. -/
  notificationId : ℕ
  /-- `m_uniqueId`. -/
  uniqueId : ℕ
  /-- `m_triggerType`. -/
  triggerType : TriggerType
  /-- `m_originTriggerType`. -/
  originTriggerType : ℕ
  /-- `m_originTriggerTypeHash`. -/
  originTriggerTypeHash : ℕ
  deriving DecidableEq, Repr

namespace Trigger

variable {Origin : Type*}

/-- `Trigger::isValid`. -/
def isValid (trigger : Trigger Origin) : Bool :=
  trigger.uniqueId != invalidTriggerId

/-- `Trigger::isStateConditionSatisfied`, with `hasTriggered` the answer of
`m_hasTriggeredCallback`. -/
def isStateConditionSatisfied (trigger : Trigger Origin) (hasTriggered : Bool) : Bool :=
  match trigger.triggerType with
  | .stateBased => if trigger.isValid then hasTriggered else false
  | .eventBased => trigger.isValid

/-- `Trigger::isLogicalEqualTo`. -/
def isLogicalEqualTo [DecidableEq Origin] (trigger : Trigger Origin) (notificationOrigin : Origin)
    (originTriggerType originTriggerTypeHash : ℕ) : Bool :=
  trigger.isValid && trigger.origin == notificationOrigin &&
    trigger.originTriggerType == originTriggerType &&
    trigger.originTriggerTypeHash == originTriggerTypeHash

end Trigger

/-- The wait set, its condition variable, and the ghost record of notifications. -/
structure State (Origin : Type*) where
  /-- `m_triggerArray`, by slot. -/
  triggerArray : ℕ → Option (Trigger Origin)
  /-- `m_indexRepository`, top first. -/
  indexRepository : List ℕ
  /-- The wait set's `m_activeNotifications`. -/
  activeNotifications : List ℕ
  /-- The condition variable's `m_activeNotifications` flags. -/
  notifications : ℕ → Bool
  /-- The condition variable's `m_wasNotified`. -/
  wasNotified : Bool
  /-- The condition listener's `m_toBeDestroyed`. -/
  toBeDestroyed : Bool
  /-- What ended the process, if anything did. -/
  fatal : Option Failure
  /-- Ghost: the attachment in a slot was notified since it was attached or last reported. -/
  notifiedSinceAttach : ℕ → Bool

variable {Origin : Type*} (L : Limits)

/-- `stack<uint64_t, Capacity>::push`: refused when the stack is full. -/
def push (stack : List ℕ) (value : ℕ) : Option (List ℕ) :=
  if stack.length < L.capacity then some (value :: stack) else none

/-- `stack::pop`: the top, if there is one. -/
def pop : List ℕ → Option (ℕ × List ℕ)
  | [] => none
  | top :: rest => some (top, rest)

/-- The constructor: every slot empty, and `m_indexRepository.push(i)` for `i` from `0` to
`Capacity - 1`. -/
def init : State Origin where
  triggerArray := fun _ ↦ none
  indexRepository := (List.range L.capacity).foldl (fun stack i ↦ (push L stack i).getD stack) []
  activeNotifications := []
  notifications := fun _ ↦ false
  wasNotified := false
  toBeDestroyed := false
  fatal := none
  notifiedSinceAttach := fun _ ↦ false

/-- `detail::uniqueMergeSortedNotificationVector`. -/
def uniqueMergeSortedNotificationVector (v1 v2 : List ℕ) : List ℕ :=
  SortedMerge.uniqueMerge v1 v2

/-- `ConditionNotifier(condVar, index).notify()`: the constructor refuses an index from
`MAX_NUMBER_OF_NOTIFIERS` on; `notify` sets the flag and `m_wasNotified`. -/
def notify (s : State Origin) (index : ℕ) : State Origin :=
  if L.maxNumberOfNotifiers ≤ index then { s with fatal := some .conditionNotifierIndexTooLarge }
  else
    { s with
      notifications := update s.notifications index true
      wasNotified := true
      notifiedSinceAttach := update s.notifiedSinceAttach index true }

/-- Whether a slot holds a trigger logically equal to the attachment. -/
def isAttached [DecidableEq Origin] (s : State Origin) (origin : Origin) (originType originTypeHash : ℕ) (i : ℕ) :
    Bool :=
  (s.triggerArray i).any fun trigger ↦ trigger.isLogicalEqualTo origin originType originTypeHash

/-- `attachImpl`: refused for an attachment logically equal to an attached one, and when no
index is free; otherwise the trigger takes the index popped from the repository, which is also its
unique id. `stateBased` tells whether a `hasTriggeredCallback` is given. -/
def attachImpl [DecidableEq Origin] (s : State Origin) (origin : Origin) (stateBased : Bool)
    (eventId originType originTypeHash : ℕ) : Except WaitSetError (State Origin × ℕ) :=
  if (List.range L.capacity).any (isAttached s origin originType originTypeHash) then
    .error .alreadyAttached
  else
    match pop s.indexRepository with
    | none => .error .waitSetFull
    | some (index, rest) =>
      .ok ({ s with
        triggerArray := update s.triggerArray index
          (some ⟨origin, eventId, index, if stateBased then .stateBased else .eventBased,
            originType, originTypeHash⟩)
        indexRepository := rest
        notifiedSinceAttach := update s.notifiedSinceAttach index false }, index)

/-- `removeTrigger(uniqueTriggerId)`: the first slot holding a trigger of that id is emptied and
the id pushed back, under `IOX_ENFORCE`; nothing happens when no slot holds it. -/
def removeTrigger (s : State Origin) (uniqueTriggerId : ℕ) : State Origin :=
  match (List.range L.capacity).find?
      (fun i ↦ (s.triggerArray i).any (·.uniqueId == uniqueTriggerId)) with
  | none => s
  | some i =>
    match push L s.indexRepository uniqueTriggerId with
    | some stack => { s with triggerArray := update s.triggerArray i none, indexRepository := stack }
    | none => { s with triggerArray := update s.triggerArray i none, fatal := some .releasedTriggerId }

/-- One scan of `waitImpl` over the flags: the set ones, in ascending order. -/
def collect (s : State Origin) : List ℕ :=
  (List.range L.maxNumberOfNotifiers).filter s.notifications

/-- `ConditionListener::wait` and `timedWait` (`waitImpl`): nothing once the listener is to be
destroyed; otherwise the set flags in ascending order, each reset together with `m_wasNotified`.
When no flag is set, `wait()` blocks on the emptied semaphore, and `timedWait()` times out and finds
no flag again. -/
def listenerWait (s : State Origin) (call : WaitCall) : Option (State Origin × List ℕ) :=
  if s.toBeDestroyed then some (s, [])
  else
    let collected := collect L s
    if collected ≠ [] then
      some ({ s with
        notifications := fun i ↦ if i ∈ collected then false else s.notifications i
        wasNotified := false }, collected)
    else
      match call with
      | .wait => none
      | .timedWait => some (s, [])

/-- `acquireNotifications`: the collected flags become the active notifications, or are merged into
them. -/
def acquireNotifications (s : State Origin) (call : WaitCall) : Option (State Origin) :=
  (listenerWait L s call).map fun (s', notificationVector) ↦
    if s'.activeNotifications = [] then { s' with activeNotifications := notificationVector }
    else if notificationVector ≠ [] then
      { s' with
        activeNotifications :=
          uniqueMergeSortedNotificationVector notificationVector s'.activeNotifications }
    else s'

/-- Whether the trigger in slot `index` is reported: it is there and its state condition is
satisfied. -/
def reported (triggerArray : ℕ → Option (Trigger Origin)) (hasTriggered : ℕ → Bool) (index : ℕ) :
    Bool :=
  (triggerArray index).any fun trigger ↦ trigger.isStateConditionSatisfied (hasTriggered index)

/-- `doRemoveNotificationId`: the slot is empty, or it holds an event-based trigger that is
reported. -/
def doRemoveNotificationId (triggerArray : ℕ → Option (Trigger Origin)) (hasTriggered : ℕ → Bool)
    (index : ℕ) : Bool :=
  match triggerArray index with
  | none => true
  | some trigger =>
    trigger.isStateConditionSatisfied (hasTriggered index) && trigger.triggerType == .eventBased

/-- The turn of the loop of `createVectorWithTriggeredTriggers` at position `i` of
`m_activeNotifications`: report the trigger, then erase the index if it is done with. -/
def createVectorTurn (hasTriggered : ℕ → Bool) (i : ℕ) (acc : State Origin × List ℕ) :
    State Origin × List ℕ :=
  let s := acc.1
  let index := s.activeNotifications.getD i 0
  let triggers := if reported s.triggerArray hasTriggered index then acc.2 ++ [index] else acc.2
  if doRemoveNotificationId s.triggerArray hasTriggered index then
    ({ s with
      activeNotifications := s.activeNotifications.eraseIdx i
      notifiedSinceAttach := update s.notifiedSinceAttach index false }, triggers)
  else (s, triggers)

/-- The loop of `createVectorWithTriggeredTriggers`, from position `i - 1` down to `0`. -/
def createVectorLoop (hasTriggered : ℕ → Bool) : ℕ → State Origin × List ℕ → State Origin × List ℕ
  | 0, acc => acc
  | i + 1, acc => createVectorLoop hasTriggered i (createVectorTurn hasTriggered i acc)

/-- `createVectorWithTriggeredTriggers`: the slots of the reported triggers, and the active
notifications that remain. -/
def createVectorWithTriggeredTriggers (s : State Origin) (hasTriggered : ℕ → Bool) :
    State Origin × List ℕ :=
  createVectorLoop hasTriggered s.activeNotifications.length (s, [])

/-- `waitAndReturnTriggeredTriggers`: notifications are acquired first if `m_wasNotified` is set;
when nothing is reported, the wait set waits once more and reports what is there then. -/
def waitAndReturnTriggeredTriggers (s : State Origin) (call : WaitCall)
    (hasTriggered : ℕ → Bool) : Option (State Origin × List ℕ) :=
  let acquired := if s.wasNotified then acquireNotifications L s call else some s
  acquired.bind fun s ↦
    let result := createVectorWithTriggeredTriggers s hasTriggered
    if !result.2.isEmpty then some result
    else (acquireNotifications L result.1 call).map fun s ↦
      createVectorWithTriggeredTriggers s hasTriggered

/-- A call on the wait set. -/
inductive Action (Origin : Type*) where
  /-- `attachEvent`, with the event type's value and type hash. -/
  | attachEvent (origin : Origin) (eventId originType originTypeHash : ℕ)
  /-- `attachState`, with the state type's value and type hash, and whether the state condition
  is satisfied right after the attachment. -/
  | attachState (origin : Origin) (id originType originTypeHash : ℕ) (hasTriggered : Bool)
  /-- The origin's `TriggerHandle` is reset (`detachEvent`, `detachState`, or the origin goes
  away), which calls `removeTrigger` with its id. -/
  | detach (uniqueTriggerId : ℕ)
  /-- The origin holding the handle of id `uniqueTriggerId` calls `trigger()`. -/
  | notify (uniqueTriggerId : ℕ)
  /-- `markForDestruction`. -/
  | markForDestruction
  /-- `wait` or `timedWait`, with the state conditions by slot. -/
  | wait (call : WaitCall) (hasTriggered : ℕ → Bool)

/-- One call; `none` when it does not return: a wait that blocks, or any call after the process
ended. -/
def step [DecidableEq Origin] (s : State Origin) : Action Origin → Option (State Origin)
  | .attachEvent origin eventId originType originTypeHash =>
    if s.fatal.isSome then none
    else
      match attachImpl L s origin false eventId originType originTypeHash with
      | .ok (s', _) => some s'
      | .error _ => some s
  | .attachState origin id originType originTypeHash hasTriggered =>
    if s.fatal.isSome then none
    else
      match attachImpl L s origin true id originType originTypeHash with
      | .ok (s', index) =>
        -- `attachState` notifies at once when the condition already holds
        if (s'.triggerArray index).any (·.isStateConditionSatisfied hasTriggered) then
          some (notify L s' index)
        else some s'
      | .error _ => some s
  | .detach uniqueTriggerId =>
    if s.fatal.isSome then none else some (removeTrigger L s uniqueTriggerId)
  | .notify uniqueTriggerId =>
    if s.fatal.isSome then none
    -- a handle is valid exactly while its trigger holds the slot of its id
    else if (s.triggerArray uniqueTriggerId).isSome then some (notify L s uniqueTriggerId)
    else some s
  | .markForDestruction =>
    if s.fatal.isSome then none else some { s with toBeDestroyed := true }
  | .wait call hasTriggered =>
    if s.fatal.isSome then none
    else (waitAndReturnTriggeredTriggers L s call hasTriggered).map Prod.fst

/-! ## The index repository and the triggers -/

/-- The constructor leaves `Capacity - 1` on top and `0` at the bottom. -/
theorem init_indexRepository :
    (init L : State Origin).indexRepository = (List.range L.capacity).reverse := by
  -- each push of the constructor fits, since fewer than `Capacity` indices are in
  have hloop : ∀ n ≤ L.capacity,
      (List.range n).foldl (fun stack i ↦ (push L stack i).getD stack) [] =
        (List.range n).reverse := by
    intro n
    induction n with
    | zero => intro _; rfl
    | succ n ih =>
      intro hn
      rw [List.range_succ, List.foldl_append, ih (by omega), List.foldl_cons, List.foldl_nil,
        List.reverse_append]
      simp [push, Nat.lt_of_succ_le hn]
  exact hloop _ le_rfl

/-- A trigger whose unique id is a slot is valid: no slot index is `INVALID_TRIGGER_ID`. -/
theorem Trigger.isValid_of_lt {trigger : Trigger Origin} (h : trigger.uniqueId < L.capacity) :
    trigger.isValid = true := by
  have hle := L.capacity_le
  simp only [Trigger.isValid, invalidTriggerId, bne_iff_ne, ne_eq]
  omega

/-! ## The invariant -/

/-- What the wait set keeps between calls. -/
structure Inv (s : State Origin) : Prop where
  /-- Only the `Capacity` slots hold triggers. -/
  lt_capacity : ∀ i, (s.triggerArray i).isSome → i < L.capacity
  /-- The trigger in slot `i` has the unique id `i`. -/
  uniqueId : ∀ i trigger, s.triggerArray i = some trigger → trigger.uniqueId = i
  /-- The index repository holds no index twice ... -/
  nodup_indexRepository : s.indexRepository.Nodup
  /-- ... and holds exactly the free slots. -/
  mem_indexRepository : ∀ i, i ∈ s.indexRepository ↔ i < L.capacity ∧ s.triggerArray i = none
  /-- No two slots hold triggers of the same origin, origin type and type hash. -/
  logical : ∀ i j t u, s.triggerArray i = some t → s.triggerArray j = some u → t.origin = u.origin →
    t.originTriggerType = u.originTriggerType → t.originTriggerTypeHash = u.originTriggerTypeHash →
    i = j
  /-- `m_activeNotifications` ascends strictly ... -/
  sorted : s.activeNotifications.Pairwise (· < ·)
  /-- ... over slots. -/
  active_lt : ∀ i ∈ s.activeNotifications, i < L.capacity
  /-- A flag is set only at a slot, which is also a flag of the condition variable. -/
  notifications_lt : ∀ i, s.notifications i = true → i < L.capacity ∧ i < L.maxNumberOfNotifiers
  /-- `m_wasNotified` is set exactly when a flag is. -/
  wasNotified_iff : s.wasNotified = true ↔ ∃ i, s.notifications i = true
  /-- A trigger notified since it was attached or last reported has its flag set or its index
  among the active notifications. -/
  pending : ∀ i, (s.triggerArray i).isSome → s.notifiedSinceAttach i = true →
    s.notifications i = true ∨ i ∈ s.activeNotifications

theorem inv_init : Inv L (init L : State Origin) where
  lt_capacity := nofun
  uniqueId := nofun
  nodup_indexRepository := by
    rw [init_indexRepository]
    exact List.nodup_reverse.2 List.nodup_range
  mem_indexRepository := by
    intro i
    rw [init_indexRepository]
    simp [init]
  logical := nofun
  sorted := List.Pairwise.nil
  active_lt := nofun
  notifications_lt := nofun
  wasNotified_iff := by simp [init]
  pending := nofun

variable {L} {s s' : State Origin}

theorem Inv.isValid (h : Inv L s) {i : ℕ} {trigger : Trigger Origin}
    (ht : s.triggerArray i = some trigger) : trigger.isValid = true :=
  Trigger.isValid_of_lt L (h.uniqueId i trigger ht ▸ h.lt_capacity i (by simp [ht]))

/-- **`size()` counts the attached triggers**: `Capacity` less the free indices. -/
theorem size_eq (h : Inv L s) :
    L.capacity - s.indexRepository.length =
      ((List.range L.capacity).filter fun i ↦ (s.triggerArray i).isSome).length := by
  -- the repository is, up to order, the free slots
  have hperm : s.indexRepository.Perm
      ((List.range L.capacity).filter fun i ↦ (s.triggerArray i).isNone) := by
    rw [List.perm_ext_iff_of_nodup h.nodup_indexRepository
      ((List.nodup_range).filter _)]
    intro i
    simp [h.mem_indexRepository, Option.isNone_iff_eq_none]
  have hsplit := List.length_eq_length_filter_add (fun i ↦ (s.triggerArray i).isSome)
    (l := List.range L.capacity)
  rw [hperm.length_eq, List.length_range] at *
  have hnone : ((List.range L.capacity).filter fun i ↦ !(s.triggerArray i).isSome) =
      (List.range L.capacity).filter fun i ↦ (s.triggerArray i).isNone :=
    List.filter_congr fun i _ ↦ by cases s.triggerArray i <;> rfl
  rw [hnone] at hsplit
  omega

/-- A slot that holds a trigger leaves room on the index repository. -/
theorem length_indexRepository_lt (h : Inv L s) {i : ℕ} (hi : (s.triggerArray i).isSome) :
    s.indexRepository.length < L.capacity := by
  have hsize := size_eq h
  have hmem : i ∈ (List.range L.capacity).filter fun i ↦ (s.triggerArray i).isSome :=
    List.mem_filter.2 ⟨List.mem_range.2 (h.lt_capacity i hi), hi⟩
  have hpos := List.length_pos_of_mem hmem
  omega

/-! ## Attaching -/

section Attach

variable [DecidableEq Origin]

theorem any_isAttached_iff (h : Inv L s) {origin : Origin} {originType originTypeHash : ℕ} :
    (List.range L.capacity).any (isAttached s origin originType originTypeHash) = true ↔
      ∃ i trigger, s.triggerArray i = some trigger ∧ trigger.origin = origin ∧
        trigger.originTriggerType = originType ∧ trigger.originTriggerTypeHash = originTypeHash := by
  simp only [List.any_eq_true, List.mem_range, isAttached, Option.any_eq_true]
  constructor
  · rintro ⟨i, -, trigger, ht, hequal⟩
    simp only [Trigger.isLogicalEqualTo, Bool.and_eq_true, beq_iff_eq] at hequal
    exact ⟨i, trigger, ht, hequal.1.1.2, hequal.1.2, hequal.2⟩
  · rintro ⟨i, trigger, ht, rfl, rfl, rfl⟩
    refine ⟨i, h.lt_capacity i (by simp [ht]), trigger, ht, ?_⟩
    simp [Trigger.isLogicalEqualTo, h.isValid ht]

/-- **`attachImpl` answers `ALREADY_ATTACHED` exactly for an attachment logically equal to an
attached one.** -/
theorem attachImpl_alreadyAttached_iff (h : Inv L s) (origin : Origin) (stateBased : Bool)
    (eventId originType originTypeHash : ℕ) :
    attachImpl L s origin stateBased eventId originType originTypeHash = .error .alreadyAttached ↔
      ∃ i trigger, s.triggerArray i = some trigger ∧ trigger.origin = origin ∧
        trigger.originTriggerType = originType ∧ trigger.originTriggerTypeHash = originTypeHash := by
  rw [← any_isAttached_iff h, attachImpl]
  by_cases hattached : (List.range L.capacity).any (isAttached s origin originType originTypeHash)
  · simp [hattached]
  · rw [if_neg hattached]
    simp only [hattached]
    cases pop s.indexRepository <;> simp

/-- **`attachImpl` answers `WAIT_SET_FULL` exactly when** no attached trigger is logically equal
and every slot is taken. -/
theorem attachImpl_waitSetFull_iff (h : Inv L s) (origin : Origin) (stateBased : Bool)
    (eventId originType originTypeHash : ℕ) :
    attachImpl L s origin stateBased eventId originType originTypeHash = .error .waitSetFull ↔
      (¬∃ i trigger, s.triggerArray i = some trigger ∧ trigger.origin = origin ∧
        trigger.originTriggerType = originType ∧ trigger.originTriggerTypeHash = originTypeHash) ∧
      ∀ i < L.capacity, (s.triggerArray i).isSome := by
  -- the repository is empty exactly when no slot is free
  have hempty : s.indexRepository = [] ↔ ∀ i < L.capacity, (s.triggerArray i).isSome := by
    rw [List.eq_nil_iff_forall_not_mem]
    simp only [h.mem_indexRepository, not_and, Option.isSome_iff_ne_none]
  rw [← any_isAttached_iff h, ← hempty, attachImpl]
  by_cases hattached : (List.range L.capacity).any (isAttached s origin originType originTypeHash)
  · simp [hattached]
  · rw [if_neg hattached]
    simp only [hattached]
    cases s.indexRepository <;> simp [pop]

/-- An attachment that succeeds takes the top of the index repository, a free slot. -/
theorem attachImpl_eq_ok {origin : Origin} {stateBased : Bool} {eventId originType originTypeHash : ℕ}
    {index : ℕ} (hok : attachImpl L s origin stateBased eventId originType originTypeHash =
      .ok (s', index)) :
    (List.range L.capacity).any (isAttached s origin originType originTypeHash) = false ∧
      ∃ rest, s.indexRepository = index :: rest ∧
        s' = { s with
          triggerArray := update s.triggerArray index
            (some ⟨origin, eventId, index, if stateBased then .stateBased else .eventBased,
              originType, originTypeHash⟩)
          indexRepository := rest
          notifiedSinceAttach := update s.notifiedSinceAttach index false } := by
  unfold attachImpl at hok
  by_cases hattached : (List.range L.capacity).any (isAttached s origin originType originTypeHash)
  · rw [if_pos hattached] at hok
    cases hok
  rw [if_neg hattached] at hok
  cases hstack : s.indexRepository with
  | nil => simp [hstack, pop] at hok
  | cons top rest =>
    simp only [hstack, pop, Except.ok.injEq, Prod.mk.injEq] at hok
    obtain ⟨rfl, rfl⟩ := hok
    exact ⟨by simpa using hattached, rest, rfl, rfl⟩

/-- **The invariant survives an attachment.** -/
theorem Inv.attachImpl (h : Inv L s) {origin : Origin} {stateBased : Bool}
    {eventId originType originTypeHash index : ℕ}
    (hok : attachImpl L s origin stateBased eventId originType originTypeHash = .ok (s', index)) :
    Inv L s' ∧ (s'.triggerArray index).isSome := by
  obtain ⟨hfresh, rest, hstack, rfl⟩ := attachImpl_eq_ok hok
  have hfree := (h.mem_indexRepository index).1 (by simp [hstack])
  have hnodup := h.nodup_indexRepository
  rw [hstack, List.nodup_cons] at hnodup
  -- a slot other than `index` is as it was
  have hother : ∀ j, j ≠ index → update s.triggerArray index
      (some ⟨origin, eventId, index, if stateBased then .stateBased else .eventBased,
        originType, originTypeHash⟩) j = s.triggerArray j := fun j hj ↦ Function.update_of_ne hj _ _
  refine ⟨⟨fun j hj ↦ ?_, fun j t ht ↦ ?_, hnodup.2, fun j ↦ ?_, fun i j t u ht hu ho hty hhash ↦ ?_,
    h.sorted, h.active_lt, h.notifications_lt, h.wasNotified_iff, fun j hj hnotified ↦ ?_⟩,
    by simp⟩
  · by_cases hji : j = index
    · exact hji ▸ hfree.1
    · exact h.lt_capacity j (by simpa [hother j hji] using hj)
  · by_cases hji : j = index
    · subst hji
      simp only [Function.update_self, Option.some.injEq] at ht
      rw [← ht]
    · exact h.uniqueId j t (by simpa [hother j hji] using ht)
  · by_cases hji : j = index
    · subst hji
      simp [hnodup.1]
    · dsimp only
      rw [hother j hji, ← h.mem_indexRepository j, hstack, List.mem_cons]
      simp [hji]
  · -- the new trigger is logically equal to no attached one
    have hnot : ∀ k u, s.triggerArray k = some u → u.origin = origin →
        u.originTriggerType = originType → u.originTriggerTypeHash = originTypeHash → False := by
      intro k u hu ho hty hhash
      have := (any_isAttached_iff h).2 ⟨k, u, hu, ho, hty, hhash⟩
      simp [this] at hfresh
    by_cases hi : i = index <;> by_cases hj : j = index
    · rw [hi, hj]
    · subst hi
      simp only [Function.update_self, Option.some.injEq] at ht
      subst ht
      exact (hnot j u (by simpa [hother j hj] using hu) ho.symm hty.symm hhash.symm).elim
    · subst hj
      simp only [Function.update_self, Option.some.injEq] at hu
      subst hu
      exact (hnot i t (by simpa [hother i hi] using ht) ho hty hhash).elim
    · exact h.logical i j t u (by simpa [hother i hi] using ht) (by simpa [hother j hj] using hu)
        ho hty hhash
  · by_cases hji : j = index
    · subst hji
      simp at hnotified
    · exact h.pending j (by simpa [hother j hji] using hj)
        (by simpa [Function.update_of_ne hji] using hnotified)

end Attach

/-! ## Detaching -/

/-- **`removeTrigger` empties the slot of its id** and pushes the id back, when the slot holds a
trigger; otherwise it does nothing. The `IOX_ENFORCE` on the push holds. -/
theorem removeTrigger_eq (h : Inv L s) (uniqueTriggerId : ℕ) :
    removeTrigger L s uniqueTriggerId =
      if (s.triggerArray uniqueTriggerId).isSome then
        { s with
          triggerArray := update s.triggerArray uniqueTriggerId none
          indexRepository := uniqueTriggerId :: s.indexRepository }
      else s := by
  unfold removeTrigger
  cases hfind : (List.range L.capacity).find?
      (fun i ↦ (s.triggerArray i).any (·.uniqueId == uniqueTriggerId)) with
  | none =>
    -- no slot holds the id, in particular not the slot of that index
    rw [List.find?_eq_none] at hfind
    cases ht : s.triggerArray uniqueTriggerId with
    | none => simp
    | some t =>
      have hlt := h.lt_capacity uniqueTriggerId (by simp [ht])
      exact (hfind uniqueTriggerId (List.mem_range.2 hlt) (by simp [ht, h.uniqueId _ t ht])).elim
  | some i =>
    obtain ⟨hholds, -⟩ := List.find?_eq_some_iff_append.1 hfind
    obtain ⟨t, ht, hid⟩ := (Option.any_eq_true _ _).1 hholds
    have hi : i = uniqueTriggerId := (h.uniqueId i t ht).symm.trans (eq_of_beq hid)
    subst hi
    have hsome : (s.triggerArray i).isSome := by simp [ht]
    simp [hsome, push, length_indexRepository_lt h hsome]

theorem Inv.removeTrigger (h : Inv L s) (uniqueTriggerId : ℕ) :
    Inv L (removeTrigger L s uniqueTriggerId) := by
  rw [removeTrigger_eq h]
  split_ifs with hsome
  · have hother : ∀ j, j ≠ uniqueTriggerId →
        update s.triggerArray uniqueTriggerId none j = s.triggerArray j :=
      fun j hj ↦ Function.update_of_ne hj _ _
    refine ⟨fun j hj ↦ ?_, fun j t ht ↦ ?_, ?_, fun j ↦ ?_, fun i j t u ht hu ↦ ?_, h.sorted,
      h.active_lt, h.notifications_lt, h.wasNotified_iff, fun j hj ↦ ?_⟩
    · by_cases hji : j = uniqueTriggerId
      · simp [hji] at hj
      · exact h.lt_capacity j (by simpa [hother j hji] using hj)
    · by_cases hji : j = uniqueTriggerId
      · simp [hji] at ht
      · exact h.uniqueId j t (by simpa [hother j hji] using ht)
    · -- the id was not free, so it is not in the repository yet
      refine List.nodup_cons.2 ⟨fun hmem ↦ ?_, h.nodup_indexRepository⟩
      have := ((h.mem_indexRepository _).1 hmem).2
      simp [this] at hsome
    · by_cases hji : j = uniqueTriggerId
      · subst hji
        simp [h.lt_capacity j hsome]
      · simp only [List.mem_cons, hji, false_or, hother j hji]
        exact h.mem_indexRepository j
    · by_cases hi : i = uniqueTriggerId
      · simp [hi] at ht
      · by_cases hj : j = uniqueTriggerId
        · simp [hj] at hu
        · exact h.logical i j t u (by simpa [hother i hi] using ht) (by simpa [hother j hj] using hu)
    · by_cases hji : j = uniqueTriggerId
      · simp [hji] at hj
      · exact h.pending j (by simpa [hother j hji] using hj)
  · exact h

/-! ## Notifying -/

theorem Inv.notify (h : Inv L s) {index : ℕ} (hindex : (s.triggerArray index).isSome) :
    Inv L (notify L s index) := by
  unfold WaitSet.notify
  split_ifs with hlarge
  · exact { h with }
  · refine { h with notifications_lt := fun i hi ↦ ?_, wasNotified_iff := ?_, pending := ?_ }
    · by_cases hii : i = index
      · subst hii
        exact ⟨h.lt_capacity i hindex, by omega⟩
      · exact h.notifications_lt i (by simpa [Function.update_of_ne hii] using hi)
    · exact iff_of_true rfl ⟨index, by simp⟩
    · intro i hi hnotified
      by_cases hii : i = index
      · subst hii
        exact .inl (by simp)
      · simp only [Function.update_of_ne hii] at hnotified ⊢
        exact h.pending i hi hnotified

/-! ## Collecting notifications -/

theorem mem_collect {i : ℕ} :
    i ∈ collect L s ↔ i < L.maxNumberOfNotifiers ∧ s.notifications i = true := by
  simp [collect]

/-- Under the invariant a scan collects every set flag. -/
theorem Inv.mem_collect (h : Inv L s) {i : ℕ} : i ∈ collect L s ↔ s.notifications i = true :=
  WaitSet.mem_collect.trans ⟨And.right, fun hi ↦ ⟨(h.notifications_lt i hi).2, hi⟩⟩

theorem Inv.collect_eq_nil_iff (h : Inv L s) : collect L s = [] ↔ s.wasNotified = false := by
  rw [List.eq_nil_iff_forall_not_mem, ← Bool.not_eq_true, h.wasNotified_iff]
  simp only [h.mem_collect, not_exists]

/-- **`acquireNotifications`, once the flags keep the invariant**: a listener to be destroyed
collects nothing; otherwise every set flag is collected and reset and lands among the active
notifications, and when no flag is set `wait()` blocks and `timedWait()` changes nothing. -/
theorem acquireNotifications_eq (h : Inv L s) (call : WaitCall) :
    acquireNotifications L s call =
      if s.toBeDestroyed then some s
      else if s.wasNotified then
        some { s with
          notifications := fun _ ↦ false
          wasNotified := false
          activeNotifications :=
            if s.activeNotifications = [] then collect L s
            else uniqueMergeSortedNotificationVector (collect L s) s.activeNotifications }
      else
        match call with
        | .wait => none
        | .timedWait => some s := by
  unfold acquireNotifications listenerWait
  dsimp only
  by_cases hdestroyed : s.toBeDestroyed = true
  · -- nothing is collected, and an empty collection changes no active notification
    rw [if_pos hdestroyed, if_pos hdestroyed, Option.map_some]
    by_cases hempty : s.activeNotifications = []
    · rw [if_pos hempty, ← hempty]
    · rw [if_neg hempty, if_neg (not_not.2 rfl)]
  · rw [if_neg hdestroyed, if_neg hdestroyed]
    by_cases hnotified : s.wasNotified = true
    · have hcollect : collect L s ≠ [] := fun hnil ↦ by
        simp [h.collect_eq_nil_iff.1 hnil] at hnotified
      -- every set flag is among the collected ones, so all flags are reset
      have hreset : (fun i ↦ if i ∈ collect L s then false else s.notifications i) =
          fun _ ↦ false := by
        funext i
        by_cases hi : i ∈ collect L s
        · simp [hi]
        · simpa [hi] using mt h.mem_collect.2 hi
      rw [if_pos hcollect, if_pos hnotified, Option.map_some, hreset]
      by_cases hempty : s.activeNotifications = []
      · rw [if_pos hempty, if_pos hempty]
      · rw [if_neg hempty, if_pos hcollect, if_neg hempty]
    · have hcollect : collect L s = [] := h.collect_eq_nil_iff.2 (by simpa using hnotified)
      rw [if_neg (not_not.2 hcollect), if_neg hnotified]
      cases call with
      | wait => rfl
      | timedWait =>
        rw [Option.map_some]
        by_cases hempty : s.activeNotifications = []
        · rw [if_pos hempty, ← hempty]
        · rw [if_neg hempty, if_neg (not_not.2 rfl)]

/-- `s'` has the slots, the repository, the listener's flag and the failure of `s`: what a wait
leaves alone. -/
structure WaitFrame (s s' : State Origin) : Prop where
  triggerArray : s'.triggerArray = s.triggerArray
  indexRepository : s'.indexRepository = s.indexRepository
  toBeDestroyed : s'.toBeDestroyed = s.toBeDestroyed
  fatal : s'.fatal = s.fatal

theorem WaitFrame.trans {s'' : State Origin} (h : WaitFrame s s') (h' : WaitFrame s' s'') :
    WaitFrame s s'' :=
  ⟨h'.1.trans h.1, h'.2.trans h.2, h'.3.trans h.3, h'.4.trans h.4⟩

/-- **What `acquireNotifications` keeps and gathers**: the invariant, the frame and the ghost
record; unless the listener is to be destroyed, every set flag and every active notification
ends up active; and it raises no flag and activates nothing that was neither flagged nor
active. -/
theorem acquireNotifications_spec (h : Inv L s) {call : WaitCall}
    (ha : acquireNotifications L s call = some s') :
    Inv L s' ∧ WaitFrame s s' ∧ s'.notifiedSinceAttach = s.notifiedSinceAttach ∧
      (s.toBeDestroyed = false → ∀ i, s.notifications i = true ∨ i ∈ s.activeNotifications →
        i ∈ s'.activeNotifications) ∧
      (∀ i, s'.notifications i = true ∨ i ∈ s'.activeNotifications →
        s.notifications i = true ∨ i ∈ s.activeNotifications) := by
  rw [acquireNotifications_eq h] at ha
  by_cases hdestroyed : s.toBeDestroyed = true
  · rw [if_pos hdestroyed] at ha
    cases ha
    exact ⟨h, ⟨rfl, rfl, rfl, rfl⟩, rfl, fun hd ↦ by simp [hd] at hdestroyed, fun _ hi ↦ hi⟩
  rw [if_neg hdestroyed] at ha
  by_cases hnotified : s.wasNotified = true
  · rw [if_pos hnotified] at ha
    cases ha
    -- the new active notifications are the collected flags and the old ones, ascending
    have hmem : ∀ i, i ∈ (if s.activeNotifications = [] then collect L s
        else uniqueMergeSortedNotificationVector (collect L s) s.activeNotifications) ↔
          s.notifications i = true ∨ i ∈ s.activeNotifications := by
      intro i
      by_cases hempty : s.activeNotifications = []
      · simp [hempty, h.mem_collect]
      · simp [hempty, uniqueMergeSortedNotificationVector, h.mem_collect]
    have hsorted : (if s.activeNotifications = [] then collect L s
        else uniqueMergeSortedNotificationVector (collect L s) s.activeNotifications).Pairwise
          (· < ·) := by
      have hcollect : (collect L s).Pairwise (· < ·) := List.pairwise_lt_range.filter _
      by_cases hempty : s.activeNotifications = []
      · rw [if_pos hempty]
        exact hcollect
      · rw [if_neg hempty]
        exact SortedMerge.pairwise_uniqueMerge hcollect h.sorted
    refine ⟨⟨h.lt_capacity, h.uniqueId, h.nodup_indexRepository, h.mem_indexRepository,
      h.logical, hsorted, fun i hi ↦ ?_, nofun, by simp, fun i hi hn ↦ .inr ((hmem i).2
        (h.pending i hi hn))⟩, ⟨rfl, rfl, rfl, rfl⟩, rfl, fun _ i hi ↦ (hmem i).2 hi,
      fun i hi ↦ ?_⟩
    · rcases (hmem i).1 hi with hi | hi
      · exact (h.notifications_lt i hi).1
      · exact h.active_lt i hi
    · -- every flag is reset
      rcases hi with hi | hi
      · cases hi
      · exact (hmem i).1 hi
  · rw [if_neg hnotified] at ha
    cases call with
    | wait => cases ha
    | timedWait =>
      cases ha
      -- no flag is set, so the pending triggers are all active already
      refine ⟨h, ⟨rfl, rfl, rfl, rfl⟩, rfl, fun _ i hi ↦ ?_, fun _ hi ↦ hi⟩
      rcases hi with hi | hi
      · exact absurd (h.wasNotified_iff.2 ⟨i, hi⟩) hnotified
      · exact hi

/-! ## Reporting triggers -/

/-- **The loop of `createVectorWithTriggeredTriggers`** after the positions from `i - 1` down to
`0`: those positions are filtered, the later ones untouched, the reported triggers collected in
the order of the walk, and the ghost record cleared where an index was erased. -/
theorem createVectorLoop_eq (hasTriggered : ℕ → Bool) : ∀ (i : ℕ) (s : State Origin)
    (triggers : List ℕ), i ≤ s.activeNotifications.length →
    createVectorLoop hasTriggered i (s, triggers) =
      ({ s with
          activeNotifications :=
            (s.activeNotifications.take i).filter
              (fun index ↦ !doRemoveNotificationId s.triggerArray hasTriggered index) ++
              s.activeNotifications.drop i
          notifiedSinceAttach := fun j ↦ s.notifiedSinceAttach j &&
            !(decide (j ∈ s.activeNotifications.take i) &&
              doRemoveNotificationId s.triggerArray hasTriggered j) },
        triggers ++
          ((s.activeNotifications.take i).filter (reported s.triggerArray hasTriggered)).reverse)
  | 0, s, triggers, _ => by
    cases s
    simp [createVectorLoop]
  | i + 1, s, triggers, hi => by
    have hlt : i < s.activeNotifications.length := hi
    have hget : s.activeNotifications.getD i 0 = s.activeNotifications[i] := by
      simp [List.getD_eq_getElem?_getD, List.getElem?_eq_getElem hlt]
    have htake := List.take_succ_eq_append_getElem hlt
    have hdrop := List.drop_eq_getElem_cons hlt
    have hmem : ∀ j, j ∈ s.activeNotifications.take (i + 1) ↔
        j ∈ s.activeNotifications.take i ∨ j = s.activeNotifications[i] := by
      intro j
      rw [htake, List.mem_append, List.mem_singleton]
    rw [createVectorLoop, createVectorTurn]
    dsimp only
    rw [hget]
    by_cases hremove :
        doRemoveNotificationId s.triggerArray hasTriggered s.activeNotifications[i] = true
    · -- the index at `i` is erased: the positions below `i` and above it stay where they were
      have herase := List.eraseIdx_eq_take_drop_succ s.activeNotifications i
      have hlen : (s.activeNotifications.take i).length = i := List.length_take_of_le hlt.le
      simp only [hremove, if_true]
      rw [createVectorLoop_eq hasTriggered i _ _
        (by simp only [herase, List.length_append, List.length_drop]; omega)]
      simp only [herase, List.take_left' hlen, List.drop_left' hlen, htake, List.filter_append,
        List.reverse_append, List.append_assoc]
      rw [Prod.mk.injEq]
      refine ⟨?_, ?_⟩
      · congr 1
        · simp [hremove]
        · funext j
          by_cases hj : j = s.activeNotifications[i]
          · subst hj
            simp [hremove, hmem]
          · simp [hmem, hj]
      · cases hreport : reported _ hasTriggered _ <;> simp [hreport]
    · have hkeep : doRemoveNotificationId s.triggerArray hasTriggered s.activeNotifications[i] =
          false := by simpa using hremove
      simp only [hkeep, Bool.false_eq_true, if_false]
      rw [createVectorLoop_eq hasTriggered i _ _ hlt.le]
      simp only [htake, List.filter_append, List.reverse_append, List.append_assoc]
      rw [Prod.mk.injEq]
      refine ⟨?_, ?_⟩
      · congr 1
        · rw [hdrop]
          simp [hkeep]
        · funext j
          by_cases hj : j = s.activeNotifications[i]
          · subst hj
            simp [hkeep]
          · simp [hmem, hj]
      · cases hreport : reported _ hasTriggered _ <;> simp [hreport]

/-- **`createVectorWithTriggeredTriggers`**: the reported triggers, in the reverse order of
`m_activeNotifications`, and the indices that are done with erased. -/
theorem createVectorWithTriggeredTriggers_eq (s : State Origin) (hasTriggered : ℕ → Bool) :
    createVectorWithTriggeredTriggers s hasTriggered =
      ({ s with
          activeNotifications := s.activeNotifications.filter
            fun index ↦ !doRemoveNotificationId s.triggerArray hasTriggered index
          notifiedSinceAttach := fun j ↦ s.notifiedSinceAttach j &&
            !(decide (j ∈ s.activeNotifications) &&
              doRemoveNotificationId s.triggerArray hasTriggered j) },
        (s.activeNotifications.filter (reported s.triggerArray hasTriggered)).reverse) := by
  rw [createVectorWithTriggeredTriggers, createVectorLoop_eq _ _ _ _ le_rfl]
  simp only [List.take_length, List.drop_length, List.append_nil, List.nil_append]

theorem Inv.createVector (h : Inv L s) (hasTriggered : ℕ → Bool) :
    Inv L (createVectorWithTriggeredTriggers s hasTriggered).1 ∧
      WaitFrame s (createVectorWithTriggeredTriggers s hasTriggered).1 := by
  rw [createVectorWithTriggeredTriggers_eq]
  refine ⟨{ h with
    sorted := h.sorted.filter _
    active_lt := fun i hi ↦ h.active_lt i (List.mem_of_mem_filter hi)
    pending := fun i hi hnotified ↦ ?_ }, ⟨rfl, rfl, rfl, rfl⟩⟩
  -- an index that stays pending was not erased
  simp only [Bool.and_eq_true, Bool.not_eq_true', Bool.and_eq_false_iff, decide_eq_false_iff_not]
    at hnotified
  rcases h.pending i hi hnotified.1 with hflag | hactive
  · exact .inl hflag
  · refine .inr (List.mem_filter.2 ⟨hactive, ?_⟩)
    rcases hnotified.2 with hout | hkeep
    · exact absurd hactive hout
    · simp [hkeep]

/-- The trigger in slot `i` is due at a wait: it was notified since it was attached or last
reported, and it is event-based or its state condition holds. -/
def Due (s : State Origin) (hasTriggered : ℕ → Bool) (i : ℕ) : Prop :=
  ∃ trigger, s.triggerArray i = some trigger ∧ s.notifiedSinceAttach i = true ∧
    (trigger.triggerType = .eventBased ∨ hasTriggered i = true)

theorem Inv.reported_of_due (h : Inv L s) {hasTriggered : ℕ → Bool} {i : ℕ}
    (hdue : Due s hasTriggered i) : reported s.triggerArray hasTriggered i = true := by
  obtain ⟨trigger, ht, -, htype⟩ := hdue
  simp only [reported, ht, Option.any_some, Trigger.isStateConditionSatisfied, h.isValid ht]
  rcases htype with htype | htype
  · rw [htype]
  · cases trigger.triggerType <;> simp [htype]

/-- The first step of `waitAndReturnTriggeredTriggers`: when `m_wasNotified` is set, the
notifications are acquired; either way every set flag and every pending index is active after it,
unless the listener is to be destroyed. -/
theorem firstAcquire_spec (h : Inv L s) {call : WaitCall} {s₁ : State Origin}
    (hfirst : (if s.wasNotified then acquireNotifications L s call else some s) = some s₁) :
    Inv L s₁ ∧ WaitFrame s s₁ ∧ s₁.notifiedSinceAttach = s.notifiedSinceAttach ∧
      (s.toBeDestroyed = false → ∀ i, s.notifications i = true ∨ i ∈ s.activeNotifications →
        i ∈ s₁.activeNotifications) ∧
      (∀ i, s₁.notifications i = true ∨ i ∈ s₁.activeNotifications →
        s.notifications i = true ∨ i ∈ s.activeNotifications) := by
  by_cases hnotified : s.wasNotified = true
  · rw [if_pos hnotified] at hfirst
    exact acquireNotifications_spec h hfirst
  · rw [if_neg hnotified] at hfirst
    cases hfirst
    -- no flag is set, so a pending index is active
    refine ⟨h, ⟨rfl, rfl, rfl, rfl⟩, rfl, fun _ i hi ↦ ?_, fun _ hi ↦ hi⟩
    rcases hi with hi | hi
    · exact absurd (h.wasNotified_iff.2 ⟨i, hi⟩) hnotified
    · exact hi

/-- The triggers a `createVectorWithTriggeredTriggers` reports: each once, each reported. -/
theorem createVector_snd_spec (h : Inv L s) (hasTriggered : ℕ → Bool) :
    (createVectorWithTriggeredTriggers s hasTriggered).2.Nodup ∧
      ∀ i ∈ (createVectorWithTriggeredTriggers s hasTriggered).2,
        i ∈ s.activeNotifications ∧ reported s.triggerArray hasTriggered i = true := by
  rw [createVectorWithTriggeredTriggers_eq]
  refine ⟨List.nodup_reverse.2 ((h.sorted.imp fun hlt ↦ ne_of_lt hlt).filter _), fun i hi ↦ ?_⟩
  exact List.mem_filter.1 (List.mem_reverse.1 hi)

/-- **A reported trigger, state-based or event-based.** A trigger that
`createVectorWithTriggeredTriggers` reports is attached; a state-based one stays among the active
notifications, and an event-based one leaves them with its ghost record cleared. -/
theorem createVector_reported_spec {hasTriggered : ℕ → Bool} {i : ℕ}
    (hi : i ∈ (createVectorWithTriggeredTriggers s hasTriggered).2) :
    ∃ trigger, s.triggerArray i = some trigger ∧
      (trigger.triggerType = .stateBased →
        i ∈ (createVectorWithTriggeredTriggers s hasTriggered).1.activeNotifications) ∧
      (trigger.triggerType = .eventBased →
        i ∉ (createVectorWithTriggeredTriggers s hasTriggered).1.activeNotifications ∧
          (createVectorWithTriggeredTriggers s hasTriggered).1.notifiedSinceAttach i = false) := by
  rw [createVectorWithTriggeredTriggers_eq] at hi ⊢
  obtain ⟨hactive, hreported⟩ := List.mem_filter.1 (List.mem_reverse.1 hi)
  obtain ⟨trigger, ht, hsatisfied⟩ : ∃ trigger, s.triggerArray i = some trigger ∧
      trigger.isStateConditionSatisfied (hasTriggered i) = true := by
    cases ht : s.triggerArray i with
    | none => simp [reported, ht] at hreported
    | some trigger => exact ⟨trigger, rfl, by simpa [reported, ht] using hreported⟩
  refine ⟨trigger, ht, fun htype ↦ ?_, fun htype ↦ ?_⟩
  · -- a state-based trigger is never erased
    simp [hactive, doRemoveNotificationId, ht, htype]
  · -- a satisfied event-based trigger is erased wherever it occurs
    simp [doRemoveNotificationId, ht, htype, hsatisfied, hactive]

/-- **A wait is one `createVectorWithTriggeredTriggers`** after one or two acquisitions, from a
state that keeps the invariant, has the slots of `s`, and holds no flag or active index that `s`
did not. -/
theorem waitAndReturnTriggeredTriggers_eq_createVector (h : Inv L s) {call : WaitCall}
    {hasTriggered : ℕ → Bool} {triggers : List ℕ}
    (hwait : waitAndReturnTriggeredTriggers L s call hasTriggered = some (s', triggers)) :
    ∃ s₁, Inv L s₁ ∧ WaitFrame s s₁ ∧
      (∀ i, s₁.notifications i = true ∨ i ∈ s₁.activeNotifications →
        s.notifications i = true ∨ i ∈ s.activeNotifications) ∧
      createVectorWithTriggeredTriggers s₁ hasTriggered = (s', triggers) := by
  unfold waitAndReturnTriggeredTriggers at hwait
  obtain ⟨s₁, hfirst, hrest⟩ := Option.bind_eq_some_iff.1 hwait
  obtain ⟨hinv₁, hframe₁, -, -, hnew₁⟩ := firstAcquire_spec h hfirst
  by_cases hempty : (createVectorWithTriggeredTriggers s₁ hasTriggered).2.isEmpty = true
  · -- nothing reported: the wait acquires once more and reports from there
    rw [if_neg (by simp [hempty])] at hrest
    obtain ⟨s₂, hsecond, hresult⟩ := Option.map_eq_some_iff.1 hrest
    obtain ⟨hinv₂, hframe₂⟩ := hinv₁.createVector hasTriggered
    obtain ⟨hinv₃, hframe₃, -, -, hnew₃⟩ := acquireNotifications_spec hinv₂ hsecond
    refine ⟨s₂, hinv₃, (hframe₁.trans hframe₂).trans hframe₃, fun i hi ↦ hnew₁ i ?_, hresult⟩
    -- the report keeps the flags and only drops active indices
    rw [createVectorWithTriggeredTriggers_eq] at hnew₃
    rcases hnew₃ i hi with hi | hi
    · exact .inl hi
    · exact .inr (List.mem_of_mem_filter hi)
  · rw [if_pos (by simpa using hempty)] at hrest
    exact ⟨s₁, hinv₁, hframe₁, hnew₁, Option.some.inj hrest⟩

/-- **A wait reports every flagged or active trigger whose state condition holds**, unless the
listener is to be destroyed: the first acquisition keeps it active, so the first report names it
and the wait returns that report. -/
theorem waitAndReturnTriggeredTriggers_of_active (h : Inv L s) {call : WaitCall}
    {hasTriggered : ℕ → Bool} {triggers : List ℕ} (hd : s.toBeDestroyed = false) {i : ℕ}
    (hi : s.notifications i = true ∨ i ∈ s.activeNotifications)
    (hreported : reported s.triggerArray hasTriggered i = true)
    (hwait : waitAndReturnTriggeredTriggers L s call hasTriggered = some (s', triggers)) :
    i ∈ triggers := by
  unfold waitAndReturnTriggeredTriggers at hwait
  obtain ⟨s₁, hfirst, hrest⟩ := Option.bind_eq_some_iff.1 hwait
  obtain ⟨-, hframe₁, -, hactive₁, -⟩ := firstAcquire_spec h hfirst
  have hmem : i ∈ (createVectorWithTriggeredTriggers s₁ hasTriggered).2 := by
    rw [createVectorWithTriggeredTriggers_eq, hframe₁.triggerArray]
    exact List.mem_reverse.2 (List.mem_filter.2 ⟨hactive₁ hd i hi, hreported⟩)
  -- a report that names `i` is not empty, so the wait returns it
  rw [if_pos (by simpa using List.ne_nil_of_mem hmem)] at hrest
  have htriggers : (createVectorWithTriggeredTriggers s₁ hasTriggered).2 = triggers :=
    congrArg Prod.snd (Option.some.inj hrest)
  exact htriggers ▸ hmem

/-- **What a wait reports**: attached triggers whose state condition is satisfied, each once, and,
unless the listener is to be destroyed, every trigger that is due. The wait keeps the invariant
and leaves the slots alone. -/
theorem waitAndReturnTriggeredTriggers_spec (h : Inv L s) {call : WaitCall}
    {hasTriggered : ℕ → Bool} {triggers : List ℕ}
    (hwait : waitAndReturnTriggeredTriggers L s call hasTriggered = some (s', triggers)) :
    Inv L s' ∧ WaitFrame s s' ∧ triggers.Nodup ∧
      (∀ i ∈ triggers, reported s.triggerArray hasTriggered i = true) ∧
      (s.toBeDestroyed = false → ∀ i, Due s hasTriggered i → i ∈ triggers) := by
  obtain ⟨s₁, hinv₁, hframe₁, -, hcv⟩ := waitAndReturnTriggeredTriggers_eq_createVector h hwait
  obtain ⟨hinv, hframe⟩ := hinv₁.createVector hasTriggered
  obtain ⟨hnodup, hreported⟩ := createVector_snd_spec hinv₁ hasTriggered
  rw [hcv] at hinv hframe hnodup hreported
  refine ⟨hinv, hframe₁.trans hframe, hnodup, fun i hi ↦ ?_, fun hd i hdue ↦ ?_⟩
  · rw [← hframe₁.triggerArray]
    exact (hreported i hi).2
  · -- a due trigger is pending, and reported
    obtain ⟨trigger, ht, hnotified, htype⟩ := hdue
    exact waitAndReturnTriggeredTriggers_of_active h hd (h.pending i (by simp [ht]) hnotified)
      (h.reported_of_due ⟨trigger, ht, hnotified, htype⟩) hwait

/-- **A wait returns when a trigger is due**, unless the listener is to be destroyed. -/
theorem waitAndReturnTriggeredTriggers_isSome (h : Inv L s) (call : WaitCall)
    {hasTriggered : ℕ → Bool} (hd : s.toBeDestroyed = false) {i : ℕ}
    (hdue : Due s hasTriggered i) :
    (waitAndReturnTriggeredTriggers L s call hasTriggered).isSome := by
  -- the first step returns: a set `m_wasNotified` means a flag to collect
  have hfirst : ∃ s₁, (if s.wasNotified then acquireNotifications L s call else some s) =
      some s₁ := by
    by_cases hnotified : s.wasNotified = true
    · rw [if_pos hnotified, acquireNotifications_eq h, if_neg (by simp [hd]), if_pos hnotified]
      exact ⟨_, rfl⟩
    · exact ⟨s, if_neg hnotified⟩
  obtain ⟨s₁, hs₁⟩ := hfirst
  obtain ⟨-, hframe₁, -, hactive₁, -⟩ := firstAcquire_spec h hs₁
  obtain ⟨trigger, ht, hnotified, htype⟩ := hdue
  have hi : i ∈ (createVectorWithTriggeredTriggers s₁ hasTriggered).2 := by
    rw [createVectorWithTriggeredTriggers_eq, hframe₁.triggerArray]
    exact List.mem_reverse.2 (List.mem_filter.2 ⟨hactive₁ hd i (h.pending i (by simp [ht])
      hnotified), h.reported_of_due ⟨trigger, ht, hnotified, htype⟩⟩)
  have hne : (createVectorWithTriggeredTriggers s₁ hasTriggered).2 ≠ [] := List.ne_nil_of_mem hi
  simp [waitAndReturnTriggeredTriggers, hs₁, hne]

/-! ## Every run -/

section Run

variable [DecidableEq Origin]

/-- **Every call keeps the invariant.** -/
theorem inv_step (h : Inv L s) {action : Action Origin} (hstep : step L s action = some s') :
    Inv L s' := by
  cases action with
  | attachEvent origin eventId originType originTypeHash =>
    simp only [step] at hstep
    split_ifs at hstep
    cases hok : attachImpl L s origin false eventId originType originTypeHash with
    | ok result =>
      obtain ⟨s₁, index⟩ := result
      simp only [hok, Option.some.injEq] at hstep
      exact hstep ▸ (h.attachImpl hok).1
    | error e =>
      simp only [hok, Option.some.injEq] at hstep
      exact hstep ▸ h
  | attachState origin id originType originTypeHash hasTriggered =>
    simp only [step] at hstep
    split_ifs at hstep
    cases hok : attachImpl L s origin true id originType originTypeHash with
    | ok result =>
      obtain ⟨s₁, index⟩ := result
      obtain ⟨hinv₁, hslot⟩ := h.attachImpl hok
      simp only [hok] at hstep
      -- the attachment notifies at once when the condition already holds
      split_ifs at hstep
      · exact Option.some.inj hstep ▸ hinv₁.notify hslot
      · exact Option.some.inj hstep ▸ hinv₁
    | error e =>
      simp only [hok, Option.some.injEq] at hstep
      exact hstep ▸ h
  | detach uniqueTriggerId =>
    simp only [step] at hstep
    split_ifs at hstep
    exact Option.some.inj hstep ▸ h.removeTrigger uniqueTriggerId
  | notify uniqueTriggerId =>
    simp only [step] at hstep
    split_ifs at hstep with hfatal hslot
    · exact Option.some.inj hstep ▸ h.notify hslot
    · exact Option.some.inj hstep ▸ h
  | markForDestruction =>
    simp only [step] at hstep
    split_ifs at hstep
    exact Option.some.inj hstep ▸ { h with }
  | wait call hasTriggered =>
    simp only [step] at hstep
    split_ifs at hstep
    obtain ⟨⟨s₁, triggers⟩, hwait, rfl⟩ := Option.map_eq_some_iff.1 hstep
    exact (waitAndReturnTriggeredTriggers_spec h hwait).1

/-- **The invariant holds after every sequence of calls.** -/
theorem inv_run {actions : List (Action Origin)}
    (hrun : Scheduler.run (step L) (init L) actions = some s) : Inv L s :=
  Scheduler.run_invariant (fun _ _ _ h hstep ↦ inv_step h hstep) actions (inv_init L) hrun

variable (L) in
/-- What a wait set guarantees in a state: the invariant, `size()`, the answers of `attachImpl`,
and what a wait reports and when it returns. -/
structure Behaves (s : State Origin) : Prop where
  /-- The slots, the index repository and the pending notifications agree. -/
  inv : Inv L s
  /-- `size()` counts the attached triggers. -/
  size : L.capacity - s.indexRepository.length =
    ((List.range L.capacity).filter fun i ↦ (s.triggerArray i).isSome).length
  /-- `ALREADY_ATTACHED` exactly for an attachment logically equal to an attached one. -/
  alreadyAttached : ∀ origin stateBased eventId originType originTypeHash,
    attachImpl L s origin stateBased eventId originType originTypeHash = .error .alreadyAttached ↔
      ∃ i trigger, s.triggerArray i = some trigger ∧ trigger.origin = origin ∧
        trigger.originTriggerType = originType ∧ trigger.originTriggerTypeHash = originTypeHash
  /-- `WAIT_SET_FULL` exactly when no attachment is logically equal and every slot is taken. -/
  waitSetFull : ∀ origin stateBased eventId originType originTypeHash,
    attachImpl L s origin stateBased eventId originType originTypeHash = .error .waitSetFull ↔
      (¬∃ i trigger, s.triggerArray i = some trigger ∧ trigger.origin = origin ∧
        trigger.originTriggerType = originType ∧ trigger.originTriggerTypeHash = originTypeHash) ∧
      ∀ i < L.capacity, (s.triggerArray i).isSome
  /-- A wait reports attached triggers whose state condition holds, each once, and every due
  trigger unless the listener is to be destroyed. -/
  reports : ∀ call hasTriggered s' triggers,
    waitAndReturnTriggeredTriggers L s call hasTriggered = some (s', triggers) →
      triggers.Nodup ∧ (∀ i ∈ triggers, reported s.triggerArray hasTriggered i = true) ∧
      (s.toBeDestroyed = false → ∀ i, Due s hasTriggered i → i ∈ triggers)
  /-- A wait returns when a trigger is due, unless the listener is to be destroyed. -/
  returns : ∀ call hasTriggered i, s.toBeDestroyed = false → Due s hasTriggered i →
    (waitAndReturnTriggeredTriggers L s call hasTriggered).isSome

theorem waitSet_keeps_slots_and_reports_due_triggers (actions : List (Action Origin))
    (hrun : Scheduler.run (step L) (init L) actions = some s) : Behaves L s := by
  have h := inv_run hrun
  exact ⟨h, size_eq h, attachImpl_alreadyAttached_iff h, attachImpl_waitSetFull_iff h,
    fun _ _ _ _ hwait ↦ (waitAndReturnTriggeredTriggers_spec h hwait).2.2,
    fun call _ _ hd hdue ↦ waitAndReturnTriggeredTriggers_isSome h call hd hdue⟩

/-- A state-based and an event-based trigger attached to a wait set of four slots and notified:
the wait set keeps its invariant, and the next wait reports both. -/
theorem waitSet_keeps_slots_and_reports_due_triggers_of_two_triggers :
    ∃ s, Scheduler.run (step ⟨4, 4, Nat.le_of_ble_eq_true rfl⟩)
        (init ⟨4, 4, Nat.le_of_ble_eq_true rfl⟩ : State ℕ)
        [.attachState 10 0 1 2 false, .attachEvent 11 0 3 4, .notify 3, .notify 2] = some s ∧
      Behaves ⟨4, 4, Nat.le_of_ble_eq_true rfl⟩ s ∧
      (waitAndReturnTriggeredTriggers ⟨4, 4, Nat.le_of_ble_eq_true rfl⟩ s .wait
        fun _ ↦ true).map Prod.snd = some [3, 2] :=
  ⟨_, rfl, waitSet_keeps_slots_and_reports_due_triggers
    [.attachState 10 0 1 2 false, .attachEvent 11 0 3 4, .notify 3, .notify 2] rfl, by decide⟩

end Run

/-- **State-based triggers are reported again, event-based ones once.** After a wait, each
reported trigger is still attached. A state-based one stays among the active notifications, so
the next wait reports it again as long as its condition holds and the listener is not to be
destroyed. An event-based one has left them, so the next wait does not report it unless it was
notified in between. -/
theorem waitSet_rereports_state_based_and_drops_event_based (h : Inv L s) {call : WaitCall}
    {hasTriggered : ℕ → Bool} {triggers : List ℕ}
    (hwait : waitAndReturnTriggeredTriggers L s call hasTriggered = some (s', triggers)) {i : ℕ}
    (hi : i ∈ triggers) :
    ∃ trigger, s'.triggerArray i = some trigger ∧
      (trigger.triggerType = .stateBased → s'.toBeDestroyed = false →
        ∀ call' hasTriggered' s'' triggers', hasTriggered' i = true →
          waitAndReturnTriggeredTriggers L s' call' hasTriggered' = some (s'', triggers') →
            i ∈ triggers') ∧
      (trigger.triggerType = .eventBased → s'.notifications i = false →
        ∀ call' hasTriggered' s'' triggers',
          waitAndReturnTriggeredTriggers L s' call' hasTriggered' = some (s'', triggers') →
            i ∉ triggers') := by
  obtain ⟨s₁, hinv₁, -, -, hcv⟩ := waitAndReturnTriggeredTriggers_eq_createVector h hwait
  have hi₁ : i ∈ (createVectorWithTriggeredTriggers s₁ hasTriggered).2 := by
    rw [hcv]
    exact hi
  obtain ⟨hinv, hframe⟩ := hinv₁.createVector hasTriggered
  obtain ⟨trigger, ht, hstate, hevent⟩ := createVector_reported_spec hi₁
  rw [hcv] at hinv hframe hstate hevent
  dsimp only at hinv hframe hstate hevent
  have ht' : s'.triggerArray i = some trigger := by
    rw [hframe.triggerArray]
    exact ht
  refine ⟨trigger, ht', fun htype hd call' hasTriggered' s'' triggers' hsatisfied hwait' ↦ ?_,
    fun htype hflag call' hasTriggered' s'' triggers' hwait' hi' ↦ ?_⟩
  · -- still active and satisfied: the next wait reports it
    refine waitAndReturnTriggeredTriggers_of_active hinv hd (.inr (hstate htype)) ?_ hwait'
    simp [reported, ht', Trigger.isStateConditionSatisfied, htype, hinv.isValid ht', hsatisfied]
  · -- neither active nor flagged: the next wait cannot report it
    obtain ⟨s₂, hinv₂, -, hnew₂, hcv'⟩ := waitAndReturnTriggeredTriggers_eq_createVector hinv hwait'
    have hi₂ : i ∈ (createVectorWithTriggeredTriggers s₂ hasTriggered').2 := by
      rw [hcv']
      exact hi'
    rcases hnew₂ i (.inr ((createVector_snd_spec hinv₂ hasTriggered').2 i hi₂).1) with
      hflag' | hactive
    · rw [hflag] at hflag'
      cases hflag'
    · exact (hevent htype).1 hactive

/-- A state-based trigger and an event-based one attached to a wait set of four slots, which puts
them in slots `3` and `2`; both are notified and reported by a wait. -/
theorem waitSet_rereports_state_based_and_drops_event_based_of_two_triggers :
    let L : Limits := ⟨4, 4, Nat.le_of_ble_eq_true rfl⟩
    let s := (Scheduler.run (step L) (init L : State ℕ)
      [.attachState 10 0 1 2 false, .attachEvent 11 0 3 4, .notify 3, .notify 2]).getD (init L)
    let r := (waitAndReturnTriggeredTriggers L s .wait fun _ ↦ true).getD (s, [])
    ∃ trigger, r.1.triggerArray 3 = some trigger ∧
      (trigger.triggerType = .stateBased → r.1.toBeDestroyed = false →
        ∀ call' hasTriggered' s'' triggers', hasTriggered' 3 = true →
          waitAndReturnTriggeredTriggers L r.1 call' hasTriggered' = some (s'', triggers') →
            3 ∈ triggers') ∧
      (trigger.triggerType = .eventBased → r.1.notifications 3 = false →
        ∀ call' hasTriggered' s'' triggers',
          waitAndReturnTriggeredTriggers L r.1 call' hasTriggered' = some (s'', triggers') →
            3 ∉ triggers') := by
  intro L s r
  have hrun : Scheduler.run (step L) (init L : State ℕ)
      [.attachState 10 0 1 2 false, .attachEvent 11 0 3 4, .notify 3, .notify 2] = some s :=
    (Option.getD_of_ne_none (by decide) _).symm
  have hwait : waitAndReturnTriggeredTriggers L s .wait (fun _ ↦ true) = some r :=
    (Option.getD_of_ne_none (by decide) (s, [])).symm
  have hmem : 3 ∈ r.2 := by decide
  -- forget how `r` is computed, so that it is matched as a pair and not evaluated
  clear_value r
  obtain ⟨s', triggers⟩ := r
  exact waitSet_rereports_state_based_and_drops_event_based (inv_run hrun) hwait hmem

end Iox.Popo.WaitSet
