import Mathlib.Logic.Function.Basic
import Mathlib.Tactic.SplitIfs
import Iceoryx.Machine.Run

/-!
# `ConditionNotifier` and `ConditionListener` under any interleaving

A `ConditionVariableData` (`condition_variable_data.hpp`) is shared by any number of
`ConditionNotifier`s and one `ConditionListener`. `ConditionNotifier::notify` stores `true` to
`m_activeNotifications[m_notificationIndex]`, then `true` to `m_wasNotified`, then posts the
semaphore. `ConditionListener::wait` and `timedWait` both run `waitImpl`: count the semaphore
down to zero (`resetSemaphore`), then, until `m_toBeDestroyed`, scan every flag, clear the set
ones (`resetUnchecked`) and collect their indices; return when some were collected or when the
previous `waitCall` asked to, and otherwise block in the semaphore (`waitCall`).
`destroy` stores `m_toBeDestroyed` and posts.

## The model

Each atomic load and store and each semaphore operation is one sequentially consistent step of
its thread. The semaphore is its value: `post` fails on a semaphore at `IOX_SEM_VALUE_MAX`, which
`notify` and `destroy` report with `IOX_REPORT_FATAL`; after that no thread moves. `wait()` on a
semaphore of value zero is not enabled, and `timedWait()` on one may time out (`Action.timeout`).
The limits `MAX_NUMBER_OF_NOTIFIERS` (a build option) and `IOX_SEM_VALUE_MAX` (a platform
constant) are parameters.

Ghost state records what the threads see: `returned`, each listener call and the vector it
returned, in order; `stored`, for each store to `m_activeNotifications[i]` by a `notify`, the
index `i` and how many listener calls had returned at that moment.

## What is proved

Every returned vector lists distinct indices below `MAX_NUMBER_OF_NOTIFIERS` in increasing order,
and a `wait()` returns an empty vector only after `destroy()` (`returned_of_run`). Until
`destroy()`, every index a `notify` stores is in the vector of the first or the second call that
returns after the store (`delivered_of_run`). But the semaphore counts every post:
`IOX_SEM_VALUE_MAX + 1` calls of `notify` while the listener does not wait reach
`IOX_REPORT_FATAL` (`run_notifications_fatal`).
-/

namespace Iox.Popo.ConditionVariable

/-- The two limits the channel depends on. -/
structure Limits where
  /-- `MAX_NUMBER_OF_NOTIFIERS`, the size of `m_activeNotifications`. -/
  maxNumberOfNotifiers : ℕ
  /-- `IOX_SEM_VALUE_MAX`: `post` fails on a semaphore of this value. -/
  semValueMax : ℕ

/-- The fatal errors of `notify` and `destroy`. -/
inductive PoshError where
  | popoConditionNotifierSemaphoreCorruptInNotify
  | popoConditionListenerSemaphoreCorruptedInDestroy
  deriving DecidableEq, Repr

/-- The listener's call that runs `waitImpl`. -/
inductive WaitCall where
  | wait
  | timedWait
  deriving DecidableEq, Repr

/-- What the `waitCall` of each call returns once its semaphore operation is done: `wait()`'s
returns `true`, `timedWait()`'s returns `false` whether it took the semaphore or timed out. -/
def WaitCall.result : WaitCall → Bool
  | .wait => true
  | .timedWait => false

/-- Where a notifier thread is in `notify()`. -/
inductive Notifier where
  /-- Not in `notify()`. -/
  | idle
  /-- Has stored its flag; next, `m_wasNotified.store(true)`. -/
  | storeWasNotified
  /-- Next, `m_semaphore->post()`. -/
  | post
  deriving DecidableEq, Repr

/-- Where the listener is in `waitImpl(waitCall)`, with the locals `activeNotifications` and
`doReturnAfterNotificationCollection` it holds there. -/
inductive Listener where
  /-- Not in `wait()` or `timedWait()`. -/
  | idle
  /-- In `resetSemaphore()`; next, `m_semaphore->tryWait()`. -/
  | tryWait (call : WaitCall)
  /-- At the head of the `while` loop; next, `m_toBeDestroyed.load()`. -/
  | loadToBeDestroyed (call : WaitCall) (activeNotifications : List ℕ) (doReturn : Bool)
  /-- In the `for` loop at `i`; next, `m_activeNotifications[i].load()`. -/
  | loadActiveNotification (call : WaitCall) (i : ℕ) (activeNotifications : List ℕ)
      (doReturn : Bool)
  /-- In `resetUnchecked(i)`; next, `m_activeNotifications[i].store(false)`. -/
  | resetActiveNotification (call : WaitCall) (i : ℕ) (activeNotifications : List ℕ)
      (doReturn : Bool)
  /-- In `resetUnchecked(i)`; next, `m_wasNotified.store(false)`, then `emplace_back(i)`. -/
  | resetWasNotified (call : WaitCall) (i : ℕ) (activeNotifications : List ℕ) (doReturn : Bool)
  /-- In `waitCall()`; next, the semaphore's `wait()` or `timedWait()`. -/
  | waitCall (call : WaitCall) (activeNotifications : List ℕ)
  deriving DecidableEq, Repr

/-- The shared `ConditionVariableData`, the listener's `m_toBeDestroyed`, every thread, and the
ghost record of what they did. -/
structure State where
  /-- `m_activeNotifications`. -/
  activeNotifications : ℕ → Bool
  /-- `m_wasNotified`. -/
  wasNotified : Bool
  /-- The value of `m_semaphore`. -/
  semaphore : ℕ
  /-- `ConditionListener::m_toBeDestroyed`. -/
  toBeDestroyed : Bool
  /-- Each notifier thread. -/
  notifiers : ℕ → Notifier
  /-- The listener thread. -/
  listener : Listener
  /-- A thread in `destroy()` that has still to post. -/
  destroying : Bool
  /-- The error reported by `IOX_REPORT_FATAL`, which ends the process. -/
  fatal : Option PoshError
  /-- Each listener call and the vector it returned, in order. -/
  returned : List (WaitCall × List ℕ)
  /-- Each store of a flag by `notify`: its index and the number of calls returned before it. -/
  stored : List (ℕ × ℕ)

/-- A choice of the scheduler. -/
inductive Action where
  /-- Notifier thread `thread` calls `notify()` of a `ConditionNotifier` with index `index` and
  stores `m_activeNotifications[index] = true`. -/
  | notify (thread index : ℕ)
  /-- Notifier thread `thread` takes its next step. -/
  | notifier (thread : ℕ)
  /-- The listener calls `wait()` or `timedWait()`. -/
  | call (call : WaitCall)
  /-- The listener takes its next step. -/
  | listener
  /-- The listener's semaphore `timedWait` times out. -/
  | timeout
  /-- A thread calls `destroy()` and stores `m_toBeDestroyed = true`. -/
  | destroy
  /-- `destroy()` posts. -/
  | destroyPost

variable (L : Limits)

/-- A fresh `ConditionVariableData` (semaphore `0`, every flag `false`) and idle threads. -/
def init : State where
  activeNotifications _ := false
  wasNotified := false
  semaphore := 0
  toBeDestroyed := false
  notifiers _ := .idle
  listener := .idle
  destroying := false
  fatal := none
  returned := []
  stored := []

/-- `m_semaphore->post()`: `none` when the semaphore is at `IOX_SEM_VALUE_MAX`. -/
def post (semaphore : ℕ) : Option ℕ :=
  if semaphore < L.semValueMax then some (semaphore + 1) else none

/-! ### The notifiers -/

/-- `notify()` starts with `m_activeNotifications[index].store(true)`. A `ConditionNotifier`'s
constructor refuses an index from `MAX_NUMBER_OF_NOTIFIERS` on, so no such call exists. -/
def notifyCall (s : State) (thread index : ℕ) : Option State :=
  match s.notifiers thread with
  | .idle =>
    if index < L.maxNumberOfNotifiers then
      some { s with
        activeNotifications := Function.update s.activeNotifications index true
        notifiers := Function.update s.notifiers thread .storeWasNotified
        stored := s.stored ++ [(index, s.returned.length)] }
    else none
  | _ => none

/-- The next step of notifier thread `thread`. -/
def notifierStep (s : State) (thread : ℕ) : Option State :=
  match s.notifiers thread with
  | .idle => none
  | .storeWasNotified =>
    some { s with
      wasNotified := true
      notifiers := Function.update s.notifiers thread .post }
  | .post =>
    match post L s.semaphore with
    | some semaphore =>
      some { s with semaphore, notifiers := Function.update s.notifiers thread .idle }
    | none => some { s with fatal := some .popoConditionNotifierSemaphoreCorruptInNotify }

/-! ### The listener -/

/-- `waitImpl` returns `activeNotifications`. -/
def returnWith (s : State) (call : WaitCall) (activeNotifications : List ℕ) : State :=
  { s with listener := .idle, returned := s.returned ++ [(call, activeNotifications)] }

/-- The `for` loop from index `i` on, and after it the test
`!activeNotifications.empty() || doReturnAfterNotificationCollection`. -/
def scanFrom (s : State) (call : WaitCall) (i : ℕ) (activeNotifications : List ℕ)
    (doReturn : Bool) : State :=
  if i < L.maxNumberOfNotifiers then
    { s with listener := .loadActiveNotification call i activeNotifications doReturn }
  else if !activeNotifications.isEmpty || doReturn then
    returnWith s call activeNotifications
  else
    { s with listener := .waitCall call activeNotifications }

/-- The listener calls `wait()` or `timedWait()`: `waitImpl` starts with `resetSemaphore()`. -/
def listenerCall (s : State) (call : WaitCall) : Option State :=
  match s.listener with
  | .idle => some { s with listener := .tryWait call }
  | _ => none

/-- The next step of the listener; `none` when it is idle or blocked in the semaphore. -/
def listenerStep (s : State) : Option State :=
  match s.listener with
  | .idle => none
  | .tryWait call =>
    if 0 < s.semaphore then some { s with semaphore := s.semaphore - 1 }
    else some { s with listener := .loadToBeDestroyed call [] false }
  | .loadToBeDestroyed call activeNotifications doReturn =>
    if s.toBeDestroyed then some (returnWith s call activeNotifications)
    else some (scanFrom L s call 0 activeNotifications doReturn)
  | .loadActiveNotification call i activeNotifications doReturn =>
    if s.activeNotifications i then
      some { s with listener := .resetActiveNotification call i activeNotifications doReturn }
    else some (scanFrom L s call (i + 1) activeNotifications doReturn)
  | .resetActiveNotification call i activeNotifications doReturn =>
    some { s with
      activeNotifications := Function.update s.activeNotifications i false
      listener := .resetWasNotified call i activeNotifications doReturn }
  | .resetWasNotified call i activeNotifications doReturn =>
    some (scanFrom L { s with wasNotified := false } call (i + 1) (activeNotifications ++ [i])
      doReturn)
  | .waitCall call activeNotifications =>
    -- `wait()` blocks on a semaphore at zero; a `timedWait()` there waits for `timeout`
    if 0 < s.semaphore then
      some { s with
        semaphore := s.semaphore - 1
        listener := .loadToBeDestroyed call activeNotifications !call.result }
    else none

/-- The semaphore's `timedWait` returns after `timeToWait` without having been posted. -/
def timeout (s : State) : Option State :=
  match s.listener with
  | .waitCall .timedWait activeNotifications =>
    if s.semaphore = 0 then
      some { s with
        listener := .loadToBeDestroyed .timedWait activeNotifications !WaitCall.timedWait.result }
    else none
  | _ => none

/-! ### `destroy()` and the interleaving -/

/-- `destroy()` starts with `m_toBeDestroyed.store(true)`. -/
def destroyCall (s : State) : Option State :=
  if s.destroying then none else some { s with toBeDestroyed := true, destroying := true }

/-- `destroy()` posts the semaphore. -/
def destroyPost (s : State) : Option State :=
  if s.destroying then
    match post L s.semaphore with
    | some semaphore => some { s with semaphore, destroying := false }
    | none => some { s with fatal := some .popoConditionListenerSemaphoreCorruptedInDestroy }
  else none

/-- One step of the interleaving; `none` when the choice is not enabled or the process has
ended in `IOX_REPORT_FATAL`. -/
def step (s : State) (a : Action) : Option State :=
  match s.fatal with
  | some _ => none
  | none =>
    match a with
    | .notify thread index => notifyCall L s thread index
    | .notifier thread => notifierStep L s thread
    | .call call => listenerCall s call
    | .listener => listenerStep L s
    | .timeout => timeout s
    | .destroy => destroyCall s
    | .destroyPost => destroyPost L s

/-! ### The semaphore overflows -/

/-- One whole `notify()` by notifier thread `thread` with index `index`. -/
def notification (thread index : ℕ) : List Action :=
  [.notify thread index, .notifier thread, .notifier thread]

/-- `count` calls of `notify()`, one after another, by one notifier thread. -/
def notifications (thread index count : ℕ) : List Action :=
  (List.replicate count (notification thread index)).flatten

/-- A whole `notify()` on a semaphore below `IOX_SEM_VALUE_MAX` posts it once. -/
theorem run_notification_of_lt {s : State} {thread index : ℕ} (hfatal : s.fatal = none)
    (hidle : s.notifiers thread = .idle) (hindex : index < L.maxNumberOfNotifiers)
    (hsem : s.semaphore < L.semValueMax) :
    ∃ s', Scheduler.run (step L) s (notification thread index) = some s' ∧
      s'.fatal = none ∧ s'.notifiers thread = .idle ∧ s'.semaphore = s.semaphore + 1 := by
  simp only [notification, Scheduler.run, step, hfatal, notifyCall, hidle, if_pos hindex,
    Option.bind_some, notifierStep, Function.update_self, post, if_pos hsem]
  exact ⟨_, rfl, rfl, Function.update_self .., rfl⟩

/-- A whole `notify()` on a semaphore at `IOX_SEM_VALUE_MAX` ends in `IOX_REPORT_FATAL`. -/
theorem run_notification_of_eq {s : State} {thread index : ℕ} (hfatal : s.fatal = none)
    (hidle : s.notifiers thread = .idle) (hindex : index < L.maxNumberOfNotifiers)
    (hsem : s.semaphore = L.semValueMax) :
    ∃ s', Scheduler.run (step L) s (notification thread index) = some s' ∧
      s'.fatal = some .popoConditionNotifierSemaphoreCorruptInNotify := by
  have hpost : ¬ s.semaphore < L.semValueMax := by omega
  simp only [notification, Scheduler.run, step, hfatal, notifyCall, hidle, if_pos hindex,
    Option.bind_some, notifierStep, Function.update_self, post, if_neg hpost]
  exact ⟨_, rfl, rfl⟩

/-- `count` calls of `notify()` that keep the semaphore within `IOX_SEM_VALUE_MAX` raise it by
`count`. -/
theorem run_notifications_of_le {s : State} {thread index : ℕ} (count : ℕ)
    (hfatal : s.fatal = none) (hidle : s.notifiers thread = .idle)
    (hindex : index < L.maxNumberOfNotifiers) (hsem : s.semaphore + count ≤ L.semValueMax) :
    ∃ s', Scheduler.run (step L) s (notifications thread index count) = some s' ∧
      s'.fatal = none ∧ s'.notifiers thread = .idle ∧ s'.semaphore = s.semaphore + count := by
  induction count generalizing s with
  | zero => exact ⟨s, rfl, hfatal, hidle, rfl⟩
  | succ count ih =>
    obtain ⟨s₁, hrun₁, hfatal₁, hidle₁, hsem₁⟩ :=
      run_notification_of_lt L hfatal hidle hindex (by omega)
    obtain ⟨s', hrun', hfatal', hidle', hsem'⟩ := ih hfatal₁ hidle₁ (by omega)
    refine ⟨s', ?_, hfatal', hidle', by omega⟩
    rw [notifications, List.replicate_succ, List.flatten_cons, Scheduler.run_append, hrun₁,
      Option.bind_some]
    exact hrun'

/-- **The semaphore overflows.** From any state in which a notifier thread is idle, the calls of
`notify()` it makes while the listener takes no step take the semaphore to
`IOX_SEM_VALUE_MAX`, and the next one reaches `IOX_REPORT_FATAL`. -/
theorem run_notifications_fatal {s : State} {thread index count : ℕ} (hfatal : s.fatal = none)
    (hidle : s.notifiers thread = .idle) (hindex : index < L.maxNumberOfNotifiers)
    (hsem : s.semaphore ≤ L.semValueMax) (hcount : s.semaphore + count = L.semValueMax + 1) :
    ∃ s', Scheduler.run (step L) s (notifications thread index count) = some s' ∧
      s'.fatal = some .popoConditionNotifierSemaphoreCorruptInNotify := by
  obtain ⟨count, rfl⟩ : ∃ k, count = k + 1 := ⟨count - 1, by omega⟩
  obtain ⟨s₁, hrun₁, hfatal₁, hidle₁, hsem₁⟩ :=
    run_notifications_of_le L count hfatal hidle hindex (by omega)
  obtain ⟨s', hrun', hfatal'⟩ := run_notification_of_eq L hfatal₁ hidle₁ hindex (by omega)
  refine ⟨s', ?_, hfatal'⟩
  rw [notifications, List.replicate_succ', List.flatten_append, ← notifications,
    Scheduler.run_append, hrun₁, Option.bind_some, List.flatten_singleton]
  exact hrun'

/-- With the default `MAX_NUMBER_OF_NOTIFIERS` of 256 and Linux's `SEM_VALUE_MAX` of
`2147483647`, a notifier that calls `notify()` `2147483648` times on a fresh
`ConditionVariableData`, while the listener does not wait, reaches `IOX_REPORT_FATAL`. -/
theorem notify_reaches_fatal :
    ∃ s, Scheduler.run (step ⟨256, 2147483647⟩) init (notifications 0 0 2147483648) = some s ∧
      s.fatal = some .popoConditionNotifierSemaphoreCorruptInNotify :=
  run_notifications_fatal ⟨256, 2147483647⟩ rfl rfl (by decide) (by decide) rfl

/-! ### Frames: what a step of each thread leaves alone -/

/-- A step of a notifier or of `destroy()`: the listener and the returned vectors stay, no flag
is cleared, `m_toBeDestroyed` is not cleared, and the stores it adds are of flags it has set,
below `MAX_NUMBER_OF_NOTIFIERS`. -/
structure NotifierFrame (s s' : State) : Prop where
  listener : s'.listener = s.listener
  returned : s'.returned = s.returned
  toBeDestroyed : s.toBeDestroyed = true → s'.toBeDestroyed = true
  activeNotifications : ∀ j, s.activeNotifications j = true → s'.activeNotifications j = true
  stored : ∃ new, s'.stored = s.stored ++ new ∧ ∀ p ∈ new,
    p.1 < L.maxNumberOfNotifiers ∧ s'.activeNotifications p.1 = true ∧ p.2 = s.returned.length

/-- A step that touches none of what the listener sees. -/
theorem NotifierFrame.of_eq {s s' : State} (hl : s'.listener = s.listener)
    (hr : s'.returned = s.returned) (hd : s'.toBeDestroyed = s.toBeDestroyed)
    (ha : s'.activeNotifications = s.activeNotifications) (hs : s'.stored = s.stored) :
    NotifierFrame L s s' :=
  ⟨hl, hr, fun h ↦ hd ▸ h, fun j h ↦ ha ▸ h, ⟨[], by rw [hs, List.append_nil], nofun⟩⟩

theorem notifyCall_frame {s s' : State} {thread index : ℕ}
    (h : notifyCall L s thread index = some s') : NotifierFrame L s s' := by
  unfold notifyCall at h
  split at h
  · split_ifs at h with hindex
    cases h
    refine ⟨rfl, rfl, id, fun j hj ↦ ?_, ⟨[(index, s.returned.length)], rfl, ?_⟩⟩
    · show Function.update s.activeNotifications index true j = true
      by_cases hji : j = index
      · subst hji
        exact Function.update_self ..
      · rw [Function.update_of_ne hji]
        exact hj
    · intro p hp
      rw [List.mem_singleton.1 hp]
      exact ⟨hindex, Function.update_self .., rfl⟩
  · cases h

theorem notifierStep_frame {s s' : State} {thread : ℕ} (h : notifierStep L s thread = some s') :
    NotifierFrame L s s' := by
  unfold notifierStep at h
  split at h
  · cases h
  · cases h
    exact .of_eq L rfl rfl rfl rfl rfl
  · split at h <;> cases h
    · exact .of_eq L rfl rfl rfl rfl rfl
    · exact .of_eq L rfl rfl rfl rfl rfl

theorem destroyCall_frame {s s' : State} (h : destroyCall s = some s') : NotifierFrame L s s' := by
  unfold destroyCall at h
  split_ifs at h
  cases h
  exact ⟨rfl, rfl, fun _ ↦ rfl, fun _ h ↦ h, ⟨[], (List.append_nil _).symm, nofun⟩⟩

theorem destroyPost_frame {s s' : State} (h : destroyPost L s = some s') :
    NotifierFrame L s s' := by
  unfold destroyPost at h
  split_ifs at h
  split at h <;> cases h
  · exact .of_eq L rfl rfl rfl rfl rfl
  · exact .of_eq L rfl rfl rfl rfl rfl

/-- `destroy()` is the only writer of `m_toBeDestroyed`, and it only sets it. -/
theorem toBeDestroyed_destroyCall {s s' : State} (h : destroyCall s = some s') :
    s'.toBeDestroyed = true := by
  unfold destroyCall at h
  split_ifs at h
  cases h
  rfl

/-! ### What the listener returns -/

/-- The collected indices increase and lie below `bound`. -/
def Collected (bound : ℕ) (activeNotifications : List ℕ) : Prop :=
  activeNotifications.Pairwise (· < ·) ∧ ∀ j ∈ activeNotifications, j < bound

theorem collected_nil (bound : ℕ) : Collected bound [] :=
  ⟨.nil, fun _ h ↦ absurd h List.not_mem_nil⟩

theorem Collected.mono {bound bound' : ℕ} {acc : List ℕ} (h : Collected bound acc)
    (hle : bound ≤ bound') : Collected bound' acc :=
  ⟨h.1, fun j hj ↦ Nat.lt_of_lt_of_le (h.2 j hj) hle⟩

/-- The `for` loop collects index `i` after indices below it. -/
theorem Collected.concat {i : ℕ} {acc : List ℕ} (h : Collected i acc) :
    Collected (i + 1) (acc ++ [i]) := by
  refine ⟨List.pairwise_append.2 ⟨h.1, List.pairwise_singleton _ _, ?_⟩, fun j hj ↦ ?_⟩
  · intro a ha b hb
    rw [List.mem_singleton.1 hb]
    exact h.2 a ha
  · rcases List.mem_append.1 hj with hj | hj
    · exact Nat.lt_succ_of_lt (h.2 j hj)
    · rw [List.mem_singleton.1 hj]
      exact Nat.lt_succ_self i

/-- `doReturnAfterNotificationCollection` is only ever set in `timedWait()`. -/
def DoReturn (call : WaitCall) (doReturn : Bool) : Prop :=
  doReturn = true → call = .timedWait

theorem doReturn_result (call : WaitCall) : DoReturn call !call.result := by
  cases call
  · exact nofun
  · exact fun _ ↦ rfl

/-- What the listener's locals satisfy at each stage of `waitImpl`: nothing is collected at the
head of the loop or in `waitCall` (a non-empty collection returns), and the collection below the
loop's index increases. -/
def Listener.Inv : Listener → Prop
  | .idle | .tryWait _ => True
  | .loadToBeDestroyed call acc doReturn => acc = [] ∧ DoReturn call doReturn
  | .loadActiveNotification call i acc doReturn
  | .resetActiveNotification call i acc doReturn
  | .resetWasNotified call i acc doReturn =>
    i < L.maxNumberOfNotifiers ∧ Collected i acc ∧ DoReturn call doReturn
  | .waitCall _ acc => acc = []

/-- What the returned vectors satisfy: each is collected, and a `wait()` returned `[]` only once
`m_toBeDestroyed` was set. -/
def ReturnedInv (toBeDestroyed : Bool) (returned : List (WaitCall × List ℕ)) : Prop :=
  (∀ r ∈ returned, Collected L.maxNumberOfNotifiers r.2) ∧
    ((WaitCall.wait, []) ∈ returned → toBeDestroyed = true)

theorem ReturnedInv.append {toBeDestroyed : Bool} {returned : List (WaitCall × List ℕ)}
    {call : WaitCall} {acc : List ℕ} (h : ReturnedInv L toBeDestroyed returned)
    (hacc : Collected L.maxNumberOfNotifiers acc)
    (hwait : call = .wait → acc = [] → toBeDestroyed = true) :
    ReturnedInv L toBeDestroyed (returned ++ [(call, acc)]) := by
  refine ⟨fun r hr ↦ ?_, fun hr ↦ ?_⟩
  · rcases List.mem_append.1 hr with hr | hr
    · exact h.1 r hr
    · rw [List.mem_singleton.1 hr]
      exact hacc
  · rcases List.mem_append.1 hr with hr | hr
    · exact h.2 hr
    · obtain ⟨hcall, hnil⟩ := Prod.mk.inj (List.mem_singleton.1 hr)
      exact hwait hcall.symm hnil.symm

/-- **The listener's invariant.** -/
structure Inv (s : State) : Prop where
  listener : s.listener.Inv L
  returned : ReturnedInv L s.toBeDestroyed s.returned

theorem inv_init : Inv L init :=
  ⟨trivial, fun _ h ↦ absurd h List.not_mem_nil, fun h ↦ absurd h List.not_mem_nil⟩

theorem Inv.frame {s s' : State} (hs : Inv L s) (hf : NotifierFrame L s s') : Inv L s' := by
  refine ⟨hf.listener ▸ hs.listener, ⟨hf.returned ▸ hs.returned.1, fun h ↦ ?_⟩⟩
  exact hf.toBeDestroyed (hs.returned.2 (hf.returned ▸ h))

/-- The end of a scan returns only what it collected, and a `wait()` that collected nothing
does not return. -/
theorem inv_scanFrom {s : State} {call : WaitCall} {i : ℕ} {acc : List ℕ} {doReturn : Bool}
    (hr : ReturnedInv L s.toBeDestroyed s.returned) (hi : i ≤ L.maxNumberOfNotifiers)
    (hacc : Collected i acc) (hdo : DoReturn call doReturn) :
    Inv L (scanFrom L s call i acc doReturn) := by
  unfold scanFrom
  split_ifs with hlt hreturn
  · exact ⟨⟨hlt, hacc, hdo⟩, hr⟩
  · refine ⟨trivial, hr.append L (hacc.mono hi) fun hcall hnil ↦ ?_⟩
    subst hnil
    have hdoReturn : doReturn = true := by simpa using hreturn
    exact absurd (hdo hdoReturn) (by rw [hcall]; decide)
  · have hnil : acc = [] ∧ doReturn = false := by simpa using hreturn
    exact ⟨hnil.1, hr⟩

theorem inv_listenerCall {s s' : State} {call : WaitCall} (hs : Inv L s)
    (h : listenerCall s call = some s') : Inv L s' := by
  unfold listenerCall at h
  split at h
  · cases h
    exact ⟨trivial, hs.returned⟩
  · cases h

theorem inv_listenerStep {s s' : State} (hs : Inv L s) (h : listenerStep L s = some s') :
    Inv L s' := by
  obtain ⟨hl, hr⟩ := hs
  unfold listenerStep at h
  split at h
  · cases h
  · split_ifs at h <;> cases h
    · exact ⟨hl, hr⟩
    · exact ⟨⟨rfl, nofun⟩, hr⟩
  · rename_i call acc doReturn hpc
    rw [hpc] at hl
    obtain ⟨hnil, hdo⟩ := hl
    split_ifs at h with hd <;> cases h
    · exact ⟨trivial, hr.append L (hnil ▸ collected_nil _) fun _ _ ↦ hd⟩
    · exact inv_scanFrom L hr (Nat.zero_le _) (hnil ▸ collected_nil _) hdo
  · rename_i call i acc doReturn hpc
    rw [hpc] at hl
    obtain ⟨hi, hacc, hdo⟩ := hl
    split_ifs at h <;> cases h
    · exact ⟨⟨hi, hacc, hdo⟩, hr⟩
    · exact inv_scanFrom L hr hi (hacc.mono (Nat.le_succ i)) hdo
  · rename_i call i acc doReturn hpc
    rw [hpc] at hl
    cases h
    exact ⟨hl, hr⟩
  · rename_i call i acc doReturn hpc
    rw [hpc] at hl
    obtain ⟨hi, hacc, hdo⟩ := hl
    cases h
    exact inv_scanFrom L hr hi hacc.concat hdo
  · rename_i call acc hpc
    rw [hpc] at hl
    split_ifs at h
    cases h
    exact ⟨⟨hl, doReturn_result call⟩, hr⟩

theorem inv_timeout {s s' : State} (hs : Inv L s) (h : timeout s = some s') : Inv L s' := by
  obtain ⟨hl, hr⟩ := hs
  unfold timeout at h
  split at h
  · rename_i acc hpc
    rw [hpc] at hl
    split_ifs at h
    cases h
    exact ⟨⟨hl, doReturn_result .timedWait⟩, hr⟩
  · cases h

theorem inv_step {s s' : State} {a : Action} (hs : Inv L s) (h : step L s a = some s') :
    Inv L s' := by
  unfold step at h
  split at h
  · cases h
  · cases a with
    | notify thread index => exact hs.frame L (notifyCall_frame L h)
    | notifier thread => exact hs.frame L (notifierStep_frame L h)
    | call call => exact inv_listenerCall L hs h
    | listener => exact inv_listenerStep L hs h
    | timeout => exact inv_timeout L hs h
    | destroy => exact hs.frame L (destroyCall_frame L h)
    | destroyPost => exact hs.frame L (destroyPost_frame L h)

/-- **What the listener returns.** After every interleaving, each vector a `wait()` or a
`timedWait()` returned lists distinct indices below `MAX_NUMBER_OF_NOTIFIERS` in increasing
order, and a `wait()` returned an empty vector only if `destroy()` was called. -/
theorem returned_of_run {s : State} (schedule : List Action)
    (h : Scheduler.run (step L) init schedule = some s) :
    (∀ r ∈ s.returned, r.2.Pairwise (· < ·) ∧ ∀ j ∈ r.2, j < L.maxNumberOfNotifiers) ∧
      ((WaitCall.wait, []) ∈ s.returned → s.toBeDestroyed = true) :=
  (Scheduler.run_invariant (fun _ _ _ hs h ↦ inv_step L hs h) schedule (inv_init L) h).returned

/-! ### No notification is lost before `destroy()` -/

/-- The listener holds index `i` in the running call: it is clearing flag `i`, or has collected
`i`. -/
def Listener.Holds (i : ℕ) : Listener → Prop
  | .idle | .tryWait _ => False
  | .loadToBeDestroyed _ acc _ | .loadActiveNotification _ _ acc _ | .waitCall _ acc => i ∈ acc
  | .resetActiveNotification _ j acc _ | .resetWasNotified _ j acc _ => j = i ∨ i ∈ acc

/-- A scan of the running call still reaches flag `i`: the listener has not passed it, or will
start a scan from index `0`. -/
def Listener.Before (i : ℕ) : Listener → Prop
  | .idle | .tryWait _ | .loadToBeDestroyed .. | .waitCall .. => True
  | .loadActiveNotification _ j _ _ => j ≤ i
  | .resetActiveNotification _ j _ _ | .resetWasNotified _ j _ _ => j < i

/-- Index `i`, stored when `n` calls had returned, is in the vector of call `n` or of call
`n + 1` (counted from `0`): the first or the second to return after the store. -/
def Delivered (returned : List (WaitCall × List ℕ)) (i n : ℕ) : Prop :=
  ∃ k r, (k = n ∨ k = n + 1) ∧ returned[k]? = some r ∧ i ∈ r.2

/-- Index `i`, stored when `n` calls had returned, is still on its way: call `n` runs, and flag
`i` is set or the listener holds `i`; or call `n + 1` runs, and flag `i` is set where its scan
still reaches it, or the listener holds `i`. -/
def Pending (s : State) (i n : ℕ) : Prop :=
  s.returned.length = n ∧ (s.activeNotifications i = true ∨ s.listener.Holds i) ∨
    s.returned.length = n + 1 ∧
      (s.activeNotifications i = true ∧ s.listener.Before i ∨ s.listener.Holds i)

/-- **The delivery invariant.** Until `destroy()`, every stored index is below
`MAX_NUMBER_OF_NOTIFIERS` and delivered or pending. -/
def DeliveryInv (s : State) : Prop :=
  s.toBeDestroyed = true ∨
    ∀ p ∈ s.stored, p.1 < L.maxNumberOfNotifiers ∧ (Delivered s.returned p.1 p.2 ∨ Pending s p.1 p.2)

theorem deliveryInv_init : DeliveryInv L init :=
  .inr fun _ h ↦ absurd h List.not_mem_nil

theorem Delivered.append {returned : List (WaitCall × List ℕ)} {i n : ℕ}
    (h : Delivered returned i n) (extra : List (WaitCall × List ℕ)) :
    Delivered (returned ++ extra) i n := by
  obtain ⟨k, r, hk, hr, hi⟩ := h
  obtain ⟨hlt, -⟩ := List.getElem?_eq_some_iff.1 hr
  exact ⟨k, r, hk, by rw [List.getElem?_append_left hlt, hr], hi⟩

/-- A call returning a vector with `i`, as call `n` or `n + 1`, delivers `i`. -/
theorem delivered_returnWith {s : State} {call : WaitCall} {acc : List ℕ} {i n : ℕ}
    (hlen : s.returned.length = n ∨ s.returned.length = n + 1) (hacc : i ∈ acc) :
    Delivered (returnWith s call acc).returned i n :=
  ⟨s.returned.length, (call, acc), hlen, by simp [returnWith], hacc⟩

/-- **Pending survives a step that returns nothing**, when what the listener holds it keeps, a
set flag stays set or passes into its hands, and a flag its scan still reaches stays so. -/
theorem Pending.move {s s' : State} {i n : ℕ} (hp : Pending s i n)
    (hret : s'.returned = s.returned) (hholds : s.listener.Holds i → s'.listener.Holds i)
    (hflag : s.activeNotifications i = true →
      s'.activeNotifications i = true ∨ s'.listener.Holds i)
    (hbefore : s.activeNotifications i = true → s.listener.Before i →
      s'.activeNotifications i = true ∧ s'.listener.Before i ∨ s'.listener.Holds i) :
    Pending s' i n := by
  rw [Pending, hret]
  rcases hp with ⟨hlen, hf | hh⟩ | ⟨hlen, ⟨hf, hb⟩ | hh⟩
  · exact .inl ⟨hlen, hflag hf⟩
  · exact .inl ⟨hlen, .inr (hholds hh)⟩
  · exact .inr ⟨hlen, hbefore hf hb⟩
  · exact .inr ⟨hlen, .inr (hholds hh)⟩

/-- The end of a scan from index `j` keeps a pending index pending or delivers it. -/
theorem pending_scanFrom {s : State} {call : WaitCall} {i j n : ℕ} {acc : List ℕ}
    {doReturn : Bool} (hi : i < L.maxNumberOfNotifiers)
    (hp : s.returned.length = n ∧ (s.activeNotifications i = true ∨ i ∈ acc) ∨
      s.returned.length = n + 1 ∧ (s.activeNotifications i = true ∧ j ≤ i ∨ i ∈ acc)) :
    Delivered (scanFrom L s call j acc doReturn).returned i n ∨
      Pending (scanFrom L s call j acc doReturn) i n := by
  unfold scanFrom
  split_ifs with hj hreturn
  · -- the scan goes on at `j`
    exact .inr hp
  · -- the call returns: `i` is in its vector, or its flag waits for the next call's scan
    rcases hp with ⟨hlen, hf | hacc⟩ | ⟨hlen, ⟨hf, hji⟩ | hacc⟩
    · right
      refine .inr ⟨?_, .inl ⟨hf, trivial⟩⟩
      simp [returnWith, hlen]
    · exact .inl (delivered_returnWith (.inl hlen) hacc)
    · omega
    · exact .inl (delivered_returnWith (.inr hlen) hacc)
  · -- nothing was collected and the listener will wait
    have hnil : acc = [] ∧ doReturn = false := by simpa using hreturn
    rcases hp with ⟨hlen, hf | hacc⟩ | ⟨hlen, ⟨hf, hji⟩ | hacc⟩
    · exact .inr (.inl ⟨hlen, .inl hf⟩)
    · exact absurd (hnil.1 ▸ hacc) List.not_mem_nil
    · omega
    · exact absurd (hnil.1 ▸ hacc) List.not_mem_nil

theorem pending_listenerCall {s s' : State} {call : WaitCall} {i n : ℕ} (hp : Pending s i n)
    (h : listenerCall s call = some s') : Pending s' i n := by
  unfold listenerCall at h
  split at h
  · rename_i hpc
    cases h
    refine hp.move rfl (fun hh ↦ ?_) Or.inl fun hf _ ↦ .inl ⟨hf, trivial⟩
    rw [hpc] at hh
    exact hh.elim
  · cases h

/-- **The listener's step.** Before `destroy()`, one step of the listener keeps a pending index
pending or delivers it. -/
theorem pending_listenerStep {s s' : State} {i n : ℕ} (hd : s.toBeDestroyed = false)
    (hi : i < L.maxNumberOfNotifiers) (hp : Pending s i n) (h : listenerStep L s = some s') :
    Delivered s'.returned i n ∨ Pending s' i n := by
  unfold listenerStep at h
  split at h
  · cases h
  · -- `tryWait()`
    rename_i call hpc
    split_ifs at h <;> cases h
    · exact .inr hp
    · refine .inr (hp.move rfl (fun hh ↦ ?_) Or.inl fun hf _ ↦ .inl ⟨hf, trivial⟩)
      rw [hpc] at hh
      exact hh.elim
  · -- `m_toBeDestroyed.load()` finds it clear: a scan from index `0` starts
    rename_i call acc doReturn hpc
    rw [if_neg (by simp [hd])] at h
    cases h
    simp only [Pending, hpc, Listener.Holds, Listener.Before, and_true] at hp
    exact pending_scanFrom L hi (by simpa using hp)
  · -- `m_activeNotifications[j].load()`
    rename_i call j acc doReturn hpc
    split_ifs at h with hj <;> cases h
    · -- a set flag: `resetUnchecked(j)` takes it over
      refine .inr (hp.move rfl (fun hh ↦ ?_) Or.inl fun hf hb ↦ ?_)
      · rw [hpc] at hh
        exact Or.inr hh
      · rw [hpc] at hb
        rcases Nat.lt_or_eq_of_le hb with hlt | rfl
        · exact .inl ⟨hf, hlt⟩
        · exact .inr (Or.inl rfl)
    · -- a clear flag: the scan goes on, and it has not passed a set flag `i`
      simp only [Pending, hpc, Listener.Holds, Listener.Before] at hp
      refine pending_scanFrom L hi ?_
      rcases hp with ⟨hlen, hp⟩ | ⟨hlen, ⟨hf, hji⟩ | hacc⟩
      · exact .inl ⟨hlen, hp⟩
      · have hne : j ≠ i := fun hji ↦ hj (hji ▸ hf)
        exact .inr ⟨hlen, .inl ⟨hf, by omega⟩⟩
      · exact .inr ⟨hlen, .inr hacc⟩
  · -- `m_activeNotifications[j].store(false)`: `i` is then in the listener's hands
    rename_i call j acc doReturn hpc
    cases h
    refine .inr (hp.move rfl (fun hh ↦ ?_) (fun hf ↦ ?_) fun hf hb ↦ ?_)
    · rw [hpc] at hh
      exact hh
    · by_cases hji : j = i
      · exact .inr (Or.inl hji)
      · exact .inl ((Function.update_of_ne (Ne.symm hji) ..).trans hf)
    · rw [hpc] at hb
      exact .inl ⟨(Function.update_of_ne (Nat.ne_of_gt hb) ..).trans hf, hb⟩
  · -- `m_wasNotified.store(false)` and `emplace_back(j)`: the scan goes on at `j + 1`
    rename_i call j acc doReturn hpc
    cases h
    simp only [Pending, hpc, Listener.Holds, Listener.Before] at hp
    refine pending_scanFrom L hi ?_
    have hmem : j = i ∨ i ∈ acc → i ∈ acc ++ [j] := by
      rintro (rfl | hacc)
      · exact List.mem_append_right _ (List.mem_singleton_self _)
      · exact List.mem_append_left _ hacc
    rcases hp with ⟨hlen, hf | hh⟩ | ⟨hlen, ⟨hf, hji⟩ | hh⟩
    · exact .inl ⟨hlen, .inl hf⟩
    · exact .inl ⟨hlen, .inr (hmem hh)⟩
    · exact .inr ⟨hlen, .inl ⟨hf, hji⟩⟩
    · exact .inr ⟨hlen, .inr (hmem hh)⟩
  · -- `wait()` or `timedWait()` takes the semaphore: the loop starts over
    rename_i call acc hpc
    split_ifs at h
    cases h
    refine .inr (hp.move rfl (fun hh ↦ ?_) Or.inl fun hf _ ↦ .inl ⟨hf, trivial⟩)
    rw [hpc] at hh
    exact hh

theorem pending_timeout {s s' : State} {i n : ℕ} (hp : Pending s i n)
    (h : timeout s = some s') : Pending s' i n := by
  unfold timeout at h
  split at h
  · rename_i acc hpc
    split_ifs at h
    cases h
    refine hp.move rfl (fun hh ↦ ?_) Or.inl fun hf _ ↦ .inl ⟨hf, trivial⟩
    rw [hpc] at hh
    exact hh
  · cases h

/-- A step of the listener changes neither the stores nor `m_toBeDestroyed`, and only appends to
the returned vectors. -/
structure ListenerFrame (s s' : State) : Prop where
  stored : s'.stored = s.stored
  toBeDestroyed : s'.toBeDestroyed = s.toBeDestroyed
  returned : ∃ extra, s'.returned = s.returned ++ extra

theorem ListenerFrame.of_eq {s s' : State} (hs : s'.stored = s.stored)
    (hd : s'.toBeDestroyed = s.toBeDestroyed) (hr : s'.returned = s.returned) :
    ListenerFrame s s' :=
  ⟨hs, hd, ⟨[], by rw [hr, List.append_nil]⟩⟩

theorem ListenerFrame.scanFrom {s₀ s : State} {call : WaitCall} {i : ℕ} {acc : List ℕ}
    {doReturn : Bool} (hs : s.stored = s₀.stored) (hd : s.toBeDestroyed = s₀.toBeDestroyed)
    (hr : s.returned = s₀.returned) : ListenerFrame s₀ (scanFrom L s call i acc doReturn) := by
  unfold ConditionVariable.scanFrom
  split_ifs
  · exact .of_eq hs hd hr
  · exact ⟨hs, hd, ⟨_, by rw [returnWith, hr]⟩⟩
  · exact .of_eq hs hd hr

theorem listenerCall_frame {s s' : State} {call : WaitCall} (h : listenerCall s call = some s') :
    ListenerFrame s s' := by
  unfold listenerCall at h
  split at h <;> cases h
  exact .of_eq rfl rfl rfl

theorem listenerStep_frame {s s' : State} (h : listenerStep L s = some s') :
    ListenerFrame s s' := by
  unfold listenerStep at h
  split at h
  · cases h
  · split_ifs at h <;> cases h <;> exact .of_eq rfl rfl rfl
  · split_ifs at h <;> cases h
    · exact ⟨rfl, rfl, ⟨_, rfl⟩⟩
    · exact .scanFrom L rfl rfl rfl
  · split_ifs at h <;> cases h
    · exact .of_eq rfl rfl rfl
    · exact .scanFrom L rfl rfl rfl
  · cases h
    exact .of_eq rfl rfl rfl
  · cases h
    exact .scanFrom L rfl rfl rfl
  · split_ifs at h
    cases h
    exact .of_eq rfl rfl rfl

theorem timeout_frame {s s' : State} (h : timeout s = some s') : ListenerFrame s s' := by
  unfold timeout at h
  split at h
  · split_ifs at h
    cases h
    exact .of_eq rfl rfl rfl
  · cases h

/-- A step of a notifier or of `destroy()` keeps every pending index pending, and the index a
`notify` stores is pending for the running call. -/
theorem DeliveryInv.frame {s s' : State} (hs : DeliveryInv L s) (hf : NotifierFrame L s s') :
    DeliveryInv L s' := by
  rcases hs with hd | hs
  · exact .inl (hf.toBeDestroyed hd)
  · right
    obtain ⟨new, hstored, hnew⟩ := hf.stored
    intro p hp
    rw [hstored] at hp
    rcases List.mem_append.1 hp with hp | hp
    · obtain ⟨hi, hdel | hpen⟩ := hs p hp
      · exact ⟨hi, .inl (by rw [hf.returned]; exact hdel)⟩
      · refine ⟨hi, .inr (hpen.move hf.returned (fun hh ↦ ?_) (fun hfl ↦ ?_) fun hfl hb ↦ ?_)⟩
        · rw [hf.listener]
          exact hh
        · exact .inl (hf.activeNotifications _ hfl)
        · rw [hf.listener]
          exact .inl ⟨hf.activeNotifications _ hfl, hb⟩
    · obtain ⟨hi, hflag, hlen⟩ := hnew p hp
      exact ⟨hi, .inr (.inl ⟨by rw [hf.returned, hlen], .inl hflag⟩)⟩

/-- A step of the listener keeps the invariant when it keeps each pending index pending or
delivers it. -/
theorem DeliveryInv.listener {s s' : State} (hs : DeliveryInv L s) (hf : ListenerFrame s s')
    (hpending : ∀ i n, s.toBeDestroyed = false → i < L.maxNumberOfNotifiers → Pending s i n →
      Delivered s'.returned i n ∨ Pending s' i n) :
    DeliveryInv L s' := by
  rw [DeliveryInv, hf.toBeDestroyed, hf.stored]
  rcases hs with hd | hs
  · exact .inl hd
  · by_cases hd : s.toBeDestroyed = true
    · exact .inl hd
    obtain ⟨extra, hret⟩ := hf.returned
    refine .inr fun p hp ↦ ?_
    obtain ⟨hi, hdel | hpen⟩ := hs p hp
    · exact ⟨hi, .inl (by rw [hret]; exact hdel.append extra)⟩
    · exact ⟨hi, hpending p.1 p.2 (by simpa using hd) hi hpen⟩

theorem deliveryInv_step {s s' : State} {a : Action} (hs : DeliveryInv L s)
    (h : step L s a = some s') : DeliveryInv L s' := by
  unfold step at h
  split at h
  · cases h
  · cases a with
    | notify thread index => exact hs.frame L (notifyCall_frame L h)
    | notifier thread => exact hs.frame L (notifierStep_frame L h)
    | call call =>
      exact hs.listener L (listenerCall_frame h) fun _ _ _ _ hp ↦ .inr (pending_listenerCall hp h)
    | listener =>
      exact hs.listener L (listenerStep_frame L h) fun _ _ hd hi hp ↦
        pending_listenerStep L hd hi hp h
    | timeout => exact hs.listener L (timeout_frame h) fun _ _ _ _ hp ↦ .inr (pending_timeout hp h)
    | destroy => exact .inl (toBeDestroyed_destroyCall h)
    | destroyPost => exact hs.frame L (destroyPost_frame L h)

/-- **No notification is lost before `destroy()`.** After every interleaving in which `destroy()`
has not been called, an index that a `notify` stored when `n` calls had returned is in the
vector of call `n` or of call `n + 1` (the first and the second call to return after the store)
once both have returned. -/
theorem delivered_of_run {s : State} (schedule : List Action)
    (h : Scheduler.run (step L) init schedule = some s) (hd : s.toBeDestroyed = false)
    {i n : ℕ} (hstored : (i, n) ∈ s.stored) (hlen : n + 2 ≤ s.returned.length) :
    Delivered s.returned i n := by
  rcases Scheduler.run_invariant (fun _ _ _ hs h ↦ deliveryInv_step L hs h) schedule
    (deliveryInv_init L) h with hd' | hs
  · rw [hd] at hd'
    cases hd'
  · obtain ⟨-, hdel | hpen⟩ := hs (i, n) hstored
    · exact hdel
    · -- a pending index has at most call `n + 1` running
      rcases hpen with ⟨hlen', -⟩ | ⟨hlen', -⟩ <;> omega

end Iox.Popo.ConditionVariable
