import Mathlib.Tactic.SplitIfs
import Iceoryx.Data.BoundedQueue
import Iceoryx.Data.CString
import Iceoryx.Machine.Run

/-!
# `NamedPipe` under any interleaving of its callers

A `NamedPipe` (`named_pipe.cpp`, `named_pipe.inl`) keeps in shared memory a
`MpmcLockFreeQueue<Message_t, MAX_NUMBER_OF_MESSAGES>` of messages and two semaphores that
`NamedPipeData::initialize(maxMsgNumber)` creates with the values `maxMsgNumber` (the send
semaphore: free places) and `0` (the receive semaphore: messages). Every send variant takes a
unit of the send semaphore (`wait`, `tryWait` or `timedWait`), pushes and posts the receive
semaphore; every receive variant takes a unit of the receive semaphore, pops and posts the send
semaphore. The `std::string` overloads refuse a message longer than `MAX_MESSAGE_SIZE` with
`MESSAGE_TOO_LONG`, and a received message comes back as `message.c_str()`.

## The model

Each semaphore operation and each `push` and `pop` of the queue is one sequentially consistent
step of its thread; the queue is the abstract bounded queue with eviction (`BoundedQueue`). A
semaphore is its value. `wait()` on a semaphore at zero is not enabled, and `timedWait()` on one
may time out (`Action.timeout`). `post()` always succeeds: the static assertion
`MAX_NUMBER_OF_MESSAGES < IOX_SEM_VALUE_MAX` and `Inv` keep both values at most
`maxMsgNumber`. A thread is an index into `State.threads`, with a program counter that carries the
locals of its call. Ghost state records what the calls returned (`returned`) and what a `push`
evicted and `IOX_DISCARD_RESULT` dropped (`evicted`).

## What is proved

On every run of a pipe with `maxMsgNumber ≤ MAX_NUMBER_OF_MESSAGES`, the free places, the
messages in the queue and the places held by the threads add up to `maxMsgNumber`, and the
messages in the queue are the receive semaphore's units and those held by threads (`Inv`). Hence a
`push` never evicts and no `receive` or `timedReceive` returns `INTERNAL_LOGIC_ERROR`
(`inv_run`, `returned_of_run`), and a `trySend` times out only when all `maxMsgNumber` places are
taken (`full_of_trySend_timeout`). But `tryReceive` has no `return ok()`: it pops the message,
posts the send semaphore and returns `INTERNAL_LOGIC_ERROR`, so the message is gone
(`tryReceive_loses_message`).
-/

namespace Iox.NamedPipe

/-- The `PosixIpcChannelError`s the calls of the pipe return. -/
inductive PosixIpcChannelError where
  | internalLogicError
  | messageTooLong
  | timeout
  deriving DecidableEq, Repr

/-- The limits of the build. -/
structure Limits where
  /-- `MAX_MESSAGE_SIZE`. -/
  maxMessageSize : ℕ
  /-- `MAX_NUMBER_OF_MESSAGES`, the capacity of `MessageQueue_t`. -/
  maxNumberOfMessages : ℕ

/-- The send variants. -/
inductive SendCall where
  | trySend
  | send
  | timedSend
  deriving DecidableEq, Repr

/-- The receive variants. -/
inductive ReceiveCall where
  | receive
  | tryReceive
  | timedReceive
  deriving DecidableEq, Repr

/-- The overload called: the `iox::string<N>` one or the `std::string` one. -/
inductive Overload where
  | string
  | stdString
  deriving DecidableEq, Repr

/-- Where a thread is in a call of the pipe, with the locals it holds there. -/
inductive Thread where
  /-- In no call. -/
  | idle
  /-- Next, `sendSemaphore().wait()`, `tryWait()` or `timedWait(timeout)`. -/
  | sendWait (call : SendCall) (message : List Char)
  /-- Next, `messages.push(message)`. -/
  | push (call : SendCall) (message : List Char)
  /-- Next, `receiveSemaphore().post()`, then `return ok()`. -/
  | postReceive (call : SendCall)
  /-- Next, `receiveSemaphore().wait()`, `tryWait()` or `timedWait(timeout)`. -/
  | receiveWait (call : ReceiveCall) (overload : Overload)
  /-- Next, `messages.pop()`. -/
  | pop (call : ReceiveCall) (overload : Overload)
  /-- Has popped `message`; next, `sendSemaphore().post()`, `message = *msg` and the return. -/
  | postSend (call : ReceiveCall) (overload : Overload) (message : List Char)
  deriving DecidableEq, Repr

/-- What a call returned. -/
inductive Returned where
  | sent (call : SendCall) (result : Except PosixIpcChannelError Unit)
  | received (call : ReceiveCall) (result : Except PosixIpcChannelError (List Char))
  deriving DecidableEq, Repr

/-- The shared `NamedPipeData`, the threads, and the ghost record of what they did. -/
structure State where
  /-- The value of `m_sendSemaphore`. -/
  sendSemaphore : ℕ
  /-- The value of `m_receiveSemaphore`. -/
  receiveSemaphore : ℕ
  /-- `messages`. -/
  messages : BoundedQueue (List Char)
  /-- Each thread, by its index. -/
  threads : List Thread
  /-- The messages a `push` evicted, which `IOX_DISCARD_RESULT` drops. -/
  evicted : List (List Char)
  /-- Each return of a call: the thread and what it returned, in order. -/
  returned : List (ℕ × Returned)
  deriving DecidableEq

/-- A choice of the scheduler. -/
inductive Action where
  /-- Thread `thread` calls a send variant. -/
  | send (thread : ℕ) (call : SendCall) (overload : Overload) (message : List Char)
  /-- Thread `thread` calls a receive variant. -/
  | receive (thread : ℕ) (call : ReceiveCall) (overload : Overload)
  /-- Thread `thread` takes its next step. -/
  | step (thread : ℕ)
  /-- The `timedWait` of thread `thread` times out. -/
  | timeout (thread : ℕ)

variable (L : Limits)

/-- A pipe whose `NamedPipeData::initialize(maxMsgNumber)` ran, with `threads` idle threads. -/
def init (maxMsgNumber threads : ℕ) : State where
  sendSemaphore := maxMsgNumber
  receiveSemaphore := 0
  messages := ⟨[], L.maxNumberOfMessages⟩
  threads := List.replicate threads .idle
  evicted := []
  returned := []

namespace State

/-- Thread `thread` moves on to `pc`. -/
def setThread (s : State) (thread : ℕ) (pc : Thread) : State :=
  { s with threads := s.threads.set thread pc }

/-- Thread `thread` returns `result` and is idle again. -/
def ret (s : State) (thread : ℕ) (result : Returned) : State :=
  { s with
    threads := s.threads.set thread .idle
    returned := s.returned ++ [(thread, result)] }

end State

/-- The message a receive hands out: itself as the `iox::string` out-parameter, or
`message.c_str()` for the `std::string` overload. -/
def Overload.convert : Overload → List Char → List Char
  | .string, message => message
  | .stdString, message => CString.read message

/-- What a receive variant returns after its `sendSemaphore().post()`: `receive` and
`timedReceive` return `ok()`; `tryReceive` leaves its `if` and falls through to
`return err(INTERNAL_LOGIC_ERROR)`. -/
def receivedResult : ReceiveCall → Overload → List Char → Except PosixIpcChannelError (List Char)
  | .tryReceive, _, _ => .error .internalLogicError
  | .receive, overload, message | .timedReceive, overload, message => .ok (overload.convert message)

/-- A send variant is called. The `std::string` overload returns `MESSAGE_TOO_LONG` for a message
longer than `MAX_MESSAGE_SIZE`; the `iox::string<N>` overload has `N <= MAX_MESSAGE_SIZE` by
its static assertion, so no such call exists. -/
def sendCall (s : State) (thread : ℕ) (call : SendCall) (overload : Overload)
    (message : List Char) : Option State :=
  match s.threads[thread]? with
  | some .idle =>
    if message.length ≤ L.maxMessageSize then some (s.setThread thread (.sendWait call message))
    else
      match overload with
      | .stdString => some (s.ret thread (.sent call (.error .messageTooLong)))
      | .string => none
  | _ => none

/-- A receive variant is called. -/
def receiveCall (s : State) (thread : ℕ) (call : ReceiveCall) (overload : Overload) :
    Option State :=
  match s.threads[thread]? with
  | some .idle => some (s.setThread thread (.receiveWait call overload))
  | _ => none

/-- The next step of thread `thread`; `none` when it is idle or blocked in a semaphore. -/
def threadStep (s : State) (thread : ℕ) : Option State :=
  match s.threads[thread]? with
  | none | some .idle => none
  | some (.sendWait call message) =>
    if 0 < s.sendSemaphore then
      some ({ s with sendSemaphore := s.sendSemaphore - 1 }.setThread thread (.push call message))
    else
      match call with
      | .trySend => some (s.ret thread (.sent .trySend (.error .timeout)))
      -- `send` blocks; `timedSend` blocks until `timeout`
      | .send | .timedSend => none
  | some (.push call message) =>
    some ({ s with
      messages := (s.messages.push message).1
      evicted := s.evicted ++ (s.messages.push message).2.toList }.setThread thread
        (.postReceive call))
  | some (.postReceive call) =>
    some ({ s with receiveSemaphore := s.receiveSemaphore + 1 }.ret thread (.sent call (.ok ())))
  | some (.receiveWait call overload) =>
    if 0 < s.receiveSemaphore then
      some ({ s with receiveSemaphore := s.receiveSemaphore - 1 }.setThread thread
        (.pop call overload))
    else
      match call with
      | .tryReceive => some (s.ret thread (.received .tryReceive (.error .timeout)))
      | .receive | .timedReceive => none
  | some (.pop call overload) =>
    match s.messages.pop with
    | (messages, some message) =>
      some ({ s with messages }.setThread thread (.postSend call overload message))
    | (messages, none) =>
      some ({ s with messages }.ret thread (.received call (.error .internalLogicError)))
  | some (.postSend call overload message) =>
    some ({ s with sendSemaphore := s.sendSemaphore + 1 }.ret thread
      (.received call (receivedResult call overload message)))

/-- The `timedWait` of `timedSend` or `timedReceive` returns `TIMEOUT` on a semaphore at zero. -/
def timeoutStep (s : State) (thread : ℕ) : Option State :=
  match s.threads[thread]? with
  | some (.sendWait .timedSend _) =>
    if s.sendSemaphore = 0 then some (s.ret thread (.sent .timedSend (.error .timeout)))
    else none
  | some (.receiveWait .timedReceive _) =>
    if s.receiveSemaphore = 0 then
      some (s.ret thread (.received .timedReceive (.error .timeout)))
    else none
  | _ => none

/-- One step of the interleaving; `none` when the choice is not enabled. -/
def step (s : State) : Action → Option State
  | .send thread call overload message => sendCall L s thread call overload message
  | .receive thread call overload => receiveCall s thread call overload
  | .step thread => threadStep s thread
  | .timeout thread => timeoutStep s thread

/-! ### The accounting of places and messages -/

/-- The thread holds a place of the pipe: it took a unit of the send semaphore and has not pushed
yet, or it popped a message and has not given the place back yet. -/
def Thread.holdsPlace : Thread → Bool
  | .push .. | .postSend .. => true
  | _ => false

/-- The thread holds a message's unit of the receive semaphore: it pushed and has not posted yet,
or it took the unit and has not popped yet. -/
def Thread.holdsMessage : Thread → Bool
  | .postReceive _ | .pop .. => true
  | _ => false

/-- A call that cannot go wrong: no `receive` or `timedReceive` returned `INTERNAL_LOGIC_ERROR`. -/
def NoInternalLogicError (returned : List (ℕ × Returned)) : Prop :=
  ∀ p ∈ returned, ∀ call, p.2 = .received call (.error .internalLogicError) → call = .tryReceive

/-- **The accounting invariant** of a pipe created with `maxMsgNumber` places: the free places,
the places held by threads and the messages in the queue make `maxMsgNumber`; the messages in the
queue are the units of the receive semaphore and those held by threads; no `push` has evicted. -/
structure Inv (maxMsgNumber : ℕ) (s : State) : Prop where
  capacity : s.messages.capacity = L.maxNumberOfMessages
  le_capacity : maxMsgNumber ≤ L.maxNumberOfMessages
  places : s.sendSemaphore + s.threads.countP Thread.holdsPlace + s.messages.items.length =
    maxMsgNumber
  messages : s.messages.items.length = s.receiveSemaphore + s.threads.countP Thread.holdsMessage
  evicted : s.evicted = []
  returned : NoInternalLogicError s.returned

theorem inv_init {maxMsgNumber : ℕ} (threads : ℕ) (h : maxMsgNumber ≤ L.maxNumberOfMessages) :
    Inv L maxMsgNumber (init L maxMsgNumber threads) where
  capacity := rfl
  le_capacity := h
  places := by simp [init, List.countP_replicate, Thread.holdsPlace]
  messages := by simp [init, List.countP_replicate, Thread.holdsMessage]
  evicted := rfl
  returned := fun _ h ↦ absurd h List.not_mem_nil

/-- Moving one thread changes a count by what its old and its new program counter contribute. -/
theorem countP_set_add {p : Thread → Bool} {threads : List Thread} {thread : ℕ} {pc : Thread}
    (pc' : Thread) (hpc : threads[thread]? = some pc) :
    (threads.set thread pc').countP p + (if p pc then 1 else 0) =
      threads.countP p + (if p pc' then 1 else 0) := by
  obtain ⟨hlt, hget⟩ := List.getElem?_eq_some_iff.1 hpc
  rw [List.countP_set hlt, hget]
  have hle : (if p pc then 1 else 0) ≤ threads.countP p := by
    split_ifs with hp
    · exact List.countP_pos_iff.2 ⟨pc, hget ▸ List.getElem_mem hlt, hp⟩
    · exact Nat.zero_le _
  omega

/-- A thread that holds something is counted. -/
theorem one_le_countP {p : Thread → Bool} {threads : List Thread} {thread : ℕ} {pc : Thread}
    (hpc : threads[thread]? = some pc) (hp : p pc = true) : 1 ≤ threads.countP p :=
  List.countP_pos_iff.2 ⟨pc, List.mem_of_getElem? hpc, hp⟩

theorem NoInternalLogicError.append {returned : List (ℕ × Returned)}
    (h : NoInternalLogicError returned) {thread : ℕ} {result : Returned}
    (hresult : ∀ call, result = .received call (.error .internalLogicError) →
      call = .tryReceive) :
    NoInternalLogicError (returned ++ [(thread, result)]) := by
  intro p hp call hcall
  rcases List.mem_append.1 hp with hp | hp
  · exact h p hp call hcall
  · rw [List.mem_singleton.1 hp] at hcall
    exact hresult call hcall

/-- **One thread moves.** The invariant survives a step of thread `thread` from `pc` to `pc'`
whose changes to the semaphores and the queue balance what `pc` and `pc'` hold. -/
theorem Inv.move {maxMsgNumber : ℕ} {s s' : State} {thread : ℕ} {pc pc' : Thread}
    (hs : Inv L maxMsgNumber s) (hpc : s.threads[thread]? = some pc)
    (hthreads : s'.threads = s.threads.set thread pc')
    (hcapacity : s'.messages.capacity = s.messages.capacity)
    (hplaces : s'.sendSemaphore + s'.messages.items.length + (if pc'.holdsPlace then 1 else 0) =
      s.sendSemaphore + s.messages.items.length + (if pc.holdsPlace then 1 else 0))
    (hmessages : s'.messages.items.length + s.receiveSemaphore +
        (if pc.holdsMessage then 1 else 0) =
      s.messages.items.length + s'.receiveSemaphore + (if pc'.holdsMessage then 1 else 0))
    (hevicted : s'.evicted = s.evicted) (hreturned : NoInternalLogicError s'.returned) :
    Inv L maxMsgNumber s' := by
  have hcountPlace := countP_set_add (p := Thread.holdsPlace) pc' hpc
  have hcountMessage := countP_set_add (p := Thread.holdsMessage) pc' hpc
  refine ⟨hcapacity.trans hs.capacity, hs.le_capacity, ?_, ?_, hevicted.trans hs.evicted,
    hreturned⟩
  · rw [hthreads]
    have := hs.places
    omega
  · rw [hthreads]
    have := hs.messages
    omega

theorem inv_sendCall {maxMsgNumber : ℕ} {s s' : State} {thread : ℕ} {call : SendCall}
    {overload : Overload} {message : List Char} (hs : Inv L maxMsgNumber s)
    (h : sendCall L s thread call overload message = some s') : Inv L maxMsgNumber s' := by
  unfold sendCall at h
  split at h
  · rename_i hpc
    split_ifs at h
    · cases h
      exact hs.move L hpc rfl rfl (by simp [Thread.holdsPlace, State.setThread])
        (by simp [Thread.holdsMessage, State.setThread]) rfl hs.returned
    · split at h
      · cases h
        exact hs.move L hpc rfl rfl (by simp [State.ret]) (by simp [State.ret]) rfl
          (hs.returned.append nofun)
      · cases h
  · cases h

theorem inv_receiveCall {maxMsgNumber : ℕ} {s s' : State} {thread : ℕ} {call : ReceiveCall}
    {overload : Overload} (hs : Inv L maxMsgNumber s)
    (h : receiveCall s thread call overload = some s') : Inv L maxMsgNumber s' := by
  unfold receiveCall at h
  split at h
  · rename_i hpc
    cases h
    exact hs.move L hpc rfl rfl (by simp [Thread.holdsPlace, State.setThread])
      (by simp [Thread.holdsMessage, State.setThread]) rfl hs.returned
  · cases h

/-- `tryReceive` is the only receive variant that returns `INTERNAL_LOGIC_ERROR` after a pop. -/
theorem receivedResult_internal {call : ReceiveCall} {overload : Overload} {message : List Char}
    (h : receivedResult call overload message = .error .internalLogicError) :
    call = .tryReceive := by
  cases call
  · cases h
  · rfl
  · cases h

/-- **The step of a thread.** -/
theorem inv_threadStep {maxMsgNumber : ℕ} {s s' : State} {thread : ℕ}
    (hs : Inv L maxMsgNumber s) (h : threadStep s thread = some s') : Inv L maxMsgNumber s' := by
  cases hpc : s.threads[thread]? with
  | none => simp [threadStep, hpc] at h
  | some pc =>
    cases pc with
    | idle => simp [threadStep, hpc] at h
    | sendWait call message =>
      simp only [threadStep, hpc] at h
      split_ifs at h with hsem
      · cases h
        exact hs.move L hpc rfl rfl (by simp [Thread.holdsPlace, State.setThread]; omega)
          (by simp [Thread.holdsMessage, State.setThread]) rfl hs.returned
      · cases call <;> simp only at h <;> cases h
        exact hs.move L hpc rfl rfl (by simp [State.ret, Thread.holdsPlace])
          (by simp [State.ret, Thread.holdsMessage]) rfl (hs.returned.append nofun)
    | push call message =>
      simp only [threadStep, hpc] at h
      cases h
      -- the pushing thread holds a place, so the queue has room: the push appends
      have hroom : s.messages.items.length < s.messages.capacity := by
        have := hs.places
        have := one_le_countP (p := Thread.holdsPlace) hpc rfl
        rw [hs.capacity]
        have := hs.le_capacity
        omega
      rw [BoundedQueue.push_of_lt hroom]
      exact hs.move L hpc rfl rfl (by simp [Thread.holdsPlace, State.setThread]; omega)
        (by simp [Thread.holdsMessage, State.setThread]; omega) (by simp [State.setThread])
        hs.returned
    | postReceive call =>
      simp only [threadStep, hpc] at h
      cases h
      exact hs.move L hpc rfl rfl (by simp [Thread.holdsPlace, State.ret])
        (by simp [Thread.holdsMessage, State.ret]; omega) rfl (hs.returned.append nofun)
    | receiveWait call overload =>
      simp only [threadStep, hpc] at h
      split_ifs at h with hsem
      · cases h
        exact hs.move L hpc rfl rfl (by simp [Thread.holdsPlace, State.setThread])
          (by simp [Thread.holdsMessage, State.setThread]; omega) rfl hs.returned
      · cases call <;> simp only at h <;> cases h
        exact hs.move L hpc rfl rfl (by simp [State.ret, Thread.holdsPlace])
          (by simp [State.ret, Thread.holdsMessage]) rfl (hs.returned.append nofun)
    | pop call overload =>
      simp only [threadStep, hpc] at h
      -- the popping thread holds a message, so the queue has one
      obtain ⟨message, rest, hitems⟩ : ∃ message rest, s.messages.items = message :: rest := by
        have hlen := hs.messages
        have hheld := one_le_countP (p := Thread.holdsMessage) hpc rfl
        match hq : s.messages.items with
        | [] =>
          rw [hq, List.length_nil] at hlen
          omega
        | message :: rest => exact ⟨message, rest, rfl⟩
      have hpop : s.messages.pop = (⟨rest, s.messages.capacity⟩, some message) := by
        simp [BoundedQueue.pop, hitems]
      rw [hpop] at h
      cases h
      exact hs.move L hpc rfl rfl
        (by simp [Thread.holdsPlace, State.setThread, hitems]; omega)
        (by simp [Thread.holdsMessage, State.setThread, hitems]; omega) rfl hs.returned
    | postSend call overload message =>
      simp only [threadStep, hpc] at h
      cases h
      refine hs.move L hpc rfl rfl (by simp [Thread.holdsPlace, State.ret]; omega)
        (by simp [Thread.holdsMessage, State.ret]) rfl (hs.returned.append fun _ hcall ↦ ?_)
      obtain ⟨rfl, hresult⟩ := Returned.received.inj hcall
      exact receivedResult_internal hresult

theorem inv_timeoutStep {maxMsgNumber : ℕ} {s s' : State} {thread : ℕ}
    (hs : Inv L maxMsgNumber s) (h : timeoutStep s thread = some s') : Inv L maxMsgNumber s' := by
  unfold timeoutStep at h
  split at h
  · rename_i message hpc
    split_ifs at h
    cases h
    exact hs.move L hpc rfl rfl (by simp [State.ret, Thread.holdsPlace])
      (by simp [State.ret, Thread.holdsMessage]) rfl (hs.returned.append nofun)
  · rename_i overload hpc
    split_ifs at h
    cases h
    exact hs.move L hpc rfl rfl (by simp [State.ret, Thread.holdsPlace])
      (by simp [State.ret, Thread.holdsMessage]) rfl (hs.returned.append nofun)
  · cases h

theorem inv_step {maxMsgNumber : ℕ} {s s' : State} {a : Action} (hs : Inv L maxMsgNumber s)
    (h : step L s a = some s') : Inv L maxMsgNumber s' := by
  cases a with
  | send thread call overload message => exact inv_sendCall L hs h
  | receive thread call overload => exact inv_receiveCall L hs h
  | step thread => exact inv_threadStep L hs h
  | timeout thread => exact inv_timeoutStep L hs h

theorem inv_run {maxMsgNumber threads : ℕ} (hmax : maxMsgNumber ≤ L.maxNumberOfMessages)
    (schedule : List Action) {s : State}
    (h : Scheduler.run (step L) (init L maxMsgNumber threads) schedule = some s) :
    Inv L maxMsgNumber s :=
  Scheduler.run_invariant (fun _ _ _ hs h ↦ inv_step L hs h) schedule (inv_init L threads hmax) h

/-- **What the accounting guarantees.** After every interleaving on a pipe created with
`maxMsgNumber ≤ MAX_NUMBER_OF_MESSAGES`, the queue holds at most `maxMsgNumber` messages, no
`push` has evicted a message, and no `receive` or `timedReceive` has returned
`INTERNAL_LOGIC_ERROR`. -/
theorem returned_of_run {maxMsgNumber threads : ℕ} (hmax : maxMsgNumber ≤ L.maxNumberOfMessages)
    (schedule : List Action) {s : State}
    (h : Scheduler.run (step L) (init L maxMsgNumber threads) schedule = some s) :
    s.messages.items.length ≤ maxMsgNumber ∧ s.evicted = [] ∧ NoInternalLogicError s.returned := by
  have hs := inv_run L hmax schedule h
  have hplaces := hs.places
  exact ⟨by omega, hs.evicted, hs.returned⟩

/-- **`trySend` times out only on a full pipe.** When a `trySend` returns `TIMEOUT` from a state of
the invariant, the places held by threads and the messages in the queue are all
`maxMsgNumber` places. -/
theorem full_of_trySend_timeout {maxMsgNumber : ℕ} {s : State} {thread : ℕ} {message : List Char}
    (hs : Inv L maxMsgNumber s) (hpc : s.threads[thread]? = some (.sendWait .trySend message))
    (h : threadStep s thread = some (s.ret thread (.sent .trySend (.error .timeout)))) :
    s.threads.countP Thread.holdsPlace + s.messages.items.length = maxMsgNumber := by
  simp only [threadStep, hpc] at h
  -- a free place would have been taken, which returns nothing
  have hsem : s.sendSemaphore = 0 := by
    by_contra hne
    rw [if_pos (Nat.pos_of_ne_zero hne)] at h
    have hlen := congrArg (fun s : State ↦ s.returned.length) (Option.some.inj h)
    simp [State.setThread, State.ret] at hlen
  have hplaces := hs.places
  omega

/-! ### `tryReceive` loses the message it pops -/

/-- With the default `MAX_MESSAGE_SIZE` of 4096 and `MAX_NUMBER_OF_MESSAGES` of 10, on a pipe of
one place, thread 0 sends `"a"` with `send`, which returns ok, and thread 1 calls `tryReceive`
twice. The first call pops `"a"`, posts the send semaphore and returns `INTERNAL_LOGIC_ERROR`;
the second finds no message and returns `TIMEOUT`. The queue is empty and every thread idle:
`"a"` is received by no call. -/
theorem tryReceive_loses_message :
    Scheduler.run (step ⟨4096, 10⟩) (init ⟨4096, 10⟩ 1 2)
        [.send 0 .send .stdString ['a'], .step 0, .step 0, .step 0,
          .receive 1 .tryReceive .stdString, .step 1, .step 1, .step 1,
          .receive 1 .tryReceive .stdString, .step 1] =
      some ⟨1, 0, ⟨[], 10⟩, [.idle, .idle], [],
        [(0, .sent .send (.ok ())), (1, .received .tryReceive (.error .internalLogicError)),
          (1, .received .tryReceive (.error .timeout))]⟩ :=
  rfl

end Iox.NamedPipe
