import Mathlib.Data.List.Perm.Basic
import Iceoryx.Hoofs.SpscSofi

/-!
# `SpscSofi` under any interleaving of its producer and its consumer

`SpscSofi::push` and `SpscSofi::pop` (`spsc_sofi.inl`) run concurrently, one producer and one
consumer, on the shared `m_data`, `m_readPosition` and `m_writePosition`. The source comments walk
through the races that make this delicate: `pop` copies a slot and only then publishes its read
by a `compare_exchange_weak` on `m_readPosition`, which an overflowing `push` may move first by a
`compare_exchange_strong` of its own; the extra internal slot (`INTERNAL_CAPACITY_ADD_ON`) is what
keeps the producer's next write away from the slot being copied.

## The model

Each atomic load, store and compare-exchange of `push` and `pop`, each write of a slot and each
`memcpy` is one sequentially consistent step of its thread. The shared state is the `SpscSofi`
record of the sequential model; each thread has a program counter carrying its locals
(`Producer`, `Consumer`). A scheduler picks, at every step, which thread moves; calls of `push` and
`pop` are steps too, and so is a spurious failure of the consumer's `compare_exchange_weak`.
The positions are `uint64_t` values, as in the sequential model: every `+ 1U` on them, and the
sum `currentReadPosition + m_size` of the full-check, is taken modulo `2^64`.

Ghost state records what the threads see: `pushed`, the values passed to `push` in call order
(so the value pushed at logical position `p` is `pushed[p]`); `popped`, the position and value of
every successful `pop`; `evicted`, the position and `valueOut` of every `push` that returned
`false`.

## What is proved

`Inv` holds after every schedule with fewer than `2^64 - m_size` calls of `push`, where no
position wraps (`inv_run`). Its core is that the consumed positions (popped,
evicted, or held by a producer that won its exchange) are exactly `0, ..., m_readPosition - 1`,
each once, and that the slots of the positions from `m_readPosition` to `m_writePosition` hold the
values pushed there. The other part is what each stage of either thread knows. From it, whenever
both threads are idle, every value passed to `push` was returned by exactly one successful `pop`,
or by exactly one overflowing `push`, or is still stored, and `pop` returned values in push order;
and at any moment a slot the consumer has copied is not written by the producer unless the
consumer's exchange can no longer succeed (`spscSofi_delivers_each_value_once`). A run of one
thread alone is the sequential model's `push` or `pop` (`run_push_of_room`,
`run_push_of_overflow`, `run_pop_of_ne`, `run_pop_of_eq`), wrapping included.

The bound on the pushes is needed: after `2^64 - 3` pushes and pops on a ring of capacity two the
write position wraps to `0` while the read position is still `2^64 - 1`, and the slots of the two
positions coincide. A push then overwrites a stored value that no call returns, and two pops
return the value written over it (`spscSofi_loses_value_after_wrap`).
-/

namespace Iox.Concurrent.SpscSofi.Interleaving

/-- Where the producer is in `push(valueIn, valueOut)`, with the locals it holds there. -/
inductive Producer (α : Type*) where
  /-- Not in `push`. -/
  | idle
  /-- Has loaded `currentWritePosition`; next, `m_data[currentWritePosition % m_size] = valueIn`. -/
  | writeData (valueIn : α) (currentWritePosition : ℕ)
  /-- Next, `m_writePosition.store(currentWritePosition + 1)`. -/
  | storeWritePosition (currentWritePosition : ℕ)
  /-- Next, load `m_readPosition` and test `nextWritePosition < currentReadPosition + m_size`. -/
  | loadReadPosition (currentWritePosition : ℕ)
  /-- Overflow; next, `m_readPosition.compare_exchange_strong(currentReadPosition, + 1)`. -/
  | compareExchange (currentReadPosition : ℕ)
  /-- Won the exchange; next, copy `m_data[currentReadPosition % m_size]` to `valueOut`. -/
  | copyOut (currentReadPosition : ℕ)
  deriving DecidableEq

/-- Where the consumer is in `pop(valueOut)`, with the locals it holds there. -/
inductive Consumer (α : Type*) where
  /-- Not in `pop`. -/
  | idle
  /-- At the head of the loop; next, load `m_writePosition` and compare. -/
  | loadWritePosition (currentReadPosition : ℕ)
  /-- Next, copy `m_data[currentReadPosition % m_size]` to `valueOut`. -/
  | copy (currentReadPosition : ℕ)
  /-- Next, `m_readPosition.compare_exchange_weak(currentReadPosition, nextReadPosition)`;
  `valueOut` is the copied value when `popWasSuccessful`. -/
  | compareExchange (currentReadPosition nextReadPosition : ℕ) (valueOut : Option α)
  deriving DecidableEq

/-- The shared `SpscSofi`, both threads, and the ghost record of what they did. -/
structure State (α : Type*) (capacityValue : ℕ) where
  /-- `m_data`, `m_size`, `m_readPosition`, `m_writePosition`. -/
  sofi : SpscSofi α capacityValue
  /-- The producer thread. -/
  producer : Producer α
  /-- The consumer thread. -/
  consumer : Consumer α
  /-- The values passed to `push`, in call order. -/
  pushed : List α
  /-- Position and value of every successful `pop`, in order. -/
  popped : List (ℕ × α)
  /-- Position and `valueOut` of every `push` that returned `false`, in order. -/
  evicted : List (ℕ × α)

/-- A choice of the scheduler. -/
inductive Action (α : Type*) where
  /-- The producer calls `push(valueIn)` and loads `m_writePosition`. -/
  | push (valueIn : α)
  /-- The producer takes its next step. -/
  | producer
  /-- The consumer calls `pop()` and loads `m_readPosition`. -/
  | pop
  /-- The consumer takes its next step. -/
  | consumer
  /-- The consumer's `compare_exchange_weak` fails spuriously. -/
  | spuriousFailure

variable {α : Type*} {capacityValue : ℕ}

/-- Both threads idle on a fresh `SpscSofi`. -/
def init (junk : ℕ → α) : State α capacityValue :=
  ⟨new junk, .idle, .idle, [], [], []⟩

/-- The producer's next step, `none` when it is not in `push`. -/
def producerStep (s : State α capacityValue) : Option (State α capacityValue) :=
  match s.producer with
  | .idle => none
  | .writeData valueIn currentWritePosition =>
    some { s with
      sofi.data := Function.update s.sofi.data (currentWritePosition % s.sofi.size) valueIn
      producer := .storeWritePosition currentWritePosition }
  | .storeWritePosition currentWritePosition =>
    some { s with
      sofi.writePosition := (currentWritePosition + 1) % 2 ^ 64
      producer := .loadReadPosition currentWritePosition }
  | .loadReadPosition currentWritePosition =>
    let currentReadPosition := s.sofi.readPosition
    if (currentWritePosition + 1) % 2 ^ 64 < (currentReadPosition + s.sofi.size) % 2 ^ 64 then
      some { s with producer := .idle }
    else
      some { s with producer := .compareExchange currentReadPosition }
  | .compareExchange currentReadPosition =>
    let (current, _, success) :=
      compareExchange s.sofi.readPosition currentReadPosition ((currentReadPosition + 1) % 2 ^ 64)
    if success then
      some { s with sofi.readPosition := current, producer := .copyOut currentReadPosition }
    else
      some { s with producer := .idle }
  | .copyOut currentReadPosition =>
    some { s with
      producer := .idle
      evicted := s.evicted ++
        [(currentReadPosition, s.sofi.data (currentReadPosition % s.sofi.size))] }

/-- The consumer's next step, `none` when it is not in `pop`. -/
def consumerStep (s : State α capacityValue) : Option (State α capacityValue) :=
  match s.consumer with
  | .idle => none
  | .loadWritePosition currentReadPosition =>
    if currentReadPosition = s.sofi.writePosition then
      some { s with consumer := .compareExchange currentReadPosition currentReadPosition none }
    else
      some { s with consumer := .copy currentReadPosition }
  | .copy currentReadPosition =>
    some { s with
      consumer := .compareExchange currentReadPosition ((currentReadPosition + 1) % 2 ^ 64)
        (some (s.sofi.data (currentReadPosition % s.sofi.size))) }
  | .compareExchange currentReadPosition nextReadPosition valueOut =>
    let (current, expected, success) :=
      compareExchange s.sofi.readPosition currentReadPosition nextReadPosition
    if success then
      some { s with
        sofi.readPosition := current
        consumer := .idle
        popped := s.popped ++ (valueOut.map fun v ↦ (currentReadPosition, v)).toList }
    else
      some { s with consumer := .loadWritePosition expected }

/-- How many calls of `push` a choice makes: one for `push`. -/
def Action.calls : Action α → ℕ
  | .push _ => 1
  | _ => 0

/-- One step of the interleaving; `none` when the choice is not enabled. -/
def step (s : State α capacityValue) : Action α → Option (State α capacityValue)
  | .push valueIn =>
    match s.producer with
    | .idle =>
      some { s with
        producer := .writeData valueIn s.sofi.writePosition
        pushed := s.pushed ++ [valueIn] }
    | _ => none
  | .producer => producerStep s
  | .pop =>
    match s.consumer with
    | .idle => some { s with consumer := .loadWritePosition s.sofi.readPosition }
    | _ => none
  | .consumer => consumerStep s
  | .spuriousFailure =>
    match s.consumer with
    | .compareExchange .. => some { s with consumer := .loadWritePosition s.sofi.readPosition }
    | _ => none

/-! ### The invariant -/

/-- The position a producer that won its exchange holds: consumed, its `valueOut` still to be
copied. -/
def owned : Producer α → List ℕ
  | .copyOut currentReadPosition => [currentReadPosition]
  | _ => []

/-- What the producer's locals say about the shared state at each stage of `push`. -/
def ProducerInv (sofi : SpscSofi α capacityValue) (pushed : List α) : Producer α → Prop
  | .idle => pushed.length = sofi.writePosition ∧
      sofi.writePosition + 1 ≤ sofi.readPosition + sofi.size
  | .writeData valueIn w => w = sofi.writePosition ∧ pushed.length = w + 1 ∧
      pushed[w]? = some valueIn ∧ w + 1 ≤ sofi.readPosition + sofi.size
  | .storeWritePosition w => w = sofi.writePosition ∧ pushed.length = w + 1 ∧
      pushed[w]? = some (sofi.data (w % sofi.size)) ∧ w + 1 ≤ sofi.readPosition + sofi.size
  | .loadReadPosition w => w + 1 = sofi.writePosition ∧ pushed.length = w + 1 ∧
      w + 1 ≤ sofi.readPosition + sofi.size
  | .compareExchange cr => pushed.length = sofi.writePosition ∧
      sofi.writePosition = cr + sofi.size ∧ cr ≤ sofi.readPosition
  | .copyOut cr => pushed.length = sofi.writePosition ∧ sofi.writePosition = cr + sofi.size ∧
      cr < sofi.readPosition ∧ pushed[cr]? = some (sofi.data (cr % sofi.size))

/-- What the consumer's locals say about the shared state at each stage of `pop`. A copied
value is only known to be the pushed one while the read position still equals the position it
was copied from, which is exactly when the exchange can succeed. -/
def ConsumerInv (sofi : SpscSofi α capacityValue) (pushed : List α) : Consumer α → Prop
  | .idle => True
  | .loadWritePosition cr => cr ≤ sofi.readPosition
  | .copy cr => cr ≤ sofi.readPosition ∧ cr < sofi.writePosition
  | .compareExchange cr next valueOut => cr ≤ sofi.readPosition ∧
      (valueOut = none ∧ next = cr ∨
        ∃ v, valueOut = some v ∧ next = cr + 1 ∧ cr < sofi.writePosition ∧
          (sofi.readPosition = cr → pushed[cr]? = some v))

/-- **The interleaving invariant.** The consumed positions (popped, evicted, or held by the
producer after its exchange) are `0, ..., m_readPosition - 1`, each once; `pop` consumed in
increasing order; every returned value is the one pushed at its position; the slots of the
positions from the read to the write position hold what was pushed there; and each thread's
locals are consistent with the shared state. -/
structure Inv (s : State α capacityValue) : Prop where
  size_pos : 0 < s.sofi.size
  read_le_write : s.sofi.readPosition ≤ s.sofi.writePosition
  consumed : (s.popped.map Prod.fst ++ s.evicted.map Prod.fst ++ owned s.producer).Perm
    (List.range s.sofi.readPosition)
  popped_sorted : (s.popped.map Prod.fst).Pairwise (· < ·)
  returned : ∀ x ∈ s.popped ++ s.evicted, s.pushed[x.1]? = some x.2
  stored : ∀ p, s.sofi.readPosition ≤ p → p < s.sofi.writePosition →
    s.pushed[p]? = some (s.sofi.data (p % s.sofi.size))
  producer : ProducerInv s.sofi s.pushed s.producer
  consumer : ConsumerInv s.sofi s.pushed s.consumer

/-- An entry of the pushed values survives further pushes. -/
theorem getElem?_append_of_eq_some {l l' : List α} {i : ℕ} {a : α} (h : l[i]? = some a) :
    (l ++ l')[i]? = some a := by
  obtain ⟨hi, -⟩ := List.getElem?_eq_some_iff.1 h
  rw [List.getElem?_append_left hi, h]

/-- The write position never passes the number of `push` calls. -/
theorem ProducerInv.write_le_length {sofi : SpscSofi α capacityValue} {pushed : List α}
    {p : Producer α} (h : ProducerInv sofi pushed p) : sofi.writePosition ≤ pushed.length := by
  cases p <;> simp only [ProducerInv] at h <;> omega

/-- The producer's knowledge survives the consumer moving the read position forward. -/
theorem ProducerInv.of_le_read {sofi : SpscSofi α capacityValue} {pushed : List α}
    {p : Producer α} (h : ProducerInv sofi pushed p) {r : ℕ} (hr : sofi.readPosition ≤ r) :
    ProducerInv ({ sofi with readPosition := r } : SpscSofi α capacityValue) pushed p := by
  cases p with
  | idle =>
    obtain ⟨hlen, hroom⟩ := h
    exact ⟨hlen, by dsimp only; omega⟩
  | writeData v w =>
    obtain ⟨hw, hlen, hv, hroom⟩ := h
    exact ⟨hw, hlen, hv, by dsimp only; omega⟩
  | storeWritePosition w =>
    obtain ⟨hw, hlen, hv, hroom⟩ := h
    exact ⟨hw, hlen, hv, by dsimp only; omega⟩
  | loadReadPosition w =>
    obtain ⟨hw, hlen, hroom⟩ := h
    exact ⟨hw, hlen, by dsimp only; omega⟩
  | compareExchange cr =>
    obtain ⟨hlen, hfull, hcr⟩ := h
    exact ⟨hlen, hfull, by dsimp only; omega⟩
  | copyOut cr =>
    obtain ⟨hlen, hfull, hcr, hv⟩ := h
    exact ⟨hlen, hfull, by dsimp only; omega, hv⟩

/-- The consumer's knowledge survives the producer's steps: positions only grow, pushed values
stay, and the slots are not part of it. -/
theorem ConsumerInv.mono {sofi sofi' : SpscSofi α capacityValue} {pushed pushed' : List α}
    {c : Consumer α} (h : ConsumerInv sofi pushed c)
    (hr : sofi.readPosition ≤ sofi'.readPosition) (hw : sofi.writePosition ≤ sofi'.writePosition)
    (hpushed : ∀ (i : ℕ) (v : α), pushed[i]? = some v → pushed'[i]? = some v) :
    ConsumerInv sofi' pushed' c := by
  cases c with
  | idle => trivial
  | loadWritePosition cr => exact le_trans h hr
  | copy cr => exact ⟨le_trans h.1 hr, lt_of_lt_of_le h.2 hw⟩
  | compareExchange cr next valueOut =>
    obtain ⟨hcr, hnone | ⟨v, hv, hnext, hlt, hpos⟩⟩ := h
    · exact ⟨le_trans hcr hr, .inl hnone⟩
    · -- the read position moved only if it left `cr` behind for good
      refine ⟨le_trans hcr hr, .inr ⟨v, hv, hnext, lt_of_lt_of_le hlt hw, fun heq ↦ ?_⟩⟩
      exact hpushed cr v (hpos (by omega))

/-- Consuming position `r`, the next one, anywhere in the list of consumed positions. -/
theorem perm_range_succ_of_perm {P E : List ℕ} {r : ℕ} (h : (P ++ E).Perm (List.range r)) :
    (P ++ r :: E).Perm (List.range (r + 1)) := by
  rw [List.range_succ]
  calc (P ++ r :: E).Perm (r :: (P ++ E)) := List.perm_middle
    List.Perm _ ((P ++ E) ++ [r]) := (List.perm_append_singleton r (P ++ E)).symm
    List.Perm _ (List.range r ++ [r]) := h.append_right [r]

/-! ### Each transition keeps the invariant -/

namespace Inv

variable {s : State α capacityValue}

/-- `Inv` at a known producer stage. -/
theorem producer_of (hinv : Inv s) {p : Producer α} (hp : s.producer = p) :
    ProducerInv s.sofi s.pushed p :=
  hp ▸ hinv.producer

/-- `Inv` at a known consumer stage. -/
theorem consumer_of (hinv : Inv s) {c : Consumer α} (hc : s.consumer = c) :
    ConsumerInv s.sofi s.pushed c :=
  hc ▸ hinv.consumer

/-- The consumed positions at a producer stage that holds none. -/
theorem consumed_of_owned (hinv : Inv s) (hown : owned s.producer = []) :
    (s.popped.map Prod.fst ++ s.evicted.map Prod.fst).Perm (List.range s.sofi.readPosition) := by
  simpa [hown] using hinv.consumed

/-! #### The producer -/

/-- `push(valueIn)` is called: the value is recorded as pushed and `m_writePosition` loaded. -/
theorem push (hinv : Inv s) (hp : s.producer = .idle) (valueIn : α) :
    Inv ({ s with
      producer := .writeData valueIn s.sofi.writePosition
      pushed := s.pushed ++ [valueIn] } : State α capacityValue) := by
  obtain ⟨hlen, hroom⟩ := hinv.producer_of hp
  refine { hinv with consumed := ?_, returned := ?_, stored := ?_, producer := ?_, consumer := ?_ }
  · simpa [owned] using hinv.consumed_of_owned (by rw [hp]; rfl)
  · exact fun x hx ↦ getElem?_append_of_eq_some (hinv.returned x hx)
  · exact fun p hr hw ↦ getElem?_append_of_eq_some (hinv.stored p hr hw)
  · refine ⟨rfl, by simp [hlen], ?_, hroom⟩
    rw [← hlen]
    exact List.getElem?_concat_length
  · exact hinv.consumer.mono le_rfl le_rfl fun _ _ ↦ getElem?_append_of_eq_some

/-- `m_data[currentWritePosition % m_size] = valueIn`: the slot written is a lap ahead of every
stored position, so none of them is overwritten. -/
theorem writeData (hinv : Inv s) {valueIn : α} {w : ℕ} (hp : s.producer = .writeData valueIn w) :
    Inv ({ s with
      sofi.data := Function.update s.sofi.data (w % s.sofi.size) valueIn
      producer := .storeWritePosition w } : State α capacityValue) := by
  obtain ⟨hw, hlen, hv, hroom⟩ := hinv.producer_of hp
  refine { hinv with
    consumed := ?_, stored := ?_, producer := ⟨hw, hlen, ?_, hroom⟩
    consumer := hinv.consumer.mono le_rfl le_rfl fun _ _ h ↦ h }
  · simpa [owned] using hinv.consumed_of_owned (by rw [hp]; rfl)
  · intro p hr hlt
    dsimp only at hr hlt ⊢
    rw [update_mod_of_lt_of_lt (by omega) (by omega)]
    exact hinv.stored p hr hlt
  · simpa using hv

/-- `m_writePosition.store(nextWritePosition)` publishes the written slot. -/
theorem storeWritePosition (hinv : Inv s) {w : ℕ} (hp : s.producer = .storeWritePosition w) :
    Inv ({ s with sofi.writePosition := w + 1, producer := .loadReadPosition w } :
      State α capacityValue) := by
  obtain ⟨hw, hlen, hv, hroom⟩ := hinv.producer_of hp
  have hrw := hinv.read_le_write
  refine { hinv with
    read_le_write := ?_, consumed := ?_, stored := ?_, producer := ⟨rfl, hlen, hroom⟩
    consumer := hinv.consumer.mono le_rfl ?_ fun _ _ h ↦ h }
  · dsimp only
    omega
  · simpa [owned] using hinv.consumed_of_owned (by rw [hp]; rfl)
  · intro p hr hlt
    rcases Nat.lt_succ_iff_lt_or_eq.1 hlt with hlt | rfl
    · exact hinv.stored p hr (hw ▸ hlt)
    · exact hv
  · dsimp only
    omega

/-- The load of `m_readPosition` finds room for the next write: `push` returns `true`. -/
theorem loadReadPosition_of_lt (hinv : Inv s) {w : ℕ} (hp : s.producer = .loadReadPosition w)
    (hlt : w + 1 < s.sofi.readPosition + s.sofi.size) :
    Inv ({ s with producer := .idle } : State α capacityValue) := by
  obtain ⟨hw, hlen, -⟩ := hinv.producer_of hp
  exact { hinv with
    consumed := by simpa [owned] using hinv.consumed_of_owned (by rw [hp]; rfl)
    producer := ⟨by dsimp only; omega, by dsimp only; omega⟩ }

/-- The load of `m_readPosition` finds the ring full: the producer goes on to evict. -/
theorem loadReadPosition_of_ge (hinv : Inv s) {w : ℕ} (hp : s.producer = .loadReadPosition w)
    (hge : ¬w + 1 < s.sofi.readPosition + s.sofi.size) :
    Inv ({ s with producer := .compareExchange s.sofi.readPosition } : State α capacityValue) := by
  obtain ⟨hw, hlen, hroom⟩ := hinv.producer_of hp
  exact { hinv with
    consumed := by simpa [owned] using hinv.consumed_of_owned (by rw [hp]; rfl)
    producer := ⟨by dsimp only; omega, by dsimp only; omega, le_rfl⟩ }

/-- The producer's exchange succeeds: it consumes the oldest position, whose slot is stored. -/
theorem producerExchange_of_eq (hinv : Inv s) {cr : ℕ} (hp : s.producer = .compareExchange cr)
    (heq : s.sofi.readPosition = cr) :
    Inv ({ s with sofi.readPosition := cr + 1, producer := .copyOut cr } :
      State α capacityValue) := by
  obtain ⟨hlen, hfull, hcr⟩ := hinv.producer_of hp
  have hpos := hinv.size_pos
  have hc := hinv.consumed_of_owned (by rw [hp]; rfl)
  rw [heq] at hc
  refine { hinv with
    read_le_write := ?_, consumed := ?_, stored := ?_, producer := ?_
    consumer := hinv.consumer.mono (by dsimp only; omega) le_rfl fun _ _ h ↦ h }
  · dsimp only
    omega
  · show (s.popped.map Prod.fst ++ s.evicted.map Prod.fst ++ [cr]).Perm (List.range (cr + 1))
    exact perm_range_succ_of_perm (E := []) (by simpa using hc)
  · exact fun p hr hw ↦ hinv.stored p (by dsimp only at hr; omega) hw
  · exact ⟨hlen, hfull, by dsimp only; omega, hinv.stored cr heq.le (by omega)⟩

/-- The producer's exchange fails: the consumer took the oldest position first, so there is
room after all and `push` returns `true`. -/
theorem producerExchange_of_ne (hinv : Inv s) {cr : ℕ} (hp : s.producer = .compareExchange cr)
    (hne : s.sofi.readPosition ≠ cr) :
    Inv ({ s with producer := .idle } : State α capacityValue) := by
  obtain ⟨hlen, hfull, hcr⟩ := hinv.producer_of hp
  exact { hinv with
    consumed := by simpa [owned] using hinv.consumed_of_owned (by rw [hp]; rfl)
    producer := ⟨hlen, by dsimp only; omega⟩ }

/-- The evicting `push` copies its consumed slot to `valueOut` and returns `false`. -/
theorem copyOut (hinv : Inv s) {cr : ℕ} (hp : s.producer = .copyOut cr) :
    Inv ({ s with
      producer := .idle
      evicted := s.evicted ++ [(cr, s.sofi.data (cr % s.sofi.size))] } : State α capacityValue) := by
  obtain ⟨hlen, hfull, hcr, hv⟩ := hinv.producer_of hp
  have hc := hinv.consumed
  rw [hp] at hc
  refine { hinv with
    consumed := by simpa [owned] using hc, returned := ?_, producer := ⟨hlen, by dsimp only; omega⟩ }
  intro x hx
  rw [← List.append_assoc, List.mem_append, List.mem_singleton] at hx
  rcases hx with hx | rfl
  · exact hinv.returned x hx
  · exact hv

/-! #### The consumer -/

/-- `pop()` is called, or its exchange fails, spuriously or on a moved read position: the
consumer holds the current `m_readPosition` and starts its loop over. -/
theorem restartPop (hinv : Inv s) :
    Inv ({ s with consumer := .loadWritePosition s.sofi.readPosition } :
      State α capacityValue) :=
  { hinv with consumer := le_rfl }

/-- The load of `m_writePosition` finds nothing to read: the consumer exchanges for no change. -/
theorem loadWritePosition_of_eq (hinv : Inv s) {cr : ℕ}
    (hc : s.consumer = .loadWritePosition cr) :
    Inv ({ s with consumer := .compareExchange cr cr none } : State α capacityValue) :=
  { hinv with consumer := ⟨hinv.consumer_of hc, .inl ⟨rfl, rfl⟩⟩ }

/-- The load of `m_writePosition` finds a value to read. -/
theorem loadWritePosition_of_ne (hinv : Inv s) {cr : ℕ}
    (hc : s.consumer = .loadWritePosition cr) (hne : cr ≠ s.sofi.writePosition) :
    Inv ({ s with consumer := .copy cr } : State α capacityValue) := by
  have hcr : cr ≤ s.sofi.readPosition := hinv.consumer_of hc
  have hrw := hinv.read_le_write
  exact { hinv with consumer := ⟨hcr, by dsimp only; omega⟩ }

/-- The `memcpy` to `valueOut`: the copy is the pushed value while the read position is still
the one it was copied from. -/
theorem copy (hinv : Inv s) {cr : ℕ} (hc : s.consumer = .copy cr) :
    Inv ({ s with
      consumer := .compareExchange cr (cr + 1) (some (s.sofi.data (cr % s.sofi.size))) } : State α capacityValue) := by
  obtain ⟨hcr, hlt⟩ := hinv.consumer_of hc
  exact { hinv with
    consumer := ⟨hcr, .inr ⟨_, rfl, rfl, hlt, fun heq ↦ hinv.stored cr heq.le hlt⟩⟩ }

/-- The consumer's exchange succeeds: a successful `pop` consumes the oldest position with the
value pushed there, an unsuccessful one changes nothing. -/
theorem consumerExchange_of_eq (hinv : Inv s) {cr next : ℕ} {valueOut : Option α}
    (hc : s.consumer = .compareExchange cr next valueOut) (heq : s.sofi.readPosition = cr) :
    Inv ({ s with
      sofi.readPosition := next
      consumer := .idle
      popped := s.popped ++ (valueOut.map fun v ↦ (cr, v)).toList } : State α capacityValue) := by
  obtain ⟨-, ⟨rfl, rfl⟩ | ⟨v, rfl, rfl, hlt, hv⟩⟩ := hinv.consumer_of hc
  · subst heq
    exact { hinv with
      consumed := by simpa using hinv.consumed
      popped_sorted := by simpa using hinv.popped_sorted
      returned := by simpa using hinv.returned
      consumer := trivial }
  · simp only [Option.map_some, Option.toList_some]
    have hc := hinv.consumed
    rw [heq] at hc
    refine { hinv with
      read_le_write := hlt, consumed := ?_, popped_sorted := ?_, returned := ?_, stored := ?_
      producer := hinv.producer.of_le_read (by omega), consumer := trivial }
    · simpa using perm_range_succ_of_perm (by simpa using hc)
    · -- every earlier `pop` consumed a position below the read position
      rw [List.map_append]
      refine List.pairwise_append.2 ⟨hinv.popped_sorted, List.pairwise_singleton _ _, ?_⟩
      intro a ha b hb
      have hmem : a ∈ List.range cr := hc.subset (List.mem_append_left _ (List.mem_append_left _ ha))
      rw [List.map_singleton, List.mem_singleton] at hb
      exact hb ▸ List.mem_range.1 hmem
    · intro x hx
      simp only [List.mem_append, List.mem_singleton] at hx
      rcases hx with (hx | rfl) | hx
      · exact hinv.returned x (List.mem_append_left _ hx)
      · exact hv heq
      · exact hinv.returned x (List.mem_append_right _ hx)
    · exact fun p hr hw ↦ hinv.stored p (by dsimp only at hr; omega) hw

/-! #### Consequences -/

/-- At rest, each position below the read position was consumed once, by a `pop` or by an
evicting `push`, and no other position was. -/
theorem count_consumed (hinv : Inv s) (hp : s.producer = .idle) (p : ℕ) :
    (s.popped.map Prod.fst).count p + (s.evicted.map Prod.fst).count p =
      if p < s.sofi.readPosition then 1 else 0 := by
  have hc := hinv.consumed_of_owned (by rw [hp]; rfl)
  rw [← List.count_append, hc.count_eq, List.count_range]

/-- A slot the consumer has copied is written by the producer only when the read position has
already left the copied position behind: the slot written is a lap ahead of the write position's
oldest unread predecessor. -/
theorem copied_slot_not_overwritten (hinv : Inv s) {cr : ℕ} {v valueIn : α} {w : ℕ}
    (hc : s.consumer = .compareExchange cr (cr + 1) (some v))
    (hp : s.producer = .writeData valueIn w) (hslot : w % s.sofi.size = cr % s.sofi.size) :
    cr < s.sofi.readPosition := by
  obtain ⟨-, ⟨hnone, -⟩ | ⟨v', -, -, hlt, -⟩⟩ := hinv.consumer_of hc
  · cases hnone
  obtain ⟨hw, -, -, hroom⟩ := hinv.producer_of hp
  -- `cr < w`, and a position less than a lap before `w` would lie in another slot
  have hlap : cr + s.sofi.size ≤ w := by
    by_contra hnear
    exact mod_ne_of_lt_of_lt (by omega) (by omega) hslot.symm
  omega

end Inv

/-! ### Every schedule keeps the invariant -/

variable {s s' : State α capacityValue}

/-- A fresh ring whose capacity fits `INTERNAL_SPSC_SOFI_CAPACITY` satisfies `Inv`. -/
theorem inv_init (hfit : capacityValue + 1 < 2 ^ 32) (junk : ℕ → α) :
    Inv (init junk : State α capacityValue) := by
  have hsize : (init junk : State α capacityValue).sofi.size = capacityValue + 1 :=
    internalSpscSofiCapacity_eq hfit
  refine ⟨by omega, le_rfl, List.Perm.refl _, List.Pairwise.nil, by simp [init], ?_, ?_, trivial⟩
  · intro p _ hw
    cases hw
  · show 0 = 0 ∧ 0 + 1 ≤ 0 + (init junk : State α capacityValue).sofi.size
    omega

/-- **A producer step keeps the invariant** and moves the read position only forward, while the
values pushed and one `m_size` more stay below `2^64`: then no position wraps. It changes neither
the values pushed nor `m_size`. -/
theorem inv_producerStep (hinv : Inv s) (hfits : s.pushed.length + s.sofi.size < 2 ^ 64)
    (h : producerStep s = some s') :
    Inv s' ∧ s.sofi.readPosition ≤ s'.sofi.readPosition ∧ s'.pushed = s.pushed ∧
      s'.sofi.size = s.sofi.size := by
  cases hp : s.producer with
  | idle => simp [producerStep, hp] at h
  | writeData valueIn w =>
    simp only [producerStep, hp, Option.some.injEq] at h
    subst h
    exact ⟨hinv.writeData hp, le_rfl, rfl, rfl⟩
  | storeWritePosition w =>
    -- `w + 1` is the number of values pushed
    have hmod : (w + 1) % 2 ^ 64 = w + 1 :=
      Nat.mod_eq_of_lt (by have := (hinv.producer_of hp).2.1; omega)
    simp only [producerStep, hp, hmod, Option.some.injEq] at h
    subst h
    exact ⟨hinv.storeWritePosition hp, le_rfl, rfl, rfl⟩
  | loadReadPosition w =>
    -- the read position is behind the write position `w + 1`, the number of values pushed
    have hw : (w + 1) % 2 ^ 64 = w + 1 :=
      Nat.mod_eq_of_lt (by have := (hinv.producer_of hp).2.1; omega)
    have hr : (s.sofi.readPosition + s.sofi.size) % 2 ^ 64 = s.sofi.readPosition + s.sofi.size :=
      Nat.mod_eq_of_lt (by
        have := hinv.read_le_write
        have := (hinv.producer_of hp).1
        have := (hinv.producer_of hp).2.1
        omega)
    simp only [producerStep, hp, hw, hr] at h
    split_ifs at h with hroom <;> cases h
    · exact ⟨hinv.loadReadPosition_of_lt hp hroom, le_rfl, rfl, rfl⟩
    · exact ⟨hinv.loadReadPosition_of_ge hp hroom, le_rfl, rfl, rfl⟩
  | compareExchange cr =>
    -- `cr + 1 ≤ cr + m_size`, the write position, the number of values pushed
    have hmod : (cr + 1) % 2 ^ 64 = cr + 1 :=
      Nat.mod_eq_of_lt (by
        obtain ⟨hlen, hfull, -⟩ := hinv.producer_of hp
        have := hinv.size_pos
        omega)
    -- `compare_exchange_strong` cannot fail spuriously: it fails exactly on a moved position
    by_cases heq : s.sofi.readPosition = cr
    · have hcas : compareExchange s.sofi.readPosition cr (cr + 1) = (cr + 1, cr, true) :=
        heq ▸ compareExchange_self cr (cr + 1)
      simp only [producerStep, hp, hmod, hcas, if_true, Option.some.injEq] at h
      subst h
      exact ⟨hinv.producerExchange_of_eq hp heq, by dsimp only; omega, rfl, rfl⟩
    · simp only [producerStep, hp, compareExchange_of_ne heq, Bool.false_eq_true, if_false,
        Option.some.injEq] at h
      subst h
      exact ⟨hinv.producerExchange_of_ne hp heq, le_rfl, rfl, rfl⟩
  | copyOut cr =>
    simp only [producerStep, hp, Option.some.injEq] at h
    subst h
    exact ⟨hinv.copyOut hp, le_rfl, rfl, rfl⟩

/-- **A consumer step keeps the invariant** and moves the read position only forward, under the
same bound; it changes neither the values pushed nor `m_size`. -/
theorem inv_consumerStep (hinv : Inv s) (hfits : s.pushed.length + s.sofi.size < 2 ^ 64)
    (h : consumerStep s = some s') :
    Inv s' ∧ s.sofi.readPosition ≤ s'.sofi.readPosition ∧ s'.pushed = s.pushed ∧
      s'.sofi.size = s.sofi.size := by
  cases hc : s.consumer with
  | idle => simp [consumerStep, hc] at h
  | loadWritePosition cr =>
    simp only [consumerStep, hc] at h
    split_ifs at h with hempty <;> cases h
    · exact ⟨hinv.loadWritePosition_of_eq hc, le_rfl, rfl, rfl⟩
    · exact ⟨hinv.loadWritePosition_of_ne hc hempty, le_rfl, rfl, rfl⟩
  | copy cr =>
    -- the copied position is below the write position, so below the number of values pushed
    have hmod : (cr + 1) % 2 ^ 64 = cr + 1 :=
      Nat.mod_eq_of_lt (by
        have := (hinv.consumer_of hc).2
        have := hinv.producer.write_le_length
        omega)
    simp only [consumerStep, hc, hmod, Option.some.injEq] at h
    subst h
    exact ⟨hinv.copy hc, le_rfl, rfl, rfl⟩
  | compareExchange cr next valueOut =>
    by_cases heq : s.sofi.readPosition = cr
    · have hcas : compareExchange s.sofi.readPosition cr next = (next, cr, true) :=
        heq ▸ compareExchange_self cr next
      simp only [consumerStep, hc, hcas, if_true, Option.some.injEq] at h
      subst h
      refine ⟨hinv.consumerExchange_of_eq hc heq, ?_, rfl, rfl⟩
      -- the exchange publishes `cr` itself or `cr + 1`
      obtain ⟨-, ⟨-, rfl⟩ | ⟨v, -, rfl, -⟩⟩ := hinv.consumer_of hc <;> dsimp only <;> omega
    · simp only [consumerStep, hc, compareExchange_of_ne heq, Bool.false_eq_true, if_false,
        Option.some.injEq] at h
      subst h
      exact ⟨hinv.restartPop, le_rfl, rfl, rfl⟩

/-- **Every enabled step keeps the invariant** and moves the read position only forward, while
no position can wrap; a call of `push` records one more value, and `m_size` stays. -/
theorem inv_step (hinv : Inv s) (hfits : s.pushed.length + s.sofi.size < 2 ^ 64) {a : Action α}
    (h : step s a = some s') :
    Inv s' ∧ s.sofi.readPosition ≤ s'.sofi.readPosition ∧
      s'.pushed.length = s.pushed.length + a.calls ∧ s'.sofi.size = s.sofi.size := by
  cases a with
  | push valueIn =>
    cases hp : s.producer with
    | idle =>
      simp only [step, hp, Option.some.injEq] at h
      subst h
      exact ⟨hinv.push hp valueIn, le_rfl, by simp [Action.calls], rfl⟩
    | writeData _ _ | storeWritePosition _ | loadReadPosition _ | compareExchange _ | copyOut _ =>
      simp [step, hp] at h
  | producer =>
    obtain ⟨hinv', hle, hpushed, hsize⟩ := inv_producerStep hinv hfits h
    exact ⟨hinv', hle, by rw [hpushed]; rfl, hsize⟩
  | pop =>
    cases hc : s.consumer with
    | idle =>
      simp only [step, hc, Option.some.injEq] at h
      subst h
      exact ⟨hinv.restartPop, le_rfl, rfl, rfl⟩
    | loadWritePosition _ | copy _ | compareExchange _ _ _ => simp [step, hc] at h
  | consumer =>
    obtain ⟨hinv', hle, hpushed, hsize⟩ := inv_consumerStep hinv hfits h
    exact ⟨hinv', hle, by rw [hpushed]; rfl, hsize⟩
  | spuriousFailure =>
    cases hc : s.consumer with
    | compareExchange _ _ _ =>
      simp only [step, hc, Option.some.injEq] at h
      subst h
      exact ⟨hinv.restartPop, le_rfl, rfl, rfl⟩
    | idle | loadWritePosition _ | copy _ => simp [step, hc] at h

/-- **Every schedule with few enough calls of `push` keeps the invariant**: fewer than
`2^64 - m_size` values pushed in all, so that no position wraps. The read position moves only
forward, and the values pushed are those of the schedule's calls. -/
theorem inv_run (hinv : Inv s) (schedule : List (Action α))
    (hbound : s.pushed.length + s.sofi.size + Machine.totalCost Action.calls schedule < 2 ^ 64)
    (h : Scheduler.run step s schedule = some s') :
    Inv s' ∧ s.sofi.readPosition ≤ s'.sofi.readPosition ∧
      s'.pushed.length = s.pushed.length + Machine.totalCost Action.calls schedule ∧
      s'.sofi.size = s.sofi.size := by
  -- the first step spends its call of `push`, if it is one, the rest of the schedule the others
  induction schedule generalizing s with
  | nil =>
    cases h
    exact ⟨hinv, le_rfl, rfl, rfl⟩
  | cons a schedule ih =>
    rw [Scheduler.run] at h
    cases hstep : step s a with
    | none => rw [hstep] at h; cases h
    | some s₁ =>
      rw [hstep, Option.bind_some] at h
      rw [Machine.totalCost] at hbound ⊢
      obtain ⟨hinv₁, hle₁, hpushed₁, hsize₁⟩ := inv_step hinv (by omega) hstep
      obtain ⟨hinv', hle', hpushed', hsize'⟩ := ih hinv₁ (by rw [hpushed₁, hsize₁]; omega) h
      exact ⟨hinv', le_trans hle₁ hle', by omega, by rw [hsize', hsize₁]⟩

/-! ### One call alone is the sequential call -/

/-- **A `push` that runs alone is the sequential `push`**, here on a ring with room: three
producer steps after the call. -/
theorem run_push_of_room (hp : s.producer = .idle) (valueIn : α)
    (hroom : (s.sofi.writePosition + 1) % 2 ^ 64 <
      (s.sofi.readPosition + s.sofi.size) % 2 ^ 64) :
    Scheduler.run step s [.push valueIn, .producer, .producer, .producer] =
      some { s with sofi := (s.sofi.push valueIn).1, pushed := s.pushed ++ [valueIn] } := by
  rw [SpscSofi.push_of_room hroom]
  obtain ⟨⟨data, size, R, W⟩, producer, consumer, pushed, popped, evicted⟩ := s
  dsimp only at hp hroom
  subst hp
  simp only [Nat.reducePow] at hroom
  simp [Scheduler.run, step, producerStep, hroom]

/-- **A `push` that runs alone is the sequential `push`**, here on a full ring: five producer
steps after the call, the exchange succeeding since no `pop` competes. -/
theorem run_push_of_overflow (hp : s.producer = .idle) (valueIn : α)
    (hfull : ¬(s.sofi.writePosition + 1) % 2 ^ 64 <
      (s.sofi.readPosition + s.sofi.size) % 2 ^ 64) :
    Scheduler.run step s
        [.push valueIn, .producer, .producer, .producer, .producer, .producer] =
      some { s with
        sofi := (s.sofi.push valueIn).1
        pushed := s.pushed ++ [valueIn]
        evicted := s.evicted ++
          ((s.sofi.push valueIn).2.map fun v ↦ (s.sofi.readPosition, v)).toList } := by
  rw [SpscSofi.push_of_overflow hfull]
  obtain ⟨⟨data, size, R, W⟩, producer, consumer, pushed, popped, evicted⟩ := s
  dsimp only at hp hfull
  subst hp
  simp only [Nat.reducePow] at hfull
  simp [Scheduler.run, step, producerStep, hfull, compareExchange_self]

/-- **A `pop` that runs alone is the sequential `pop`**, here on a non-empty ring: three consumer
steps after the call. -/
theorem run_pop_of_ne (hc : s.consumer = .idle)
    (hne : s.sofi.readPosition ≠ s.sofi.writePosition) :
    Scheduler.run step s [.pop, .consumer, .consumer, .consumer] =
      some { s with
        sofi := s.sofi.pop.1
        popped := s.popped ++ (s.sofi.pop.2.map fun v ↦ (s.sofi.readPosition, v)).toList } := by
  rw [SpscSofi.pop_of_ne hne]
  obtain ⟨⟨data, size, R, W⟩, producer, consumer, pushed, popped, evicted⟩ := s
  dsimp only at hc hne
  subst hc
  simp [Scheduler.run, step, consumerStep, hne, compareExchange_self]

/-- **A `pop` that runs alone is the sequential `pop`**, here on an empty ring: two consumer
steps after the call, and nothing changes. -/
theorem run_pop_of_eq (hc : s.consumer = .idle)
    (heq : s.sofi.readPosition = s.sofi.writePosition) :
    Scheduler.run step s [.pop, .consumer, .consumer] = some { s with sofi := s.sofi.pop.1 } := by
  rw [SpscSofi.pop_of_eq heq]
  obtain ⟨⟨data, size, R, W⟩, producer, consumer, pushed, popped, evicted⟩ := s
  dsimp only at hc heq
  subst hc heq
  simp [Scheduler.run, step, consumerStep, compareExchange_self]

/-! ### Delivery -/

/-- **`SpscSofi` delivers every pushed value exactly once**, under every interleaving of one
producer and one consumer with fewer than `2^64 - CapacityValue - 1` calls of `push`, from a
fresh ring:
* a slot that a pending `pop` has copied is overwritten only when the read position has left
  the copied position behind for good (as long as the calls of `push` stay within the bound), so
  that the exchange publishing the copy never succeeds;
* an evicting `push` copies out the value pushed at the position it won;
* every value returned by a successful `pop` or an evicting `push` is the one pushed at its
  position, and `pop` returns in push order;
* with both threads at rest, every pushed value was returned by exactly one successful `pop`,
  or by exactly one evicting `push`, or is still stored between the read and the write
  position, and exactly one of these holds. -/
theorem spscSofi_delivers_each_value_once (hfit : capacityValue + 1 < 2 ^ 32) (junk : ℕ → α)
    (schedule : List (Action α))
    (hpushes : capacityValue + 1 + Machine.totalCost Action.calls schedule < 2 ^ 64)
    {s : State α capacityValue} (hs : Scheduler.run step (init junk) schedule = some s) :
    (∀ cr v valueIn w, s.consumer = .compareExchange cr (cr + 1) (some v) →
      s.producer = .writeData valueIn w → w % s.sofi.size = cr % s.sofi.size →
      ∀ (schedule' : List (Action α)) (s' : State α capacityValue),
        capacityValue + 1 + Machine.totalCost Action.calls schedule +
          Machine.totalCost Action.calls schedule' < 2 ^ 64 →
        Scheduler.run step s schedule' = some s' → s'.sofi.readPosition ≠ cr) ∧
    (∀ cr, s.producer = .copyOut cr → s.pushed[cr]? = some (s.sofi.data (cr % s.sofi.size))) ∧
    (∀ x ∈ s.popped ++ s.evicted, s.pushed[x.1]? = some x.2) ∧
    (s.popped.map Prod.fst).Pairwise (· < ·) ∧
    (s.producer = .idle → s.consumer = .idle → ∀ p < s.pushed.length,
      (s.popped.map Prod.fst).count p + (s.evicted.map Prod.fst).count p +
          (if s.sofi.readPosition ≤ p then 1 else 0) = 1 ∧
        (s.sofi.readPosition ≤ p → p < s.sofi.writePosition ∧
          s.pushed[p]? = some (s.sofi.data (p % s.sofi.size)))) := by
  have hsize : (init junk : State α capacityValue).sofi.size = capacityValue + 1 :=
    internalSpscSofiCapacity_eq hfit
  obtain ⟨hinv, -, hpushed, hsize'⟩ := inv_run (inv_init hfit junk) schedule
    (by rw [hsize]; exact (by simpa [init] using hpushes)) hs
  refine ⟨?_, fun cr hp ↦ (hinv.producer_of hp).2.2.2, hinv.returned, hinv.popped_sorted, ?_⟩
  · intro cr v valueIn w hc hp hslot schedule' s' hbound hs'
    have hlt := hinv.copied_slot_not_overwritten hc hp hslot
    have hle := (inv_run hinv schedule' (by
      rw [hpushed, hsize', hsize]
      simp only [init, List.length_nil]
      omega) hs').2.1
    omega
  · intro hp _ p hp_lt
    obtain ⟨hlen, -⟩ := hinv.producer_of hp
    refine ⟨?_, fun hr ↦ ⟨by omega, hinv.stored p hr (by omega)⟩⟩
    rw [hinv.count_consumed hp p]
    split_ifs <;> omega

/-- A `pop` that starts before a `push` and finishes after it returns the pushed value. -/
theorem spscSofi_delivers_each_value_once_of_overlap :
    (2 : ℕ) + 1 < 2 ^ 32 ∧ (2 : ℕ) + 1 + Machine.totalCost Action.calls
        ([.pop, .push 5, .producer, .producer, .producer, .consumer, .consumer, .consumer] :
          List (Action ℕ)) < 2 ^ 64 ∧
      ∃ s : State ℕ 2,
      Scheduler.run step (init fun _ ↦ 0) [.pop, .push 5, .producer, .producer, .producer,
        .consumer, .consumer, .consumer] = some s ∧
      s.popped = [(0, 5)] ∧ (s.popped.map Prod.fst).Pairwise (· < ·) := by
  refine ⟨by decide, by decide, _, rfl, rfl, ?_⟩
  exact (spscSofi_delivers_each_value_once (by decide) (fun _ ↦ 0)
    [.pop, .push 5, .producer, .producer, .producer, .consumer, .consumer, .consumer]
    (by decide) rfl).2.2.2.1

/-! ### The record does not steer the run -/

/-- The same state with `P`, `Q` and `E` recorded before its own record of pushed, popped and
evicted values. -/
def State.prependRecord (P : List α) (Q E : List (ℕ × α)) (s : State α capacityValue) :
    State α capacityValue :=
  { s with pushed := P ++ s.pushed, popped := Q ++ s.popped, evicted := E ++ s.evicted }

/-- A step reads the ring and the threads only: on a longer record it takes the same step and
appends the same entries. -/
theorem step_prependRecord (P : List α) (Q E : List (ℕ × α)) (s : State α capacityValue)
    (a : Action α) :
    step (s.prependRecord P Q E) a = (step s a).map (State.prependRecord P Q E) := by
  obtain ⟨sofi, producer, consumer, pushed, popped, evicted⟩ := s
  -- one case per action and per place of the thread the action moves
  cases a with
  | push valueIn => cases producer <;> simp [step, State.prependRecord]
  | producer =>
    cases producer with
    | loadReadPosition w =>
      -- the guard's decision is built on each side's own state: compare the two `if`s branchwise
      simp only [step, producerStep, State.prependRecord]
      rw [apply_ite (Option.map _)]
      exact if_congr Iff.rfl rfl rfl
    | compareExchange cr =>
      by_cases heq : sofi.readPosition = cr <;>
        simp [step, producerStep, State.prependRecord, compareExchange, heq]
    | idle | writeData _ _ | storeWritePosition _ | copyOut _ =>
      simp [step, producerStep, State.prependRecord]
  | pop => cases consumer <;> simp [step, State.prependRecord]
  | consumer =>
    cases consumer with
    | loadWritePosition cr =>
      simp only [step, consumerStep, State.prependRecord]
      rw [apply_ite (Option.map _)]
      exact if_congr Iff.rfl rfl rfl
    | compareExchange cr next valueOut =>
      by_cases heq : sofi.readPosition = cr <;> cases valueOut <;>
        simp [step, consumerStep, State.prependRecord, compareExchange, heq]
    | idle | copy _ => simp [step, consumerStep, State.prependRecord]
  | spuriousFailure => cases consumer <;> simp [step, State.prependRecord]

/-- **The record does not steer the run**: a schedule from a state with a longer record runs as
from the state itself, appending the same entries. -/
theorem run_prependRecord (P : List α) (Q E : List (ℕ × α)) (schedule : List (Action α))
    (s : State α capacityValue) :
    Scheduler.run step (s.prependRecord P Q E) schedule =
      (Scheduler.run step s schedule).map (State.prependRecord P Q E) := by
  induction schedule generalizing s with
  | nil => rfl
  | cons a schedule ih =>
    rw [Scheduler.run, Scheduler.run, step_prependRecord]
    cases step s a with
    | none => rfl
    | some s₁ => exact ih s₁

/-! ### Past the bound -/

/-- `n` rounds of a `push` of `v` that runs alone and then a `pop` that runs alone. -/
def loneRounds (v : α) : ℕ → List (Action α)
  | 0 => []
  | n + 1 => [.push v, .producer, .producer, .producer] ++ [.pop, .consumer, .consumer, .consumer] ++
      loneRounds v n

/-- **Rounds of a lone `push` and a lone `pop` on an empty ring** move both positions on by one
each and pop `v` each time, as long as no position a `push` reads reaches `2^64`. -/
theorem run_loneRounds (v : α) :
    ∀ (n : ℕ) (s : State α capacityValue), s.producer = .idle → s.consumer = .idle →
      s.sofi.readPosition = s.sofi.writePosition → 2 ≤ s.sofi.size →
      s.sofi.writePosition + n + s.sofi.size ≤ 2 ^ 64 →
      ∃ data popped, Scheduler.run step s (loneRounds v n) = some
        { s with
          sofi := { s.sofi with
            data := data
            readPosition := s.sofi.writePosition + n
            writePosition := s.sofi.writePosition + n }
          pushed := s.pushed ++ List.replicate n v
          popped := s.popped ++ popped } ∧
        (∀ x ∈ popped, x.2 = v) ∧ ∀ i, data i = v ∨ data i = s.sofi.data i
  | 0, ⟨⟨data, size, r, w⟩, producer, consumer, pushed, popped, evicted⟩, _, _, hrw, _, _ => by
    dsimp only at hrw
    subst hrw
    exact ⟨data, [], by simp [loneRounds, Scheduler.run], by simp, fun _ ↦ .inr rfl⟩
  | n + 1, s, hp, hc, hrw, hsize, hfit => by
    -- one round: the push finds room, and the pop reads the slot just written
    have hroom : (s.sofi.writePosition + 1) % 2 ^ 64 <
        (s.sofi.readPosition + s.sofi.size) % 2 ^ 64 := by
      rw [Nat.mod_eq_of_lt (by omega), Nat.mod_eq_of_lt (by omega)]
      omega
    have hpush := SpscSofi.push_of_lt (s := s.sofi) hrw.le (by omega) (by omega) v
    set s₁ : State α capacityValue :=
      { s with sofi := (s.sofi.push v).1, pushed := s.pushed ++ [v] } with hs₁
    have hne : s₁.sofi.readPosition ≠ s₁.sofi.writePosition := by
      rw [hs₁, hpush]
      dsimp only
      omega
    have hpop : s₁.sofi.pop = ({ s₁.sofi with readPosition := s.sofi.readPosition + 1 }, some v) := by
      rw [SpscSofi.pop_of_ne hne, hs₁, hpush]
      simp only [hrw, Function.update_self, Prod.mk.injEq, and_true]
      congr 1
      exact Nat.mod_eq_of_lt (by omega)
    set s₂ : State α capacityValue :=
      { s₁ with
        sofi := s₁.sofi.pop.1
        popped := s₁.popped ++ (s₁.sofi.pop.2.map fun v ↦ (s₁.sofi.readPosition, v)).toList }
      with hs₂
    -- the ring after the round: both positions one further, and `v` in the slot written
    have hsofi₂ : s₂.sofi = { s.sofi with
        data := Function.update s.sofi.data (s.sofi.writePosition % s.sofi.size) v
        readPosition := s.sofi.readPosition + 1
        writePosition := s.sofi.writePosition + 1 } := by
      rw [hs₂, hpop, hs₁, hpush]
    obtain ⟨data, popped, hrun, hpopped, hdata⟩ := run_loneRounds v n s₂ hp hc
      (by rw [hsofi₂]; dsimp only; omega) (by rw [hsofi₂]; exact hsize)
      (by rw [hsofi₂]; dsimp only; omega)
    refine ⟨data, (s.sofi.readPosition, v) :: popped, ?_, ?_, ?_⟩
    · rw [loneRounds, Scheduler.run_append, Scheduler.run_append, run_push_of_room hp v hroom,
        Option.bind_some, ← hs₁, run_pop_of_ne (s := s₁) hc hne, Option.bind_some, ← hs₂, hrun]
      rw [hs₂, hpop, hs₁, hpush]
      obtain ⟨⟨data₀, size, r, w⟩, producer, consumer, pushed₀, popped₀, evicted⟩ := s
      dsimp only at hrw ⊢
      subst hrw
      simp only [List.append_assoc, List.replicate_succ, Option.map_some, Option.toList_some,
        List.cons_append, List.nil_append, Option.some.injEq, State.mk.injEq, SpscSofi.mk.injEq,
        and_true, true_and]
      omega
    · intro x hx
      rcases List.mem_cons.1 hx with rfl | hx
      · rfl
      · exact hpopped x hx
    · -- the round wrote `v` to one slot and left the others
      intro i
      rcases hdata i with h | h
      · exact .inl h
      · rw [hsofi₂] at h
        dsimp only at h
        rw [Function.update_apply] at h
        split_ifs at h
        · exact .inl h
        · exact .inr h

/-- **Past `2^64 - m_size` calls of `push` a value is lost.** On a ring of capacity two
(`m_size = 3`), `2^64 - 3` rounds of a lone `push` and a lone `pop` bring both positions to
`2^64 - 3`. Then `currentReadPosition + m_size` wraps to `0`: the pushes of `1` and `2` evict
from the empty ring. The push of `3` writes slot `(2^64 - 1) % 3 = 0` and wraps the write
position to `0`, the push of `4` writes slot `0 % 3 = 0` again, and the two pops read that slot
at the read positions `2^64 - 1` and `0`. At rest, `3` was neither popped nor evicted nor is it
stored, and `4` was popped twice. -/
theorem spscSofi_loses_value_after_wrap :
    ∃ s : State ℕ 2, Scheduler.run step (init fun _ ↦ 0) (loneRounds 0 (2 ^ 64 - 3) ++
        [.push 1, .producer, .producer, .producer, .producer, .producer,
          .push 2, .producer, .producer, .producer, .producer, .producer,
          .push 3, .producer, .producer, .producer, .push 4, .producer, .producer, .producer,
          .pop, .consumer, .consumer, .consumer, .pop, .consumer, .consumer, .consumer]) = some s ∧
      s.producer = .idle ∧ s.consumer = .idle ∧ 3 ∈ s.pushed ∧
      3 ∉ s.popped.map Prod.snd ∧ 3 ∉ s.evicted.map Prod.snd ∧
      s.sofi.readPosition = s.sofi.writePosition ∧ (s.popped.map Prod.snd).count 4 = 2 := by
  obtain ⟨data, popped, hrun, hpopped, hdata⟩ := run_loneRounds (0 : ℕ) (2 ^ 64 - 3)
    (init fun _ ↦ 0 : State ℕ 2) rfl rfl rfl (by decide) (by decide)
  -- the rounds wrote `0` over slots holding `0`
  have hzero : data = fun _ ↦ 0 := funext fun i ↦ (hdata i).elim id id
  subst hzero
  -- the rounds' pushes stay abstract: no simp lemma may unfold `2^64 - 3` copies of `0`
  generalize List.replicate (2 ^ 64 - 3) 0 = rounds at hrun
  have hrounds : Scheduler.run step (init fun _ ↦ 0) (loneRounds 0 (2 ^ 64 - 3)) =
      some ((⟨⟨fun _ ↦ 0, 3, 2 ^ 64 - 3, 2 ^ 64 - 3⟩, .idle, .idle, [], [], []⟩ :
        State ℕ 2).prependRecord rounds popped []) := by
    rw [hrun]
    simp [State.prependRecord, init, new, internalSpscSofiCapacity, internalCapacityAddon]
  -- the run after the rounds, on an empty record, evaluated
  have htail : (Scheduler.run step
      (⟨⟨fun _ ↦ 0, 3, 2 ^ 64 - 3, 2 ^ 64 - 3⟩, .idle, .idle, [], [], []⟩ : State ℕ 2)
        [.push 1, .producer, .producer, .producer, .producer, .producer,
          .push 2, .producer, .producer, .producer, .producer, .producer,
          .push 3, .producer, .producer, .producer, .push 4, .producer, .producer, .producer,
          .pop, .consumer, .consumer, .consumer, .pop, .consumer, .consumer, .consumer]).map
        (fun s ↦ (s.producer, s.consumer, s.sofi.readPosition, s.sofi.writePosition, s.pushed,
          s.popped, s.evicted)) =
      some (.idle, .idle, 1, 1, [1, 2, 3, 4], [(2 ^ 64 - 1, 4), (0, 4)],
        [(2 ^ 64 - 3, 1), (2 ^ 64 - 2, 2)]) := by
    set_option synthInstance.maxSize 1024 in decide +kernel
  obtain ⟨t, ht, hobs⟩ := Option.map_eq_some_iff.1 htail
  simp only [Prod.mk.injEq] at hobs
  obtain ⟨hp, hc, hr, hw, hpushed, hpopped', hevicted⟩ := hobs
  -- the rounds popped only `0`
  have hnot : ∀ k, k ≠ 0 → k ∉ popped.map Prod.snd := fun k hk h ↦ by
    obtain ⟨x, hx, hxk⟩ := List.mem_map.1 h
    exact hk (hxk ▸ hpopped x hx)
  refine ⟨t.prependRecord rounds popped [], ?_, hp, hc, ?_, ?_, ?_, ?_, ?_⟩
  · rw [Scheduler.run_append, hrounds, Option.bind_some, run_prependRecord, ht, Option.map_some]
  · simp [State.prependRecord, hpushed]
  · simp only [State.prependRecord, hpopped', List.map_append, List.mem_append, not_or]
    exact ⟨hnot 3 (by decide), by simp⟩
  · simp [State.prependRecord, hevicted]
  · simp [State.prependRecord, hr, hw]
  · simp [State.prependRecord, hpopped', List.count_eq_zero.2 (hnot 4 (by decide))]
end Iox.Concurrent.SpscSofi.Interleaving
