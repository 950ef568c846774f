import Mathlib.Data.List.Basic

/-!
# Bounded FIFO queues

The abstract queue that the concrete ring buffers and index queues of this development refine:
a list of elements, oldest first, and a capacity. Three ways of adding an element are used by the
code being modelled, and all three are here:

* `tryPush` refuses a full queue and leaves it unchanged;
* `push` always adds, and on a full queue removes and returns the oldest element (an
  *overwrite-oldest* or *evicting* push); on a queue of capacity zero that is the element just
  pushed;
* `pop` removes and returns the oldest element, if any.

A queue whose capacity changes at run time shrinks by `resize`, which keeps the newest elements.

None of the operations loses or copies an element: what a queue keeps and what the operation
hands back is what it held and what was pushed (`pop_items`, `tryPush_items`, `push_perm`).

The ring buffers that implement such a queue put position `p` in slot `p % m`; the last section
says which writes to such a ring leave a slot alone (`update_mod_of_lt_of_lt`).
-/

/-- A bounded FIFO queue: its elements, oldest first, and its capacity. -/
structure BoundedQueue (α : Type*) where
  /-- The elements, oldest first. -/
  items : List α
  /-- The capacity. -/
  capacity : ℕ
  deriving DecidableEq, Repr

namespace BoundedQueue

variable {α : Type*}

/-- Remove and return the oldest element, if any. -/
def pop (q : BoundedQueue α) : BoundedQueue α × Option α :=
  match q.items with
  | [] => (q, none)
  | a :: rest => (⟨rest, q.capacity⟩, some a)

/-- Add an element unless the queue is full; report whether it was added. -/
def tryPush (q : BoundedQueue α) (a : α) : BoundedQueue α × Bool :=
  if q.items.length < q.capacity then (⟨q.items ++ [a], q.capacity⟩, true) else (q, false)

/-- Add an element; on a full queue the oldest element of the extended queue is removed and
returned. -/
def push (q : BoundedQueue α) (a : α) : BoundedQueue α × Option α :=
  if q.items.length < q.capacity then
    (⟨q.items ++ [a], q.capacity⟩, none)
  else
    (⟨(q.items ++ [a]).tail, q.capacity⟩, (q.items ++ [a]).head?)

/-- Change the capacity to `n`, keeping the newest elements that fit; the oldest ones are
removed and returned, oldest first. -/
def resize (q : BoundedQueue α) (n : ℕ) : BoundedQueue α × List α :=
  (⟨q.items.drop (q.items.length - n), n⟩, q.items.take (q.items.length - n))

@[simp] theorem pop_nil (c : ℕ) : pop (⟨[], c⟩ : BoundedQueue α) = (⟨[], c⟩, none) := rfl

@[simp] theorem pop_cons (a : α) (rest : List α) (c : ℕ) :
    pop (⟨a :: rest, c⟩ : BoundedQueue α) = (⟨rest, c⟩, some a) :=
  rfl

theorem push_of_lt {q : BoundedQueue α} (h : q.items.length < q.capacity) (a : α) :
    push q a = (⟨q.items ++ [a], q.capacity⟩, none) :=
  if_pos h

theorem push_of_le {q : BoundedQueue α} (h : q.capacity ≤ q.items.length) (a : α) :
    push q a = (⟨(q.items ++ [a]).tail, q.capacity⟩, (q.items ++ [a]).head?) :=
  if_neg (Nat.not_lt.2 h)

/-- An evicting push on a full, nonempty queue drops its head and appends. -/
theorem push_cons_of_le {a : α} {rest : List α} {c : ℕ} (h : c ≤ rest.length + 1) (b : α) :
    push (⟨a :: rest, c⟩ : BoundedQueue α) b = (⟨rest ++ [b], c⟩, some a) :=
  push_of_le (q := ⟨a :: rest, c⟩) h b

theorem tryPush_of_lt {q : BoundedQueue α} (h : q.items.length < q.capacity) (a : α) :
    tryPush q a = (⟨q.items ++ [a], q.capacity⟩, true) :=
  if_pos h

theorem tryPush_of_le {q : BoundedQueue α} (h : q.capacity ≤ q.items.length) (a : α) :
    tryPush q a = (q, false) :=
  if_neg (Nat.not_lt.2 h)

/-! ### Conservation

Each operation keeps every element it is given: what the queue holds afterwards, together with
what the operation hands back, is what it held before together with what was pushed. A queue of
references is therefore a place where references are held, and these lemmas are what the
reference counts of its users rest on. -/

/-- A pop hands back the oldest element and keeps the others. -/
theorem pop_items (q : BoundedQueue α) : (pop q).2.toList ++ (pop q).1.items = q.items := by
  unfold pop
  split <;> simp_all

/-- A refusing push keeps the element or hands it back. -/
theorem tryPush_items (q : BoundedQueue α) (a : α) :
    (tryPush q a).1.items ++ (if (tryPush q a).2 then [] else [a]) = q.items ++ [a] := by
  unfold tryPush
  split <;> simp

/-- An evicting push keeps the new element and hands back at most the oldest one. -/
theorem push_perm (q : BoundedQueue α) (a : α) :
    ((push q a).1.items ++ (push q a).2.toList).Perm (q.items ++ [a]) := by
  unfold push
  split
  · simp
  · cases q.items ++ [a] <;> simp

@[simp] theorem capacity_pop (q : BoundedQueue α) : (pop q).1.capacity = q.capacity := by
  unfold pop
  split <;> rfl

@[simp] theorem capacity_tryPush (q : BoundedQueue α) (a : α) :
    (tryPush q a).1.capacity = q.capacity := by
  unfold tryPush
  split <;> rfl

@[simp] theorem capacity_push (q : BoundedQueue α) (a : α) : (push q a).1.capacity = q.capacity := by
  unfold push
  split <;> rfl

end BoundedQueue

/-! ### Rings of slots

A ring buffer of `m` slots that addresses them by ever-growing positions puts position `p` in slot
`p % m`. Its proofs rest on one fact: positions less than one lap apart lie in different slots, so
a write to the slot of one of them leaves the slots of the others alone. -/

/-- **Positions less than one lap apart lie in different slots.** -/
theorem mod_ne_of_lt_of_lt {a b m : ℕ} (hab : a < b) (hb : b < a + m) : a % m ≠ b % m := by
  intro h
  have hdvd : m ∣ b - a := Nat.dvd_of_mod_eq_zero (Nat.sub_mod_eq_zero_of_mod_eq h.symm)
  have := Nat.le_of_dvd (by omega) hdvd
  omega

/-- A write to the slot of position `b` keeps the slot of a position `a` less than a lap
before it. -/
theorem update_mod_of_lt_of_lt {α : Type*} {d : ℕ → α} {v : α} {a b m : ℕ} (hab : a < b)
    (hb : b < a + m) : Function.update d (b % m) v (a % m) = d (a % m) :=
  Function.update_of_ne (mod_ne_of_lt_of_lt hab hb) v d
