import Iceoryx.Data.NextChain
import Iceoryx.Data.IndexFilter

/-!
# `FixedPositionContainer`

`FixedPositionContainer<T, CAPACITY>` (`fixed_position_container.inl`) keeps each element at the
slot where it was placed. The array `m_next` threads two singly linked lists through the slots,
the used list from `m_begin_used` and the free list from `m_begin_free`, both in ascending order
of index and both ended by `Index::INVALID = CAPACITY`; `m_status` marks each slot `USED` or
`FREE`.

* `emplace` takes the head of the free list, which is the smallest free slot, and links it into
  the used list: as the new head when it lies below the old one, and otherwise after the nearest
  used slot below it, which a downward scan finds;
* `erase(index)` unlinks the slot from the used list and links it into the free list, as the new
  head of either list where it lies below the old head, and otherwise in one downward scan that
  looks for the nearest used and the nearest free slot below it (`eraseLoop`);
* `clear` and the constructor free every slot and link slot `i` to `i + 1`;
* copy and move (`copyAndMoveImpl`) walk the iterator of the source and place its elements,
  compacted, in the slots `0, …, size - 1`.

Slots are indices `i < capacity` and the arrays are functions on `ℕ`; a slot's element is `none`
where no object lives, so destroying an element is writing `none`. The source's `IOX_ENFORCE`
checks end the process with a message: here they are the `Except.error` of the call, with the
source's message.

## What is proved

`Inv` says that the used and free lists are the chains of the slots the status marks used and
free, in ascending order, that `m_size` counts the used ones, and that an element lives exactly in
a used slot. It holds for a new container and after `clear`, `emplace`, `erase` of a used slot and
every copy or move from a container where it holds (`emplace_spec`, `erase_spec`,
`copyAndMoveImpl_spec`); none of these calls fails an `IOX_ENFORCE` there. `Inv.lists` reads off
it what a caller sees (`Lists`): the used and the free slots in ascending order, disjoint and
covering every slot, with `m_size` the number of used ones; `Inv.iterIndices_eq` says that the
iterator visits the used slots in ascending order.
-/

namespace Iox.Container

open Function (update)

/-- `SlotStatus` -/
inductive SlotStatus
  | free
  | used
  deriving DecidableEq

/-- A `FixedPositionContainer<T, CAPACITY>` with `CAPACITY = capacity`, which is also
`Index::INVALID` and the index of `end()`. -/
@[ext] structure FixedPositionContainer (T : Type*) (capacity : ℕ) where
  /-- `m_data`: the element living in a slot, if any. -/
  data : ℕ → Option T
  /-- `m_status` -/
  status : ℕ → SlotStatus
  /-- `m_next` -/
  next : ℕ → ℕ
  /-- `m_size` -/
  size : ℕ
  /-- `m_begin_free` -/
  beginFree : ℕ
  /-- `m_begin_used` -/
  beginUsed : ℕ

namespace FixedPositionContainer

variable {T : Type*} {capacity : ℕ}

/-! ### The source's functions -/

/-- Slot `i` has status `s`. -/
def marked (status : ℕ → SlotStatus) (s : SlotStatus) (i : ℕ) : Bool :=
  status i == s

/-- `FixedPositionContainer()`: every slot free and linked to the next one, `Index::LAST` to
`Index::INVALID`. -/
def new : FixedPositionContainer T capacity where
  data _ := none
  status _ := .free
  next i := i + 1
  size := 0
  beginFree := 0
  beginUsed := capacity

/-- `clear()`: the loop over the slots destroys every element, frees the slot and links it to the
next one. -/
def clear (c : FixedPositionContainer T capacity) : FixedPositionContainer T capacity where
  data i := if i < capacity then none else c.data i
  status i := if i < capacity then .free else c.status i
  next i := if i < capacity then i + 1 else c.next i
  size := 0
  beginFree := 0
  beginUsed := capacity

/-- `full()`: `m_begin_free >= Index::INVALID`. -/
def full (c : FixedPositionContainer T capacity) : Bool :=
  decide (capacity ≤ c.beginFree)

/-- `empty()`: `m_size == 0`. -/
def empty (c : FixedPositionContainer T capacity) : Bool :=
  c.size == 0

/-- `emplace(args...)`: `end()` when full; otherwise the head of the free list takes the element
and joins the used list, as its head or after the nearest used slot below it. -/
def emplace (c : FixedPositionContainer T capacity) (x : T) :
    Except String (FixedPositionContainer T capacity × ℕ) :=
  if c.full then .ok (c, capacity)
  else
    let index := c.beginFree
    let status := update c.status index .used
    let taken : FixedPositionContainer T capacity :=
      { c with beginFree := c.next index, data := update c.data index (some x), status,
               size := c.size + 1 }
    if index < c.beginUsed then
      .ok ({ taken with next := update c.next index c.beginUsed, beginUsed := index }, index)
    else if index = 0 then .error "Corruption detected!"
    else
      -- the loop `for (i = index - 1;; --i)` stops at the first used slot, and fails its
      -- `IOX_ENFORCE(i != 0)` when it reaches slot `0` without one
      match IndexFilter.lastBelow (marked status .used) index with
      | some i => .ok ({ taken with next := update (update c.next index (c.next i)) i index }, index)
      | none => .error "Corruption detected!"

/-- The loop of `erase(index)` over the slots below `index`, downwards while the slot is not yet
out of the used list or not yet in the free list: the first used slot is relinked to the slot
after `index`, and `index` is linked after the first free slot. -/
def eraseLoop (status : ℕ → SlotStatus) (index nextUsed : ℕ) :
    ℕ → (ℕ → ℕ) → Bool → Bool → (ℕ → ℕ) × Bool × Bool
  | 0, next, removed, added => (next, removed, added)
  | i + 1, next, removed, added =>
    if removed && added then (next, removed, added)
    else
      let (next, removed) :=
        if !removed && marked status .used i then (update next i nextUsed, true)
        else (next, removed)
      let (next, added) :=
        if !added && marked status .free i then (update (update next index (next i)) i index, true)
        else (next, added)
      eraseLoop status index nextUsed i next removed added

/-- `erase(index)`: the element is destroyed, the slot leaves the used list and joins the free
list; the result is the iterator to the slot that followed it in the used list. `index <=
Index::LAST` is `index < capacity`. -/
def erase (c : FixedPositionContainer T capacity) (index : ℕ) :
    Except String (FixedPositionContainer T capacity × ℕ) :=
  if ¬index < capacity then .error "Index out of range"
  else if c.status index ≠ .used then
    .error "Trying to erase from index pointing to an empty slot!"
  else
    let it := c.next index
    let nextUsed := c.next index
    -- the head of the used list moves past `index`, and `index` becomes the head of the free
    -- list when it lies below the old head; the two touch different members
    let removed := index == c.beginUsed
    let added := decide (index < c.beginFree)
    let c : FixedPositionContainer T capacity :=
      { data := update c.data index none, status := update c.status index .free,
        size := c.size - 1, beginUsed := if removed then nextUsed else c.beginUsed,
        next := if added then update c.next index c.beginFree else c.next,
        beginFree := if added then index else c.beginFree }
    if removed && added then .ok (c, it)
    else if index = 0 then .error "Corruption detected! Index cannot be 0 at this location!"
    else
      let (next, removed, added) := eraseLoop c.status index nextUsed index c.next removed added
      if removed && added then .ok ({ c with next }, it)
      else .error "Corruption detected! The container is in a corrupt state!"

/-- The first loop of `copy_and_move_impl`: slot `i` takes the element at the next index the
iterator of the source visits, becomes used and links to `i + 1`. Assignment and construction
into the slot give it the same value. -/
def copyLoop (rhsData : ℕ → Option T) :
    List ℕ → ℕ → FixedPositionContainer T capacity → ℕ × FixedPositionContainer T capacity
  | [], i, c => (i, c)
  | j :: js, i, c =>
    copyLoop rhsData js (i + 1)
      { c with data := update c.data i (rhsData j), status := update c.status i .used,
               next := update c.next i (i + 1) }

/-- The second loop of `copy_and_move_impl`, over `n` slots from `i`: each loses its element if it
is used, becomes free and links to the next slot. -/
def freeLoop : ℕ → ℕ → FixedPositionContainer T capacity → FixedPositionContainer T capacity
  | 0, _, c => c
  | n + 1, i, c =>
    freeLoop n (i + 1)
      { c with data := if c.status i = .used then update c.data i none else c.data,
               status := update c.status i .free, next := update c.next i (i + 1) }

/-- The indices `begin()` and `operator++` visit up to `end()`: at most `CAPACITY` of them. -/
def iterIndices (c : FixedPositionContainer T capacity) : List ℕ :=
  NextChain.follow c.next capacity capacity c.beginUsed

/-- The elements in the order of iteration. -/
def elements (c : FixedPositionContainer T capacity) : List T :=
  c.iterIndices.filterMap c.data

/-- `copy_and_move_impl<Opt>(rhs)`: a constructor first frees every slot; the elements of `rhs`
then fill the slots `0, …, n - 1` in the order of its iterator and the remaining slots are freed;
the lists are the prefix and the rest. -/
def copyAndMoveImpl (isCtor : Bool) (c rhs : FixedPositionContainer T capacity) :
    FixedPositionContainer T capacity :=
  let c := if isCtor then { c with status := fun i ↦ if i < capacity then .free else c.status i }
    else c
  let (i, c) := copyLoop rhs.data rhs.iterIndices 0 c
  let c := freeLoop (capacity - i) i c
  -- `m_next[Index::LAST] = Index::INVALID`, and the last copied slot ends the used list
  let next := update c.next (capacity - 1) capacity
  let next := if rhs.empty then next else update next (rhs.size - 1) capacity
  { c with next, beginFree := rhs.size, beginUsed := if rhs.empty then capacity else 0,
           size := rhs.size }

/-- `FixedPositionContainer(const FixedPositionContainer&)`, into the members of a new object. -/
def copyConstruct (rhs : FixedPositionContainer T capacity) : FixedPositionContainer T capacity :=
  copyAndMoveImpl true new rhs

/-- `FixedPositionContainer(FixedPositionContainer&&)`: the new container and the cleared
source. -/
def moveConstruct (rhs : FixedPositionContainer T capacity) :
    FixedPositionContainer T capacity × FixedPositionContainer T capacity :=
  (copyAndMoveImpl true new rhs, rhs.clear)

/-- `operator=(const FixedPositionContainer&)` from another container. -/
def copyAssign (c rhs : FixedPositionContainer T capacity) : FixedPositionContainer T capacity :=
  copyAndMoveImpl false c rhs

/-- `operator=(FixedPositionContainer&&)` from another container: the assigned container and the
cleared source. -/
def moveAssign (c rhs : FixedPositionContainer T capacity) :
    FixedPositionContainer T capacity × FixedPositionContainer T capacity :=
  (copyAndMoveImpl false c rhs, rhs.clear)

/-! ### The lists -/

/-- The slots `m_status` marks used, ascending. -/
def usedIndices (c : FixedPositionContainer T capacity) : List ℕ :=
  (List.range capacity).filter (marked c.status .used)

/-- The slots `m_status` marks free, ascending. -/
def freeIndices (c : FixedPositionContainer T capacity) : List ℕ :=
  (List.range capacity).filter (marked c.status .free)

/-- The indices `m_begin_free` and `m_next` chain up to `Index::INVALID`, walked as the iterator
walks the used list. -/
def freeList (c : FixedPositionContainer T capacity) : List ℕ :=
  NextChain.follow c.next capacity capacity c.beginFree

/-- **The container is well formed**: `m_begin_used` and `m_next` chain the used slots and
`m_begin_free` and `m_next` the free slots, each ascending up to `Index::INVALID`; `m_size` counts
the used slots; and an element lives exactly in the used slots. -/
structure Inv (c : FixedPositionContainer T capacity) : Prop where
  used_chain : NextChain c.next c.beginUsed c.usedIndices capacity
  free_chain : NextChain c.next c.beginFree c.freeIndices capacity
  size_eq : c.size = c.usedIndices.length
  data_isSome : ∀ i, (c.data i).isSome ↔ i < capacity ∧ c.status i = .used

/-! ### Marks of one slot -/

section Marks

open IndexFilter

variable {status status' : ℕ → SlotStatus} {m : ℕ} {s v : SlotStatus}

theorem marked_update_of_ne {i : ℕ} (h : i ≠ m) : marked (update status m v) s i = marked status s i := by
  rw [marked, marked, Function.update_of_ne h]

/-- The slots of status `s` once slot `m` is set to `s`. -/
theorem filter_marked_update_self (hm : m < capacity) :
    (List.range capacity).filter (marked (update status m s) s) =
      below (marked status s) m ++ m :: above (marked status s) m capacity := by
  rw [filter_range_of_true hm (by simp [marked]),
    below_congr fun i hi ↦ marked_update_of_ne (Nat.ne_of_lt hi),
    above_congr fun i hi ↦ marked_update_of_ne (Nat.ne_of_gt hi)]

/-- The slots of status `s` once slot `m` is set to another status. -/
theorem filter_marked_update_of_ne (hm : m < capacity) (hv : v ≠ s) :
    (List.range capacity).filter (marked (update status m v) s) =
      below (marked status s) m ++ above (marked status s) m capacity := by
  rw [filter_range_of_false hm (by simp [marked, hv]),
    below_congr fun i hi ↦ marked_update_of_ne (Nat.ne_of_lt hi),
    above_congr fun i hi ↦ marked_update_of_ne (Nat.ne_of_gt hi)]

/-- The scan below `m` reads no mark at or above `m`. -/
theorem lastBelow_marked_update :
    lastBelow (marked (update status m v) s) m = lastBelow (marked status s) m := by
  rw [lastBelow_eq_getLast?, lastBelow_eq_getLast?,
    below_congr fun i hi ↦ marked_update_of_ne (Nat.ne_of_lt hi)]

theorem status_of_mem_below {i : ℕ} (hi : i ∈ below (marked status s) m) :
    i < m ∧ status i = s :=
  ⟨lt_of_mem_below hi, by simpa [marked] using (List.mem_filter.1 hi).2⟩

theorem status_of_mem_above {i n : ℕ} (hi : i ∈ above (marked status s) m n) :
    m < i ∧ i < n ∧ status i = s :=
  ⟨(lt_of_mem_above hi).1, (lt_of_mem_above hi).2, by simpa [marked] using (List.mem_filter.1 hi).2⟩

theorem marked_used_iff {i : ℕ} : marked status .used i = true ↔ status i = .used := by
  simp [marked]

theorem marked_free_iff {i : ℕ} : marked status .free i = true ↔ status i = .free := by
  simp [marked]

/-- A slot is free exactly when it is not used. -/
theorem marked_free_eq_not {i : ℕ} : marked status .free i = !marked status .used i := by
  cases h : status i <;> simp [marked, h]

end Marks

/-! ### New and cleared containers -/

section Inv

open IndexFilter

variable {c : FixedPositionContainer T capacity}

theorem Inv.data_eq_none (h : Inv c) {i : ℕ} (hi : ¬(i < capacity ∧ c.status i = .used)) :
    c.data i = none :=
  Option.not_isSome_iff_eq_none.1 fun hs ↦ hi ((h.data_isSome i).1 hs)

/-- A container whose slots are all free and linked in order, with no element and a count of
zero, is well formed: the state the constructor and `clear` leave. -/
theorem inv_of_allFree (hstatus : ∀ i < capacity, c.status i = .free)
    (hnext : ∀ i < capacity, c.next i = i + 1) (hdata : ∀ i, c.data i = none)
    (hsize : c.size = 0) (hfree : c.beginFree = 0) (hused : c.beginUsed = capacity) : Inv c := by
  have husedIdx : c.usedIndices = [] :=
    List.filter_eq_nil_iff.2 fun i hi ↦ by simp [marked, hstatus i (List.mem_range.1 hi)]
  have hfreeIdx : c.freeIndices = List.range capacity :=
    List.filter_eq_self.2 fun i hi ↦ by simp [marked, hstatus i (List.mem_range.1 hi)]
  refine ⟨?_, ?_, ?_, fun i ↦ ?_⟩
  · rw [husedIdx, hused]
    rfl
  · have hsucc := NextChain.succ_range' 0 capacity
    rw [Nat.zero_add, ← List.range_eq_range'] at hsucc
    rw [hfreeIdx, hfree]
    exact hsucc.congr fun i hi ↦ hnext i (List.mem_range.1 hi)
  · rw [husedIdx, hsize]
    rfl
  · rw [hdata i]
    exact iff_of_false (by simp) fun ⟨hi, hu⟩ ↦ by rw [hstatus i hi] at hu; cases hu

theorem inv_new : Inv (new : FixedPositionContainer T capacity) :=
  inv_of_allFree (fun _ _ ↦ rfl) (fun _ _ ↦ rfl) (fun _ ↦ rfl) rfl rfl rfl

/-- **`clear` leaves a well-formed container**, holding nothing. -/
theorem Inv.clear (h : Inv c) : Inv c.clear := by
  refine inv_of_allFree (fun i hi ↦ if_pos hi) (fun i hi ↦ if_pos hi) (fun i ↦ ?_) rfl rfl rfl
  by_cases hi : i < capacity
  · exact if_pos hi
  · exact (if_neg hi).trans (h.data_eq_none fun h' ↦ hi h'.1)

end Inv

/-! ### `emplace` -/

section Emplace

open IndexFilter

variable {c : FixedPositionContainer T capacity}

theorem Inv.usedIndices_nodup (_h : Inv c) : c.usedIndices.Nodup :=
  nodup_filter_range

theorem status_of_mem_usedIndices {i : ℕ} (hi : i ∈ c.usedIndices) : c.status i = .used :=
  marked_used_iff.1 (mem_filter_range.1 hi).2

theorem status_of_mem_freeIndices {i : ℕ} (hi : i ∈ c.freeIndices) : c.status i = .free :=
  marked_free_iff.1 (mem_filter_range.1 hi).2

/-- The slot `emplace` takes: the head of the free list is its first slot, no free slot lies
below it, and the free list goes on with the free slots above it. -/
theorem Inv.freeIndices_eq_cons (h : Inv c) (hlt : c.beginFree < capacity) :
    c.freeIndices = c.beginFree :: above (marked c.status .free) c.beginFree capacity ∧
      below (marked c.status .free) c.beginFree = [] := by
  have hcons := h.free_chain.eq_cons_of_ne (Nat.ne_of_lt hlt)
  obtain ⟨hbelow, htail⟩ := below_eq_nil_of_filter_range_eq_cons hlt hcons
  rw [← htail]
  exact ⟨hcons, hbelow⟩

/-- **`emplace` into a container that is not full** places the element at the head of the free
list and keeps the container well formed. -/
theorem emplace_spec (h : Inv c) (hfull : c.full = false) (x : T) :
    ∃ c', c.emplace x = .ok (c', c.beginFree) ∧ Inv c' ∧
      c'.data = update c.data c.beginFree (some x) := by
  have hlt : c.beginFree < capacity := by simpa [full] using hfull
  obtain ⟨hfreeEq, hbelowF⟩ := h.freeIndices_eq_cons hlt
  have hmfree := status_of_mem_freeIndices (hfreeEq ▸ List.mem_cons_self)
  have hfreeTail := h.free_chain
  rw [hfreeEq] at hfreeTail
  obtain ⟨m, hm⟩ : ∃ m, c.beginFree = m := ⟨_, rfl⟩
  rw [hm] at hlt hfreeEq hbelowF hmfree hfreeTail ⊢
  -- the lists before and after `m` is marked used
  have husedEq : c.usedIndices =
      below (marked c.status .used) m ++ above (marked c.status .used) m capacity :=
    filter_range_of_false hlt (by simp [marked, hmfree])
  have husedIdx' : (List.range capacity).filter (marked (update c.status m .used) .used) =
      below (marked c.status .used) m ++ m :: above (marked c.status .used) m capacity :=
    filter_marked_update_self hlt
  have hfreeIdx' : (List.range capacity).filter (marked (update c.status m .used) .free) =
      above (marked c.status .free) m capacity := by
    rw [filter_marked_update_of_ne hlt (by decide), hbelowF, List.nil_append]
  have hmNotAboveF : m ∉ above (marked c.status .free) m capacity :=
    fun hmem ↦ Nat.lt_irrefl m (lt_of_mem_above hmem).1
  have hsize' : c.size + 1 = ((List.range capacity).filter
      (marked (update c.status m .used) .used)).length := by
    rw [husedIdx', h.size_eq, husedEq]
    simp only [List.length_append, List.length_cons]
    omega
  have hdata' : ∀ i, (update c.data m (some x) i).isSome ↔
      i < capacity ∧ update c.status m .used i = .used := by
    intro i
    by_cases him : i = m
    · subst him
      simp [hlt]
    · rw [Function.update_of_ne him, Function.update_of_ne him]
      exact h.data_isSome i
  unfold emplace
  rw [if_neg (by simp [hfull]), hm]
  by_cases hhead : m < c.beginUsed
  · -- `m` lies below every used slot and becomes the head of the used list
    have hbelowU : below (marked c.status .used) m = [] := by
      have hhd := h.used_chain.head_eq
      rw [husedEq] at hhd
      exact (lt_headD_iff hlt).1 (hhd ▸ hhead)
    have husedChain := h.used_chain
    rw [husedEq, hbelowU, List.nil_append] at husedChain
    rw [if_pos hhead]
    refine ⟨_, rfl, ⟨?_, ?_, hsize', hdata'⟩, rfl⟩
    · show NextChain (update c.next m c.beginUsed) m
        ((List.range capacity).filter (marked (update c.status m .used) .used)) capacity
      rw [husedIdx', hbelowU, List.nil_append]
      exact husedChain.cons_update fun hmem ↦ Nat.lt_irrefl m (lt_of_mem_above hmem).1
    · show NextChain (update c.next m c.beginUsed) (c.next m)
        ((List.range capacity).filter (marked (update c.status m .used) .free)) capacity
      rw [hfreeIdx']
      exact hfreeTail.2.update hmNotAboveF
  · -- the scan finds the nearest used slot `q` below `m`, and `m` is linked after it
    have hbelowU : below (marked c.status .used) m ≠ [] := fun hb ↦ hhead (by
      rw [h.used_chain.head_eq, husedEq]
      exact (lt_headD_iff hlt).2 hb)
    obtain ⟨pre, q, hpre⟩ : ∃ pre q, below (marked c.status .used) m = pre ++ [q] :=
      ⟨_, _, (List.dropLast_append_getLast hbelowU).symm⟩
    have hqm : q < m := lt_of_mem_below (hpre ▸ List.mem_append_right pre List.mem_cons_self)
    have hq : lastBelow (marked (update c.status m .used) .used) m = some q := by
      rw [lastBelow_marked_update, lastBelow_eq_getLast?, hpre, List.getLast?_concat]
    have husedEq2 : c.usedIndices = pre ++ q :: above (marked c.status .used) m capacity := by
      rw [husedEq, hpre, List.append_assoc, List.singleton_append]
    have hmNotUsed : m ∉ c.usedIndices := fun hmem ↦ by
      rw [status_of_mem_usedIndices hmem] at hmfree
      cases hmfree
    have hnd := h.usedIndices_nodup
    have husedChain := h.used_chain
    rw [husedEq2] at hnd husedChain hmNotUsed
    rw [if_neg hhead, if_neg (Nat.ne_of_gt (Nat.lt_of_le_of_lt (Nat.zero_le q) hqm)), hq]
    refine ⟨_, rfl, ⟨?_, ?_, hsize', hdata'⟩, rfl⟩
    · show NextChain (update (update c.next m (c.next q)) q m) c.beginUsed
        ((List.range capacity).filter (marked (update c.status m .used) .used)) capacity
      rw [husedIdx', hpre, List.append_assoc, List.singleton_append]
      exact husedChain.insertAfter hnd hmNotUsed
    · show NextChain (update (update c.next m (c.next q)) q m) (c.next m)
        ((List.range capacity).filter (marked (update c.status m .used) .free)) capacity
      rw [hfreeIdx']
      exact (hfreeTail.2.update hmNotAboveF).update
        fun hmem ↦ Nat.lt_asymm hqm (lt_of_mem_above hmem).1

/-- `emplace` into a full container answers `end()` and changes nothing. -/
theorem emplace_of_full (hfull : c.full = true) (x : T) : c.emplace x = .ok (c, capacity) := by
  rw [emplace, if_pos hfull]

end Emplace

/-! ### `erase` -/

section Erase

open IndexFilter

variable {c : FixedPositionContainer T capacity}

/-- **What the loop of `erase` leaves**: unless it was done before the loop, the nearest used slot
below the counter is relinked to `nextUsed`, and `index` is linked after the nearest free slot
below the counter; the flags say whether each was done. -/
theorem eraseLoop_eq (status : ℕ → SlotStatus) (index nextUsed : ℕ) : ∀ (n : ℕ), n ≤ index →
    ∀ (next : ℕ → ℕ) (removed added : Bool),
      eraseLoop status index nextUsed n next removed added =
        (let next' := if removed then next
            else (lastBelow (marked status .used) n).elim next fun q ↦ update next q nextUsed
          if added then next'
            else (lastBelow (marked status .free) n).elim next' fun q ↦
              update (update next' index (next' q)) q index,
          removed || (lastBelow (marked status .used) n).isSome,
          added || (lastBelow (marked status .free) n).isSome)
  | 0, _, next, removed, added => by
    cases removed <;> cases added <;> rfl
  | n + 1, hn, next, removed, added => by
    have hni : n < index := hn
    rw [eraseLoop]
    have hU : lastBelow (marked status .used) (n + 1) =
        if marked status .used n then some n else lastBelow (marked status .used) n := rfl
    have hF : lastBelow (marked status .free) (n + 1) =
        if marked status .free n then some n else lastBelow (marked status .free) n := rfl
    have ih := eraseLoop_eq status index nextUsed n (Nat.le_of_lt hni)
    cases removed <;> cases added <;> cases hs : status n <;>
      simp only [hU, hF, marked, hs, ih] <;> simp
    -- a free slot `n` found first: the used slot below it, if any, is relinked afterwards, and
    -- the two writes commute
    cases hq : lastBelow (marked status .used) n with
    | none => rfl
    | some q =>
      obtain ⟨hqn, -⟩ := lastBelow_eq_some hq
      have hqi : q ≠ index := Nat.ne_of_lt (Nat.lt_trans hqn hni)
      simp only [Option.elim]
      rw [Function.update_of_ne (Nat.ne_of_gt hqn), Function.update_comm hqi,
        Function.update_comm (Nat.ne_of_lt hqn)]

/-- The links `erase(m)` leaves, given the used slot `qu` and the free slot `qf` nearest below
`m`: `m` links to the free slot that followed `qf` (or to the old head of the free list), `qf`
links to `m`, and `qu` skips `m`. -/
def erasedNext (c : FixedPositionContainer T capacity) (m : ℕ) (qu qf : Option ℕ) : ℕ → ℕ :=
  fun x ↦ if x = m then qf.elim c.beginFree c.next
    else if qf = some x then m
    else if qu = some x then c.next m
    else c.next x

/-- **`erase` of a used slot, in closed form**: no `IOX_ENFORCE` fails, `m` leaves the used list
and joins the free list, a list whose head was `m` or above it gets a new head, and the links
are `erasedNext`. -/
theorem erase_eq (h : Inv c) {m : ℕ} (hm : m < capacity) (hused : c.status m = .used) :
    c.erase m = .ok (
      { data := update c.data m none, status := update c.status m .free,
        size := c.size - 1,
        beginUsed := if below (marked c.status .used) m = [] then c.next m else c.beginUsed,
        next := erasedNext c m (below (marked c.status .used) m).getLast?
          (below (marked c.status .free) m).getLast?,
        beginFree := if below (marked c.status .free) m = [] then m else c.beginFree },
      c.next m) := by
  have husedEq : c.usedIndices =
      below (marked c.status .used) m ++ m :: above (marked c.status .used) m capacity :=
    filter_range_of_true hm (by simp [marked, hused])
  have hfreeEq : c.freeIndices =
      below (marked c.status .free) m ++ above (marked c.status .free) m capacity :=
    filter_range_of_false hm (by simp [marked, hused])
  have hremoved : (m == c.beginUsed) = decide (below (marked c.status .used) m = []) := by
    rw [h.used_chain.head_eq, husedEq, Bool.eq_iff_iff, beq_iff_eq, decide_eq_true_iff]
    exact eq_headD_iff
  have hadded : decide (m < c.beginFree) = decide (below (marked c.status .free) m = []) := by
    rw [h.free_chain.head_eq, hfreeEq, Bool.eq_iff_iff, decide_eq_true_iff, decide_eq_true_iff]
    exact lt_headD_iff hm
  unfold erase
  rw [if_neg (not_not.2 hm), if_neg (not_not.2 hused)]
  -- the loop's work in closed form, then one case per shape of the two lists below `m`
  simp only [hremoved, hadded, eraseLoop_eq _ _ _ m (Nat.le_refl m), lastBelow_marked_update]
  simp only [lastBelow_eq_getLast?]
  obtain hU | ⟨preU, qu, hU⟩ := List.eq_nil_or_concat (below (marked c.status .used) m) <;>
  obtain hF | ⟨preF, qf, hF⟩ := List.eq_nil_or_concat (below (marked c.status .free) m) <;>
  simp only [hU, hF, List.concat_eq_append, List.getLast?_concat, List.getLast?_nil, decide_true,
    decide_false, List.append_eq_nil_iff, List.cons_ne_nil, and_false, if_true, if_false,
    Bool.and_true, Bool.and_false, Bool.false_eq_true, Bool.or_true, Bool.true_or,
    Option.isSome_some, Option.elim]
  · -- `m` was the head of both lists: no loop
    congr 3
    funext x
    simp only [erasedNext, Option.elim, Function.update_apply, reduceCtorEq, if_false]
  · -- the loop links `m` after the free slot `qf` below it
    have hqf_mem : qf ∈ below (marked c.status .free) m := by simp [hF]
    have hqf : qf < m := lt_of_mem_below hqf_mem
    rw [if_neg (Nat.ne_of_gt (Nat.lt_of_le_of_lt (Nat.zero_le qf) hqf))]
    congr 3
    funext x
    simp only [erasedNext, Option.elim, Function.update_apply, reduceCtorEq, if_false,
      Option.some.injEq]
    split_ifs <;> subst_vars <;> first | rfl | omega
  · -- the loop relinks the used slot `qu` below `m` past it
    have hqu_mem : qu ∈ below (marked c.status .used) m := by simp [hU]
    have hqu : qu < m := lt_of_mem_below hqu_mem
    rw [if_neg (Nat.ne_of_gt (Nat.lt_of_le_of_lt (Nat.zero_le qu) hqu))]
    congr 3
    funext x
    simp only [erasedNext, Option.elim, Function.update_apply, reduceCtorEq, if_false,
      Option.some.injEq]
    split_ifs <;> subst_vars <;> first | rfl | omega
  · -- the loop does both
    have hqf_mem : qf ∈ below (marked c.status .free) m := by simp [hF]
    have hqu_mem : qu ∈ below (marked c.status .used) m := by simp [hU]
    have hqf : qf < m := lt_of_mem_below hqf_mem
    have hqu : qu < m := lt_of_mem_below hqu_mem
    have hne : qu ≠ qf := fun hq ↦ by
      have h1 := marked_used_iff.1 (List.mem_filter.1 hqu_mem).2
      have h2 := marked_free_iff.1 (List.mem_filter.1 hqf_mem).2
      rw [hq, h2] at h1
      cases h1
    rw [if_neg (Nat.ne_of_gt (Nat.lt_of_le_of_lt (Nat.zero_le qf) hqf))]
    congr 3
    funext x
    simp only [erasedNext, Option.elim, Function.update_apply, Option.some.injEq]
    split_ifs <;> subst_vars <;> first | rfl | omega


theorem Inv.ne_of_used_of_free (_h : Inv c) {x y : ℕ} (hx : c.status x = .used) (hy : c.status y = .free) :
    x ≠ y := fun hxy ↦ by rw [hxy, hy] at hx; cases hx

/-- **`erase` of a used slot** destroys exactly its element, answers the iterator to the next used
slot above it (or `end()`), and keeps the container well formed. -/
theorem erase_spec (h : Inv c) {m : ℕ} (hm : m < capacity) (hused : c.status m = .used) :
    ∃ c', c.erase m = .ok (c', (above (marked c.status .used) m capacity).headD capacity) ∧
      Inv c' ∧ c'.data = update c.data m none := by
  have husedEq : c.usedIndices =
      below (marked c.status .used) m ++ m :: above (marked c.status .used) m capacity :=
    filter_range_of_true hm (by simp [marked, hused])
  have hfreeEq : c.freeIndices =
      below (marked c.status .free) m ++ above (marked c.status .free) m capacity :=
    filter_range_of_false hm (by simp [marked, hused])
  have husedChain := h.used_chain
  have hfreeChain := h.free_chain
  have hnodupU : c.usedIndices.Nodup := nodup_filter_range
  have hnodupF : c.freeIndices.Nodup := nodup_filter_range
  rw [husedEq] at husedChain hnodupU
  rw [hfreeEq] at hfreeChain hnodupF
  rw [erase_eq h hm hused, ← husedChain.next_eq_headD]
  -- the slots the scans find: the last used and the last free slot below `m`
  have hqU : ∀ x, (below (marked c.status .used) m).getLast? = some x →
      x < m ∧ c.status x = .used := fun x hx ↦ status_of_mem_below (List.mem_of_getLast? hx)
  have hqF : ∀ x, (below (marked c.status .free) m).getLast? = some x →
      x < m ∧ c.status x = .free := fun x hx ↦ status_of_mem_below (List.mem_of_getLast? hx)
  have husedIdx' : (List.range capacity).filter (marked (update c.status m .free) .used) =
      below (marked c.status .used) m ++ above (marked c.status .used) m capacity :=
    filter_marked_update_of_ne hm (by decide)
  have hfreeIdx' : (List.range capacity).filter (marked (update c.status m .free) .free) =
      below (marked c.status .free) m ++ m :: above (marked c.status .free) m capacity :=
    filter_marked_update_self hm
  refine ⟨_, rfl, ⟨?_, ?_, ?_, fun i ↦ ?_⟩, rfl⟩
  · -- the used list loses `m`
    show NextChain _ _ ((List.range capacity).filter (marked (update c.status m .free) .used)) _
    rw [husedIdx']
    obtain hU | ⟨preU, qu, hU⟩ := List.eq_nil_or_concat (below (marked c.status .used) m)
    · rw [hU] at husedChain ⊢
      rw [if_pos rfl, List.nil_append]
      refine husedChain.2.congr fun x hx ↦ ?_
      obtain ⟨hmx, -, hxu⟩ := status_of_mem_above hx
      have hxF : (below (marked c.status .free) m).getLast? ≠ some x :=
        fun hq ↦ h.ne_of_used_of_free hxu (hqF x hq).2 rfl
      simp only [erasedNext, if_neg (Nat.ne_of_gt hmx), if_neg hxF, List.getLast?_nil,
        reduceCtorEq, if_false]
    · -- the used slot `qu` below `m` now skips it
      rw [List.concat_eq_append] at hU
      rw [hU] at husedChain hnodupU ⊢
      rw [if_neg (show ¬preU ++ [qu] = [] by simp), List.getLast?_concat]
      rw [List.append_assoc, List.singleton_append] at husedChain hnodupU ⊢
      refine (husedChain.splice hnodupU).congr fun x hx ↦ ?_
      have hxu : c.status x = .used ∧ x ≠ m := by
        rw [← List.singleton_append, ← List.append_assoc, ← hU, List.mem_append] at hx
        rcases hx with hx | hx
        · exact ⟨(status_of_mem_below hx).2, Nat.ne_of_lt (status_of_mem_below hx).1⟩
        · exact ⟨(status_of_mem_above hx).2.2, Nat.ne_of_gt (status_of_mem_above hx).1⟩
      have hxF : (below (marked c.status .free) m).getLast? ≠ some x :=
        fun hq ↦ h.ne_of_used_of_free hxu.1 (hqF x hq).2 rfl
      simp only [erasedNext, if_neg hxu.2, if_neg hxF, Option.some.injEq, Function.update_apply]
      by_cases hxq : x = qu
      · rw [if_pos hxq.symm, if_pos hxq]
      · rw [if_neg (Ne.symm hxq), if_neg hxq]
  · -- the free list takes `m`
    show NextChain _ _ ((List.range capacity).filter (marked (update c.status m .free) .free)) _
    rw [hfreeIdx']
    have hmF : m ∉ c.freeIndices := fun hx ↦ by
      rw [status_of_mem_freeIndices hx] at hused
      cases hused
    rw [hfreeEq] at hmF
    obtain hF | ⟨preF, qf, hF⟩ := List.eq_nil_or_concat (below (marked c.status .free) m)
    · rw [hF] at hfreeChain hmF ⊢
      rw [if_pos rfl, List.nil_append]
      rw [List.nil_append] at hfreeChain hmF
      refine (hfreeChain.cons_update hmF).congr fun x hx ↦ ?_
      by_cases hxm : x = m
      · subst hxm
        simp only [erasedNext, if_true, List.getLast?_nil, Option.elim, Function.update_self]
      · have hxf := (status_of_mem_above (List.mem_of_ne_of_mem hxm hx)).2.2
        have hxU : (below (marked c.status .used) m).getLast? ≠ some x :=
          fun hq ↦ h.ne_of_used_of_free (hqU x hq).2 hxf rfl
        simp only [erasedNext, if_neg hxm, List.getLast?_nil, reduceCtorEq, if_false, if_neg hxU,
          Function.update_of_ne hxm]
    · rw [List.concat_eq_append] at hF
      rw [hF] at hfreeChain hnodupF hmF ⊢
      rw [if_neg (show ¬preF ++ [qf] = [] by simp), List.getLast?_concat]
      rw [List.append_assoc, List.singleton_append] at hfreeChain hnodupF hmF ⊢
      refine (hfreeChain.insertAfter hnodupF hmF).congr fun x hx ↦ ?_
      have hqfm : qf ≠ m := Nat.ne_of_lt (hqF qf (by rw [hF]; exact List.getLast?_concat)).1
      by_cases hxm : x = m
      · subst hxm
        simp only [erasedNext, if_true, Option.elim, Function.update_of_ne hqfm.symm,
          Function.update_self]
      · by_cases hxq : x = qf
        · subst hxq
          simp only [erasedNext, if_neg hxm, if_true, Function.update_self]
        · have hxf : c.status x = .free := by
            rw [← List.singleton_append, ← List.append_assoc, ← hF] at hx
            rcases List.mem_append.1 hx with hx | hx
            · exact (status_of_mem_below hx).2
            · exact (status_of_mem_above (List.mem_of_ne_of_mem hxm hx)).2.2
          have hxU : (below (marked c.status .used) m).getLast? ≠ some x :=
            fun hq ↦ h.ne_of_used_of_free (hqU x hq).2 hxf rfl
          simp only [erasedNext, if_neg hxm, Option.some.injEq, if_neg (Ne.symm hxq), if_neg hxU,
            Function.update_of_ne hxq, Function.update_of_ne hxm]
  · -- one used slot fewer
    show c.size - 1 = ((List.range capacity).filter (marked (update c.status m .free) .used)).length
    rw [husedIdx', h.size_eq, husedEq]
    simp only [List.length_append, List.length_cons]
    omega
  · show (update c.data m none i).isSome ↔ i < capacity ∧ update c.status m .free i = .used
    by_cases him : i = m
    · subst him
      simp
    · rw [Function.update_of_ne him, Function.update_of_ne him]
      exact h.data_isSome i
end Erase

/-! ### Copy and move -/

section Copy

open IndexFilter

variable {c : FixedPositionContainer T capacity}

/-- **What the first copy loop leaves**: the slots `i, …, i + n - 1` take the elements at the
indices `js` visits, in order, become used and link to the next slot. -/
theorem copyLoop_eq (rhsData : ℕ → Option T) :
    ∀ (js : List ℕ) (i : ℕ) (c : FixedPositionContainer T capacity),
      copyLoop rhsData js i c =
        (i + js.length,
          { c with
            data := fun k ↦ if i ≤ k ∧ k < i + js.length then (js[k - i]?).bind rhsData
              else c.data k
            status := fun k ↦ if i ≤ k ∧ k < i + js.length then .used else c.status k
            next := fun k ↦ if i ≤ k ∧ k < i + js.length then k + 1 else c.next k })
  | [], i, c => by
    simp only [copyLoop, List.length_nil, Nat.add_zero]
    congr 1
    refine FixedPositionContainer.ext (funext fun k ↦ ?_) (funext fun k ↦ ?_)
      (funext fun k ↦ ?_) rfl rfl rfl <;>
    simp only [show ¬(i ≤ k ∧ k < i) by omega, if_false]
  | j :: js, i, c => by
    rw [copyLoop, copyLoop_eq rhsData js (i + 1)]
    simp only [List.length_cons]
    refine Prod.ext (by simp only; omega) ?_
    refine FixedPositionContainer.ext (funext fun k ↦ ?_) (funext fun k ↦ ?_)
      (funext fun k ↦ ?_) rfl rfl rfl <;>
    simp only [Function.update_apply]
    · -- slot `i` takes the element at `j`, the later slots those at `js`
      split_ifs <;> first | omega | rfl | skip
      · rw [show k - i = k - (i + 1) + 1 by omega, List.getElem?_cons_succ]
      · subst_vars
        simp
    · split_ifs <;> first | omega | rfl
    · split_ifs <;> omega

/-- **What the second copy loop leaves**: the `n` slots from `i` lose their element if they are
used, become free and link to the next slot. -/
theorem freeLoop_eq : ∀ (n i : ℕ) (c : FixedPositionContainer T capacity),
    freeLoop n i c =
      { c with
        data := fun k ↦ if i ≤ k ∧ k < i + n then (if c.status k = .used then none else c.data k)
          else c.data k
        status := fun k ↦ if i ≤ k ∧ k < i + n then .free else c.status k
        next := fun k ↦ if i ≤ k ∧ k < i + n then k + 1 else c.next k }
  | 0, i, c => by
    refine FixedPositionContainer.ext (funext fun k ↦ ?_) (funext fun k ↦ ?_)
      (funext fun k ↦ ?_) rfl rfl rfl <;>
    simp only [freeLoop] <;> split_ifs <;> first | rfl | omega
  | n + 1, i, c => by
    rw [freeLoop, freeLoop_eq n (i + 1)]
    refine FixedPositionContainer.ext (funext fun k ↦ ?_) (funext fun k ↦ ?_)
      (funext fun k ↦ ?_) rfl rfl rfl <;>
    simp only [Function.update_apply, ite_apply]
    -- slot `i` is the one the first pass changes; the others are the rest of the loop's
    all_goals split_ifs <;> first | rfl | omega |
      (obtain rfl : k = i := (by omega); contradiction)

theorem usedIndices_length_le (c : FixedPositionContainer T capacity) :
    c.usedIndices.length ≤ capacity :=
  Nat.le_trans (List.length_filter_le _ _) (Nat.le_of_eq List.length_range)

/-- **The iterator visits the used slots in ascending order.** -/
theorem Inv.iterIndices_eq (h : Inv c) : c.iterIndices = c.usedIndices :=
  NextChain.follow_eq h.used_chain (fun _ hx ↦ (mem_filter_range.1 hx).1) c.usedIndices_length_le

/-- The `k`-th element of the iteration lives in the `k`-th used slot. -/
theorem Inv.getElem?_elements (h : Inv c) (k : ℕ) :
    c.elements[k]? = (c.usedIndices[k]?).bind c.data := by
  rw [elements, h.iterIndices_eq]
  exact getElem?_filterMap_of_isSome (fun j hj ↦
    (h.data_isSome j).2 ⟨(mem_filter_range.1 hj).1, status_of_mem_usedIndices hj⟩) k

theorem Inv.isSome_getElem?_elements (h : Inv c) (k : ℕ) :
    (c.elements[k]?).isSome ↔ k < c.usedIndices.length := by
  rw [h.getElem?_elements]
  by_cases hk : k < c.usedIndices.length
  · have hj := List.getElem_mem hk
    rw [List.getElem?_eq_getElem hk, Option.bind_some, h.data_isSome]
    exact iff_of_true ⟨(mem_filter_range.1 hj).1, status_of_mem_usedIndices hj⟩ hk
  · rw [List.getElem?_eq_none (Nat.le_of_not_lt hk)]
    exact iff_of_false (by simp) hk

theorem Inv.length_elements_le (h : Inv c) : c.elements.length ≤ c.usedIndices.length := by
  rw [elements, h.iterIndices_eq]
  exact List.length_filterMap_le _ _

variable {isCtor : Bool} {rhs : FixedPositionContainer T capacity}

/-- A copy uses the first `n` slots, `n` the number of elements of the source. -/
theorem copyAndMoveImpl_status (hrhs : Inv rhs) {k : ℕ} (hk : k < capacity) :
    (copyAndMoveImpl isCtor c rhs).status k =
      if k < rhs.usedIndices.length then .used else .free := by
  simp only [copyAndMoveImpl, hrhs.iterIndices_eq, copyLoop_eq, freeLoop_eq]
  split_ifs <;> first | rfl | omega

/-- A copy holds the elements of the source, compacted. The target may hold elements only in
used slots, and none at all before a constructor: the source's loops destroy only what lives
in a used slot. -/
theorem copyAndMoveImpl_data (hrhs : Inv rhs)
    (hlive : ∀ k, (c.data k).isSome → k < capacity ∧ c.status k = .used ∧ isCtor = false)
    (k : ℕ) :
    (copyAndMoveImpl isCtor c rhs).data k = rhs.elements[k]? := by
  rw [hrhs.getElem?_elements]
  simp only [copyAndMoveImpl, hrhs.iterIndices_eq, copyLoop_eq, freeLoop_eq, Nat.zero_add,
    Nat.sub_zero, Nat.zero_le, true_and]
  by_cases hk : k < rhs.usedIndices.length
  · simp only [hk, if_true, Nat.not_le.2 hk, false_and, if_false]
  · rw [List.getElem?_eq_none (Nat.le_of_not_lt hk), Option.bind_none]
    cases hck : c.data k with
    | none =>
      cases isCtor <;> simp only [hk, if_false, Bool.false_eq_true, hck] <;> split_ifs <;>
        first | rfl | exact hck
    | some x =>
      -- an element of the target above the copied ones is destroyed by the second loop
      obtain ⟨hcap, hused, rfl⟩ := hlive k (by rw [hck]; rfl)
      simp only [hk, if_false, Bool.false_eq_true, hused]
      rw [if_pos (by omega), if_pos trivial]

/-- A copy links each slot to the next one, and the last copied slot to `Index::INVALID`. -/
theorem copyAndMoveImpl_next (hrhs : Inv rhs) {k : ℕ} (hk : k < capacity) :
    (copyAndMoveImpl isCtor c rhs).next k =
      if rhs.usedIndices.length ≠ 0 ∧ k = rhs.usedIndices.length - 1 then capacity else k + 1 := by
  simp only [copyAndMoveImpl, hrhs.iterIndices_eq, copyLoop_eq, freeLoop_eq, Nat.zero_add,
    Nat.sub_zero, Nat.zero_le, true_and, empty, hrhs.size_eq, beq_iff_eq]
  split_ifs <;> simp only [Function.update_apply] <;> split_ifs <;> omega

theorem copyAndMoveImpl_usedIndices (hrhs : Inv rhs) :
    (copyAndMoveImpl isCtor c rhs).usedIndices = List.range rhs.usedIndices.length := by
  rw [usedIndices, ← filter_range_lt rhs.usedIndices_length_le]
  refine List.filter_congr fun k hk ↦ ?_
  rw [marked, copyAndMoveImpl_status hrhs (List.mem_range.1 hk)]
  split_ifs <;> simp [*]

theorem copyAndMoveImpl_freeIndices (hrhs : Inv rhs) :
    (copyAndMoveImpl isCtor c rhs).freeIndices =
      List.range' rhs.usedIndices.length (capacity - rhs.usedIndices.length) := by
  rw [freeIndices, ← filter_range_not_lt rhs.usedIndices_length_le]
  refine List.filter_congr fun k hk ↦ ?_
  rw [marked, copyAndMoveImpl_status hrhs (List.mem_range.1 hk)]
  split_ifs <;> simp [*]

/-- **A copy or move of a well-formed container is well formed and iterates over the same
elements**, in the same order. -/
theorem copyAndMoveImpl_spec (hrhs : Inv rhs)
    (hlive : ∀ k, (c.data k).isSome → k < capacity ∧ c.status k = .used ∧ isCtor = false) :
    Inv (copyAndMoveImpl isCtor c rhs) ∧
      (copyAndMoveImpl isCtor c rhs).elements = rhs.elements := by
  obtain ⟨n, hn⟩ : ∃ n, rhs.usedIndices.length = n := ⟨_, rfl⟩
  have hncap : n ≤ capacity := hn ▸ rhs.usedIndices_length_le
  have hnext : ∀ k < capacity, (copyAndMoveImpl isCtor c rhs).next k =
      if n ≠ 0 ∧ k = n - 1 then capacity else k + 1 := fun k hk ↦ by
    rw [copyAndMoveImpl_next hrhs hk, hn]
  have hinv : Inv (copyAndMoveImpl isCtor c rhs) := by
    refine ⟨?_, ?_, ?_, fun k ↦ ?_⟩
    · -- the used list is `0, …, n - 1`, and empty when the source is
      rw [copyAndMoveImpl_usedIndices hrhs, hn]
      show NextChain _ (if rhs.empty then capacity else 0) _ _
      rw [empty, hrhs.size_eq, hn]
      rcases Nat.eq_zero_or_pos n with rfl | hpos
      · rfl
      · have hsucc := NextChain.succ_range' 0 (n - 1)
        rw [Nat.zero_add] at hsucc
        rw [if_neg (by simp; omega), List.range_eq_range', show n = (n - 1) + 1 by omega,
          List.range'_concat, Nat.one_mul, Nat.zero_add]
        refine NextChain.append (hsucc.congr fun x hx ↦ ?_) ⟨rfl, ?_⟩
        · have := List.mem_range'_1.1 hx
          rw [hnext x (by omega), if_neg (by omega)]
        · rw [hnext _ (by omega), if_pos (by omega)]
          rfl
    · -- the free list is `n, …, CAPACITY - 1`
      rw [copyAndMoveImpl_freeIndices hrhs, hn]
      show NextChain _ rhs.size _ _
      rw [hrhs.size_eq, hn]
      have hsucc := NextChain.succ_range' n (capacity - n)
      rw [Nat.add_sub_cancel' hncap] at hsucc
      refine hsucc.congr fun x hx ↦ ?_
      have := List.mem_range'_1.1 hx
      rw [hnext x (by omega), if_neg (by omega)]
    · show rhs.size = _
      rw [copyAndMoveImpl_usedIndices hrhs, hrhs.size_eq, List.length_range]
    · rw [copyAndMoveImpl_data hrhs hlive, hrhs.isSome_getElem?_elements, hn]
      by_cases hk : k < capacity
      · rw [copyAndMoveImpl_status hrhs hk, hn]
        split_ifs with hkn <;> simp [hk, hkn]
      · exact iff_of_false (by omega) fun h ↦ hk h.1
  refine ⟨hinv, ?_⟩
  rw [elements, hinv.iterIndices_eq, copyAndMoveImpl_usedIndices hrhs,
    show (copyAndMoveImpl isCtor c rhs).data = fun k ↦ rhs.elements[k]? from
      funext (copyAndMoveImpl_data hrhs hlive)]
  exact filterMap_range_getElem? _ hrhs.length_elements_le

/-- An element of a well-formed container lives in a used slot: the assigned container meets
the condition of `copyAndMoveImpl_spec`. -/
theorem Inv.live (h : Inv c) :
    ∀ k, (c.data k).isSome → k < capacity ∧ c.status k = .used ∧ false = false :=
  fun k hk ↦ ⟨((h.data_isSome k).1 hk).1, ((h.data_isSome k).1 hk).2, rfl⟩

theorem new_live : ∀ k, ((new : FixedPositionContainer T capacity).data k).isSome →
    k < capacity ∧ (new : FixedPositionContainer T capacity).status k = .used ∧ true = false :=
  fun _ hk ↦ absurd hk (by simp [new])

end Copy

/-! ### The two lists as a caller sees them -/

section Lists

open IndexFilter

variable {c : FixedPositionContainer T capacity}

theorem Inv.freeList_eq (h : Inv c) : c.freeList = c.freeIndices :=
  NextChain.follow_eq h.free_chain (fun _ hx ↦ (mem_filter_range.1 hx).1)
    (Nat.le_trans (List.length_filter_le _ _) (Nat.le_of_eq List.length_range))

/-- The lists the links give: the used list from `m_begin_used` and the free list from
`m_begin_free` are strictly ascending, disjoint and together the slots `0, …, CAPACITY - 1`;
`m_status` marks exactly the used list's slots used; `m_size` is its length; and `full()` holds
exactly when the free list is empty. -/
structure Lists (c : FixedPositionContainer T capacity) : Prop where
  used_sorted : c.iterIndices.Pairwise (· < ·)
  free_sorted : c.freeList.Pairwise (· < ·)
  disjoint : ∀ i ∈ c.iterIndices, i ∉ c.freeList
  cover : ∀ i, i < capacity ↔ i ∈ c.iterIndices ∨ i ∈ c.freeList
  status_iff : ∀ i < capacity, c.status i = .used ↔ i ∈ c.iterIndices
  size_eq : c.size = c.iterIndices.length
  full_iff : c.full = true ↔ c.freeList = []

theorem Inv.full_iff (h : Inv c) : c.full = true ↔ c.freeIndices = [] := by
  rw [full, decide_eq_true_iff, h.free_chain.head_eq]
  cases hf : c.freeIndices with
  | nil => exact iff_of_true (Nat.le_refl _) rfl
  | cons x xs =>
    have hx : x < capacity := (mem_filter_range.1 (hf ▸ List.mem_cons_self)).1
    exact iff_of_false (Nat.not_le.2 hx) (List.cons_ne_nil x xs)

/-- **A well-formed container has the lists a caller expects.** -/
theorem Inv.lists (h : Inv c) : Lists c where
  used_sorted := h.iterIndices_eq ▸ pairwise_filter_range
  free_sorted := h.freeList_eq ▸ pairwise_filter_range
  disjoint i hu hf := by
    rw [h.iterIndices_eq] at hu
    rw [h.freeList_eq] at hf
    exact h.ne_of_used_of_free (status_of_mem_usedIndices hu) (status_of_mem_freeIndices hf) rfl
  cover i := by
    rw [h.iterIndices_eq, h.freeList_eq, usedIndices, freeIndices, mem_filter_range,
      mem_filter_range, marked_free_eq_not, ← and_or_left]
    cases marked c.status .used i <;> simp
  status_iff i hi := by
    rw [h.iterIndices_eq, usedIndices, mem_filter_range, marked_used_iff]
    exact ⟨fun hu ↦ ⟨hi, hu⟩, fun hu ↦ hu.2⟩
  size_eq := h.iterIndices_eq ▸ h.size_eq
  full_iff := h.freeList_eq ▸ h.full_iff

end Lists

end FixedPositionContainer

end Iox.Container
