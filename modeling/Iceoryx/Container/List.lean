import Iceoryx.Data.LinkCycle

/-!
# `iox::list`

`list<T, Capacity>` (`list.inl`) keeps its elements in `Capacity` nodes of one array and threads
two lists through `m_links`: the **active** list, a cycle through the sentinel node
`BEGIN_END_LINK_INDEX = Capacity` linked both ways (`nextIdx` and `prevIdx`), and the **free**
list from `m_freeListHeadIdx`, linked by `nextIdx` only and marked by `prevIdx = INVALID_INDEX`.
The sentinel is both `end()` and the node before `begin()`.

* `emplace(iter, x)` takes the head of the free list and links it in before the iterator's node;
* `erase(iter)` unlinks the node, marks it free and pushes it on the free list, and answers the
  iterator to the node after it;
* `remove_if`, `clear` and the copy and move operations are loops over these calls and the
  iterator's `operator++`, `operator--` and `operator==`.

## The model

The nodes are indices and the arrays functions on `ℕ`; a node's element is `none` where no object
lives. An iterator is the list it was taken from, named by its index in a bank of lists, and its
node. Every `IOX_ENFORCE` ends the process with its message (`Except.error`). A call that loops
(`Call`) has one more way to end: `none`, for a loop that does not leave within its fuel or a read
of a node where no element lives, which has no defined result in the source. The loops of
`remove_if` and of the move constructor get one pass more than a chain of distinct nodes can
have, and the loop of `clear` one pass per element and one more, since a pass that does not erase
leaves the list as it was and would repeat forever.

Shape decisions that follow the source: every statement that writes a link reads the links as the
statements before it left them (`setPrevIdx`, `setNextIdx` on the list so far), so the model of
`emplace` and `erase` is the source's sequence of writes rather than their combined effect; and
`getDataPtrFromIdx` checks a node again where the source reaches an element through it.

## What is proved

`Links l act free` says that the links of `l` are the cycle through `act` and the free list
`free`, that the two together are the element nodes, that a free node is marked free and that an
element lives exactly at the active nodes. It holds after `init()`; `emplace` and `erase` keep it,
with the node linked in or out at its position (`Links.emplace`, `Links.erase`); the iterator
operations are read off it (`Links.increment_of_mem`, `Links.decrement_cend`,
`Links.iterEq_cend`, `Links.deref_of_mem`); and each loop is proved by induction on the nodes it
still has to visit, with the ones visited carried in a split `P ++ Q` of the cycle
(`Links.removeIfLoop_spec`, `Links.clearLoop_spec`, `Links.assignLoop_spec`,
`Links.emplaceBackLoop_spec`, `Links.eraseLoop_spec`, `Links.moveLoop_spec`). The walks along the
links (`activeIndices`, `freeIndices`) visit `act` and `free` (`Links.activeIndices_eq`,
`Links.freeIndices_eq`).
-/

namespace Iox.Container

open Function (update)

/-- An iterator of a list: the list it was taken from (`m_list`, a list of a bank named by its
index) and its node (`m_iterListNodeIdx`). -/
structure ListIterator where
  list : ℕ
  index : ℕ
  deriving DecidableEq

/-- A `list<T, Capacity>` with `Capacity = capacity`: the element nodes `0, …, capacity - 1` and
the sentinel `capacity`, which holds no element. -/
@[ext] structure IoxList (T : Type) (capacity : ℕ) where
  /-- `m_data`: the element living at a node, if any. -/
  data : ℕ → Option T
  /-- `m_links[i].nextIdx` -/
  nextIdx : ℕ → ℕ
  /-- `m_links[i].prevIdx` -/
  prevIdx : ℕ → ℕ
  /-- `m_freeListHeadIdx` -/
  freeListHeadIdx : ℕ
  /-- `m_size` -/
  size : ℕ

/-- How a call of the list ends: `some (.ok a)` it returns `a`; `some (.error msg)` an
`IOX_ENFORCE` ends the process with `msg`; `none` it has no defined result, because a loop does
not leave or a node where no element lives is read. -/
abbrev Call (α : Type) := ExceptT String Option α

@[simp] theorem except_ok_bind {ε α β : Type} (a : α) (f : α → Except ε β) :
    (Except.ok a >>= f) = f a := rfl

@[simp] theorem except_error_bind {ε α β : Type} (e : ε) (f : α → Except ε β) :
    (Except.error e >>= f) = .error e := rfl

@[simp] theorem except_map_ok {ε α β : Type} (f : α → β) (a : α) :
    (f <$> (Except.ok a : Except ε α)) = .ok (f a) := rfl

@[simp] theorem except_pure {ε α : Type} (a : α) : (pure a : Except ε α) = .ok a := rfl

@[simp] theorem call_lift_ok {α : Type} (a : α) :
    (monadLift (Except.ok a : Except String α) : Call α) = pure a := rfl

@[simp] theorem call_lift_error {α : Type} (e : String) :
    (monadLift (Except.error e : Except String α) : Call α) = throw e := rfl

namespace IoxList

variable {T : Type} {capacity : ℕ}

/-- `BEGIN_END_LINK_INDEX` -/
abbrev beginEndLinkIndex (capacity : ℕ) : ℕ := capacity

/-- `INVALID_INDEX`, which is `NODE_LINK_COUNT = Capacity + 1` -/
abbrev invalidIndex (capacity : ℕ) : ℕ := capacity + 1

/-! ### Links and iterators -/

/-- `setPrevIdx(idx, prevIdx)` -/
def setPrevIdx (l : IoxList T capacity) (idx v : ℕ) : IoxList T capacity :=
  { l with prevIdx := update l.prevIdx idx v }

/-- `setNextIdx(idx, nextIdx)` -/
def setNextIdx (l : IoxList T capacity) (idx v : ℕ) : IoxList T capacity :=
  { l with nextIdx := update l.nextIdx idx v }

/-- `n` passes of the loop `for (i = 1U; i < (BEGIN_END_LINK_INDEX - 1U); ++i)` of `init()`, from
`i`. -/
def initLoop : ℕ → ℕ → IoxList T capacity → IoxList T capacity
  | 0, _, l => l
  | n + 1, i, l =>
    initLoop n (i + 1) ((l.setPrevIdx i (invalidIndex capacity)).setNextIdx i (i + 1))

/-- `init()`: the element nodes are free and linked in order, the last one to
`BEGIN_END_LINK_INDEX`, and the sentinel links to itself both ways. -/
def init (l : IoxList T capacity) : IoxList T capacity :=
  let l := (l.setPrevIdx 0 (invalidIndex capacity)).setNextIdx 0 1
  let l := initLoop (capacity - 2) 1 l
  let l := (l.setPrevIdx (capacity - 1) (invalidIndex capacity)).setNextIdx (capacity - 1)
    (beginEndLinkIndex capacity)
  let l := (l.setPrevIdx capacity (beginEndLinkIndex capacity)).setNextIdx capacity
    (beginEndLinkIndex capacity)
  { l with freeListHeadIdx := 0, size := 0 }

/-- `list()`: `init()` on nodes where no element lives. -/
def new : IoxList T capacity :=
  init ⟨fun _ ↦ none, fun _ ↦ 0, fun _ ↦ 0, 0, 0⟩

/-- `cbegin()`, and `begin()`, of the list `self`. -/
def cbegin (l : IoxList T capacity) (self : ℕ) : ListIterator :=
  ⟨self, l.nextIdx (beginEndLinkIndex capacity)⟩

/-- `cend()`, and `end()`, of the list `self`. -/
def cend (capacity self : ℕ) : ListIterator :=
  ⟨self, beginEndLinkIndex capacity⟩

/-- `empty()` -/
def empty (l : IoxList T capacity) : Bool :=
  l.size == 0

/-- `isValidElementIdx(idx)` -/
def isValidElementIdx (l : IoxList T capacity) (idx : ℕ) : Bool :=
  decide (idx < capacity) && decide (l.prevIdx idx < invalidIndex capacity)

/-- `isInvalidIterator(iter)`: a node on the free list has `prevIdx = INVALID_INDEX`, which the
`IOX_ENFORCE` stops; otherwise the iterator is not invalid. -/
def isInvalidIterator (l : IoxList T capacity) (iter : ListIterator) : Except String Bool :=
  if l.prevIdx iter.index < invalidIndex capacity then .ok false
  else .error "invalidated iterator"

/-- `isInvalidIterOrDifferentLists(iter)` on the list `self`. -/
def isInvalidIterOrDifferentLists (l : IoxList T capacity) (self : ℕ) (iter : ListIterator) :
    Except String Bool :=
  if self = iter.list then l.isInvalidIterator iter
  else .error "iterator of other list can't be used"

/-- `getDataPtrFromIdx(idx)`: the node, once the `IOX_ENFORCE` has checked that it is an element
node. -/
def getDataPtrFromIdx (l : IoxList T capacity) (idx : ℕ) : Except String ℕ :=
  if l.isValidElementIdx idx then .ok idx else .error "invalid list element"

/-- `*iter`, on the iterator's list: the element at its node. -/
def deref (l : IoxList T capacity) (iter : ListIterator) : Call T := do
  let idx ← l.getDataPtrFromIdx iter.index
  match l.data idx with
  | some x => pure x
  | none => ExceptT.lift none

/-- `IteratorBase::operator++`, on the iterator's list: no step beyond `end()`. -/
def increment (l : IoxList T capacity) (iter : ListIterator) : Except String ListIterator := do
  if !(← l.isInvalidIterator iter) then
    if l.isValidElementIdx iter.index then
      return { iter with index := l.nextIdx iter.index }
  return iter

/-- `IteratorBase::operator--`, on the iterator's list: no step before `begin()`. -/
def decrement (l : IoxList T capacity) (iter : ListIterator) : Except String ListIterator := do
  if !(← l.isInvalidIterator iter) then
    if l.isValidElementIdx (l.prevIdx iter.index) then
      return { iter with index := l.prevIdx iter.index }
  return iter

/-- `IteratorBase::operator==`, on the list of the left iterator. -/
def iterEq (l : IoxList T capacity) (iter rhs : ListIterator) : Except String Bool := do
  if ← l.isInvalidIterOrDifferentLists iter.list rhs then return false
  if ← l.isInvalidIterator iter then return false
  return iter.index == rhs.index

/-! ### Inserting and erasing -/

/-- `emplace(iter, args...)` on the list `self`: `end()` when the list is full; otherwise the head
of the free list takes the element and is linked in before the iterator's node. -/
def emplace (l : IoxList T capacity) (self : ℕ) (iter : ListIterator) (x : T) :
    Except String (IoxList T capacity × ListIterator) := do
  if ← l.isInvalidIterOrDifferentLists self iter then return (l, cend capacity self)
  if capacity ≤ l.size then return (l, cend capacity self)
  -- unlink from the free list
  let toBeAddedIdx := l.freeListHeadIdx
  let l : IoxList T capacity := { l with freeListHeadIdx := l.nextIdx l.freeListHeadIdx }
  let l := l.setPrevIdx toBeAddedIdx (l.prevIdx iter.index)
  let l := l.setNextIdx toBeAddedIdx iter.index
  -- the element is constructed in the node
  let idx ← l.getDataPtrFromIdx toBeAddedIdx
  let l : IoxList T capacity := { l with data := update l.data idx (some x) }
  -- add to the active list, before the iterator's node
  let l := l.setNextIdx (l.prevIdx iter.index) toBeAddedIdx
  let l := l.setPrevIdx iter.index toBeAddedIdx
  return ({ l with size := l.size + 1 }, ⟨self, toBeAddedIdx⟩)

/-- `insert(citer, data)` forwards to `emplace`. -/
def insert (l : IoxList T capacity) (self : ℕ) (iter : ListIterator) (x : T) :
    Except String (IoxList T capacity × ListIterator) :=
  l.emplace self iter x

/-- `erase(iter)` on the list `self`: `end()` for a node that holds no element; otherwise the node
is unlinked, its element destroyed, and the node marked free and pushed on the free list; the
answer is the iterator to the node after it. -/
def erase (l : IoxList T capacity) (self : ℕ) (iter : ListIterator) :
    Except String (IoxList T capacity × ListIterator) := do
  if ← l.isInvalidIterOrDifferentLists self iter then return (l, cend capacity self)
  let eraseIdx := iter.index
  if !l.isValidElementIdx eraseIdx || l.empty then return (l, cend capacity self)
  -- unlink from the active list
  let retIdx := l.nextIdx iter.index
  let l := l.setPrevIdx retIdx (l.prevIdx iter.index)
  let l := l.setNextIdx (l.prevIdx iter.index) retIdx
  -- the element's destructor
  let idx ← l.getDataPtrFromIdx iter.index
  let l : IoxList T capacity := { l with data := update l.data idx none }
  -- mark the node free and add it to the free list
  let l := l.setPrevIdx eraseIdx (invalidIndex capacity)
  let l := l.setNextIdx eraseIdx l.freeListHeadIdx
  return ({ l with freeListHeadIdx := eraseIdx, size := l.size - 1 }, ⟨self, retIdx⟩)

/-- `push_front(data)`: `emplace(cbegin(), data)` below capacity; `true` when the size grew. -/
def pushFront (l : IoxList T capacity) (self : ℕ) (x : T) :
    Except String (IoxList T capacity × Bool) := do
  let sizeBeforePush := l.size
  let l ← if l.size < capacity then Prod.fst <$> l.emplace self (l.cbegin self) x else pure l
  return (l, l.size == sizeBeforePush + 1)

/-- `push_back(data)`: `emplace(cend(), data)` below capacity; `true` when the size grew. -/
def pushBack (l : IoxList T capacity) (self : ℕ) (x : T) :
    Except String (IoxList T capacity × Bool) := do
  let sizeBeforePush := l.size
  let l ← if l.size < capacity then Prod.fst <$> l.emplace self (cend capacity self) x
    else pure l
  return (l, l.size == sizeBeforePush + 1)

/-- `pop_front()`: `erase(begin())`; `true` when the size fell. -/
def popFront (l : IoxList T capacity) (self : ℕ) : Except String (IoxList T capacity × Bool) := do
  let sizeBeforeErase := l.size
  let (l, _) ← l.erase self (l.cbegin self)
  return (l, l.size + 1 == sizeBeforeErase)

/-- `pop_back()`: `erase(--end())`; `true` when the size fell. -/
def popBack (l : IoxList T capacity) (self : ℕ) : Except String (IoxList T capacity × Bool) := do
  let sizeBeforeErase := l.size
  let iter ← l.decrement (cend capacity self)
  let (l, _) ← l.erase self iter
  return (l, l.size + 1 == sizeBeforeErase)

/-! ### The loops -/

/-- At most `fuel` passes of `while (iter != cend())` in `remove_if(pred)`: an element the
predicate holds of is erased and counted, and otherwise the iterator steps on. -/
def removeIfLoop (self : ℕ) (pred : T → Bool) :
    ℕ → IoxList T capacity → ListIterator → ℕ → Call (IoxList T capacity × ℕ)
  | 0, _, _, _ => ExceptT.lift none
  | fuel + 1, l, iter, removedCount => do
    if !(← l.iterEq iter (cend capacity self)) then
      if pred (← l.deref iter) then
        let (l, iter) ← l.erase self iter
        removeIfLoop self pred fuel l iter (removedCount + 1)
      else
        removeIfLoop self pred fuel l (← l.increment iter) removedCount
    else
      return (l, removedCount)

/-- `remove_if(pred)`: the elements the predicate holds of are erased; the answer is their
number. -/
def removeIf (l : IoxList T capacity) (self : ℕ) (pred : T → Bool) :
    Call (IoxList T capacity × ℕ) :=
  removeIfLoop self pred (capacity + 1) l (l.cbegin self) 0

/-- `remove(data)`: `remove_if` with `eachListElementData == data`. -/
def remove [BEq T] (l : IoxList T capacity) (self : ℕ) (x : T) : Call (IoxList T capacity × ℕ) :=
  l.removeIf self fun y ↦ y == x

/-- At most `fuel` passes of `while (m_size) erase(begin());` in `clear()`. -/
def clearLoop (self : ℕ) : ℕ → IoxList T capacity → Call (IoxList T capacity)
  | 0, _ => ExceptT.lift none
  | fuel + 1, l => do
    if l.size ≠ 0 then
      let (l, _) ← l.erase self (l.cbegin self)
      clearLoop self fuel l
    else
      return l

/-- `clear()`: one pass per element and one more. -/
def clear (l : IoxList T capacity) (self : ℕ) : Call (IoxList T capacity) :=
  clearLoop self (l.size + 1) l

/-- `n` passes of the first loop of `operator=`: `*iterThis = *citerRhs; ++iterThis; ++citerRhs`,
the right operand read first. -/
def assignLoop (rhs : IoxList T capacity) :
    ℕ → IoxList T capacity → ListIterator → ListIterator →
      Call (IoxList T capacity × ListIterator × ListIterator)
  | 0, l, iterThis, citerRhs => pure (l, iterThis, citerRhs)
  | n + 1, l, iterThis, citerRhs => do
    let x ← rhs.deref citerRhs
    let idx ← l.getDataPtrFromIdx iterThis.index
    let l : IoxList T capacity := { l with data := update l.data idx (some x) }
    let iterThis ← l.increment iterThis
    let citerRhs ← rhs.increment citerRhs
    assignLoop rhs n l iterThis citerRhs

/-- `n` passes of the second loop of `operator=`: `emplace(cend(), *citerRhs); ++citerRhs`. -/
def emplaceBackLoop (self : ℕ) (rhs : IoxList T capacity) :
    ℕ → IoxList T capacity → ListIterator → Call (IoxList T capacity × ListIterator)
  | 0, l, citerRhs => pure (l, citerRhs)
  | n + 1, l, citerRhs => do
    let x ← rhs.deref citerRhs
    let (l, _) ← l.emplace self (cend capacity self) x
    let citerRhs ← rhs.increment citerRhs
    emplaceBackLoop self rhs n l citerRhs

/-- `n` passes of the third loop of `operator=`: `iterThis = erase(iterThis)`. -/
def eraseLoop (self : ℕ) :
    ℕ → IoxList T capacity → ListIterator → Call (IoxList T capacity × ListIterator)
  | 0, l, iterThis => pure (l, iterThis)
  | n + 1, l, iterThis => do
    let (l, iterThis) ← l.erase self iterThis
    eraseLoop self n l iterThis

/-- `operator=(const list&)` of the list `self` from another list `rhs`: the first elements are
assigned, the further elements of `rhs` emplaced at the end, and the further elements of this
list erased. -/
def copyAssign (l : IoxList T capacity) (self : ℕ) (rhs : IoxList T capacity) (rhsSelf : ℕ) :
    Call (IoxList T capacity) := do
  let startSize := l.size
  let minOfLhsRhsSize := min rhs.size startSize
  let (l, iterThis, citerRhs) ← assignLoop rhs minOfLhsRhsSize l (l.cbegin self)
    (rhs.cbegin rhsSelf)
  let (l, _) ← emplaceBackLoop self rhs (rhs.size - minOfLhsRhsSize) l citerRhs
  let (l, _) ← eraseLoop self (startSize - rhs.size) l iterThis
  return l

/-- `operator=(list&&)` of the list `self` from another list `rhs`: as the copy, with the elements
moved, and `rhs` cleared. -/
def moveAssign (l : IoxList T capacity) (self : ℕ) (rhs : IoxList T capacity) (rhsSelf : ℕ) :
    Call (IoxList T capacity × IoxList T capacity) := do
  let l ← l.copyAssign self rhs rhsSelf
  let rhs ← rhs.clear rhsSelf
  return (l, rhs)

/-- `list(const list&)`: `init(); *this = rhs;` -/
def copyConstruct (self : ℕ) (rhs : IoxList T capacity) (rhsSelf : ℕ) :
    Call (IoxList T capacity) :=
  new.copyAssign self rhs rhsSelf

/-- At most `fuel` passes of `for (auto& element : rhs) emplace(iter, std::move(element));` in the
move constructor. -/
def moveLoop (self : ℕ) (rhs : IoxList T capacity) (iter : ListIterator) :
    ℕ → IoxList T capacity → ListIterator → Call (IoxList T capacity)
  | 0, _, _ => ExceptT.lift none
  | fuel + 1, l, rhsIter => do
    if !(← rhs.iterEq rhsIter (cend capacity rhsIter.list)) then
      let x ← rhs.deref rhsIter
      let (l, _) ← l.emplace self iter x
      moveLoop self rhs iter fuel l (← rhs.increment rhsIter)
    else
      return l

/-- `list(list&&)`: `init()`, every element of `rhs` emplaced before `cbegin()` of the new list,
which stays `end()`, and `rhs` cleared. -/
def moveConstruct (self : ℕ) (rhs : IoxList T capacity) (rhsSelf : ℕ) :
    Call (IoxList T capacity × IoxList T capacity) := do
  let l : IoxList T capacity := new
  let l ← moveLoop self rhs (l.cbegin self) (capacity + 1) l (rhs.cbegin rhsSelf)
  let rhs ← rhs.clear rhsSelf
  return (l, rhs)

/-! ### Walking the links -/

/-- The active nodes: the nodes `operator++` visits from `begin()` up to `end()`. -/
def activeIndices (l : IoxList T capacity) : List ℕ :=
  NextChain.follow l.nextIdx capacity capacity (l.nextIdx (beginEndLinkIndex capacity))

/-- The free list, from `m_freeListHeadIdx` along `nextIdx`. -/
def freeIndices (l : IoxList T capacity) : List ℕ :=
  NextChain.follow l.nextIdx capacity capacity l.freeListHeadIdx

/-- The elements in the order of iteration, what `for (auto& e : list)` visits. -/
def elements (l : IoxList T capacity) : List T :=
  l.activeIndices.filterMap l.data

/-- The position of an iterator: the number of `operator++` from `begin()` that reach its node,
and the size for `end()`. -/
def position (l : IoxList T capacity) (iter : ListIterator) : ℕ :=
  l.activeIndices.idxOf iter.index

/-! ### The well-formed list -/

/-- **The links of a well-formed list**: `act` is the cycle through the sentinel, in order, and
`free` the free list from `m_freeListHeadIdx` up to the sentinel; together they are the element
nodes; a free node is marked with `prevIdx = INVALID_INDEX`; `m_size` counts the active nodes;
and an element lives exactly at an active node. -/
structure Links (l : IoxList T capacity) (act free : List ℕ) : Prop where
  cycle : LinkCycle l.nextIdx l.prevIdx capacity act
  free_chain : NextChain l.nextIdx l.freeListHeadIdx free capacity
  perm : (act ++ free).Perm (List.range capacity)
  free_prev : ∀ i ∈ free, l.prevIdx i = invalidIndex capacity
  size_eq : l.size = act.length
  data_isSome : ∀ i, (l.data i).isSome ↔ i ∈ act

section Init

theorem initLoop_eq : ∀ (n i : ℕ) (l : IoxList T capacity),
    initLoop n i l =
      { l with
        prevIdx := fun k ↦ if i ≤ k ∧ k < i + n then invalidIndex capacity else l.prevIdx k
        nextIdx := fun k ↦ if i ≤ k ∧ k < i + n then k + 1 else l.nextIdx k }
  | 0, i, l => by
    refine IoxList.ext rfl (funext fun k ↦ ?_) (funext fun k ↦ ?_) rfl rfl <;>
    simp only [initLoop] <;> split_ifs <;> first | rfl | omega
  | n + 1, i, l => by
    rw [initLoop, initLoop_eq n (i + 1)]
    refine IoxList.ext rfl (funext fun k ↦ ?_) (funext fun k ↦ ?_) rfl rfl <;>
    simp only [setPrevIdx, setNextIdx, Function.update_apply] <;>
    split_ifs <;> first | rfl | omega

theorem init_prevIdx (l : IoxList T capacity) (k : ℕ) :
    (init l).prevIdx k =
      if k < capacity then invalidIndex capacity else if k = capacity then capacity
      else l.prevIdx k := by
  simp only [init, initLoop_eq, setPrevIdx, setNextIdx, Function.update_apply, beginEndLinkIndex]
  split_ifs <;> omega

theorem init_nextIdx (l : IoxList T capacity) (k : ℕ) :
    (init l).nextIdx k =
      if k < capacity then k + 1 else if k = capacity then capacity else l.nextIdx k := by
  simp only [init, initLoop_eq, setPrevIdx, setNextIdx, Function.update_apply, beginEndLinkIndex]
  split_ifs <;> omega

theorem links_new : Links (new : IoxList T capacity) [] (List.range capacity) where
  cycle := ⟨⟨rfl, by simp [new, init_nextIdx]⟩, ⟨rfl, by simp [new, init_prevIdx]⟩⟩
  free_chain := by
    have hsucc := NextChain.succ_range' 0 capacity
    rw [Nat.zero_add, ← List.range_eq_range'] at hsucc
    exact hsucc.congr fun i hi ↦ by rw [new, init_nextIdx, if_pos (List.mem_range.1 hi)]
  perm := List.Perm.refl _
  free_prev i hi := by rw [new, init_prevIdx, if_pos (List.mem_range.1 hi)]
  size_eq := rfl
  data_isSome _ := iff_of_false (by simp [new, init, initLoop_eq, setPrevIdx, setNextIdx])
    List.not_mem_nil

end Init

section ClosedForms

/-! The calls on a node where the checks pass, as the links they leave. -/

theorem emplace_eq (l : IoxList T capacity) (self it : ℕ) (x : T)
    (hit : l.prevIdx it < invalidIndex capacity) (hsize : l.size < capacity)
    (hn : l.freeListHeadIdx < capacity) (hne : it ≠ l.freeListHeadIdx) :
    l.emplace self ⟨self, it⟩ x =
      .ok ({ data := update l.data l.freeListHeadIdx (some x)
             nextIdx := update (update l.nextIdx l.freeListHeadIdx it) (l.prevIdx it)
               l.freeListHeadIdx
             prevIdx := update (update l.prevIdx l.freeListHeadIdx (l.prevIdx it)) it
               l.freeListHeadIdx
             freeListHeadIdx := l.nextIdx l.freeListHeadIdx
             size := l.size + 1 }, ⟨self, l.freeListHeadIdx⟩) := by
  simp [emplace, isInvalidIterOrDifferentLists, isInvalidIterator, hit, Nat.not_le.2 hsize,
    setPrevIdx, setNextIdx, getDataPtrFromIdx, isValidElementIdx, hn, Function.update_of_ne hne]

theorem erase_eq (l : IoxList T capacity) (self x : ℕ)
    (hx : x < capacity) (hprev : l.prevIdx x < invalidIndex capacity) (hsize : l.size ≠ 0)
    (hne : l.nextIdx x ≠ x) :
    l.erase self ⟨self, x⟩ =
      .ok ({ data := update l.data x none
             nextIdx := update (update l.nextIdx (l.prevIdx x) (l.nextIdx x)) x l.freeListHeadIdx
             prevIdx := update (update l.prevIdx (l.nextIdx x) (l.prevIdx x)) x
               (invalidIndex capacity)
             freeListHeadIdx := x
             size := l.size - 1 }, ⟨self, l.nextIdx x⟩) := by
  simp [erase, isInvalidIterOrDifferentLists, isInvalidIterator, hprev, hsize, empty,
    setPrevIdx, setNextIdx, getDataPtrFromIdx, isValidElementIdx, hx,
    Function.update_of_ne hne.symm]

theorem emplace_of_ne {self : ℕ} {iter : ListIterator} (hne : self ≠ iter.list)
    (l : IoxList T capacity) (x : T) :
    l.emplace self iter x = .error "iterator of other list can't be used" := by
  simp [IoxList.emplace, isInvalidIterOrDifferentLists, hne]

theorem erase_of_ne {self : ℕ} {iter : ListIterator} (hne : self ≠ iter.list)
    (l : IoxList T capacity) :
    l.erase self iter = .error "iterator of other list can't be used" := by
  simp [IoxList.erase, isInvalidIterOrDifferentLists, hne]

end ClosedForms

section Links

variable {l : IoxList T capacity} {act free : List ℕ}

theorem Links.nodup (h : Links l act free) : (act ++ free).Nodup :=
  h.perm.nodup_iff.2 List.nodup_range

theorem Links.lt_of_mem (h : Links l act free) {i : ℕ} (hi : i ∈ act ++ free) : i < capacity :=
  List.mem_range.1 (h.perm.subset hi)

theorem Links.length_add (h : Links l act free) : act.length + free.length = capacity := by
  simpa using h.perm.length_eq

/-- The walk from `begin()` visits the active nodes. -/
theorem Links.activeIndices_eq (h : Links l act free) : l.activeIndices = act :=
  NextChain.follow_eq h.cycle.forward.2 (fun _ hx ↦ h.lt_of_mem (List.mem_append_left free hx))
    (by have := h.length_add; omega)

/-- The walk from `m_freeListHeadIdx` visits the free list. -/
theorem Links.freeIndices_eq (h : Links l act free) : l.freeIndices = free :=
  NextChain.follow_eq h.free_chain (fun _ hx ↦ h.lt_of_mem (List.mem_append_right act hx))
    (by have := h.length_add; omega)

/-- The sentinel is not an element node, so the cycle through it visits no node twice. -/
theorem Links.nodup_cycle (h : Links l act free) : (capacity :: act).Nodup :=
  List.nodup_cons.2 ⟨fun hc ↦ Nat.lt_irrefl _ (h.lt_of_mem (List.mem_append_left free hc)),
    (List.nodup_append.1 h.nodup).1⟩

theorem Links.prev_lt (h : Links l act free) {i : ℕ} (hi : i ∈ capacity :: act) :
    l.prevIdx i < invalidIndex capacity := by
  rcases List.mem_cons.1 (h.cycle.prev_mem hi) with hp | hp
  · rw [hp]
    exact Nat.lt_succ_self _
  · exact Nat.lt_succ_of_lt (h.lt_of_mem (List.mem_append_left free hp))

theorem Links.isValidElementIdx_of_mem (h : Links l act free) {i : ℕ} (hi : i ∈ act) :
    l.isValidElementIdx i = true := by
  simp only [isValidElementIdx, Bool.and_eq_true, decide_eq_true_eq]
  exact ⟨h.lt_of_mem (List.mem_append_left free hi), h.prev_lt (List.mem_cons_of_mem _ hi)⟩

theorem isValidElementIdx_capacity (l : IoxList T capacity) :
    l.isValidElementIdx capacity = false := by
  simp [isValidElementIdx]

theorem Links.isInvalidIterator_eq (h : Links l act free) {k i : ℕ} (hi : i ∈ capacity :: act) :
    l.isInvalidIterator ⟨k, i⟩ = .ok false :=
  if_pos (h.prev_lt hi)

theorem Links.isInvalidIterOrDifferentLists_eq (h : Links l act free) {self i : ℕ}
    (hi : i ∈ capacity :: act) : l.isInvalidIterOrDifferentLists self ⟨self, i⟩ = .ok false := by
  rw [isInvalidIterOrDifferentLists, if_pos rfl, h.isInvalidIterator_eq hi]

/-- `operator++` on an active node steps to the node after it. -/
theorem Links.increment_of_mem {A B : List ℕ} {x : ℕ} (h : Links l (A ++ x :: B) free)
    (self : ℕ) : l.increment ⟨self, x⟩ = .ok ⟨self, B.headD capacity⟩ := by
  have hx : x ∈ A ++ x :: B := List.mem_append_right A List.mem_cons_self
  simp only [increment, h.isInvalidIterator_eq (List.mem_cons_of_mem capacity hx),
    h.isValidElementIdx_of_mem hx, h.cycle.next_eq]
  rfl

/-- `operator++` does not step beyond `end()`. -/
theorem Links.increment_cend (h : Links l act free) (self : ℕ) :
    l.increment (cend capacity self) = .ok (cend capacity self) := by
  simp only [increment, cend, h.isInvalidIterator_eq List.mem_cons_self, beginEndLinkIndex,
    isValidElementIdx_capacity]
  rfl

/-- `operator++` moves an iterator on by one position, and not beyond `end()`. -/
theorem Links.increment_at (h : Links l act free) (self k : ℕ) :
    l.increment ⟨self, (act.drop k).headD capacity⟩ =
      .ok ⟨self, (act.drop (k + 1)).headD capacity⟩ := by
  by_cases hk : k < act.length
  · have h' : Links l (act.take k ++ act[k] :: act.drop (k + 1)) free := by
      rwa [List.getElem_cons_drop, List.take_append_drop]
    rw [LinkCycle.headD_drop_of_lt hk]
    exact h'.increment_of_mem self
  · rw [LinkCycle.headD_drop_of_le (Nat.le_of_not_lt hk),
      LinkCycle.headD_drop_of_le (show act.length ≤ k + 1 by omega)]
    exact h.increment_cend self

/-- `operator--` on `end()` steps to the last active node, and stays at `end()` in an empty
list. -/
theorem Links.decrement_cend (h : Links l act free) (self : ℕ) :
    l.decrement (cend capacity self) = .ok ⟨self, act.getLastD capacity⟩ := by
  have hprev : l.prevIdx capacity = act.getLastD capacity := by
    have hc : LinkCycle l.nextIdx l.prevIdx capacity (act ++ []) := by
      rw [List.append_nil]
      exact h.cycle
    exact hc.prev_headD
  cases act with
  | nil =>
    simp only [decrement, cend, h.isInvalidIterator_eq List.mem_cons_self, beginEndLinkIndex,
      hprev, List.getLastD_nil, isValidElementIdx_capacity]
    rfl
  | cons a act =>
    have hlast : (a :: act).getLastD capacity ∈ a :: act := by
      rw [List.getLastD_eq_getLast?, List.getLast?_eq_some_getLast (List.cons_ne_nil a act)]
      exact List.getLast_mem _
    simp only [decrement, cend, h.isInvalidIterator_eq List.mem_cons_self, beginEndLinkIndex,
      hprev, h.isValidElementIdx_of_mem hlast]
    rfl

/-- `operator==` with `end()`, for a node of the cycle. -/
theorem Links.iterEq_cend (h : Links l act free) (self : ℕ) {i : ℕ} (hi : i ∈ capacity :: act) :
    l.iterEq ⟨self, i⟩ (cend capacity self) = .ok (i == capacity) := by
  simp only [iterEq, cend, beginEndLinkIndex,
    h.isInvalidIterOrDifferentLists_eq List.mem_cons_self,
    h.isInvalidIterator_eq (k := self) hi]
  rfl

/-- `*iter` on an active node reads its element. -/
theorem Links.deref_of_mem (h : Links l act free) (self : ℕ) {i : ℕ} (hi : i ∈ act) {y : T}
    (hy : l.data i = some y) : l.deref ⟨self, i⟩ = pure y := by
  simp only [deref, getDataPtrFromIdx, h.isValidElementIdx_of_mem hi, if_true, call_lift_ok,
    pure_bind, hy]

/-- `emplace` on a full list answers `end()` and changes nothing. -/
theorem Links.emplace_of_full (h : Links l act free) (self : ℕ) {i : ℕ}
    (hi : i ∈ capacity :: act) (hfull : act.length = capacity) (x : T) :
    l.emplace self ⟨self, i⟩ x = .ok (l, cend capacity self) := by
  simp [IoxList.emplace, h.isInvalidIterOrDifferentLists_eq hi, h.size_eq, hfull]

/-- `erase(end())` answers `end()` and changes nothing. -/
theorem Links.erase_cend (h : Links l act free) (self : ℕ) :
    l.erase self (cend capacity self) = .ok (l, cend capacity self) := by
  simp only [IoxList.erase, cend, beginEndLinkIndex, h.isInvalidIterOrDifferentLists_eq List.mem_cons_self,
    isValidElementIdx_capacity]
  rfl

theorem Links.not_mem_free (h : Links l act free) {i : ℕ} (hi : i ∈ capacity :: act) :
    i ∉ free := by
  intro hf
  rcases List.mem_cons.1 hi with rfl | ha
  · exact Nat.lt_irrefl _ (h.lt_of_mem (List.mem_append_right act hf))
  · exact List.disjoint_of_nodup_append h.nodup ha hf

open List in
/-- **`emplace` links the head of the free list in before the iterator's node**: in a list
whose active nodes are `A ++ B`, an emplace before the node at that position takes the free head
`n`, which holds the new element and sits between `A` and `B`. -/
theorem Links.emplace {A B : List ℕ} {n : ℕ} (h : Links l (A ++ B) (n :: free)) (self : ℕ)
    (x : T) :
    ∃ l', l.emplace self ⟨self, B.headD capacity⟩ x = .ok (l', ⟨self, n⟩) ∧
      Links l' (A ++ n :: B) free ∧ l'.data = update l.data n (some x) := by
  have hhead : l.freeListHeadIdx = n := h.free_chain.1
  have hmem := LinkCycle.headD_mem_append capacity A B
  have hn : n ∉ capacity :: (A ++ B) := fun hn ↦ h.not_mem_free hn List.mem_cons_self
  have hnfree : n ∉ free := (List.nodup_cons.1 (List.nodup_append.1 h.nodup).2.1).1
  have hprev := h.prev_lt hmem
  have hlen : (A ++ B).length < capacity := by
    have hp := h.perm.length_eq
    simp only [List.length_append, List.length_cons, List.length_range] at hp ⊢
    omega
  rw [emplace_eq l self _ x hprev (by rw [h.size_eq]; omega)
    (hhead ▸ h.lt_of_mem (List.mem_append_right _ List.mem_cons_self))
    (hhead ▸ fun he ↦ hn (he ▸ hmem)), hhead]
  refine ⟨_, rfl, ⟨h.cycle.insertBefore h.nodup_cycle hn, ?_, ?_, ?_, ?_, ?_⟩, rfl⟩
  · -- the free list loses its head
    exact (h.free_chain.2.update hnfree).update fun hm ↦
      h.not_mem_free (h.cycle.prev_mem hmem) (List.mem_cons_of_mem n hm)
  · calc (A ++ n :: B) ++ free
        = A ++ n :: (B ++ free) := by rw [List.append_assoc, List.cons_append]
      _ ~ n :: (A ++ (B ++ free)) := List.perm_middle
      _ = n :: ((A ++ B) ++ free) := by rw [← List.append_assoc]
      _ ~ (A ++ B) ++ n :: free := List.perm_middle.symm
      _ ~ List.range capacity := h.perm
  · intro i hi
    have hit : i ≠ B.headD capacity := fun he ↦
      h.not_mem_free hmem (he ▸ List.mem_cons_of_mem n hi)
    have hin : i ≠ n := fun he ↦ hnfree (he ▸ hi)
    simp only [Function.update_of_ne hit, Function.update_of_ne hin]
    exact h.free_prev i (List.mem_cons_of_mem n hi)
  · simp only [List.length_append, List.length_cons, h.size_eq]
    omega
  · intro i
    by_cases hi : i = n
    · subst hi
      simp
    · show (update l.data n (some x) i).isSome ↔ _
      rw [Function.update_of_ne hi, h.data_isSome]
      simp [hi]

open List in
/-- **`erase` unlinks an active node and pushes it on the free list**: in a list whose active
nodes are `A ++ x :: B`, erasing the node `x` leaves `A ++ B` active and `x` at the head of the
free list, and answers the node after `x`. -/
theorem Links.erase {A B : List ℕ} {x : ℕ} (h : Links l (A ++ x :: B) free) (self : ℕ) :
    ∃ l', l.erase self ⟨self, x⟩ = .ok (l', ⟨self, B.headD capacity⟩) ∧
      Links l' (A ++ B) (x :: free) ∧ l'.data = update l.data x none := by
  have hnd := h.nodup_cycle
  have hxmem : x ∈ A ++ x :: B := List.mem_append_right A List.mem_cons_self
  have hx : x ∉ capacity :: (A ++ B) := by
    rw [← List.cons_append] at hnd
    exact (List.nodup_middle.1 hnd |> List.nodup_cons.1).1
  have hnext : l.nextIdx x = B.headD capacity := h.cycle.next_eq
  have hnextmem := LinkCycle.headD_mem_append capacity A B
  have hxfree : x ∉ free := h.not_mem_free (List.mem_cons_of_mem capacity hxmem)
  rw [erase_eq l self x (h.lt_of_mem (List.mem_append_left free hxmem))
    (h.prev_lt (List.mem_cons_of_mem capacity hxmem))
    (by rw [h.size_eq]; simp) (hnext ▸ fun he ↦ hx (he ▸ hnextmem)), hnext]
  refine ⟨_, rfl, ⟨?_, ?_, ?_, ?_, ?_, ?_⟩, rfl⟩
  · -- unlinked from the cycle, and then relinked off it
    have hc := h.cycle.erase hnd
    rw [hnext] at hc
    exact (hc.update_next hx).update_prev hx
  · -- the free list takes `x` as its head
    refine ⟨rfl, ?_⟩
    dsimp only
    rw [Function.update_self]
    exact (h.free_chain.update fun hm ↦
      h.not_mem_free (h.cycle.prev_mem (List.mem_cons_of_mem capacity hxmem)) hm).update hxfree
  · calc (A ++ B) ++ x :: free
        ~ x :: ((A ++ B) ++ free) := List.perm_middle
      _ = x :: (A ++ (B ++ free)) := by rw [List.append_assoc]
      _ ~ A ++ x :: (B ++ free) := List.perm_middle.symm
      _ = (A ++ x :: B) ++ free := by rw [List.append_assoc, List.cons_append]
      _ ~ List.range capacity := h.perm
  · intro i hi
    rcases List.mem_cons.1 hi with rfl | hi
    · exact Function.update_self _ _ _
    · have hix : i ≠ x := fun he ↦ hxfree (he ▸ hi)
      have hsub : capacity :: (A ++ B) ⊆ capacity :: (A ++ x :: B) :=
        (((List.sublist_cons_self x B).append_left A).cons_cons capacity).subset
      have hin : i ≠ B.headD capacity := fun he ↦ h.not_mem_free (hsub hnextmem) (he ▸ hi)
      simp only [Function.update_of_ne hix, Function.update_of_ne hin]
      exact h.free_prev i hi
  · simp only [h.size_eq, List.length_append, List.length_cons]
    omega
  · intro i
    by_cases hi : i = x
    · subst hi
      simpa using fun hm ↦ hx (List.mem_cons_of_mem capacity hm)
    · show (update l.data x none i).isSome ↔ _
      rw [Function.update_of_ne hi, h.data_isSome]
      simp [hi]

theorem map_update_of_not_mem {d : ℕ → Option T} {L : List ℕ} {i : ℕ} (v : Option T)
    (hi : i ∉ L) : L.map (update d i v) = L.map d :=
  List.map_congr_left fun j hj ↦ Function.update_of_ne (fun he : j = i ↦ hi (he ▸ hj)) v d

theorem Links.cbegin_eq (h : Links l act free) (self : ℕ) :
    l.cbegin self = ⟨self, act.headD capacity⟩ := by
  rw [cbegin, beginEndLinkIndex, h.cycle.forward.2.head_eq]

/-- Writing elements at the active nodes keeps the links. -/
theorem Links.setData (h : Links l act free) {d : ℕ → Option T}
    (hd : ∀ i, (d i).isSome ↔ i ∈ act) :
    Links ({ l with data := d } : IoxList T capacity) act free :=
  ⟨h.cycle, h.free_chain, h.perm, h.free_prev, h.size_eq, hd⟩

/-- `emplace(cend(), x)` links the head of the free list in at the end. -/
theorem Links.emplace_cend {n : ℕ} (h : Links l act (n :: free)) (self : ℕ) (x : T) :
    ∃ l', l.emplace self (cend capacity self) x = .ok (l', ⟨self, n⟩) ∧
      Links l' (act ++ [n]) free ∧ l'.data = update l.data n (some x) := by
  rw [← List.append_nil act] at h
  exact h.emplace self x

end Links

section Loops

variable {l : IoxList T capacity} {act free : List ℕ}

theorem Links.clearLoop_spec (self : ℕ) : ∀ (act free : List ℕ) (l : IoxList T capacity)
    (fuel : ℕ), Links l act free → act.length < fuel →
    ∃ l' free', clearLoop self fuel l = pure l' ∧ Links l' [] free'
  | _, _, _, 0, _, hfuel => absurd hfuel (Nat.not_lt_zero _)
  | [], free, l, fuel + 1, h, _ => by
    refine ⟨l, free, ?_, h⟩
    simp [clearLoop, h.size_eq]
  | a :: act, free, l, fuel + 1, h, hfuel => by
    rw [← List.nil_append (a :: act)] at h
    obtain ⟨l₁, he, h₁⟩ := h.erase self
    obtain ⟨l', free', hloop, h'⟩ :=
      Links.clearLoop_spec self act _ l₁ fuel h₁.1 (by simpa using hfuel)
    refine ⟨l', free', ?_, h'⟩
    simp [clearLoop, h.size_eq, h.cbegin_eq, he, hloop]
/-- **The loop of `remove_if`** from the node at a position `P ++ Q`: the nodes of `Q` whose
element the predicate holds of are erased and counted, the others kept in order; the elements
at the nodes kept are not touched. The predicate is read off `d`, the elements at `Q` when the
loop reaches it. -/
theorem Links.removeIfLoop_spec (self : ℕ) (pred : T → Bool) (d : ℕ → Option T) :
    ∀ (Q P free : List ℕ) (l : IoxList T capacity) (fuel r : ℕ), Links l (P ++ Q) free →
      (∀ i ∈ Q, l.data i = d i) → Q.length < fuel →
      ∃ l' free', removeIfLoop self pred fuel l ⟨self, Q.headD capacity⟩ r =
          pure (l', r + (Q.filter fun i ↦ (d i).any pred).length) ∧
        Links l' (P ++ Q.filter fun i ↦ !(d i).any pred) free' ∧
        ∀ i ∈ P ++ Q.filter (fun i ↦ !(d i).any pred), l'.data i = l.data i
  | _, _, _, _, 0, _, _, _, hfuel => absurd hfuel (Nat.not_lt_zero _)
  | [], P, free, l, fuel + 1, r, h, _, _ => by
    refine ⟨l, free, ?_, by simpa using h, fun _ _ ↦ rfl⟩
    have hend := h.iterEq_cend self (i := capacity) List.mem_cons_self
    simp [removeIfLoop, hend]
  | q :: Q, P, free, l, fuel + 1, r, h, hd, hfuel => by
    have hq : q ∈ P ++ q :: Q := List.mem_append_right P List.mem_cons_self
    have hqlt : q < capacity := h.lt_of_mem (List.mem_append_left free hq)
    obtain ⟨y, hy⟩ := Option.isSome_iff_exists.1 ((h.data_isSome q).2 hq)
    have hend := h.iterEq_cend self (List.mem_cons_of_mem capacity hq)
    have hqne : (q == capacity) = false := beq_false_of_ne (Nat.ne_of_lt hqlt)
    have hdq : d q = some y := (hd q List.mem_cons_self).symm.trans hy
    have hqPQ : q ∉ P ++ Q :=
      (List.nodup_cons.1 (List.nodup_middle.1 (List.nodup_cons.1 h.nodup_cycle).2)).1
    have hfuel' : Q.length < fuel := by simpa using hfuel
    cases hp : pred y with
    | true =>
      -- the element goes: the node is erased and the loop goes on from the node after it
      obtain ⟨l₁, herase, h₁, hd₁⟩ := h.erase self
      have hQ : ∀ i ∈ Q, l₁.data i = d i := fun i hi ↦ by
        rw [hd₁, Function.update_of_ne (fun (he : i = q) ↦ hqPQ (he ▸ List.mem_append_right P hi))]
        exact hd i (List.mem_cons_of_mem q hi)
      obtain ⟨l', free', hloop, h', hkeep⟩ :=
        Links.removeIfLoop_spec self pred d Q P (q :: free) l₁ fuel (r + 1) h₁ hQ hfuel'
      refine ⟨l', free', ?_, by simpa [List.filter_cons, hdq, hp] using h', fun i hi ↦ ?_⟩
      · simp only [removeIfLoop, List.headD_cons, hend, hqne, call_lift_ok, pure_bind,
          Bool.not_false, if_true, h.deref_of_mem self hq hy, hp, herase, hloop]
        rw [List.filter_cons_of_pos (by rw [hdq]; exact hp), List.length_cons,
          Nat.add_right_comm, Nat.add_assoc]
      · have hi' : i ∈ P ++ Q.filter fun i ↦ !(d i).any pred := by
          simpa [List.filter_cons, hdq, hp] using hi
        have hiq : i ≠ q := fun (he : i = q) ↦ hqPQ (he ▸ List.mem_append.2
          ((List.mem_append.1 hi').imp id fun hm ↦ List.mem_of_mem_filter hm))
        rw [hkeep i hi', hd₁, Function.update_of_ne hiq]
    | false =>
      -- the element stays: the iterator steps on
      have h' : Links l ((P ++ [q]) ++ Q) free := by
        rwa [List.append_assoc, List.singleton_append]
      obtain ⟨l', free', hloop, h'', hkeep⟩ :=
        Links.removeIfLoop_spec self pred d Q (P ++ [q]) free l fuel r h'
          (fun i hi ↦ hd i (List.mem_cons_of_mem q hi)) hfuel'
      refine ⟨l', free', ?_, by simpa [List.filter_cons, hdq, hp] using h'',
        fun i hi ↦ hkeep i (by simpa [List.filter_cons, hdq, hp] using hi)⟩
      simp only [removeIfLoop, List.headD_cons, hend, hqne, call_lift_ok, pure_bind,
        Bool.not_false, if_true, h.deref_of_mem self hq hy, hp, Bool.false_eq_true, if_false,
        h.increment_of_mem self, hloop]
      rw [List.filter_cons_of_neg (by rw [hdq]; simp [hp])]
theorem Links.getDataPtrFromIdx_of_mem (h : Links l act free) {i : ℕ} (hi : i ∈ act) :
    l.getDataPtrFromIdx i = .ok i := by
  rw [getDataPtrFromIdx, if_pos (h.isValidElementIdx_of_mem hi)]

/-- Writing an element at an active node keeps the links. -/
theorem Links.setData_update (h : Links l act free) {i : ℕ} (hi : i ∈ act) (y : T) :
    Links ({ l with data := update l.data i (some y) } : IoxList T capacity) act free :=
  h.setData fun j ↦ by
    by_cases hj : j = i
    · subst hj
      simpa using hi
    · rw [Function.update_of_ne hj]
      exact h.data_isSome j

/-- **The first loop of `operator=`**: `n` passes assign the elements at the first `n` nodes of
`S`, in the right-hand list, to the first `n` nodes of `Q`, and move both iterators on by `n`. -/
theorem Links.assignLoop_spec {rhs : IoxList T capacity} {ract rfree : List ℕ}
    (hr : Links rhs ract rfree) (self rself : ℕ) :
    ∀ (n : ℕ) (P Q R S : List ℕ) (l : IoxList T capacity), Links l (P ++ Q) free →
      ract = R ++ S → n ≤ Q.length → n ≤ S.length →
      ∃ l', assignLoop rhs n l ⟨self, Q.headD capacity⟩ ⟨rself, S.headD capacity⟩ =
          pure (l', ⟨self, (Q.drop n).headD capacity⟩, ⟨rself, (S.drop n).headD capacity⟩) ∧
        Links l' (P ++ Q) free ∧
        (P ++ Q).map l'.data = P.map l.data ++ (S.take n).map rhs.data ++ (Q.drop n).map l.data
  | 0, P, Q, R, S, l, h, _, _, _ => ⟨l, rfl, h, by simp⟩
  | n + 1, P, q :: Q, R, s :: S, l, h, hract, hnQ, hnS => by
    have hq : q ∈ P ++ q :: Q := List.mem_append_right P List.mem_cons_self
    have hqPQ : q ∉ P ++ Q :=
      (List.nodup_cons.1 (List.nodup_middle.1 (List.nodup_cons.1 h.nodup_cycle).2)).1
    have hr' : Links rhs (R ++ s :: S) rfree := hract ▸ hr
    have hs : s ∈ R ++ s :: S := List.mem_append_right R List.mem_cons_self
    obtain ⟨y, hy⟩ := Option.isSome_iff_exists.1 ((hr'.data_isSome s).2 hs)
    have h₁ := h.setData_update hq y
    have h₁' : Links ({ l with data := update l.data q (some y) } : IoxList T capacity)
        ((P ++ [q]) ++ Q) free := by
      rwa [List.append_assoc, List.singleton_append]
    obtain ⟨l', hloop, h', hdata⟩ := Links.assignLoop_spec hr self rself n
      (P ++ [q]) Q (R ++ [s]) S _ h₁' (by rw [hract, List.append_assoc, List.singleton_append])
      (by simpa using hnQ) (by simpa using hnS)
    refine ⟨l', ?_, by rwa [List.append_assoc, List.singleton_append] at h', ?_⟩
    · simp only [assignLoop, List.headD_cons, hr'.deref_of_mem rself hs hy, pure_bind,
        h.getDataPtrFromIdx_of_mem hq, call_lift_ok, h₁.increment_of_mem self,
        hr'.increment_of_mem rself, hloop, List.drop_succ_cons]
    · have hP : q ∉ P := fun hm ↦ hqPQ (List.mem_append_left Q hm)
      have hQ : q ∉ Q.drop n := fun hm ↦ hqPQ (List.mem_append_right P (List.mem_of_mem_drop hm))
      rw [← List.singleton_append, ← List.append_assoc, hdata]
      simp [map_update_of_not_mem _ hP, map_update_of_not_mem _ hQ, hy]

/-- **The second loop of `operator=`**: `n` passes emplace the elements at the first `n` nodes
of `S`, in the right-hand list, at the end, on the first `n` nodes of the free list. -/
theorem Links.emplaceBackLoop_spec {rhs : IoxList T capacity} {ract rfree : List ℕ}
    (hr : Links rhs ract rfree) (self rself : ℕ) :
    ∀ (n : ℕ) (act free R S : List ℕ) (l : IoxList T capacity), Links l act free →
      ract = R ++ S → n ≤ S.length → n ≤ free.length →
      ∃ l', emplaceBackLoop self rhs n l ⟨rself, S.headD capacity⟩ =
          pure (l', ⟨rself, (S.drop n).headD capacity⟩) ∧
        Links l' (act ++ free.take n) (free.drop n) ∧
        (act ++ free.take n).map l'.data = act.map l.data ++ (S.take n).map rhs.data
  | 0, act, free, R, S, l, h, _, _, _ => ⟨l, rfl, by simpa using h, by simp⟩
  | n + 1, act, m :: free, R, s :: S, l, h, hract, hnS, hnF => by
    have hr' : Links rhs (R ++ s :: S) rfree := hract ▸ hr
    have hs : s ∈ R ++ s :: S := List.mem_append_right R List.mem_cons_self
    obtain ⟨y, hy⟩ := Option.isSome_iff_exists.1 ((hr'.data_isSome s).2 hs)
    obtain ⟨l₁, he, h₁, hd₁⟩ := h.emplace_cend self y
    obtain ⟨l', hloop, h', hdata⟩ := Links.emplaceBackLoop_spec hr self rself n
      (act ++ [m]) free (R ++ [s]) S l₁ h₁
      (by rw [hract, List.append_assoc, List.singleton_append])
      (by simpa using hnS) (by simpa using hnF)
    have hm : m ∉ act := fun hm ↦ h.not_mem_free (List.mem_cons_of_mem capacity hm)
      List.mem_cons_self
    refine ⟨l', ?_, by simpa using h', ?_⟩
    · simp only [emplaceBackLoop, List.headD_cons, hr'.deref_of_mem rself hs hy, pure_bind,
        he, call_lift_ok, hr'.increment_of_mem rself, hloop, List.drop_succ_cons]
    · rw [List.take_succ_cons, ← List.singleton_append, ← List.append_assoc, hdata, hd₁]
      simp [map_update_of_not_mem _ hm, hy]

/-- **The third loop of `operator=`**: `n` passes erase the first `n` nodes of `Q`; the elements
at the nodes left are not touched. -/
theorem Links.eraseLoop_spec (self : ℕ) :
    ∀ (n : ℕ) (P Q free : List ℕ) (l : IoxList T capacity), Links l (P ++ Q) free →
      n ≤ Q.length →
      ∃ l' free', eraseLoop self n l ⟨self, Q.headD capacity⟩ =
          pure (l', ⟨self, (Q.drop n).headD capacity⟩) ∧
        Links l' (P ++ Q.drop n) free' ∧ ∀ i ∈ P ++ Q.drop n, l'.data i = l.data i
  | 0, P, Q, free, l, h, _ => ⟨l, free, rfl, h, fun _ _ ↦ rfl⟩
  | n + 1, P, q :: Q, free, l, h, hn => by
    have hqPQ : q ∉ P ++ Q :=
      (List.nodup_cons.1 (List.nodup_middle.1 (List.nodup_cons.1 h.nodup_cycle).2)).1
    obtain ⟨l₁, he, h₁, hd₁⟩ := h.erase self
    obtain ⟨l', free', hloop, h', hkeep⟩ :=
      Links.eraseLoop_spec self n P Q (q :: free) l₁ h₁ (by simpa using hn)
    refine ⟨l', free', ?_, h', fun i hi ↦ ?_⟩
    · simp only [eraseLoop, List.headD_cons, he, call_lift_ok, pure_bind, hloop,
        List.drop_succ_cons]
    · have hiq : i ≠ q := fun (he : i = q) ↦ hqPQ (he ▸ List.mem_append.2
        ((List.mem_append.1 hi).imp id List.mem_of_mem_drop))
      rw [hkeep i hi, hd₁, Function.update_of_ne hiq]

/-- **The loop of the move constructor**: from the node at a position `R ++ S` of the right-hand
list to its end, each element is emplaced before `end()` of this list, on the next node of the
free list. -/
theorem Links.moveLoop_spec {rhs : IoxList T capacity} {ract rfree : List ℕ}
    (hr : Links rhs ract rfree) (self rself : ℕ) :
    ∀ (S act free R : List ℕ) (l : IoxList T capacity) (fuel : ℕ), Links l act free →
      ract = R ++ S → S.length ≤ free.length → S.length < fuel →
      ∃ l', moveLoop self rhs (cend capacity self) fuel l ⟨rself, S.headD capacity⟩ = pure l' ∧
        Links l' (act ++ free.take S.length) (free.drop S.length) ∧
        (act ++ free.take S.length).map l'.data = act.map l.data ++ S.map rhs.data
  | _, _, _, _, _, 0, _, _, _, hfuel => absurd hfuel (Nat.not_lt_zero _)
  | [], act, free, R, l, fuel + 1, h, hract, _, _ => by
    have hend := (hract ▸ hr).iterEq_cend rself (i := capacity) List.mem_cons_self
    refine ⟨l, ?_, by simpa using h, by simp⟩
    simp [moveLoop, hend]
  | s :: S, act, m :: free, R, l, fuel + 1, h, hract, hnF, hfuel => by
    have hr' : Links rhs (R ++ s :: S) rfree := hract ▸ hr
    have hs : s ∈ R ++ s :: S := List.mem_append_right R List.mem_cons_self
    have hslt : s < capacity := hr'.lt_of_mem (List.mem_append_left rfree hs)
    obtain ⟨y, hy⟩ := Option.isSome_iff_exists.1 ((hr'.data_isSome s).2 hs)
    have hend := hr'.iterEq_cend rself (List.mem_cons_of_mem capacity hs)
    have hsne : (s == capacity) = false := beq_false_of_ne (Nat.ne_of_lt hslt)
    obtain ⟨l₁, he, h₁, hd₁⟩ := h.emplace_cend self y
    obtain ⟨l', hloop, h', hdata⟩ := Links.moveLoop_spec hr self rself S (act ++ [m]) free
      (R ++ [s]) l₁ fuel h₁ (by rw [hract, List.append_assoc, List.singleton_append])
      (by simpa using hnF) (by simpa using hfuel)
    have hm : m ∉ act := fun hm ↦ h.not_mem_free (List.mem_cons_of_mem capacity hm)
      List.mem_cons_self
    refine ⟨l', ?_, by simpa using h', ?_⟩
    · simp only [moveLoop, List.headD_cons, hend, hsne, call_lift_ok, pure_bind,
        Bool.not_false, if_true, hr'.deref_of_mem rself hs hy, he,
        hr'.increment_of_mem rself, hloop]
    · rw [List.length_cons, List.take_succ_cons, ← List.singleton_append, ← List.append_assoc,
        hdata, hd₁]
      simp [map_update_of_not_mem _ hm, hy]
  | _ :: _, _, [], _, _, _ + 1, _, _, hnF, _ => absurd hnF (by simp)

end Loops

end IoxList

end Iox.Container
