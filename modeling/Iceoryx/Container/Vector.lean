import Mathlib.Logic.Function.Basic
import Mathlib.Order.Basic

/-!
# `iox::vector`: a fixed-capacity sequence over raw storage

`iox::vector<T, Capacity>` (`vector.hpp`, `vector.inl`) keeps its elements in an
`UninitializedArray<T, Capacity>` and counts them in `m_size`. Most operations have two bodies,
chosen by `if constexpr` on the traits of `T`: a fast one for a trivial or trivially copyable `T`
(`memmove`, `memcpy`, or `m_size` arithmetic alone), and an element-wise one made of move
assignments, placement `new` and explicit destructor calls. The `IOX_HOOFS_SUBSET` build takes the
element-wise body for every type; `CMakeLists.txt` sets it to `0` by default, so both bodies are
in use.

## The model

The storage is one `Option T` per slot: `some x` is a live object holding `x`, `none` is raw
memory. The primitive steps of the source are translated together with the rules of object
lifetime that the source relies on, and a step that breaks one of them is undefined behaviour,
modelled as `none`:

* `construct` (placement `new`) over a live object skips that object's destructor, which is only
  allowed when the destructor is trivial;
* `assign` needs a live object, except for a trivial `T`, whose objects a store creates;
* `destroy` needs a live object;
* `memmove` and `memcpy` copy slots as bytes.

An element type is an `Element`: its three traits with the implications the language guarantees,
the value `T{}` builds, and what an object holds after `std::move` has taken its value.

An argument forwarded to `T`'s constructor is an `Arg`: a value from outside the vector, or one of
the vector's own slots, copied (`v[i]`) or moved from (`std::move(v[i])`) at the moment the
constructor reads it, which may be after the operation has already moved elements around.

Every loop of the source is a function by structural recursion on its number of passes. The loop
lemmas at the end (`emplaceBackN_eq`, `destroyBack_eq`, `shiftUp_eq`, `shiftDown_eq`,
`constructDefault_eq`, `assignPrefix_eq`, `emplaceBackRange_eq`) give the slots a loop leaves, and
`Iceoryx.Container.VectorRefinement` assembles them into the meaning of each operation on lists.
-/

namespace Iox.Container

/-- What `<type_traits>` reports about an element type, with the implications the language
guarantees: a trivial type is trivially copyable, and a trivially copyable one is trivially
destructible. -/
structure TypeTraits where
  /-- `std::is_trivial<T>::value` -/
  isTrivial : Bool
  /-- `std::is_trivially_copyable<T>::value` -/
  isTriviallyCopyable : Bool
  /-- `std::is_trivially_destructible<T>::value` -/
  isTriviallyDestructible : Bool
  triviallyCopyable_of_trivial : isTrivial = true → isTriviallyCopyable = true
  triviallyDestructible_of_triviallyCopyable :
    isTriviallyCopyable = true → isTriviallyDestructible = true

/-- An element type `T` as the vector uses it: its traits, the value `T{}` and `T()` build, and
what an object holds after `std::move` has taken its value. A trivially copyable type is moved by
copying its bytes, so its moved-from object keeps its value. -/
structure Element (T : Type*) extends TypeTraits where
  /-- `T{}` -/
  default : T
  /-- The value left in an object that was moved from. -/
  movedFrom : T → T
  movedFrom_of_triviallyCopyable : isTriviallyCopyable = true → ∀ x, movedFrom x = x

/-- The state of an `iox::vector<T, Capacity>`: `m_data`, one slot per index holding a live object
(`some`) or raw memory (`none`), and `m_size`. -/
@[ext]
structure Vector (T : Type*) (capacity : ℕ) where
  /-- `m_data` -/
  data : ℕ → Option T
  /-- `m_size` -/
  size : ℕ

/-- An argument forwarded to the constructor of `T`. -/
inductive Arg (T : Type*) where
  /-- A value that is not an element of the vector. -/
  | value (x : T)
  /-- `v[i]`: an element of the vector, copied when the constructor reads it. -/
  | ref (i : ℕ)
  /-- `std::move(v[i])`: an element of the vector, moved from when the constructor reads it. -/
  | move (i : ℕ)

variable {T : Type*} {capacity : ℕ} (e : Element T)

namespace Vector

/-- A vector without elements: `m_size{0U}` over uninitialized storage. -/
def empty : Vector T capacity := ⟨fun _ ↦ none, 0⟩

/-- Slot `i` set to `o`. -/
def setSlot (v : Vector T capacity) (i : ℕ) (o : Option T) : Vector T capacity :=
  { v with data := Function.update v.data i o }

end Vector

/-- The argument as the constructor of `T` reads it, and the vector after the read: a copy leaves
the vector as it is, a move leaves the moved-from value in its source. Reading a slot without a
live object is undefined. -/
def Arg.take (v : Vector T capacity) : Arg T → Option (T × Vector T capacity)
  | .value x => some (x, v)
  | .ref i => (v.data i).map fun x ↦ (x, v)
  | .move i => (v.data i).map fun x ↦ (x, v.setSlot i (some (e.movedFrom x)))

namespace Vector

/-! ### The primitive steps -/

/-- `new (&at_unchecked(i)) T(x)`: placement new. Over a live object it skips that object's
destructor, which only a trivially destructible `T` allows. -/
def construct (v : Vector T capacity) (i : ℕ) (x : T) : Option (Vector T capacity) :=
  if (v.data i).isSome && !e.isTriviallyDestructible then none else some (v.setSlot i (some x))

/-- `at_unchecked(i) = x`: an assignment needs a live object, except for a trivial `T`, whose
objects the store itself creates. -/
def assign (v : Vector T capacity) (i : ℕ) (x : T) : Option (Vector T capacity) :=
  if (v.data i).isSome || e.isTrivial then some (v.setSlot i (some x)) else none

/-- `at_unchecked(i).~T()`: only a live object can be destroyed. -/
def destroy (v : Vector T capacity) (i : ℕ) : Option (Vector T capacity) :=
  if (v.data i).isSome then some (v.setSlot i none) else none

/-- `at_unchecked(dst) = std::move(at_unchecked(src))`. -/
def moveSlot (v : Vector T capacity) (dst src : ℕ) : Option (Vector T capacity) := do
  let (x, w) ← (Arg.move src).take e v
  w.assign e dst x

/-- `std::memmove(data() + dst, data() + src, len * sizeof(T))`: `len` slots copied as bytes, all
of them read before any is written. -/
def memmove (v : Vector T capacity) (dst src len : ℕ) : Vector T capacity :=
  { v with data := fun k ↦ if dst ≤ k ∧ k < dst + len then v.data (k - dst + src) else v.data k }

/-- `std::memcpy(data(), rhs.data(), len * sizeof(T))`. -/
def memcpy (v rhs : Vector T capacity) (len : ℕ) : Vector T capacity :=
  { v with data := fun k ↦ if k < len then rhs.data k else v.data k }

/-! ### Appending and removing at the back -/

/-- `emplace_back(args...)`: `T{args...}` is built in slot `m_size`, by a store for a trivial `T`
and by placement new otherwise. -/
def emplaceBack (v : Vector T capacity) (a : Arg T) : Option (Bool × Vector T capacity) :=
  if v.size < capacity then do
    let (x, w) ← a.take e v
    let w' ← if e.isTrivial then w.assign e v.size x else w.construct e v.size x
    some (true, { w' with size := v.size + 1 })
  else some (false, v)

/-- `push_back(value)`. -/
def pushBack (v : Vector T capacity) (value : T) : Option (Bool × Vector T capacity) :=
  v.emplaceBack e (.value value)

/-- `n` passes of `emplace_back(args...)`, its result discarded: the loops of `resize` and of the
`(count, value)` constructor. -/
def emplaceBackN (v : Vector T capacity) (a : Arg T) : ℕ → Option (Vector T capacity)
  | 0 => some v
  | n + 1 => do
    let (_, w) ← v.emplaceBack e a
    w.emplaceBackN a n

/-- `pop_back()`: only `m_size` for a trivial `T`, otherwise the last element is destroyed. -/
def popBack (v : Vector T capacity) : Option (Bool × Vector T capacity) :=
  if v.size > 0 then
    if e.isTrivial then some (true, { v with size := v.size - 1 })
    else (v.destroy (v.size - 1)).map fun w ↦ (true, { w with size := v.size - 1 })
  else some (false, v)

/-- `n` passes of `at_unchecked(--m_size).~T()`. -/
def destroyBack (v : Vector T capacity) : ℕ → Option (Vector T capacity)
  | 0 => some v
  | n + 1 => do
    let w ← v.destroy (v.size - 1)
    { w with size := v.size - 1 }.destroyBack n

/-- `clearFrom(startPosition)`: only `m_size` for a trivially destructible `T`, otherwise the
elements are destroyed from the back down to `startPosition`. -/
def clearFrom (v : Vector T capacity) (startPosition : ℕ) : Option (Vector T capacity) :=
  if e.isTriviallyDestructible then some { v with size := startPosition }
  else v.destroyBack (v.size - startPosition)

/-- `clear()`. -/
def clear (v : Vector T capacity) : Option (Vector T capacity) :=
  v.clearFrom e 0

/-- `resize(count, args...)`; `resize(count)` passes `Arg.value e.default`. -/
def resize (v : Vector T capacity) (count : ℕ) (a : Arg T) : Option (Bool × Vector T capacity) :=
  if count > capacity then some (false, v)
  else if count < v.size then (v.clearFrom e count).map ((true, ·))
  else (v.emplaceBackN e a (count - v.size)).map ((true, ·))

/-! ### `emplace` -/

/-- `n` passes of the loop `at_unchecked(i) = std::move(at_unchecked(i - 1U))` of `emplace`, for
`i` from `position + n` down to `position + 1`. -/
def shiftUp (v : Vector T capacity) (position : ℕ) : ℕ → Option (Vector T capacity)
  | 0 => some v
  | n + 1 => do
    let w ← v.moveSlot e (position + n + 1) (position + n)
    w.shiftUp position n

/-- The `std::is_trivial` body of `emplace`: grow by a default element, move the tail one slot up
as bytes, and store the new element in the gap. -/
def emplaceTrivial (v : Vector T capacity) (position : ℕ) (a : Arg T) :
    Option (Vector T capacity) := do
  let (_, w) ← v.resize e (v.size + 1) (.value e.default)
  let (x, w') ← a.take e (w.memmove (position + 1) position (v.size - position))
  w'.assign e position x

/-- The element-wise body of `emplace`: move the last element into a new slot, move the others up
one slot from the back, destroy what is left at `position` unless that is trivial, and construct
the new element there. -/
def emplaceElementwise (v : Vector T capacity) (position : ℕ) (a : Arg T) :
    Option (Vector T capacity) := do
  let (_, w) ← v.emplaceBack e (.move (v.size - 1))
  let w ← w.shiftUp e position (v.size - 1 - position)
  let w ← if e.isTriviallyDestructible then some w else w.destroy position
  let (x, w') ← a.take e w
  w'.construct e position x

/-- `emplace(position, args...)`. -/
def emplace (v : Vector T capacity) (position : ℕ) (a : Arg T) :
    Option (Bool × Vector T capacity) :=
  if v.size ≥ capacity ∨ position ≥ capacity ∨ position > v.size then some (false, v)
  else if position = v.size then v.emplaceBack e a
  else
    (if e.isTrivial then v.emplaceTrivial e position a
      else v.emplaceElementwise e position a).map ((true, ·))

/-! ### `erase` -/

/-- `k` passes of the loop `at_unchecked(n) = std::move(at(n + 1U)); ++n;` of `erase`, from `n`. -/
def shiftDown (v : Vector T capacity) (n : ℕ) : ℕ → Option (Vector T capacity)
  | 0 => some v
  | k + 1 => do
    let w ← v.moveSlot e n (n + 1)
    w.shiftDown (n + 1) k

/-- The `std::is_trivially_copyable` body of `erase`: destroy the element unless that is trivial,
and move the tail one slot down as bytes. -/
def eraseTriviallyCopyable (v : Vector T capacity) (index : ℕ) : Option (Vector T capacity) := do
  let w ← if e.isTriviallyDestructible then some v else v.destroy index
  some (w.memmove index (index + 1) (w.size - index - 1))

/-- The element-wise body of `erase`: move the tail one slot down, then destroy the last slot. -/
def eraseElementwise (v : Vector T capacity) (index : ℕ) : Option (Vector T capacity) := do
  let w ← v.shiftDown e index (v.size - 1 - index)
  w.destroy (v.size - 1)

/-- `erase(position)`, for the iterator `begin() + index`. -/
def erase (v : Vector T capacity) (index : ℕ) : Option (Bool × Vector T capacity) :=
  if index < v.size then
    (if e.isTriviallyCopyable then v.eraseTriviallyCopyable e index
      else v.eraseElementwise e index).map fun w ↦ (true, { w with size := w.size - 1 })
  else some (false, v)

/-! ### Assignment and construction -/

/-- `n` passes of the first loop of `operator=`: `at(i) = rhs.at(i)` (copy) or
`at(i) = std::move(rhs.at(i))` (move), for `i < n`; `src i` is the argument the pass reads. -/
def assignPrefix (src : ℕ → Arg T) (v rhs : Vector T capacity) :
    ℕ → Option (Vector T capacity × Vector T capacity)
  | 0 => some (v, rhs)
  | n + 1 => do
    let (w, r) ← assignPrefix src v rhs n
    let (x, r') ← (src n).take e r
    let w' ← w.assign e n x
    some (w', r')

/-- `n` passes of the second loop of `operator=`: `emplace_back(rhs.at(i))` (copy) or
`emplace_back(std::move(rhs.at(i)))` (move), from index `i`. -/
def emplaceBackRange (src : ℕ → Arg T) (v rhs : Vector T capacity) (i : ℕ) :
    ℕ → Option (Vector T capacity × Vector T capacity)
  | 0 => some (v, rhs)
  | n + 1 => do
    let (x, r) ← (src i).take e rhs
    let (_, w) ← v.emplaceBack e (.value x)
    emplaceBackRange src w r (i + 1) n

/-- The element-wise body of `operator=`: assign over the elements both vectors have, then
`emplace_back` the rest of `rhs`. -/
def assignElementwise (src : ℕ → Arg T) (v rhs : Vector T capacity) :
    Option (Vector T capacity × Vector T capacity) := do
  let (w, r) ← assignPrefix e src v rhs (min v.size rhs.size)
  emplaceBackRange e src w r (min v.size rhs.size) (rhs.size - min v.size rhs.size)

/-- The body of `operator=` that the copy and the move assignment share, for `rhs` another object
than `*this`: `memcpy` for a trivially copyable `T`, the element-wise loops otherwise, then
`clearFrom(rhsSize)` and `m_size = rhsSize`. The two assignments differ only in `src`, the way an
element of `rhs` is passed on. -/
def assignFrom (src : ℕ → Arg T) (v rhs : Vector T capacity) :
    Option (Vector T capacity × Vector T capacity) := do
  let (w, r) ←
    if e.isTriviallyCopyable then some (v.memcpy rhs rhs.size, rhs)
    else assignElementwise e src v rhs
  let w ← w.clearFrom e rhs.size
  some ({ w with size := rhs.size }, r)

/-- `operator=(const vector& rhs)`, for `rhs` another object than `*this`. -/
def copyAssign (v rhs : Vector T capacity) : Option (Vector T capacity) :=
  (assignFrom e .ref v rhs).map Prod.fst

/-- `operator=(vector&& rhs)`, for `rhs` another object than `*this`: the assignment with every
element of `rhs` moved, and `rhs.clear()` after it. -/
def moveAssign (v rhs : Vector T capacity) : Option (Vector T capacity × Vector T capacity) := do
  let (w, r) ← assignFrom e .move v rhs
  let r ← r.clear e
  some (w, r)

/-- `vector(count, value)`: `emplace_back(value)` for each index below both `count` and
`Capacity`. -/
def ofCountValue (count : ℕ) (value : T) : Option (Vector T capacity) :=
  (empty : Vector T capacity).emplaceBackN e (.value value) (min count capacity)

/-- The loop `new (&at_unchecked(i)) T()` for `i < n`. -/
def constructDefault (v : Vector T capacity) : ℕ → Option (Vector T capacity)
  | 0 => some v
  | n + 1 => do
    let w ← v.constructDefault n
    w.construct e n e.default

/-- `vector(count)`: `m_size = min(count, Capacity)`, then a default object in each slot below. -/
def ofCount (count : ℕ) : Option (Vector T capacity) :=
  ({ (empty : Vector T capacity) with size := min count capacity }).constructDefault e
    (min count capacity)

/-- `vector(const vector& rhs)`: `*this = rhs` on a new, empty vector. -/
def copyConstruct (rhs : Vector T capacity) : Option (Vector T capacity) :=
  (empty : Vector T capacity).copyAssign e rhs

/-- `vector(vector&& rhs)`: `*this = std::move(rhs)` on a new, empty vector. -/
def moveConstruct (rhs : Vector T capacity) : Option (Vector T capacity × Vector T capacity) :=
  (empty : Vector T capacity).moveAssign e rhs

/-! ### The primitive steps, one lemma each -/

variable {e}

@[simp] theorem setSlot_size (v : Vector T capacity) (i : ℕ) (o : Option T) :
    (v.setSlot i o).size = v.size := rfl

@[simp] theorem setSlot_data (v : Vector T capacity) (i : ℕ) (o : Option T) :
    (v.setSlot i o).data = Function.update v.data i o := rfl

@[simp] theorem memmove_size (v : Vector T capacity) (dst src len : ℕ) :
    (v.memmove dst src len).size = v.size := rfl

@[simp] theorem memcpy_size (v rhs : Vector T capacity) (len : ℕ) :
    (v.memcpy rhs len).size = v.size := rfl

theorem construct_eq {v : Vector T capacity} {i : ℕ} (x : T)
    (h : (v.data i).isSome = true → e.isTriviallyDestructible = true) :
    v.construct e i x = some (v.setSlot i (some x)) := by
  unfold construct
  split_ifs with hc
  · simp only [Bool.and_eq_true, Bool.not_eq_true'] at hc
    rw [h hc.1] at hc
    exact absurd hc.2 (by decide)
  · rfl

theorem assign_eq {v : Vector T capacity} {i : ℕ} (x : T)
    (h : (v.data i).isSome = true ∨ e.isTrivial = true) :
    v.assign e i x = some (v.setSlot i (some x)) := by
  rw [assign, if_pos (Bool.or_eq_true _ _ ▸ h)]

theorem destroy_eq {v : Vector T capacity} {i : ℕ} (h : (v.data i).isSome = true) :
    v.destroy i = some (v.setSlot i none) := by
  rw [destroy, if_pos h]

@[simp] theorem take_value (v : Vector T capacity) (x : T) :
    (Arg.value x).take e v = some (x, v) := rfl

theorem take_ref {v : Vector T capacity} {i : ℕ} {x : T} (h : v.data i = some x) :
    (Arg.ref i).take e v = some (x, v) := by
  rw [Arg.take, h, Option.map_some]

theorem take_move {v : Vector T capacity} {i : ℕ} {x : T} (h : v.data i = some x) :
    (Arg.move i).take e v = some (x, v.setSlot i (some (e.movedFrom x))) := by
  rw [Arg.take, h, Option.map_some]

/-- A move assignment between two slots: the target gets the value, the source keeps its
moved-from value. -/
theorem moveSlot_eq {v : Vector T capacity} {dst src : ℕ} {x : T} (hx : v.data src = some x)
    (hdst : (v.data dst).isSome = true ∨ e.isTrivial = true) (hne : dst ≠ src) :
    v.moveSlot e dst src = some ((v.setSlot src (some (e.movedFrom x))).setSlot dst (some x)) := by
  rw [moveSlot, take_move hx]
  exact assign_eq x (by rwa [setSlot_data, Function.update_of_ne hne])

/-- `emplace_back` with room left stores the argument's value in slot `m_size`, provided the
slot holds no object whose destructor it would skip. -/
theorem emplaceBack_eq {v w : Vector T capacity} {a : Arg T} {x : T} (hsize : v.size < capacity)
    (htake : a.take e v = some (x, w))
    (hdead : (w.data v.size).isSome = true → e.isTriviallyDestructible = true) :
    v.emplaceBack e a = some (true, { w.setSlot v.size (some x) with size := v.size + 1 }) := by
  rw [emplaceBack, if_pos hsize, htake]
  simp only [Option.bind_eq_bind, Option.bind_some]
  by_cases ht : e.isTrivial = true
  · rw [if_pos ht, assign_eq x (Or.inr ht), Option.bind_some]
  · rw [if_neg ht, construct_eq x hdead, Option.bind_some]

theorem emplaceBack_of_full {v : Vector T capacity} (h : capacity ≤ v.size) (a : Arg T) :
    v.emplaceBack e a = some (false, v) := by
  rw [emplaceBack, if_neg (by omega)]

/-! ### The loops -/

/-- **The loop of `resize`**: `n` passes of `emplace_back` with an argument that reads `x` from
the slots below `m_size` fill the next `n` slots with `x`. -/
theorem emplaceBackN_eq {a : Arg T} {x : T} : ∀ (n : ℕ) {v : Vector T capacity},
    v.size + n ≤ capacity →
    (∀ k, v.size ≤ k → (v.data k).isSome = true → e.isTriviallyDestructible = true) →
    (∀ w : Vector T capacity, (∀ k < v.size, w.data k = v.data k) → a.take e w = some (x, w)) →
    v.emplaceBackN e a n =
      some ⟨fun k ↦ if v.size ≤ k ∧ k < v.size + n then some x else v.data k, v.size + n⟩
  | 0, v, _, _, _ => by
    rw [emplaceBackN]
    congr 1
    refine Vector.ext (funext fun k ↦ ?_) rfl
    exact (if_neg (by omega)).symm
  | n + 1, v, hfit, hdead, ha => by
    rw [emplaceBackN, emplaceBack_eq (by omega) (ha v fun _ _ ↦ rfl) (hdead _ (Nat.le_refl _))]
    simp only [Option.bind_eq_bind, Option.bind_some]
    -- the slots below the new `m_size` are those of `v` and the new element
    have hbelow : ∀ k, k ≠ v.size →
        ({ v.setSlot v.size (some x) with size := v.size + 1 } : Vector T capacity).data k =
          v.data k := fun k hk ↦ Function.update_of_ne hk _ _
    rw [emplaceBackN_eq n (by simp only; omega)
      (fun k hk ↦ by rw [hbelow k (by simp only at hk; omega)]; exact hdead k (by simp only at hk; omega))
      (fun w hw ↦ ha w fun k hk ↦ by rw [hw k (by simp only; omega), hbelow k (by omega)])]
    congr 1
    refine Vector.ext (funext fun k ↦ ?_) (by simp only; omega)
    simp only [setSlot_data, Function.update_apply]
    split_ifs <;> first | rfl | omega

/-- **The loop of `clearFrom`**: `n` passes destroy the top `n` objects. -/
theorem destroyBack_eq : ∀ (n : ℕ) {v : Vector T capacity}, n ≤ v.size →
    (∀ k, v.size - n ≤ k → k < v.size → (v.data k).isSome = true) →
    v.destroyBack n =
      some ⟨fun k ↦ if v.size - n ≤ k ∧ k < v.size then none else v.data k, v.size - n⟩
  | 0, v, _, _ => by
    rw [destroyBack]
    congr 1
    refine Vector.ext (funext fun k ↦ ?_) rfl
    exact (if_neg (by omega)).symm
  | n + 1, v, hn, hlive => by
    rw [destroyBack, destroy_eq (hlive _ (by omega) (by omega))]
    simp only [Option.bind_eq_bind, Option.bind_some]
    have hbelow : ∀ k, k ≠ v.size - 1 →
        ({ v.setSlot (v.size - 1) none with size := v.size - 1 } : Vector T capacity).data k =
          v.data k := fun k hk ↦ Function.update_of_ne hk _ _
    rw [destroyBack_eq n (by simp only; omega) fun k hk hk' ↦ by
      simp only at hk hk'
      rw [hbelow k (by omega)]
      exact hlive k (by omega) (by omega)]
    congr 1
    refine Vector.ext (funext fun k ↦ ?_) (by simp only; omega)
    simp only [setSlot_data, Function.update_apply]
    split_ifs <;> first | rfl | omega

/-- **The loop of `emplace`**: `n` passes move the objects of the slots
`position, ..., position + n - 1` one slot up, and leave the moved-from value in slot
`position`. -/
theorem shiftUp_eq (position : ℕ) : ∀ (n : ℕ) {v : Vector T capacity},
    (∀ k, position ≤ k → k ≤ position + n → (v.data k).isSome = true) →
    v.shiftUp e position n = some ⟨fun k ↦
      if position < k ∧ k ≤ position + n then v.data (k - 1)
      else if k = position ∧ 0 < n then (v.data position).map e.movedFrom else v.data k, v.size⟩
  | 0, v, _ => by
    rw [shiftUp]
    congr 1
    refine Vector.ext (funext fun k ↦ ?_) rfl
    simp only [Nat.lt_irrefl, and_false, if_false]
    exact (if_neg (by omega)).symm
  | n + 1, v, hlive => by
    obtain ⟨x, hx⟩ := Option.isSome_iff_exists.1 (hlive (position + n) (by omega) (by omega))
    rw [shiftUp, moveSlot_eq hx (Or.inl (hlive _ (by omega) (by omega))) (by omega)]
    simp only [Option.bind_eq_bind, Option.bind_some]
    -- the pass moved slot `position + n` up; the slots below it are still live
    rw [shiftUp_eq position n fun k hk hk' ↦ by
      simp only [setSlot_data, Function.update_apply]
      split_ifs
      · rfl
      · rfl
      · exact hlive k hk (by omega)]
    congr 1
    refine Vector.ext (funext fun k ↦ ?_) rfl
    simp only [setSlot_data, Function.update_apply]
    split_ifs <;> first
      | rfl | omega | (rw [show position = position + n by omega, hx]; rfl)
      | (subst_vars; simp [hx])

/-- **The loop of `erase`**: `m` passes from `n` move the objects of the slots
`n + 1, ..., n + m` one slot down, and leave the moved-from value in slot `n + m`. -/
theorem shiftDown_eq : ∀ (m n : ℕ) {v : Vector T capacity},
    (∀ k, n ≤ k → k ≤ n + m → (v.data k).isSome = true) →
    v.shiftDown e n m = some ⟨fun k ↦
      if n ≤ k ∧ k < n + m then v.data (k + 1)
      else if k = n + m ∧ 0 < m then (v.data (n + m)).map e.movedFrom else v.data k, v.size⟩
  | 0, n, v, _ => by
    rw [shiftDown]
    congr 1
    refine Vector.ext (funext fun k ↦ ?_) rfl
    simp only [Nat.lt_irrefl, and_false, if_false]
    exact (if_neg (by omega)).symm
  | m + 1, n, v, hlive => by
    obtain ⟨x, hx⟩ := Option.isSome_iff_exists.1 (hlive (n + 1) (by omega) (by omega))
    rw [shiftDown, moveSlot_eq hx (Or.inl (hlive _ (by omega) (by omega))) (by omega)]
    simp only [Option.bind_eq_bind, Option.bind_some]
    -- the pass moved slot `n + 1` down; the slots above it are still live
    rw [shiftDown_eq m (n + 1) fun k hk hk' ↦ by
      simp only [setSlot_data, Function.update_apply]
      split_ifs
      · rfl
      · rfl
      · exact hlive k (by omega) (by omega)]
    congr 1
    refine Vector.ext (funext fun k ↦ ?_) rfl
    simp only [setSlot_data, Function.update_apply]
    split_ifs <;> first
      | rfl | omega | (rw [show n + (m + 1) = n + 1 by omega, hx]; rfl)
      | (subst_vars; simp [hx]) | (congr 2; omega)

/-- **The loop of the `(count)` constructor**: a default object in each slot below `n`. -/
theorem constructDefault_eq : ∀ (n : ℕ) {v : Vector T capacity},
    (∀ k < n, (v.data k).isSome = true → e.isTriviallyDestructible = true) →
    v.constructDefault e n = some ⟨fun k ↦ if k < n then some e.default else v.data k, v.size⟩
  | 0, v, _ => rfl
  | n + 1, v, hdead => by
    rw [constructDefault, constructDefault_eq n fun k hk ↦ hdead k (by omega)]
    simp only [Option.bind_eq_bind, Option.bind_some]
    rw [construct_eq _ fun h ↦ hdead n (by omega) (by simpa using h)]
    congr 1
    refine Vector.ext (funext fun k ↦ ?_) rfl
    simp only [setSlot_data, Function.update_apply]
    split_ifs <;> first | rfl | omega

/-- `src` reads slot `i` of a vector and leaves `g` of its value there: `Arg.ref` with `g = id`
for the copy assignment, `Arg.move` with `g = e.movedFrom` for the move assignment. -/
def ReadsLeaving (e : Element T) (capacity : ℕ) (src : ℕ → Arg T) (g : T → T) : Prop :=
  ∀ (r : Vector T capacity) (i : ℕ) (x : T),
    r.data i = some x → (src i).take e r = some (x, r.setSlot i (some (g x)))

theorem readsLeaving_ref : ReadsLeaving e capacity Arg.ref id := fun r i x h ↦ by
  rw [take_ref h]
  exact congrArg (some ∘ Prod.mk x) (Vector.ext (Function.update_eq_self_iff.2 h.symm).symm rfl)

theorem readsLeaving_move : ReadsLeaving e capacity Arg.move e.movedFrom := fun _ _ _ h ↦
  take_move h

variable {src : ℕ → Arg T} {g : T → T}

/-- **The first loop of `operator=`**: the first `n` slots of `rhs` are assigned over those of
`v`, and left holding `g` of their values. -/
theorem assignPrefix_eq (hsrc : ReadsLeaving e capacity src g) :
    ∀ (n : ℕ) {v rhs : Vector T capacity},
    (∀ k < n, (v.data k).isSome = true ∨ e.isTrivial = true) →
    (∀ k < n, (rhs.data k).isSome = true) →
    assignPrefix e src v rhs n = some
      (⟨fun k ↦ if k < n then rhs.data k else v.data k, v.size⟩,
       ⟨fun k ↦ if k < n then (rhs.data k).map g else rhs.data k, rhs.size⟩)
  | 0, v, rhs, _, _ => rfl
  | n + 1, v, rhs, hv, hrhs => by
    obtain ⟨x, hx⟩ := Option.isSome_iff_exists.1 (hrhs n (by omega))
    rw [assignPrefix, assignPrefix_eq hsrc n (fun k hk ↦ hv k (by omega))
      (fun k hk ↦ hrhs k (by omega))]
    simp only [Option.bind_eq_bind, Option.bind_some]
    rw [hsrc _ n x (by simpa using hx)]
    simp only [Option.bind_some]
    rw [assign_eq x (by simpa using hv n (by omega))]
    simp only [Option.bind_some]
    congr 1
    refine Prod.ext (Vector.ext (funext fun k ↦ ?_) rfl) (Vector.ext (funext fun k ↦ ?_) rfl)
    all_goals
      simp only [setSlot_data, Function.update_apply]
      split_ifs <;> first | rfl | omega | (subst_vars; simp [hx])

/-- **The second loop of `operator=`**: `n` slots of `rhs` from `i` are appended to `v`, and
left holding `g` of their values. -/
theorem emplaceBackRange_eq (hsrc : ReadsLeaving e capacity src g) :
    ∀ (n : ℕ) {v rhs : Vector T capacity} {i : ℕ}, v.size + n ≤ capacity →
    (∀ k, v.size ≤ k → (v.data k).isSome = true → e.isTriviallyDestructible = true) →
    (∀ k, i ≤ k → k < i + n → (rhs.data k).isSome = true) →
    emplaceBackRange e src v rhs i n = some
      (⟨fun k ↦ if v.size ≤ k ∧ k < v.size + n then rhs.data (k - v.size + i) else v.data k,
          v.size + n⟩,
       ⟨fun k ↦ if i ≤ k ∧ k < i + n then (rhs.data k).map g else rhs.data k, rhs.size⟩)
  | 0, v, rhs, i, _, _, _ => by
    rw [emplaceBackRange]
    congr 1
    refine Prod.ext (Vector.ext (funext fun k ↦ ?_) rfl) (Vector.ext (funext fun k ↦ ?_) rfl)
    all_goals exact (if_neg (by omega)).symm
  | n + 1, v, rhs, i, hfit, hdead, hrhs => by
    obtain ⟨x, hx⟩ := Option.isSome_iff_exists.1 (hrhs i (by omega) (by omega))
    rw [emplaceBackRange, hsrc _ i x hx]
    simp only [Option.bind_eq_bind, Option.bind_some]
    rw [emplaceBack_eq (by omega) (take_value _ _) (hdead _ (Nat.le_refl _))]
    simp only [Option.bind_some]
    rw [emplaceBackRange_eq hsrc n (by simp only; omega)
      (fun k hk ↦ by
        simp only [setSlot_data, Function.update_apply] at hk ⊢
        rw [if_neg (by omega)]
        exact hdead k (by omega))
      (fun k hk hk' ↦ by
        simp only [setSlot_data, Function.update_apply]
        rw [if_neg (by omega)]
        exact hrhs k (by omega) (by omega))]
    congr 1
    refine Prod.ext (Vector.ext (funext fun k ↦ ?_) (by simp only; omega))
      (Vector.ext (funext fun k ↦ ?_) rfl)
    all_goals
      simp only [setSlot_data, Function.update_apply]
      split_ifs <;> first | rfl | omega | (subst_vars; simp [hx]) | (congr 1; omega)

end Vector

end Iox.Container
