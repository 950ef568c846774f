import Iceoryx.Container.Vector
import Iceoryx.Machine.Run

/-!
# `iox::vector` refines a bounded sequence

`Represents e v L` says that the storage `v` holds the sequence `L`: `m_size` is its length, the
slots below it hold its elements as live objects, and, when `T` has a destructor that does
something, no slot above holds an object (so none is leaked, and the destructor `clear()` ends the
life of each object exactly once). The specification `Spec` is each operation as a function on
lists.

For every operation the lemma `answers_*` shows that, from a vector holding `L`, the operation is
defined, returns what the specification returns, and leaves a vector holding the specification's
new sequence, as long as the argument is a value or an element *before* the insertion point
(`Arg.readsBelow`). Both bodies of `emplace`, `erase` and `operator=` are shown to give the same
sequence (`Represents.emplaceTrivial_of_take` and `Represents.emplaceElementwise_of_take`,
`Represents.eraseTriviallyCopyable` and `Represents.eraseElementwise`, `Represents.assignFrom`),
for every element type where the source can take them.

An argument that is an element after the insertion point of `emplace` is read after the tail has
moved: `answers_emplace_ref_above` says what the vector then inserts, for every element type,
`emplace_ref_self_undefined` that an element at the insertion point is read after its destructor
ran, and `emplace_inserts_shifted_element` runs the first on `[1, 2]`.

The last part is the system: a bank of vectors, each operation addressing one of them (or two,
for the assignments), simulated step by step by a bank of lists (`represents_bankStep`), hence on
every run (`bank_refines_spec`).
-/

namespace Iox.Container

variable {T : Type*} {capacity : ℕ} (e : Element T)

/-! ### Arguments read before the insertion point -/

namespace Arg

/-- The argument is a value, or a copy of an element below index `n`. -/
def readsBelow (n : ℕ) : Arg T → Bool
  | .value _ => true
  | .ref i => decide (i < n)
  | .move _ => false

/-- The value the argument denotes in the sequence `L` before the operation. -/
def valueIn (L : List T) : Arg T → Option T
  | .value x => some x
  | .ref i => L[i]?
  | .move i => L[i]?

theorem valueIn_isSome {a : Arg T} {L : List T} {n : ℕ} (ha : a.readsBelow n = true)
    (hn : n ≤ L.length) : (a.valueIn L).isSome = true := by
  cases a with
  | value x => rfl
  | ref i =>
    simp only [readsBelow, decide_eq_true_eq] at ha
    simp [valueIn, List.getElem?_eq_getElem (show i < L.length by omega)]
  | move i => cases ha

theorem readsBelow_mono {a : Arg T} {n m : ℕ} (ha : a.readsBelow n = true) (hnm : n ≤ m) :
    a.readsBelow m = true := by
  cases a with
  | value x => rfl
  | ref i =>
    simp only [readsBelow, decide_eq_true_eq] at ha ⊢
    omega
  | move i => cases ha

/-- An argument read below `n` reads its value in `L` from every vector whose slots below `n`
hold `L`'s elements, and leaves that vector as it is. -/
theorem take_eq_of_agree {a : Arg T} {n : ℕ} (ha : a.readsBelow n = true) {L : List T} {x : T}
    (hx : a.valueIn L = some x) {w : Vector T capacity} (hw : ∀ k < n, w.data k = L[k]?) :
    a.take e w = some (x, w) := by
  cases a with
  | value y =>
    cases hx
    rfl
  | ref i =>
    simp only [readsBelow, decide_eq_true_eq] at ha
    exact Vector.take_ref ((hw i ha).trans hx)
  | move i => cases ha

end Arg

namespace Vector

/-! ### The representation relation -/

/-- `v` holds the sequence `L`: `m_size` is its length and at most `Capacity`, the slots below it
hold its elements as live objects, and when `T` has a destructor that does something no slot
above holds an object. -/
structure Represents (v : Vector T capacity) (L : List T) : Prop where
  size_eq : v.size = L.length
  size_le : v.size ≤ capacity
  data_eq : ∀ i < v.size, v.data i = L[i]?
  dead : e.isTriviallyDestructible = false → ∀ i, v.size ≤ i → v.data i = none

variable {e}

theorem Represents.isSome {v : Vector T capacity} {L : List T} (h : Represents e v L) {i : ℕ}
    (hi : i < v.size) : (v.data i).isSome = true := by
  rw [h.data_eq i hi, List.getElem?_eq_getElem (by rw [← h.size_eq]; exact hi)]
  rfl

/-- Above `m_size` a slot holds an object only if its destructor is trivial. -/
theorem Represents.dead_of_le {v : Vector T capacity} {L : List T} (h : Represents e v L)
    {i : ℕ} (hi : v.size ≤ i) (hlive : (v.data i).isSome = true) :
    e.isTriviallyDestructible = true := by
  by_contra htd
  rw [h.dead (by simpa using htd) i hi] at hlive
  cases hlive

/-- An argument read before index `n` reads the same value from every vector that agrees with `v`
below `n`, and leaves the vector as it is. -/
theorem Represents.take_eq {v : Vector T capacity} {L : List T} (h : Represents e v L)
    {a : Arg T} {n : ℕ} (ha : a.readsBelow n = true) (hn : n ≤ L.length) {x : T}
    (hx : a.valueIn L = some x) (w : Vector T capacity) (hw : ∀ k < n, w.data k = v.data k) :
    a.take e w = some (x, w) := by
  cases a with
  | value y =>
    cases hx
    rfl
  | ref i =>
    simp only [Arg.readsBelow, decide_eq_true_eq] at ha
    apply take_ref
    rw [hw i ha, h.data_eq i (by rw [h.size_eq]; omega)]
    exact hx
  | move i => cases ha

/-! ### The specification -/

namespace Spec

/-- `emplace_back(x)` on a sequence. -/
def emplaceBack (capacity : ℕ) (L : List T) (x : T) : Bool × List T :=
  if L.length < capacity then (true, L ++ [x]) else (false, L)

/-- `emplace(position, x)` on a sequence: `x` goes in before the element at `position`. -/
def emplace (capacity : ℕ) (L : List T) (position : ℕ) (x : T) : Bool × List T :=
  if L.length < capacity ∧ position ≤ L.length then (true, L.insertIdx position x) else (false, L)

/-- `pop_back()` on a sequence. -/
def popBack (L : List T) : Bool × List T :=
  if L = [] then (false, L) else (true, L.dropLast)

/-- `resize(count, x)` on a sequence. -/
def resize (capacity : ℕ) (L : List T) (count : ℕ) (x : T) : Bool × List T :=
  if count ≤ capacity then (true, L.take count ++ List.replicate (count - L.length) x)
  else (false, L)

/-- `erase(begin() + index)` on a sequence. -/
def erase (L : List T) (index : ℕ) : Bool × List T :=
  if index < L.length then (true, L.eraseIdx index) else (false, L)

end Spec

/-- The concrete answer `o` of an operation meets the specification's answer `s`: it is defined,
returns the same Boolean, and leaves a vector holding the new sequence. -/
def Answers (e : Element T) (o : Option (Bool × Vector T capacity)) (s : Bool × List T) : Prop :=
  ∃ w, o = some (s.1, w) ∧ Represents e w s.2

/-- An operation that returns `false` and keeps the vector meets a specification that does
the same. -/
theorem answers_self {v : Vector T capacity} {L : List T} (h : Represents e v L) :
    Answers e (some (false, v)) (false, L) :=
  ⟨v, rfl, h⟩

/-! ### Appending at the back -/

theorem represents_empty : Represents e (empty : Vector T capacity) [] :=
  ⟨rfl, Nat.zero_le _, fun _ h ↦ absurd h (Nat.not_lt_zero _), fun _ _ _ ↦ rfl⟩

/-- Storing `x` in slot `m_size` and counting it appends `x`. -/
theorem Represents.push {v : Vector T capacity} {L : List T} (h : Represents e v L)
    (hlt : L.length < capacity) (x : T) :
    Represents e ({ v.setSlot v.size (some x) with size := v.size + 1 } : Vector T capacity)
      (L ++ [x]) where
  size_eq := by simp [h.size_eq]
  size_le := by simp only; rw [h.size_eq]; omega
  data_eq i hi := by
    simp only [setSlot_data, Function.update_apply] at hi ⊢
    split_ifs with hsz
    · rw [hsz, h.size_eq, List.getElem?_concat_length]
    · rw [h.data_eq i (by omega), List.getElem?_append_left (by rw [← h.size_eq]; omega)]
  dead htd i hi := by
    simp only [setSlot_data, Function.update_apply] at hi ⊢
    rw [if_neg (by omega)]
    exact h.dead htd i (by omega)

theorem answers_emplaceBack {v : Vector T capacity} {L : List T} (h : Represents e v L)
    {a : Arg T} (ha : a.readsBelow L.length = true) {x : T} (hx : a.valueIn L = some x) :
    Answers e (v.emplaceBack e a) (Spec.emplaceBack capacity L x) := by
  by_cases hlt : L.length < capacity
  · rw [Spec.emplaceBack, if_pos hlt,
      emplaceBack_eq (by rw [h.size_eq]; exact hlt) (h.take_eq ha (Nat.le_refl _) hx v fun _ _ ↦ rfl)
        (h.dead_of_le (Nat.le_refl _))]
    exact ⟨_, rfl, h.push hlt x⟩
  · rw [Spec.emplaceBack, if_neg hlt, emplaceBack_of_full (by rw [h.size_eq]; omega)]
    exact answers_self h

/-- `n` passes of `emplace_back(args...)` append `n` copies of the argument's value. -/
theorem Represents.emplaceBackN {v : Vector T capacity} {L : List T} (h : Represents e v L)
    {a : Arg T} (ha : a.readsBelow L.length = true) {x : T} (hx : a.valueIn L = some x)
    {n : ℕ} (hfit : L.length + n ≤ capacity) :
    ∃ w, v.emplaceBackN e a n = some w ∧ Represents e w (L ++ List.replicate n x) := by
  rw [emplaceBackN_eq n (by rw [h.size_eq]; exact hfit) (fun k hk ↦ h.dead_of_le hk)
    fun w hw ↦ h.take_eq ha (Nat.le_refl _) hx w fun k hk ↦ hw k (by rw [h.size_eq]; exact hk)]
  refine ⟨_, rfl, ?_⟩
  constructor
  · simp [h.size_eq]
  · simp only; rw [h.size_eq]; exact hfit
  · intro i hi
    simp only at hi ⊢
    split_ifs with hrange
    · rw [List.getElem?_append_right (by rw [← h.size_eq]; omega), List.getElem?_replicate,
        if_pos (by rw [← h.size_eq]; omega)]
    · rw [h.data_eq i (by omega), List.getElem?_append_left (by rw [← h.size_eq]; omega)]
  · intro htd i hi
    simp only at hi ⊢
    rw [if_neg (by omega)]
    exact h.dead htd i (by omega)

/-! ### Removing at the back -/

/-- Lowering `m_size` over a trivially destructible `T` keeps the first elements. -/
theorem Represents.truncate {v : Vector T capacity} {L : List T} (h : Represents e v L)
    (htd : e.isTriviallyDestructible = true) {k : ℕ} (hk : k ≤ L.length) :
    Represents e ({ v with size := k } : Vector T capacity) (L.take k) where
  size_eq := by simp only [List.length_take]; omega
  size_le := by simp only; have := h.size_le; rw [h.size_eq] at this; omega
  data_eq i hi := by
    simp only at hi ⊢
    rw [List.getElem?_take, if_pos hi, h.data_eq i (by rw [h.size_eq]; omega)]
  dead htd' := absurd htd (by simp [htd'])

/-- **`clearFrom(start)`** keeps the first `start` elements and destroys the others. -/
theorem Represents.clearFrom {v : Vector T capacity} {L : List T} (h : Represents e v L)
    {start : ℕ} (hstart : start ≤ L.length) :
    ∃ w, v.clearFrom e start = some w ∧ Represents e w (L.take start) := by
  by_cases htd : e.isTriviallyDestructible = true
  · rw [Vector.clearFrom, if_pos htd]
    exact ⟨_, rfl, h.truncate htd hstart⟩
  · rw [Vector.clearFrom, if_neg htd,
      destroyBack_eq _ (by rw [h.size_eq]; omega) fun k _ hk ↦ h.isSome hk]
    refine ⟨_, rfl, ?_, ?_, ?_, ?_⟩
    · simp only [List.length_take]; rw [h.size_eq]; omega
    · have := h.size_le; simp only; omega
    · intro i hi
      simp only at hi ⊢
      rw [if_neg (by omega), List.getElem?_take, if_pos (by rw [h.size_eq] at hi; omega),
        h.data_eq i (by omega)]
    · intro htd' i hi
      simp only at hi ⊢
      split_ifs
      · rfl
      · exact h.dead htd' i (by omega)

theorem Represents.clear {v : Vector T capacity} {L : List T} (h : Represents e v L) :
    ∃ w, v.clear e = some w ∧ Represents e w [] := by
  have := h.clearFrom (Nat.zero_le _)
  rwa [List.take_zero] at this

theorem answers_popBack {v : Vector T capacity} {L : List T} (h : Represents e v L) :
    Answers e (v.popBack e) (Spec.popBack L) := by
  rcases L.eq_nil_or_concat with rfl | ⟨L', x, rfl⟩
  · rw [popBack, if_neg (by rw [h.size_eq]; exact Nat.lt_irrefl 0)]
    exact answers_self h
  rw [List.concat_eq_append] at h ⊢
  have hsize : v.size = L'.length + 1 := by rw [h.size_eq]; simp
  rw [Spec.popBack, if_neg (by simp), List.dropLast_concat, popBack, if_pos (by omega)]
  by_cases ht : e.isTrivial = true
  · rw [if_pos ht]
    refine ⟨_, rfl, ?_⟩
    have := h.truncate (e.triviallyDestructible_of_triviallyCopyable
      (e.triviallyCopyable_of_trivial ht)) (k := L'.length) (by simp)
    rw [List.take_left' rfl] at this
    rwa [show v.size - 1 = L'.length by omega]
  · rw [if_neg ht, destroy_eq (h.isSome (by omega)), Option.map_some]
    refine ⟨_, rfl, ?_, ?_, ?_, ?_⟩
    · simp only; omega
    · have := h.size_le; simp only; omega
    · intro i hi
      simp only [setSlot_data, Function.update_apply] at hi ⊢
      rw [if_neg (by omega), h.data_eq i (by omega), List.getElem?_append_left (by omega)]
    · intro htd i hi
      simp only [setSlot_data, Function.update_apply] at hi ⊢
      split_ifs
      · rfl
      · exact h.dead htd i (by omega)

theorem answers_resize {v : Vector T capacity} {L : List T} (h : Represents e v L)
    {a : Arg T} (ha : a.readsBelow L.length = true) {x : T} (hx : a.valueIn L = some x)
    (count : ℕ) : Answers e (v.resize e count a) (Spec.resize capacity L count x) := by
  by_cases hcap : count ≤ capacity
  · rw [Spec.resize, if_pos hcap, resize, if_neg (by omega)]
    by_cases hlt : count < v.size
    · obtain ⟨w, hw, hrep⟩ := h.clearFrom (show count ≤ L.length by rw [← h.size_eq]; omega)
      rw [if_pos hlt, hw, Option.map_some,
        show count - L.length = 0 by rw [← h.size_eq]; omega, List.replicate_zero,
        List.append_nil]
      exact ⟨w, rfl, hrep⟩
    · obtain ⟨w, hw, hrep⟩ := h.emplaceBackN ha hx (n := count - v.size)
        (by rw [← h.size_eq]; omega)
      rw [if_neg hlt, hw, Option.map_some, List.take_of_length_le (by rw [← h.size_eq]; omega),
        ← h.size_eq]
      exact ⟨w, rfl, hrep⟩
  · rw [Spec.resize, if_neg hcap, resize, if_pos (by omega)]
    exact answers_self h

/-! ### `emplace` -/

theorem set_insertIdx_self {L : List T} {p : ℕ} (hp : p ≤ L.length) (x y : T) :
    (L.insertIdx p y).set p x = L.insertIdx p x := by
  apply List.ext_getElem?
  intro i
  rw [List.getElem?_set, List.getElem?_insertIdx, List.getElem?_insertIdx, List.length_insertIdx,
    if_pos hp]
  split_ifs <;> first | rfl | omega

/-- Storing `x` over the element at `p` replaces it. -/
theorem Represents.set {w : Vector T capacity} {M : List T} (h : Represents e w M) {p : ℕ}
    (hp : p < M.length) (x : T) : Represents e (w.setSlot p (some x)) (M.set p x) where
  size_eq := by rw [setSlot_size, h.size_eq, List.length_set]
  size_le := h.size_le
  data_eq i hi := by
    rw [setSlot_size] at hi
    rw [setSlot_data, Function.update_apply, List.getElem?_set]
    split_ifs <;> first | rfl | omega | exact h.data_eq i hi
  dead htd i hi := by
    rw [setSlot_size] at hi
    rw [setSlot_data, Function.update_of_ne (by rw [h.size_eq] at hi; omega)]
    exact h.dead htd i hi

/-- A slot of a vector holding `M` is read as the element of `M` there. -/
theorem Represents.take_ref {w : Vector T capacity} {M : List T} (h : Represents e w M) {j : ℕ}
    (hj : j < M.length) : (Arg.ref j).take e w = some (M[j], w) :=
  Vector.take_ref (by rw [h.data_eq j (by rw [h.size_eq]; exact hj), List.getElem?_eq_getElem hj])

/-- Moving the slots `p, ..., m_size - 2` one slot up as bytes doubles the element at `p`. -/
theorem Represents.memmove_up {w : Vector T capacity} {L : List T} {d : T}
    (h : Represents e w (L ++ [d])) {p : ℕ} (hp : p < L.length) :
    Represents e (w.memmove (p + 1) p (L.length - p)) (L.insertIdx p L[p]) where
  size_eq := by
    rw [memmove_size, h.size_eq, List.length_insertIdx, if_pos (Nat.le_of_lt hp), List.length_append,
      List.length_singleton]
  size_le := h.size_le
  data_eq i hi := by
    have hsz : w.size = L.length + 1 := by
      rw [h.size_eq, List.length_append, List.length_singleton]
    rw [memmove_size] at hi
    show (if p + 1 ≤ i ∧ i < p + 1 + (L.length - p) then w.data (i - (p + 1) + p)
      else w.data i) = _
    rw [List.getElem?_insertIdx]
    rcases Nat.lt_trichotomy i p with hip | rfl | hpi
    · rw [if_neg (by omega), if_pos hip, h.data_eq i hi, List.getElem?_append_left (by omega)]
    · rw [if_neg (by omega), if_neg (Nat.lt_irrefl _), if_pos rfl, if_pos (Nat.le_of_lt hp), h.data_eq i hi,
        List.getElem?_append_left hp, List.getElem?_eq_getElem hp]
    · rw [if_pos (by omega), if_neg (by omega), if_neg (by omega),
        show i - (p + 1) + p = i - 1 by omega, h.data_eq _ (by omega),
        List.getElem?_append_left (by omega)]
  dead htd i hi := by
    have hsz : w.size = L.length + 1 := by
      rw [h.size_eq, List.length_append, List.length_singleton]
    rw [memmove_size] at hi
    show (if p + 1 ≤ i ∧ i < p + 1 + (L.length - p) then w.data (i - (p + 1) + p)
      else w.data i) = none
    rw [if_neg (by omega)]
    exact h.dead htd i hi

theorem Spec.resize_length_succ {L : List T} (hlt : L.length < capacity) (x : T) :
    Spec.resize capacity L (L.length + 1) x = (true, L ++ [x]) := by
  rw [Spec.resize, if_pos (by omega), List.take_of_length_le (by omega),
    show L.length + 1 - L.length = 1 by omega, List.replicate_one]

/-- **The `std::is_trivial` body of `emplace`**: after `resize(size() + 1U)` and the `memmove`
the slots hold `L` with the element at `position` doubled, and the argument is read from there;
what it reads is inserted. -/
theorem Represents.emplaceTrivial_of_take {v : Vector T capacity} {L : List T}
    (h : Represents e v L) {position : ℕ} (hpos : position < L.length)
    (hlt : L.length < capacity) {a : Arg T} {x : T}
    (htake : ∀ w : Vector T capacity, Represents e w (L.insertIdx position L[position]) →
      a.take e w = some (x, w)) :
    ∃ w, v.emplaceTrivial e position a = some w ∧ Represents e w (L.insertIdx position x) := by
  obtain ⟨w₁, hw₁, h₁⟩ := answers_resize h (a := .value e.default) rfl rfl (L.length + 1)
  simp only [Spec.resize_length_succ hlt] at hw₁ h₁
  have h₂ := h₁.memmove_up hpos
  have hlen : position < (L.insertIdx position L[position]).length := by
    rw [List.length_insertIdx, if_pos (Nat.le_of_lt hpos)]; omega
  refine ⟨_, ?_, set_insertIdx_self (Nat.le_of_lt hpos) x _ ▸ h₂.set hlen x⟩
  rw [emplaceTrivial, h.size_eq, hw₁]
  simp only [Option.bind_eq_bind, Option.bind_some]
  rw [htake _ h₂]
  simp only [Option.bind_some]
  exact assign_eq x (Or.inl (h₂.isSome (by rw [h₂.size_eq]; exact hlen)))

/-- **The element-wise body of `emplace`, up to the read of the argument**: once the last element
is moved into a new slot and the others are moved one slot up, the slots hold `L` with the
moved-from value of the element at `position` inserted there. -/
theorem Represents.emplaceElementwise_shifted {v : Vector T capacity} {L : List T}
    (h : Represents e v L) {position : ℕ} (hpos : position < L.length)
    (hlt : L.length < capacity) :
    ∃ w₁ w₂, v.emplaceBack e (.move (v.size - 1)) = some (true, w₁) ∧
      w₁.shiftUp e position (v.size - 1 - position) = some w₂ ∧
      Represents e w₂ (L.insertIdx position (e.movedFrom L[position])) := by
  have hs : v.size = L.length := h.size_eq
  have hlast : L.length - 1 < L.length := by omega
  have hx : v.data (L.length - 1) = some L[L.length - 1] := by
    rw [h.data_eq _ (by omega), List.getElem?_eq_getElem hlast]
  -- after `emplace_back(std::move(at_unchecked(sizeBeforeEmplace - 1U)))`
  have h₁ := (h.set hlast (e.movedFrom L[L.length - 1])).push
    (by rw [List.length_set]; omega) L[L.length - 1]
  have hM : ∀ k, k < L.length + 1 →
      (L.set (L.length - 1) (e.movedFrom L[L.length - 1]) ++ [L[L.length - 1]])[k]? =
        if k = L.length then some L[L.length - 1]
        else if k = L.length - 1 then some (e.movedFrom L[L.length - 1]) else L[k]? := by
    intro k hk
    rcases Nat.lt_or_ge k L.length with hk' | hk'
    · rw [List.getElem?_append_left (by rw [List.length_set]; exact hk'), List.getElem?_set,
        if_neg (show k ≠ L.length by omega)]
      by_cases hkl : k = L.length - 1
      · rw [if_pos hkl.symm, if_pos (by omega), if_pos hkl]
      · rw [if_neg (Ne.symm hkl), if_neg hkl]
    · rw [List.getElem?_append_right (by rw [List.length_set]; exact hk'), List.length_set,
        show k = L.length by omega, Nat.sub_self, if_pos rfl]
      rfl
  rw [hs]
  refine ⟨_, _, emplaceBack_eq (by omega) (take_move hx) fun hlive ↦ h.dead_of_le (Nat.le_refl _)
    (by rwa [setSlot_data, Function.update_of_ne (by omega)] at hlive),
    shiftUp_eq position _ fun k _ hk ↦ h₁.isSome (by simp only [setSlot_size]; omega), ?_⟩
  have hdata : ∀ k, k < L.length + 1 →
      ((v.setSlot (L.length - 1) (some (e.movedFrom L[L.length - 1]))).setSlot v.size
          (some L[L.length - 1])).data k =
        if k = L.length then some L[L.length - 1]
        else if k = L.length - 1 then some (e.movedFrom L[L.length - 1]) else L[k]? := by
    intro k hk
    rw [← hM k hk, ← h₁.data_eq k (by simp only [setSlot_size]; omega)]
    rfl
  constructor
  · simp only
    rw [List.length_insertIdx, if_pos (Nat.le_of_lt hpos)]
    omega
  · simp only
    omega
  · intro i hi
    simp only at hi ⊢
    rw [List.getElem?_insertIdx]
    simp (disch := omega) only [hdata]
    -- the slot of the new element holds the moved-from value; the slot past the old end the
    -- element moved there first
    split_ifs <;> first
      | rfl | omega
      | (rw [List.getElem?_eq_getElem hpos]; rfl)
      | (subst_vars; simp [List.getElem?_eq_getElem hlast])
  · intro htd i hi
    simp only at hi ⊢
    rw [if_neg (by omega), if_neg (by omega)]
    exact h₁.dead htd i (by simp only [setSlot_size]; omega)

/-- **The element-wise body of `emplace`**: the argument is read after the shift, with the object
at `position` destroyed unless its destructor is trivial; what it reads is inserted. -/
theorem Represents.emplaceElementwise_of_take {v : Vector T capacity} {L : List T}
    (h : Represents e v L) {position : ℕ} (hpos : position < L.length)
    (hlt : L.length < capacity) {a : Arg T} {x : T}
    (htake : ∀ w : Vector T capacity, (∀ k, k ≠ position → k < L.length + 1 →
      w.data k = (L.insertIdx position (e.movedFrom L[position]))[k]?) →
        a.take e w = some (x, w)) :
    ∃ w, v.emplaceElementwise e position a = some w ∧ Represents e w (L.insertIdx position x) := by
  obtain ⟨w₁, w₂, hw₁, hw₂, h₂⟩ := h.emplaceElementwise_shifted hpos hlt
  have hlen : position < (L.insertIdx position (e.movedFrom L[position])).length := by
    rw [List.length_insertIdx, if_pos (Nat.le_of_lt hpos)]; omega
  have hagree : ∀ k, k ≠ position → k < L.length + 1 →
      w₂.data k = (L.insertIdx position (e.movedFrom L[position]))[k]? := fun k _ hk ↦
    h₂.data_eq k (by rw [h₂.size_eq, List.length_insertIdx, if_pos (Nat.le_of_lt hpos)]; exact hk)
  refine ⟨_, ?_, set_insertIdx_self (Nat.le_of_lt hpos) x _ ▸ h₂.set hlen x⟩
  rw [emplaceElementwise, hw₁]
  simp only [Option.bind_eq_bind, Option.bind_some]
  rw [hw₂]
  simp only [Option.bind_some]
  by_cases htd : e.isTriviallyDestructible = true
  · rw [if_pos htd, htake w₂ hagree, Option.bind_some]
    exact construct_eq x fun _ ↦ htd
  · rw [if_neg htd, destroy_eq (h₂.isSome (by rw [h₂.size_eq]; exact hlen))]
    simp only [Option.bind_some]
    rw [htake _ fun k hk hk' ↦ by
      rw [setSlot_data, Function.update_of_ne hk]; exact hagree k hk hk']
    simp only [Option.bind_some]
    rw [construct_eq x fun hlive ↦ by simp at hlive]
    exact congrArg some (Vector.ext (Function.update_idem _ _ _) rfl)

theorem answers_emplace {v : Vector T capacity} {L : List T} (h : Represents e v L)
    {position : ℕ} {a : Arg T} (ha : a.readsBelow position = true) {x : T}
    (hx : a.valueIn L = some x) :
    Answers e (v.emplace e position a) (Spec.emplace capacity L position x) := by
  have hs := h.size_eq
  by_cases hfail : v.size ≥ capacity ∨ position ≥ capacity ∨ position > v.size
  · rw [emplace, if_pos hfail, Spec.emplace,
      if_neg (show ¬(L.length < capacity ∧ position ≤ L.length) by omega)]
    exact answers_self h
  rw [emplace, if_neg hfail, Spec.emplace,
    if_pos (show L.length < capacity ∧ position ≤ L.length by omega)]
  by_cases hend : position = v.size
  · have := answers_emplaceBack h (Arg.readsBelow_mono ha (by omega)) hx
    rw [Spec.emplaceBack, if_pos (show L.length < capacity by omega)] at this
    rwa [if_pos hend, hend, hs, List.insertIdx_length_self]
  have hpos : position < L.length := by omega
  have hlt : L.length < capacity := by omega
  have hlen : ∀ y : T, (L.insertIdx position y).length = L.length + 1 := fun y ↦ by
    rw [List.length_insertIdx, if_pos (Nat.le_of_lt hpos)]
  -- both bodies read the argument below `position`, where the slots still hold `L`
  obtain ⟨w, hw, hrep⟩ : ∃ w, (if e.isTrivial then v.emplaceTrivial e position a
      else v.emplaceElementwise e position a) = some w ∧
        Represents e w (L.insertIdx position x) := by
    split
    · exact h.emplaceTrivial_of_take hpos hlt fun w hw ↦ Arg.take_eq_of_agree e ha hx fun k hk ↦ by
        rw [hw.data_eq k (by rw [hw.size_eq, hlen]; omega), List.getElem?_insertIdx, if_pos hk]
    · exact h.emplaceElementwise_of_take hpos hlt fun w hw ↦
        Arg.take_eq_of_agree e ha hx fun k hk ↦ by
          rw [hw k (by omega) (by omega), List.getElem?_insertIdx, if_pos hk]
  rw [if_neg hend, hw, Option.map_some]
  exact ⟨w, rfl, hrep⟩

/-- **`emplace` reads an element argument after the tail has moved**: for every element type,
`emplace(position, v[j])` with `j` past `position` inserts the element that was at `j - 1`, not
the one at `j`: both bodies move the tail one slot up before the constructor of `T` reads
`v[j]`. -/
theorem answers_emplace_ref_above {v : Vector T capacity} {L : List T} (h : Represents e v L)
    {position j : ℕ} (hj : position < j) (hjl : j ≤ L.length) (hlt : L.length < capacity)
    {y : T} (hy : L[j - 1]? = some y) :
    Answers e (v.emplace e position (.ref j)) (Spec.emplace capacity L position y) := by
  have hs := h.size_eq
  have hpos : position < L.length := by omega
  have hlen : ∀ z : T, (L.insertIdx position z).length = L.length + 1 := fun z ↦ by
    rw [List.length_insertIdx, if_pos (Nat.le_of_lt hpos)]
  -- in both bodies slot `j` holds the element from slot `j - 1` when the argument is read
  have hread : ∀ (z : T) (w : Vector T capacity), w.data j = (L.insertIdx position z)[j]? →
      (Arg.ref j).take e w = some (y, w) := fun z w hw ↦ by
    rw [List.getElem?_insertIdx, if_neg (by omega), if_neg (by omega), hy] at hw
    exact Vector.take_ref hw
  obtain ⟨w, hw, hrep⟩ : ∃ w, (if e.isTrivial then v.emplaceTrivial e position (.ref j)
      else v.emplaceElementwise e position (.ref j)) = some w ∧
        Represents e w (L.insertIdx position y) := by
    split
    · exact h.emplaceTrivial_of_take hpos hlt fun w hw ↦
        hread _ w (hw.data_eq j (by rw [hw.size_eq, hlen]; omega))
    · exact h.emplaceElementwise_of_take hpos hlt fun w hw ↦
        hread _ w (hw j (by omega) (by omega))
  rw [emplace, if_neg (by omega), if_neg (by omega), hw, Option.map_some, Spec.emplace,
    if_pos (by omega)]
  exact ⟨w, rfl, hrep⟩

/-- For an element type that is not trivial and has a destructor that does something,
`emplace(position, v[position])` before the end reads an object the element-wise body has just
destroyed. -/
theorem emplace_ref_self_undefined {v : Vector T capacity} {L : List T} (h : Represents e v L)
    (ht : e.isTrivial = false) (htd : e.isTriviallyDestructible = false) {position : ℕ}
    (hpos : position < L.length) (hlt : L.length < capacity) :
    v.emplace e position (.ref position) = none := by
  have hs := h.size_eq
  obtain ⟨w₁, w₂, hw₁, hw₂, h₂⟩ := h.emplaceElementwise_shifted hpos hlt
  have hlen : position < (L.insertIdx position (e.movedFrom L[position])).length := by
    rw [List.length_insertIdx, if_pos (Nat.le_of_lt hpos)]; omega
  rw [emplace, if_neg (by omega), if_neg (by omega), ht, if_neg Bool.false_ne_true,
    emplaceElementwise, hw₁]
  simp only [Option.bind_eq_bind, Option.bind_some]
  rw [hw₂, Option.bind_some, htd, if_neg Bool.false_ne_true,
    destroy_eq (h₂.isSome (by rw [h₂.size_eq]; exact hlen)), Option.bind_some]
  simp [Arg.take]

/-! ### `erase` -/

/-- **The `std::is_trivially_copyable` body of `erase`**, for a trivially destructible `T`: the
tail moves one slot down as bytes. The last slot keeps a copy that is never destroyed, which only
a trivial destructor makes harmless. -/
theorem Represents.eraseTriviallyCopyable {v : Vector T capacity} {L : List T}
    (h : Represents e v L) (htd : e.isTriviallyDestructible = true) {index : ℕ}
    (hi : index < L.length) :
    ∃ w, v.eraseTriviallyCopyable e index = some w ∧
      Represents e ({ w with size := w.size - 1 } : Vector T capacity) (L.eraseIdx index) := by
  have hs := h.size_eq
  rw [Vector.eraseTriviallyCopyable, if_pos htd, Option.bind_eq_bind, Option.bind_some]
  refine ⟨_, rfl, ?_, ?_, ?_, fun htd' ↦ absurd htd (by simp [htd'])⟩
  · simp only [memmove_size]
    rw [List.length_eraseIdx_of_lt hi]
    omega
  · have := h.size_le
    simp only [memmove_size]
    omega
  · intro i hi'
    simp only [memmove_size] at hi'
    show (if index ≤ i ∧ i < index + (v.size - index - 1) then v.data (i - index + (index + 1))
      else v.data i) = _
    rw [List.getElem?_eraseIdx]
    split_ifs with hrange hlt
    · omega
    · rw [show i - index + (index + 1) = i + 1 by omega, h.data_eq _ (by omega)]
    · rw [h.data_eq _ (by omega)]
    · omega

/-- **The element-wise body of `erase`**: the tail moves one slot down by move assignments, and
the last object, now moved from, is destroyed. -/
theorem Represents.eraseElementwise {v : Vector T capacity} {L : List T} (h : Represents e v L)
    {index : ℕ} (hi : index < L.length) :
    ∃ w, v.eraseElementwise e index = some w ∧
      Represents e ({ w with size := w.size - 1 } : Vector T capacity) (L.eraseIdx index) := by
  have hs := h.size_eq
  rw [Vector.eraseElementwise, shiftDown_eq _ index fun k _ hk ↦ h.isSome (by omega),
    Option.bind_eq_bind, Option.bind_some]
  -- the last slot still holds an object: the moved-from one, or the erased one itself
  have hlast : (if index ≤ v.size - 1 ∧ v.size - 1 < index + (v.size - 1 - index) then
      v.data (v.size - 1 + 1)
    else if v.size - 1 = index + (v.size - 1 - index) ∧ 0 < v.size - 1 - index then
      (v.data (index + (v.size - 1 - index))).map e.movedFrom
    else v.data (v.size - 1)).isSome = true := by
    rw [if_neg (by omega)]
    split_ifs
    · rw [Option.isSome_map]
      exact h.isSome (by omega)
    · exact h.isSome (by omega)
  rw [destroy_eq hlast]
  refine ⟨_, rfl, ?_, ?_, ?_, ?_⟩
  · simp only [setSlot_size]
    rw [List.length_eraseIdx_of_lt hi]
    omega
  · have := h.size_le
    simp only [setSlot_size]
    omega
  · intro i hi'
    simp only [setSlot_size, setSlot_data] at hi' ⊢
    rw [Function.update_of_ne (by omega), List.getElem?_eraseIdx]
    split_ifs <;> first | omega | exact h.data_eq _ (by omega)
  · intro htd i hi'
    simp only [setSlot_size, setSlot_data, Function.update_apply] at hi' ⊢
    split_ifs <;> first | rfl | omega | exact h.dead htd i (by omega)

theorem answers_erase {v : Vector T capacity} {L : List T} (h : Represents e v L) (index : ℕ) :
    Answers e (v.erase e index) (Spec.erase L index) := by
  have hs := h.size_eq
  by_cases hi : index < L.length
  · obtain ⟨w, hw, hrep⟩ : ∃ w, (if e.isTriviallyCopyable then v.eraseTriviallyCopyable e index
        else v.eraseElementwise e index) = some w ∧
          Represents e ({ w with size := w.size - 1 } : Vector T capacity) (L.eraseIdx index) := by
      split
      · exact h.eraseTriviallyCopyable
          (e.triviallyDestructible_of_triviallyCopyable (by assumption)) hi
      · exact h.eraseElementwise hi
    rw [erase, if_pos (by omega), hw, Option.map_some, Spec.erase, if_pos hi]
    exact ⟨_, rfl, hrep⟩
  · rw [erase, if_neg (by omega), Spec.erase, if_neg hi]
    exact answers_self h

/-! ### Assignment and construction -/

variable {src : ℕ → Arg T} {g : T → T}

/-- **The element-wise body of `operator=`**: the elements of `rhs` are assigned over those `v`
has and appended after them, so `v` holds `R` followed by what it had past `R`'s length, and
`rhs` keeps what `g` leaves of each element. -/
theorem Represents.assignElementwise {v rhs : Vector T capacity} {L R : List T}
    (hv : Represents e v L) (hrhs : Represents e rhs R) (hsrc : ReadsLeaving e capacity src g) :
    ∃ w r, assignElementwise e src v rhs = some (w, r) ∧
      Represents e w (R ++ L.drop R.length) ∧ Represents e r (R.map g) := by
  have hvs := hv.size_eq
  have hrs := hrhs.size_eq
  have hcap := hrhs.size_le
  have hvcap := hv.size_le
  rw [Vector.assignElementwise, assignPrefix_eq hsrc _ (fun k hk ↦ Or.inl (hv.isSome (by omega)))
    (fun k hk ↦ hrhs.isSome (by omega))]
  simp only [Option.bind_eq_bind, Option.bind_some]
  rw [emplaceBackRange_eq hsrc _ (by simp only; omega)
    (fun k hk hlive ↦ hv.dead_of_le (i := k) (by simp only at hk; omega)
      (by simp only at hk hlive; rwa [if_neg (by omega)] at hlive))
    (fun k hk hk' ↦ by simp only; rw [if_neg (by omega)]; exact hrhs.isSome (by omega))]
  refine ⟨_, _, rfl, ⟨?_, ?_, ?_, ?_⟩, ⟨?_, ?_, ?_, ?_⟩⟩
  · simp only [List.length_append, List.length_drop]
    omega
  · simp only
    have := hv.size_le
    omega
  · intro i hi
    simp only at hi ⊢
    rw [List.getElem?_append]
    split_ifs <;> first
      | omega
      | (rw [hrhs.data_eq _ (by omega)]; congr 1; omega)
      | exact hrhs.data_eq _ (by omega)
      | (rw [List.getElem?_drop, hv.data_eq _ (by omega)]; congr 1; omega)
  · intro htd i hi
    simp only at hi ⊢
    rw [if_neg (by omega), if_neg (by omega)]
    exact hv.dead htd i (by omega)
  · rw [List.length_map]
    exact hrs
  · exact hcap
  · intro i hi
    simp only at hi ⊢
    rw [List.getElem?_map, ← hrhs.data_eq i hi]
    split_ifs <;> first | omega | rfl
  · intro htd i hi
    simp only at hi ⊢
    rw [if_neg (by omega), if_neg (by omega)]
    exact hrhs.dead htd i hi

/-- **`operator=`**, whichever body the traits choose: `v` ends up holding `R`. -/
theorem Represents.assignFrom {v rhs : Vector T capacity} {L R : List T}
    (hv : Represents e v L) (hrhs : Represents e rhs R) (hsrc : ReadsLeaving e capacity src g) :
    ∃ w r R', assignFrom e src v rhs = some (w, r) ∧ Represents e w R ∧ Represents e r R' := by
  by_cases htc : e.isTriviallyCopyable = true
  · -- `memcpy`, then `clearFrom(rhsSize)` only sets `m_size`
    have htd := e.triviallyDestructible_of_triviallyCopyable htc
    rw [Vector.assignFrom, if_pos htc]
    simp only [Option.bind_eq_bind, Option.bind_some]
    rw [Vector.clearFrom, if_pos htd, Option.bind_some]
    refine ⟨_, _, R, rfl, ⟨hrhs.size_eq, hrhs.size_le, fun i hi ↦ ?_, ?_⟩, hrhs⟩
    · show (if i < rhs.size then rhs.data i else v.data i) = R[i]?
      rw [if_pos hi]
      exact hrhs.data_eq i hi
    · intro htd'
      exact absurd htd (by simp [htd'])
  · obtain ⟨w₁, r₁, hw₁, h₁, hr₁⟩ := hv.assignElementwise hrhs hsrc
    obtain ⟨w₂, hw₂, h₂⟩ := h₁.clearFrom
      (show rhs.size ≤ (R ++ L.drop R.length).length by rw [List.length_append, hrhs.size_eq]; omega)
    rw [List.take_left' hrhs.size_eq.symm] at h₂
    rw [Vector.assignFrom, if_neg htc, hw₁]
    simp only [Option.bind_eq_bind, Option.bind_some]
    rw [hw₂, Option.bind_some]
    -- `m_size = rhsSize` does not change what `clearFrom(rhsSize)` left
    have hsize : ({ w₂ with size := rhs.size } : Vector T capacity) = w₂ :=
      Vector.ext rfl (by rw [h₂.size_eq, hrhs.size_eq])
    exact ⟨_, _, _, rfl, hsize ▸ h₂, hr₁⟩

/-- **Copy assignment** makes `v` hold the sequence of `rhs`. -/
theorem Represents.copyAssign {v rhs : Vector T capacity} {L R : List T}
    (hv : Represents e v L) (hrhs : Represents e rhs R) :
    ∃ w, v.copyAssign e rhs = some w ∧ Represents e w R := by
  obtain ⟨w, r, R', hw, h, _⟩ := hv.assignFrom hrhs readsLeaving_ref
  exact ⟨w, by rw [Vector.copyAssign, hw, Option.map_some], h⟩

/-- **Move assignment** makes `v` hold the sequence of `rhs`, and leaves `rhs` empty. -/
theorem Represents.moveAssign {v rhs : Vector T capacity} {L R : List T}
    (hv : Represents e v L) (hrhs : Represents e rhs R) :
    ∃ w r, v.moveAssign e rhs = some (w, r) ∧ Represents e w R ∧ Represents e r [] := by
  obtain ⟨w, r, R', hw, h, hr⟩ := hv.assignFrom hrhs readsLeaving_move
  obtain ⟨r', hr', hrep'⟩ := hr.clear
  refine ⟨w, r', ?_, h, hrep'⟩
  rw [Vector.moveAssign, hw]
  simp only [Option.bind_eq_bind, Option.bind_some]
  rw [hr', Option.bind_some]

theorem represents_ofCountValue (count : ℕ) (value : T) :
    ∃ w, (ofCountValue e count value : Option (Vector T capacity)) = some w ∧
      Represents e w (List.replicate (min count capacity) value) := by
  have := (represents_empty : Represents e (empty : Vector T capacity) []).emplaceBackN
    (a := .value value) rfl rfl (n := min count capacity)
    (by rw [List.length_nil, Nat.zero_add]; exact Nat.min_le_right _ _)
  rwa [List.nil_append] at this

theorem represents_ofCount (count : ℕ) :
    ∃ w, (ofCount e count : Option (Vector T capacity)) = some w ∧
      Represents e w (List.replicate (min count capacity) e.default) := by
  rw [Vector.ofCount, constructDefault_eq _ fun _ _ hlive ↦ by cases hlive]
  refine ⟨_, rfl, by simp, Nat.min_le_right _ _, fun i hi ↦ ?_, fun _ i hi ↦ ?_⟩
  · simp only at hi ⊢
    rw [if_pos hi, List.getElem?_replicate, if_pos hi]
  · simp only at hi ⊢
    rw [if_neg (by omega)]
    rfl

theorem Represents.copyConstruct {rhs : Vector T capacity} {R : List T}
    (hrhs : Represents e rhs R) :
    ∃ w, rhs.copyConstruct e = some w ∧ Represents e w R :=
  represents_empty.copyAssign hrhs

theorem Represents.moveConstruct {rhs : Vector T capacity} {R : List T}
    (hrhs : Represents e rhs R) :
    ∃ w r, rhs.moveConstruct e = some (w, r) ∧ Represents e w R ∧ Represents e r [] :=
  represents_empty.moveAssign hrhs

/-! ### A bank of vectors -/

/-- An operation of a program on the vectors `b 0, b 1, ...`, all of one type. -/
inductive Op (T : Type*) where
  | emplaceBack (k : ℕ) (a : Arg T)
  | emplace (k position : ℕ) (a : Arg T)
  | popBack (k : ℕ)
  | resize (k count : ℕ) (a : Arg T)
  | erase (k index : ℕ)
  | clear (k : ℕ)
  | copyAssign (k rhs : ℕ)
  | moveAssign (k rhs : ℕ)

/-- The answer of an operation on `b k`, written back: the new vector goes into the bank and the
Boolean is the result; `none` is undefined behaviour. -/
def writeBack (b : ℕ → Vector T capacity) (k : ℕ) :
    Option (Bool × Vector T capacity) → (ℕ → Vector T capacity) × Option Bool
  | some (r, w) => (Function.update b k w, some r)
  | none => (b, none)

variable (e) in
/-- One operation on the bank; the assignments do nothing when both sides are the same vector
(`if (this != &rhs)`), and answer `true`, as `clear` does. -/
def bankStep (b : ℕ → Vector T capacity) : Op T → (ℕ → Vector T capacity) × Option Bool
  | .emplaceBack k a => writeBack b k ((b k).emplaceBack e a)
  | .emplace k position a => writeBack b k ((b k).emplace e position a)
  | .popBack k => writeBack b k ((b k).popBack e)
  | .resize k count a => writeBack b k ((b k).resize e count a)
  | .erase k index => writeBack b k ((b k).erase e index)
  | .clear k => writeBack b k (((b k).clear e).map ((true, ·)))
  | .copyAssign k rhs =>
    if k = rhs then (b, some true) else writeBack b k (((b k).copyAssign e (b rhs)).map ((true, ·)))
  | .moveAssign k rhs =>
    if k = rhs then (b, some true)
    else
      match (b k).moveAssign e (b rhs) with
      | some (w, r) => (Function.update (Function.update b k w) rhs r, some true)
      | none => (b, none)

variable (e) in
/-- The bank of vectors as a machine. -/
def bank (capacity : ℕ) : Machine (ℕ → Vector T capacity) (Op T) (Option Bool) :=
  ⟨bankStep e⟩

/-- The answer of the specification, written back. -/
def Spec.writeBack (B : ℕ → List T) (k : ℕ) (s : Bool × List T) : (ℕ → List T) × Option Bool :=
  (Function.update B k s.2, some s.1)

/-- One operation on a bank of sequences; an argument that denotes no element is undefined. -/
def Spec.step (capacity : ℕ) (B : ℕ → List T) : Op T → (ℕ → List T) × Option Bool
  | .emplaceBack k a => match a.valueIn (B k) with
    | some x => Spec.writeBack B k (Spec.emplaceBack capacity (B k) x)
    | none => (B, none)
  | .emplace k position a => match a.valueIn (B k) with
    | some x => Spec.writeBack B k (Spec.emplace capacity (B k) position x)
    | none => (B, none)
  | .popBack k => Spec.writeBack B k (Spec.popBack (B k))
  | .resize k count a => match a.valueIn (B k) with
    | some x => Spec.writeBack B k (Spec.resize capacity (B k) count x)
    | none => (B, none)
  | .erase k index => Spec.writeBack B k (Spec.erase (B k) index)
  | .clear k => Spec.writeBack B k (true, [])
  | .copyAssign k rhs => Spec.writeBack B k (true, B rhs)
  | .moveAssign k rhs =>
    if k = rhs then (B, some true)
    else (Function.update (Function.update B k (B rhs)) rhs [], some true)

/-- The bank of sequences as a machine: what the program means. -/
def spec (T : Type*) (capacity : ℕ) : Machine (ℕ → List T) (Op T) (Option Bool) :=
  ⟨Spec.step capacity⟩

/-- The operations the refinement covers: every argument is a value or an element before the
point where the operation inserts. -/
def Admissible (B : ℕ → List T) : Op T → Prop
  | .emplaceBack k a => a.readsBelow (B k).length = true
  | .emplace k position a => a.readsBelow (min position (B k).length) = true
  | .resize k _ a => a.readsBelow (B k).length = true
  | _ => True

variable (e) in
/-- Each vector of the bank holds the sequence of the same index. -/
def BankRepresents (b : ℕ → Vector T capacity) (B : ℕ → List T) : Prop :=
  ∀ k, Represents e (b k) (B k)

theorem BankRepresents.update {b : ℕ → Vector T capacity} {B : ℕ → List T}
    (h : BankRepresents e b B) {k : ℕ} {w : Vector T capacity} {L : List T}
    (hw : Represents e w L) : BankRepresents e (Function.update b k w) (Function.update B k L) := by
  intro j
  by_cases hj : j = k
  · subst hj
    rw [Function.update_self, Function.update_self]
    exact hw
  · rw [Function.update_of_ne hj, Function.update_of_ne hj]
    exact h j

/-- A step that meets the specification keeps the banks related and answers the same. -/
theorem BankRepresents.writeBack {b : ℕ → Vector T capacity} {B : ℕ → List T}
    (h : BankRepresents e b B) {k : ℕ} {o : Option (Bool × Vector T capacity)}
    {s : Bool × List T} (ho : Answers e o s) :
    (writeBack b k o).2 = (Spec.writeBack B k s).2 ∧
      BankRepresents e (writeBack b k o).1 (Spec.writeBack B k s).1 := by
  obtain ⟨w, rfl, hw⟩ := ho
  exact ⟨rfl, h.update hw⟩

/-- **One step of the bank simulates one step of the specification** on every admissible
operation. -/
theorem represents_bankStep :
    (bank e capacity).Simulation (spec T capacity) Admissible (BankRepresents e) := by
  intro b B o h ho
  cases o with
  | emplaceBack k a =>
    obtain ⟨x, hx⟩ := Option.isSome_iff_exists.1 (Arg.valueIn_isSome ho (Nat.le_refl _))
    simp only [bank, spec, bankStep, Spec.step, hx]
    exact h.writeBack (answers_emplaceBack (h k) ho hx)
  | emplace k position a =>
    obtain ⟨x, hx⟩ := Option.isSome_iff_exists.1 (Arg.valueIn_isSome ho (Nat.min_le_right _ _))
    simp only [bank, spec, bankStep, Spec.step, hx]
    exact h.writeBack (answers_emplace (h k) (Arg.readsBelow_mono ho (Nat.min_le_left _ _)) hx)
  | popBack k => exact h.writeBack (answers_popBack (h k))
  | resize k count a =>
    obtain ⟨x, hx⟩ := Option.isSome_iff_exists.1 (Arg.valueIn_isSome ho (Nat.le_refl _))
    simp only [bank, spec, bankStep, Spec.step, hx]
    exact h.writeBack (answers_resize (h k) ho hx count)
  | erase k index => exact h.writeBack (answers_erase (h k) index)
  | clear k =>
    obtain ⟨w, hw, hrep⟩ := (h k).clear
    exact h.writeBack ⟨w, by rw [hw, Option.map_some], hrep⟩
  | copyAssign k rhs =>
    simp only [bank, spec, bankStep, Spec.step]
    split_ifs with hk
    · -- self-assignment leaves the vector, and the sequence, as they are
      subst hk
      exact ⟨rfl, by rw [Spec.writeBack, Function.update_eq_self]; exact h⟩
    · obtain ⟨w, hw, hrep⟩ := (h k).copyAssign (h rhs)
      exact h.writeBack ⟨w, by rw [hw, Option.map_some], hrep⟩
  | moveAssign k rhs =>
    simp only [bank, spec, bankStep, Spec.step]
    split_ifs with hk
    · exact ⟨rfl, h⟩
    · obtain ⟨w, r, hwr, hw, hr⟩ := (h k).moveAssign (h rhs)
      rw [hwr]
      exact ⟨rfl, (h.update hw).update hr⟩

/-- **The bank refines the specification on every admissible run**: from empty vectors, every
run answers what the specification answers, and ends with each vector holding its sequence. -/
theorem bank_refines_spec (os : List (Op T))
    (hadm : (spec T capacity).Admits Admissible (fun _ ↦ []) os) :
    ((bank e capacity).run (fun _ ↦ empty) os).2 = ((spec T capacity).run (fun _ ↦ []) os).2 ∧
      BankRepresents e ((bank e capacity).run (fun _ ↦ empty) os).1
        ((spec T capacity).run (fun _ ↦ []) os).1 :=
  represents_bankStep.run os (fun _ ↦ represents_empty) hadm

/-- An admissible operation of the specification is never undefined. -/
theorem spec_step_isSome (B : ℕ → List T) (o : Op T) (ho : Admissible B o) :
    (Spec.step capacity B o).2.isSome = true := by
  cases o with
  | emplaceBack k a =>
    obtain ⟨x, hx⟩ := Option.isSome_iff_exists.1 (Arg.valueIn_isSome ho (Nat.le_refl _))
    simp [Spec.step, hx, Spec.writeBack]
  | emplace k position a =>
    obtain ⟨x, hx⟩ := Option.isSome_iff_exists.1 (Arg.valueIn_isSome ho (Nat.min_le_right _ _))
    simp [Spec.step, hx, Spec.writeBack]
  | resize k count a =>
    obtain ⟨x, hx⟩ := Option.isSome_iff_exists.1 (Arg.valueIn_isSome ho (Nat.le_refl _))
    simp [Spec.step, hx, Spec.writeBack]
  | moveAssign k rhs =>
    simp only [Spec.step]
    split_ifs <;> rfl
  | _ => rfl

/-- **No admissible run of the bank is undefined**: no operation reads a slot without an object,
constructs over one whose destructor would be skipped, or destroys one twice. -/
theorem bank_run_defined (os : List (Op T))
    (hadm : (spec T capacity).Admits Admissible (fun _ ↦ []) os) :
    ∀ r ∈ ((bank e capacity).run (fun _ ↦ empty) os).2, r.isSome = true := by
  rw [(bank_refines_spec os hadm).1]
  exact Machine.run_results (fun B o ho ↦ spec_step_isSome B o ho) os hadm

/-! ### An element argument behind the insertion point -/

/-- `int` as an element type: trivial, `T{}` is `0`, and a move copies. -/
def intElement : Element ℕ where
  isTrivial := true
  isTriviallyCopyable := true
  isTriviallyDestructible := true
  triviallyCopyable_of_trivial _ := rfl
  triviallyDestructible_of_triviallyCopyable _ := rfl
  default := 0
  movedFrom := id
  movedFrom_of_triviallyCopyable _ _ := rfl

/-- Three `int`s into a vector of capacity `4`, the last two copied from its own first element,
the one of them inserted in front of the other. -/
theorem bank_run_defined_of_aliasing :
    ((bank intElement 4).run (fun _ ↦ empty)
        [.emplaceBack 0 (.value 3), .emplaceBack 0 (.ref 0), .emplace 0 1 (.ref 0)]).2.all
      Option.isSome = true :=
  List.all_eq_true.2 (bank_run_defined _ (by simp [Admissible, Arg.readsBelow, spec, Spec.step,
    Spec.writeBack, Arg.valueIn, Spec.emplaceBack]))

/-- An element type with a destructor that does something and a move that empties its source, as
`std::string` has; its values are numbers here, and a moved-from object holds `0`. -/
def stringElement : Element ℕ where
  isTrivial := false
  isTriviallyCopyable := false
  isTriviallyDestructible := false
  triviallyCopyable_of_trivial h := h
  triviallyDestructible_of_triviallyCopyable h := h
  default := 0
  movedFrom _ := 0
  movedFrom_of_triviallyCopyable h := absurd h Bool.false_ne_true

/-- The objects in the slots below `m_size`, in order. -/
def elements (v : Vector T capacity) : List (Option T) :=
  (List.range v.size).map v.data

theorem emplace_inserts_shifted_element :
    (((bank intElement 4).run (fun _ ↦ empty)
        [.emplaceBack 0 (.value 1), .emplaceBack 0 (.value 2), .emplace 0 0 (.ref 1)]).1 0).elements =
      [some 1, some 1, some 2] ∧
    (((bank stringElement 4).run (fun _ ↦ empty)
        [.emplaceBack 0 (.value 1), .emplaceBack 0 (.value 2), .emplace 0 0 (.ref 1)]).1 0).elements =
      [some 1, some 1, some 2] ∧
    ((spec ℕ 4).run (fun _ ↦ [])
        [.emplaceBack 0 (.value 1), .emplaceBack 0 (.value 2), .emplace 0 0 (.ref 1)]).1 0 =
      [2, 1, 2] := by
  decide

end Vector

end Iox.Container
