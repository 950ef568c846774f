import Iceoryx.Container.List
import Iceoryx.Machine.Run

/-!
# `iox::list` refines a bounded sequence

What a `list<T, Capacity>` is for: it holds a sequence of at most `Capacity` elements, and an
iterator names a position in it. Each call is then a function of the sequence (`ListSpec`):
`emplace` inserts before a position when there is room and answers the new element's position,
`erase` removes the element at a position and answers the position after it, `remove_if` keeps
the elements the predicate does not hold of, in order, and counts the others, and a copy or a move
takes the source's sequence.

`Holds l xs` says that the links of `l` are well formed (`Links`, with the active nodes and the
free list read off the links themselves) and that the active nodes hold `xs` in order. From a
list that holds `xs`, each call answers what the sequence answers and leaves a list that holds the
sequence's new value (`Holds.emplace`, `Holds.erase`, `Holds.removeIf`, `Holds.copyAssign`,
`Holds.moveConstruct`, …); the loops inside them are the loop lemmas of `IoxList`.

The system is a bank of lists named by index, an iterator taken from one of them at a position
and a copy or a move naming a second. A bank of sequences simulates it (`holds_bankStep`), hence
on every run: from new lists the bank answers what the sequences answer, and every list ends with
its cycle and free list well formed and its elements the sequence's.
-/

namespace Iox.Container

open Function (update)

/-! ### The sequence -/

namespace ListSpec

variable {T : Type} (capacity : ℕ)

/-- Inserting `x` before position `pos`, or at the end from the size on, when there is room; the
answer is the new element's position, or the size when there is no room. -/
def emplace (xs : List T) (pos : ℕ) (x : T) : List T × ℕ :=
  if xs.length < capacity then (xs.take pos ++ x :: xs.drop pos, min pos xs.length)
  else (xs, xs.length)

/-- Removing the element at position `pos`, if there is one; the answer is the position of the
element after it, which is `pos` again, or the size. -/
def erase (xs : List T) (pos : ℕ) : List T × ℕ :=
  (xs.take pos ++ xs.drop (pos + 1), min pos xs.length)

/-- `push_front`: `x` goes first when there is room; the answer says whether it went in. -/
def pushFront (xs : List T) (x : T) : List T × Bool :=
  if xs.length < capacity then (x :: xs, true) else (xs, false)

/-- `push_back`: `x` goes last when there is room; the answer says whether it went in. -/
def pushBack (xs : List T) (x : T) : List T × Bool :=
  if xs.length < capacity then (xs ++ [x], true) else (xs, false)

/-- `pop_front`: the first element goes; the answer says whether there was one. -/
def popFront (xs : List T) : List T × Bool :=
  (xs.tail, !xs.isEmpty)

/-- `pop_back`: the last element goes; the answer says whether there was one. -/
def popBack (xs : List T) : List T × Bool :=
  (xs.dropLast, !xs.isEmpty)

/-- `remove_if`: the elements the predicate holds of go, the others stay in order; the answer is
how many went. -/
def removeIf (xs : List T) (pred : T → Bool) : List T × ℕ :=
  (xs.filter fun y ↦ !pred y, (xs.filter pred).length)

end ListSpec

/-! ### A list that holds a sequence -/

namespace IoxList

variable {T : Type} {capacity : ℕ} {l : IoxList T capacity} {act free : List ℕ} {xs : List T}

/-- The list `l` is well formed and holds the elements `xs`, in order of iteration. -/
structure Holds (l : IoxList T capacity) (xs : List T) : Prop where
  links : Links l l.activeIndices l.freeIndices
  data_eq : l.activeIndices.map l.data = xs.map some

theorem Holds.of_links (h : Links l act free) (hd : act.map l.data = xs.map some) :
    Holds l xs := by
  rw [← h.activeIndices_eq, ← h.freeIndices_eq] at *
  exact ⟨h, hd⟩

theorem holds_new : Holds (new : IoxList T capacity) [] :=
  Holds.of_links links_new rfl

theorem Holds.elements_eq (h : Holds l xs) : l.elements = xs := by
  have hmap : l.activeIndices.filterMap l.data = (l.activeIndices.map l.data).filterMap id := by
    rw [List.filterMap_map]
    rfl
  rw [elements, hmap, h.data_eq, List.filterMap_map]
  exact List.filterMap_some

theorem Holds.length_eq (h : Holds l xs) : l.activeIndices.length = xs.length := by
  simpa using congrArg List.length h.data_eq

theorem Holds.position_cend (h : Holds l xs) (self : ℕ) :
    l.position (cend capacity self) = xs.length := by
  have hnd := h.links.nodup_cycle
  rw [position, cend, beginEndLinkIndex, List.idxOf_eq_length (List.nodup_cons.1 hnd).1,
    h.length_eq]

/-- **`emplace` inserts before the iterator's position when there is room**, and answers the
new element's position; on a full list it answers `end()` and changes nothing. -/
theorem Holds.emplace (h : Holds l xs) (self pos : ℕ) (x : T) :
    ∃ l' it, l.emplace self ⟨self, (l.activeIndices.drop pos).headD capacity⟩ x = .ok (l', it) ∧
      Holds l' (ListSpec.emplace capacity xs pos x).1 ∧
      l'.position it = (ListSpec.emplace capacity xs pos x).2 := by
  have hl := h.links
  have hsum := hl.length_add
  have hlen := h.length_eq
  by_cases hroom : xs.length < capacity
  · obtain ⟨n, free', hfree⟩ : ∃ n free', l.freeIndices = n :: free' := by
      cases hf : l.freeIndices with
      | nil => rw [hf] at hsum; simp at hsum; omega
      | cons n free' => exact ⟨n, free', rfl⟩
    rw [hfree, ← List.take_append_drop pos l.activeIndices] at hl
    obtain ⟨l', he, h', hd'⟩ := hl.emplace self x
    have hn : n ∉ l.activeIndices.take pos ++ l.activeIndices.drop pos :=
      fun hm ↦ hl.not_mem_free (List.mem_cons_of_mem capacity hm) List.mem_cons_self
    refine ⟨l', ⟨self, n⟩, he, Holds.of_links h' ?_, ?_⟩
    · rw [ListSpec.emplace, if_pos hroom, hd', List.map_append, List.map_cons,
        map_update_of_not_mem _ fun hm ↦ hn (List.mem_append_left _ hm),
        map_update_of_not_mem _ fun hm ↦ hn (List.mem_append_right _ hm), Function.update_self,
        List.map_take, List.map_drop, h.data_eq]
      simp
    · rw [ListSpec.emplace, if_pos hroom, position, h'.activeIndices_eq]
      refine (LinkCycle.idxOf_headD (B := n :: _) h'.nodup_cycle).trans ?_
      rw [List.length_take, hlen]
  · have hfull : l.activeIndices.length = capacity := by omega
    refine ⟨l, cend capacity self, hl.emplace_of_full self
      (LinkCycle.headD_drop_mem _ capacity pos) hfull x, ?_, ?_⟩
    · rw [ListSpec.emplace, if_neg hroom]
      exact h
    · rw [ListSpec.emplace, if_neg hroom]
      exact h.position_cend self

/-- **`erase` removes the element at the iterator's position** and answers the position of the
element after it; `erase(end())` changes nothing and answers `end()`. -/
theorem Holds.erase (h : Holds l xs) (self pos : ℕ) :
    ∃ l' it, l.erase self ⟨self, (l.activeIndices.drop pos).headD capacity⟩ = .ok (l', it) ∧
      Holds l' (ListSpec.erase xs pos).1 ∧ l'.position it = (ListSpec.erase xs pos).2 := by
  have hl := h.links
  have hlen := h.length_eq
  by_cases hk : pos < l.activeIndices.length
  · have hl' : Links l (l.activeIndices.take pos ++ l.activeIndices[pos] ::
        l.activeIndices.drop (pos + 1)) l.freeIndices := by
      rwa [List.getElem_cons_drop, List.take_append_drop]
    rw [LinkCycle.headD_drop_of_lt hk]
    obtain ⟨l', he, h', hd'⟩ := hl'.erase self
    have hx := (List.nodup_cons.1 (List.nodup_middle.1 (List.nodup_cons.1 hl'.nodup_cycle).2)).1
    refine ⟨l', _, he, Holds.of_links h' ?_, ?_⟩
    · rw [ListSpec.erase, hd', List.map_append,
        map_update_of_not_mem _ fun hm ↦ hx (List.mem_append_left _ hm),
        map_update_of_not_mem _ fun hm ↦ hx (List.mem_append_right _ hm),
        List.map_take, List.map_drop, h.data_eq]
      simp
    · rw [ListSpec.erase, position, h'.activeIndices_eq, LinkCycle.idxOf_headD h'.nodup_cycle,
        List.length_take]
      omega
  · have hend : (l.activeIndices.drop pos).headD capacity = capacity :=
      LinkCycle.headD_drop_of_le (Nat.le_of_not_lt hk) capacity
    refine ⟨l, cend capacity self, by rw [hend]; exact hl.erase_cend self, ?_, ?_⟩
    · rw [ListSpec.erase, List.take_of_length_le (by omega),
        List.drop_of_length_le (by omega), List.append_nil]
      exact h
    · rw [ListSpec.erase, h.position_cend self]
      omega

theorem Holds.size_eq (h : Holds l xs) : l.size = xs.length := by
  rw [h.links.size_eq, h.length_eq]

theorem Holds.cbegin_eq (h : Holds l xs) (self : ℕ) :
    l.cbegin self = ⟨self, (l.activeIndices.drop 0).headD capacity⟩ :=
  h.links.cbegin_eq self

theorem Holds.pushFront (h : Holds l xs) (self : ℕ) (x : T) :
    ∃ l', l.pushFront self x = .ok (l', (ListSpec.pushFront capacity xs x).2) ∧
      Holds l' (ListSpec.pushFront capacity xs x).1 := by
  by_cases hroom : xs.length < capacity
  · obtain ⟨l', it, he, h', -⟩ := h.emplace self 0 x
    simp only [ListSpec.emplace, if_pos hroom, List.take_zero, List.drop_zero,
      List.nil_append] at h'
    refine ⟨l', ?_, by rwa [ListSpec.pushFront, if_pos hroom]⟩
    simp only [IoxList.pushFront, h.size_eq, if_pos hroom, h.cbegin_eq, he]
    simp [h'.size_eq, ListSpec.pushFront, hroom]
  · refine ⟨l, ?_, by rwa [ListSpec.pushFront, if_neg hroom]⟩
    simp [IoxList.pushFront, h.size_eq, hroom, ListSpec.pushFront]

theorem Holds.pushBack (h : Holds l xs) (self : ℕ) (x : T) :
    ∃ l', l.pushBack self x = .ok (l', (ListSpec.pushBack capacity xs x).2) ∧
      Holds l' (ListSpec.pushBack capacity xs x).1 := by
  by_cases hroom : xs.length < capacity
  · obtain ⟨l', it, he, h', -⟩ := h.emplace self xs.length x
    have hend : (l.activeIndices.drop xs.length).headD capacity = capacity :=
      LinkCycle.headD_drop_of_le (Nat.le_of_eq h.length_eq) capacity
    simp only [ListSpec.emplace, if_pos hroom, List.take_length, List.drop_length] at h'
    rw [hend] at he
    refine ⟨l', ?_, by rwa [ListSpec.pushBack, if_pos hroom]⟩
    simp only [IoxList.pushBack, h.size_eq, if_pos hroom, cend, beginEndLinkIndex, he]
    simp [h'.size_eq, ListSpec.pushBack, hroom]
  · refine ⟨l, ?_, by rwa [ListSpec.pushBack, if_neg hroom]⟩
    simp [IoxList.pushBack, h.size_eq, hroom, ListSpec.pushBack]

theorem Holds.popFront (h : Holds l xs) (self : ℕ) :
    ∃ l', l.popFront self = .ok (l', (ListSpec.popFront xs).2) ∧
      Holds l' (ListSpec.popFront xs).1 := by
  obtain ⟨l', it, he, h', -⟩ := h.erase self 0
  simp only [ListSpec.erase, List.take_zero, List.nil_append, Nat.zero_add, List.drop_one] at h'
  refine ⟨l', ?_, h'⟩
  simp only [IoxList.popFront, h.cbegin_eq, he]
  cases xs <;> simp [h'.size_eq, h.size_eq, ListSpec.popFront]

theorem Holds.popBack (h : Holds l xs) (self : ℕ) :
    ∃ l', l.popBack self = .ok (l', (ListSpec.popBack xs).2) ∧
      Holds l' (ListSpec.popBack xs).1 := by
  obtain ⟨l', it, he, h', -⟩ := h.erase self (xs.length - 1)
  have hlast : ListSpec.erase xs (xs.length - 1) = (xs.dropLast, min (xs.length - 1) xs.length) := by
    rw [ListSpec.erase, List.dropLast_eq_take]
    rcases xs with _ | ⟨a, xs⟩
    · rfl
    · simp
  rw [hlast] at h'
  refine ⟨l', ?_, h'⟩
  rw [← h.length_eq, ← LinkCycle.getLastD_eq_headD_drop] at he
  simp only [IoxList.popBack, h.links.decrement_cend, except_ok_bind, he]
  rcases xs with _ | ⟨a, xs⟩ <;> simp [h'.size_eq, h.size_eq, ListSpec.popBack]

/-- Filtering nodes by what their elements satisfy filters the elements. -/
theorem map_filter_of_map_eq {d : ℕ → Option T} (hd : act.map d = xs.map some)
    (p : Option T → Bool) :
    (act.filter fun i ↦ p (d i)).map d = (xs.filter fun y ↦ p (some y)).map some := by
  rw [← Function.comp_def p d, ← List.filter_map, hd, List.filter_map]
  rfl

/-- **`remove_if` removes exactly the elements the predicate holds of**, keeps the others in
order, and answers how many it removed. -/
theorem Holds.removeIf (h : Holds l xs) (self : ℕ) (pred : T → Bool) :
    ∃ l', l.removeIf self pred = pure (l', (ListSpec.removeIf xs pred).2) ∧
      Holds l' (ListSpec.removeIf xs pred).1 := by
  have hl := h.links
  obtain ⟨l', free', hloop, h', hkeep⟩ := Links.removeIfLoop_spec self pred l.data
    l.activeIndices [] l.freeIndices l (capacity + 1) 0 hl (fun _ _ ↦ rfl)
    (by have := hl.length_add; omega)
  refine ⟨l', ?_, Holds.of_links h' ?_⟩
  · rw [IoxList.removeIf, hl.cbegin_eq, hloop, ListSpec.removeIf, Nat.zero_add]
    have hc := congrArg List.length (map_filter_of_map_eq h.data_eq fun o ↦ o.any pred)
    simp only [List.length_map, Option.any_some] at hc
    rw [hc]
  · rw [List.nil_append] at hkeep ⊢
    rw [List.map_congr_left fun i hi ↦ hkeep i hi, ListSpec.removeIf]
    exact map_filter_of_map_eq h.data_eq fun o ↦ !o.any pred

theorem Holds.remove [BEq T] (h : Holds l xs) (self : ℕ) (x : T) :
    ∃ l', l.remove self x = pure (l', (ListSpec.removeIf xs fun y ↦ y == x).2) ∧
      Holds l' (ListSpec.removeIf xs fun y ↦ y == x).1 :=
  h.removeIf self fun y ↦ y == x

/-- **`clear` empties the list.** -/
theorem Holds.clear (h : Holds l xs) (self : ℕ) :
    ∃ l', l.clear self = pure l' ∧ Holds l' [] := by
  obtain ⟨l', free', hloop, h'⟩ := Links.clearLoop_spec self l.activeIndices l.freeIndices l
    (l.size + 1) h.links (by rw [h.size_eq, h.length_eq]; omega)
  exact ⟨l', hloop, Holds.of_links h' rfl⟩

/-- **A list assigned from another holds the other's elements.** -/
theorem Holds.copyAssign {rhs : IoxList T capacity} {ys : List T} (h : Holds l xs)
    (hr : Holds rhs ys) (self rself : ℕ) :
    ∃ l', l.copyAssign self rhs rself = pure l' ∧ Holds l' ys := by
  have hl := h.links
  have hrl := hr.links
  have hsum := hl.length_add
  have hrsum := hrl.length_add
  have ha := h.length_eq
  have hra := hr.length_eq
  set act := l.activeIndices
  set ract := rhs.activeIndices
  -- the first loop assigns the first `min` elements
  have hl₀ : Links l ([] ++ act) l.freeIndices := hl
  obtain ⟨l₁, hloop₁, h₁, hd₁⟩ := hrl.assignLoop_spec self rself (min ract.length act.length)
    [] act [] ract l hl₀ rfl (Nat.min_le_right _ _) (Nat.min_le_left _ _)
  rw [List.nil_append] at h₁
  simp only [List.map_nil, List.nil_append] at hd₁
  by_cases hle : ract.length ≤ act.length
  · -- this list is at least as long: the third loop erases the elements after them
    rw [Nat.min_eq_left hle] at hloop₁ hd₁
    have h₁' : Links l₁ (act.take ract.length ++ act.drop ract.length) l.freeIndices := by
      rwa [List.take_append_drop]
    obtain ⟨l₃, free₃, hloop₃, h₃, hkeep₃⟩ := Links.eraseLoop_spec self
      (act.length - ract.length) _ _ _ l₁ h₁' (by simp)
    have hdrop : (act.drop ract.length).drop (act.length - ract.length) = [] := by
      rw [List.drop_drop]
      exact List.drop_of_length_le (by omega)
    rw [hdrop, List.append_nil] at h₃ hkeep₃
    refine ⟨l₃, ?_, Holds.of_links h₃ ?_⟩
    · simp only [IoxList.copyAssign, hl.cbegin_eq, hrl.cbegin_eq, h.size_eq, hr.size_eq, ← ha,
        ← hra, Nat.min_eq_left hle, hloop₁, pure_bind, Nat.sub_self]
      simp only [emplaceBackLoop, pure_bind, hloop₃]
    · rw [List.map_congr_left fun i hi ↦ hkeep₃ i hi, List.map_take, hd₁,
        List.take_left' (by simp), List.take_of_length_le (Nat.le_refl _), hr.data_eq]
  · -- the other list is longer: the second loop emplaces its further elements at the end
    have hlt : act.length < ract.length := Nat.lt_of_not_le hle
    rw [Nat.min_eq_right (Nat.le_of_lt hlt)] at hloop₁ hd₁
    rw [List.drop_of_length_le (Nat.le_refl _), List.map_nil, List.append_nil] at hd₁
    obtain ⟨l₂, hloop₂, h₂, hd₂⟩ := hrl.emplaceBackLoop_spec self rself
      (ract.length - act.length) act l.freeIndices (ract.take act.length) (ract.drop act.length)
      l₁ h₁ (List.take_append_drop _ _).symm (by simp) (by omega)
    refine ⟨l₂, ?_, Holds.of_links h₂ ?_⟩
    · simp only [IoxList.copyAssign, hl.cbegin_eq, hrl.cbegin_eq, h.size_eq, hr.size_eq, ← ha,
        ← hra, Nat.min_eq_right (Nat.le_of_lt hlt), hloop₁, pure_bind, hloop₂,
        Nat.sub_eq_zero_of_le (Nat.le_of_lt hlt)]
      rfl
    · rw [hd₂, hd₁, List.take_of_length_le (l := ract.drop act.length) (by simp),
        ← List.map_append,
        List.take_append_drop, hr.data_eq]

/-- **A list move-assigned from another holds the other's elements, and the other is
cleared.** -/
theorem Holds.moveAssign {rhs : IoxList T capacity} {ys : List T} (h : Holds l xs)
    (hr : Holds rhs ys) (self rself : ℕ) :
    ∃ l' r', l.moveAssign self rhs rself = pure (l', r') ∧ Holds l' ys ∧ Holds r' [] := by
  obtain ⟨l', hcopy, h'⟩ := h.copyAssign hr self rself
  obtain ⟨r', hclear, hr'⟩ := hr.clear rself
  exact ⟨l', r', by simp only [IoxList.moveAssign, hcopy, hclear, pure_bind], h', hr'⟩

/-- **A copy-constructed list holds the source's elements.** -/
theorem Holds.copyConstruct {rhs : IoxList T capacity} {ys : List T} (hr : Holds rhs ys)
    (self rself : ℕ) : ∃ l', copyConstruct self rhs rself = pure l' ∧ Holds l' ys :=
  holds_new.copyAssign hr self rself

/-- **A move-constructed list holds the source's elements, in order, and the source is
cleared.** -/
theorem Holds.moveConstruct {rhs : IoxList T capacity} {ys : List T} (hr : Holds rhs ys)
    (self rself : ℕ) :
    ∃ l' r', moveConstruct self rhs rself = pure (l', r') ∧ Holds l' ys ∧ Holds r' [] := by
  have hrl := hr.links
  have hrsum := hrl.length_add
  have hnew := @links_new T capacity
  have hbegin : (new : IoxList T capacity).cbegin self = cend capacity self := hnew.cbegin_eq self
  obtain ⟨l', hloop, h', hd'⟩ := hrl.moveLoop_spec self rself rhs.activeIndices [] _ [] new
    (capacity + 1) hnew rfl (by simp; omega) (by omega)
  obtain ⟨r', hclear, hr'⟩ := hr.clear rself
  refine ⟨l', r', ?_, Holds.of_links h' ?_, hr'⟩
  · simp only [IoxList.moveConstruct, hbegin, hrl.cbegin_eq, hloop, hclear, pure_bind]
  · rw [hd', List.map_nil, List.nil_append, hr.data_eq]

/-- `n` times `operator++`: the iterator a caller holds after stepping on `n` times. -/
def advance (l : IoxList T capacity) : ListIterator → ℕ → Except String ListIterator
  | iter, 0 => .ok iter
  | iter, n + 1 => do advance l (← l.increment iter) n

/-- The iterator at a position: `begin()` of the list `self`, stepped on `pos` times. -/
def iterAt (l : IoxList T capacity) (self pos : ℕ) : Except String ListIterator :=
  l.advance (l.cbegin self) pos

theorem Links.advance_eq (h : Links l act free) (self : ℕ) : ∀ (n k : ℕ),
    l.advance ⟨self, (act.drop k).headD capacity⟩ n =
      .ok ⟨self, (act.drop (k + n)).headD capacity⟩
  | 0, k => rfl
  | n + 1, k => by
    rw [advance, h.increment_at, except_ok_bind, Links.advance_eq h self n (k + 1),
      Nat.add_right_comm, Nat.add_assoc]

theorem Holds.iterAt_eq (h : Holds l xs) (self pos : ℕ) :
    l.iterAt self pos = .ok ⟨self, (l.activeIndices.drop pos).headD capacity⟩ := by
  rw [iterAt, h.cbegin_eq, h.links.advance_eq, Nat.zero_add]

end IoxList

/-! ### A bank of lists -/

namespace IoxList

variable {T : Type} {capacity : ℕ}

/-- A call on a bank of lists, each named by its index: `k` is the list the call is made on,
`rhs` the source of a copy or a move, and an iterator is taken from the list `origin` at the
position `pos`. -/
inductive Op (T : Type)
  | emplace (k origin pos : ℕ) (x : T)
  | insert (k origin pos : ℕ) (x : T)
  | pushFront (k : ℕ) (x : T)
  | pushBack (k : ℕ) (x : T)
  | popFront (k : ℕ)
  | popBack (k : ℕ)
  | erase (k origin pos : ℕ)
  | remove (k : ℕ) (x : T)
  | removeIf (k : ℕ) (pred : T → Bool)
  | clear (k : ℕ)
  | copyConstruct (k rhs : ℕ)
  | moveConstruct (k rhs : ℕ)
  | copyAssign (k rhs : ℕ)
  | moveAssign (k rhs : ℕ)

/-- What a call answers: nothing, an iterator (as its position), a `bool` or a count. -/
inductive Answer
  | done
  | position (p : ℕ)
  | flag (b : Bool)
  | count (n : ℕ)
  deriving DecidableEq

/-- The end of a call on the list `k`, written back into the bank: the list takes its new state
and the call answers. An `IOX_ENFORCE` that fails, or a call with no defined result, leaves the
bank as it was. -/
def writeBack {α : Type} (b : ℕ → IoxList T capacity) (k : ℕ)
    (answer : IoxList T capacity → α → Answer) (c : Call (IoxList T capacity × α)) :
    (ℕ → IoxList T capacity) × Call Answer :=
  match c.run with
  | some (.ok (l, a)) => (update b k l, pure (answer l a))
  | some (.error e) => (b, throw e)
  | none => (b, ExceptT.lift none)

/-- The end of a move, which writes back both lists. -/
def writeBackPair (b : ℕ → IoxList T capacity) (k rhs : ℕ)
    (c : Call (IoxList T capacity × IoxList T capacity)) :
    (ℕ → IoxList T capacity) × Call Answer :=
  match c.run with
  | some (.ok (l, r)) => (update (update b k l) rhs r, pure .done)
  | some (.error e) => (b, throw e)
  | none => (b, ExceptT.lift none)

/-- One call on the bank. `operator=` does nothing when both sides are the same list. -/
def bankStep [BEq T] (b : ℕ → IoxList T capacity) :
    Op T → (ℕ → IoxList T capacity) × Call Answer
  | .emplace k origin pos x => writeBack b k (fun l it ↦ .position (l.position it)) do
    let it ← (b origin).iterAt origin pos
    (b k).emplace k it x
  | .insert k origin pos x => writeBack b k (fun l it ↦ .position (l.position it)) do
    let it ← (b origin).iterAt origin pos
    (b k).insert k it x
  | .pushFront k x => writeBack b k (fun _ r ↦ .flag r) ((b k).pushFront k x)
  | .pushBack k x => writeBack b k (fun _ r ↦ .flag r) ((b k).pushBack k x)
  | .popFront k => writeBack b k (fun _ r ↦ .flag r) ((b k).popFront k)
  | .popBack k => writeBack b k (fun _ r ↦ .flag r) ((b k).popBack k)
  | .erase k origin pos => writeBack b k (fun l it ↦ .position (l.position it)) do
    let it ← (b origin).iterAt origin pos
    (b k).erase k it
  | .remove k x => writeBack b k (fun _ n ↦ .count n) ((b k).remove k x)
  | .removeIf k pred => writeBack b k (fun _ n ↦ .count n) ((b k).removeIf k pred)
  | .clear k => writeBack b k (fun _ _ ↦ .done) ((·, ()) <$> (b k).clear k)
  | .copyConstruct k rhs =>
    writeBack b k (fun _ _ ↦ .done) ((·, ()) <$> copyConstruct k (b rhs) rhs)
  | .moveConstruct k rhs => writeBackPair b k rhs (moveConstruct k (b rhs) rhs)
  | .copyAssign k rhs =>
    if k = rhs then (b, pure .done)
    else writeBack b k (fun _ _ ↦ .done) ((·, ()) <$> (b k).copyAssign k (b rhs) rhs)
  | .moveAssign k rhs =>
    if k = rhs then (b, pure .done) else writeBackPair b k rhs ((b k).moveAssign k (b rhs) rhs)

/-- The bank of lists as a machine. -/
def bank (T : Type) [BEq T] (capacity : ℕ) :
    Machine (ℕ → IoxList T capacity) (Op T) (Call Answer) :=
  ⟨bankStep⟩

end IoxList

namespace ListSpec

open IoxList (Op Answer)

variable {T : Type}

/-- One call on a bank of sequences: what the call means. An iterator of another list is the
one error. -/
def step [BEq T] (capacity : ℕ) (S : ℕ → List T) : Op T → (ℕ → List T) × Call Answer
  | .emplace k origin pos x =>
    if origin = k then
      (update S k (emplace capacity (S k) pos x).1, pure (.position (emplace capacity (S k) pos x).2))
    else (S, throw "iterator of other list can't be used")
  | .insert k origin pos x =>
    if origin = k then
      (update S k (emplace capacity (S k) pos x).1, pure (.position (emplace capacity (S k) pos x).2))
    else (S, throw "iterator of other list can't be used")
  | .pushFront k x => (update S k (pushFront capacity (S k) x).1, pure (.flag (pushFront capacity (S k) x).2))
  | .pushBack k x => (update S k (pushBack capacity (S k) x).1, pure (.flag (pushBack capacity (S k) x).2))
  | .popFront k => (update S k (popFront (S k)).1, pure (.flag (popFront (S k)).2))
  | .popBack k => (update S k (popBack (S k)).1, pure (.flag (popBack (S k)).2))
  | .erase k origin pos =>
    if origin = k then
      (update S k (erase (S k) pos).1, pure (.position (erase (S k) pos).2))
    else (S, throw "iterator of other list can't be used")
  | .remove k x =>
    (update S k (removeIf (S k) fun y ↦ y == x).1, pure (.count (removeIf (S k) fun y ↦ y == x).2))
  | .removeIf k pred => (update S k (removeIf (S k) pred).1, pure (.count (removeIf (S k) pred).2))
  | .clear k => (update S k [], pure .done)
  | .copyConstruct k rhs => (update S k (S rhs), pure .done)
  | .moveConstruct k rhs => (update (update S k (S rhs)) rhs [], pure .done)
  | .copyAssign k rhs => if k = rhs then (S, pure .done) else (update S k (S rhs), pure .done)
  | .moveAssign k rhs =>
    if k = rhs then (S, pure .done) else (update (update S k (S rhs)) rhs [], pure .done)

/-- The bank of sequences as a machine. -/
def machine (T : Type) [BEq T] (capacity : ℕ) : Machine (ℕ → List T) (Op T) (Call Answer) :=
  ⟨step capacity⟩

end ListSpec

/-! ### The bank simulates a bank of sequences -/

namespace IoxList

variable {T : Type} {capacity : ℕ} {b : ℕ → IoxList T capacity} {S : ℕ → List T}

/-- Each list of the bank holds the sequence of the same index. -/
def BankHolds (b : ℕ → IoxList T capacity) (S : ℕ → List T) : Prop :=
  ∀ k, Holds (b k) (S k)

theorem BankHolds.update (h : BankHolds b S) {k : ℕ} {l : IoxList T capacity} {ys : List T}
    (hl : Holds l ys) : BankHolds (update b k l) (update S k ys) := by
  intro j
  by_cases hj : j = k
  · subst hj
    rw [Function.update_self, Function.update_self]
    exact hl
  · rw [Function.update_of_ne hj, Function.update_of_ne hj]
    exact h j

@[simp] theorem writeBack_pure {α : Type} (k : ℕ) (answer : IoxList T capacity → α → Answer)
    (l : IoxList T capacity) (a : α) :
    writeBack b k answer (pure (l, a)) = (update b k l, pure (answer l a)) := rfl

@[simp] theorem writeBack_throw {α : Type} (k : ℕ) (answer : IoxList T capacity → α → Answer)
    (e : String) : writeBack b k answer (throw e) = (b, throw e) := rfl

@[simp] theorem writeBackPair_pure (k rhs : ℕ) (l r : IoxList T capacity) :
    writeBackPair b k rhs (pure (l, r)) = (update (update b k l) rhs r, pure .done) := rfl

/-- A call on an iterator of another list ends in the `IOX_ENFORCE` of
`isInvalidIterOrDifferentLists`. -/
theorem BankHolds.iterAt_other (h : BankHolds b S) {origin : ℕ} (pos : ℕ) (f : ListIterator → Except String (IoxList T capacity × ListIterator))
    (hf : ∀ it : ListIterator, it.list = origin → f it = .error "iterator of other list can't be used") :
    (do let it ← (b origin).iterAt origin pos; f it : Call _) =
      throw "iterator of other list can't be used" := by
  rw [(h origin).iterAt_eq]
  simp only [call_lift_ok, pure_bind, hf ⟨origin, _⟩ rfl, call_lift_error]

variable [BEq T]

/-- **One call on the bank simulates one call on the sequences**, whatever the call. -/
theorem holds_bankStep :
    (bank T capacity).Simulation (ListSpec.machine T capacity) (fun _ _ ↦ True) BankHolds := by
  intro b S o h _
  cases o with
  | emplace k origin pos x =>
    simp only [bank, ListSpec.machine, bankStep, ListSpec.step]
    split_ifs with ho
    · subst ho
      obtain ⟨l', it, he, h', hp⟩ := (h origin).emplace origin pos x
      simp only [(h origin).iterAt_eq, call_lift_ok, pure_bind, he, writeBack_pure, hp, true_and]
      exact h.update h'
    · rw [h.iterAt_other pos _ fun it hit ↦ emplace_of_ne (hit ▸ Ne.symm ho) _ x]
      exact ⟨rfl, h⟩
  | insert k origin pos x =>
    simp only [bank, ListSpec.machine, bankStep, ListSpec.step, IoxList.insert]
    split_ifs with ho
    · subst ho
      obtain ⟨l', it, he, h', hp⟩ := (h origin).emplace origin pos x
      simp only [(h origin).iterAt_eq, call_lift_ok, pure_bind, he, writeBack_pure, hp, true_and]
      exact h.update h'
    · rw [h.iterAt_other pos _ fun it hit ↦ emplace_of_ne (hit ▸ Ne.symm ho) _ x]
      exact ⟨rfl, h⟩
  | pushFront k x =>
    obtain ⟨l', he, h'⟩ := (h k).pushFront k x
    simp only [bank, ListSpec.machine, bankStep, ListSpec.step, he, call_lift_ok, writeBack_pure, true_and]
    exact h.update h'
  | pushBack k x =>
    obtain ⟨l', he, h'⟩ := (h k).pushBack k x
    simp only [bank, ListSpec.machine, bankStep, ListSpec.step, he, call_lift_ok, writeBack_pure, true_and]
    exact h.update h'
  | popFront k =>
    obtain ⟨l', he, h'⟩ := (h k).popFront k
    simp only [bank, ListSpec.machine, bankStep, ListSpec.step, he, call_lift_ok, writeBack_pure, true_and]
    exact h.update h'
  | popBack k =>
    obtain ⟨l', he, h'⟩ := (h k).popBack k
    simp only [bank, ListSpec.machine, bankStep, ListSpec.step, he, call_lift_ok, writeBack_pure, true_and]
    exact h.update h'
  | erase k origin pos =>
    simp only [bank, ListSpec.machine, bankStep, ListSpec.step]
    split_ifs with ho
    · subst ho
      obtain ⟨l', it, he, h', hp⟩ := (h origin).erase origin pos
      simp only [(h origin).iterAt_eq, call_lift_ok, pure_bind, he, writeBack_pure, hp, true_and]
      exact h.update h'
    · rw [h.iterAt_other pos _ fun it hit ↦ erase_of_ne (hit ▸ Ne.symm ho) _]
      exact ⟨rfl, h⟩
  | remove k x =>
    obtain ⟨l', he, h'⟩ := (h k).remove k x
    simp only [bank, ListSpec.machine, bankStep, ListSpec.step, he, writeBack_pure, true_and]
    exact h.update h'
  | removeIf k pred =>
    obtain ⟨l', he, h'⟩ := (h k).removeIf k pred
    simp only [bank, ListSpec.machine, bankStep, ListSpec.step, he, writeBack_pure, true_and]
    exact h.update h'
  | clear k =>
    obtain ⟨l', he, h'⟩ := (h k).clear k
    simp only [bank, ListSpec.machine, bankStep, ListSpec.step, he, map_pure, writeBack_pure, true_and]
    exact h.update h'
  | copyConstruct k rhs =>
    obtain ⟨l', he, h'⟩ := (h rhs).copyConstruct k rhs
    simp only [bank, ListSpec.machine, bankStep, ListSpec.step, he, map_pure, writeBack_pure, true_and]
    exact h.update h'
  | moveConstruct k rhs =>
    obtain ⟨l', r', he, h', hr'⟩ := (h rhs).moveConstruct k rhs
    simp only [bank, ListSpec.machine, bankStep, ListSpec.step, he, writeBackPair_pure, true_and]
    exact (h.update h').update hr'
  | copyAssign k rhs =>
    simp only [bank, ListSpec.machine, bankStep, ListSpec.step]
    split_ifs
    · exact ⟨rfl, h⟩
    · obtain ⟨l', he, h'⟩ := (h k).copyAssign (h rhs) k rhs
      simp only [he, map_pure, writeBack_pure, true_and]
      exact h.update h'
  | moveAssign k rhs =>
    simp only [bank, ListSpec.machine, bankStep, ListSpec.step]
    split_ifs
    · exact ⟨rfl, h⟩
    · obtain ⟨l', r', he, h', hr'⟩ := (h k).moveAssign (h rhs) k rhs
      simp only [he, writeBackPair_pure, true_and]
      exact (h.update h').update hr'

/-- **The bank refines the sequences on every run**: from new lists, every run answers what
the sequences answer and ends with each list holding its sequence. -/
theorem bank_refines_sequences (os : List (Op T)) :
    ((bank T capacity).run (fun _ ↦ new) os).2 =
        ((ListSpec.machine T capacity).run (fun _ ↦ []) os).2 ∧
      BankHolds ((bank T capacity).run (fun _ ↦ new) os).1
        ((ListSpec.machine T capacity).run (fun _ ↦ []) os).1 :=
  holds_bankStep.run os (fun _ ↦ holds_new) ((ListSpec.machine T capacity).admits_true _ os)

theorem list_refines_bounded_sequence (os : List (Op T)) :
    ((bank T capacity).run (fun _ ↦ new) os).2 =
        ((ListSpec.machine T capacity).run (fun _ ↦ []) os).2 ∧
      ∀ k, Links (((bank T capacity).run (fun _ ↦ new) os).1 k)
          (((bank T capacity).run (fun _ ↦ new) os).1 k).activeIndices
          (((bank T capacity).run (fun _ ↦ new) os).1 k).freeIndices ∧
        (∀ i ∈ (((bank T capacity).run (fun _ ↦ new) os).1 k).activeIndices,
          (((bank T capacity).run (fun _ ↦ new) os).1 k).prevIdx i < invalidIndex capacity) ∧
        (((bank T capacity).run (fun _ ↦ new) os).1 k).elements =
          ((ListSpec.machine T capacity).run (fun _ ↦ []) os).1 k := by
  obtain ⟨hres, hholds⟩ := @bank_refines_sequences T capacity _ os
  exact ⟨hres, fun k ↦ ⟨(hholds k).links, fun _ hi ↦ (hholds k).links.prev_lt
    (List.mem_cons_of_mem capacity hi), (hholds k).elements_eq⟩⟩

end IoxList

end Iox.Container
