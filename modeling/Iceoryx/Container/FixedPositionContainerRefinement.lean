import Iceoryx.Container.FixedPositionContainer
import Iceoryx.Machine.Run

/-!
# `FixedPositionContainer` refines a map of positions

What a `FixedPositionContainer` is for: it holds at most `CAPACITY` elements, each at a position
that does not change while the element lives. Its contents are then a map from positions to
elements, `ℕ → Option T`, and each operation is a function of that map (`Positions`): `emplace`
takes the least free position, `erase` empties an occupied one and answers the next occupied
position above it, `clear` empties all, and a copy or a move places the elements in the first
positions, in ascending order of their old ones (`Positions.compact`).

`Holds c A` says that the container `c` is well formed and holds `A`. From a container that holds
`A`, each operation answers what the map answers and leaves a container that holds the map's new
contents (`Holds.emplace`, `Holds.erase`, `Holds.clear`, `Holds.copyAndMoveImpl`).

The system is a bank of containers named by index, each call made on one of them and a copy or a
move naming a second. A bank of maps simulates it (`holds_bankStep`), hence on every run: from new
containers the bank answers what the maps answer, and every container ends well formed, holding
its map, with its lists as a caller expects them and its iteration the map's elements in
ascending order of position.
-/

namespace Iox.Container

open Function (update)

/-! ### The contents of a container -/

namespace Positions

variable {T : Type*} (capacity : ℕ)

/-- The least free position below `capacity`. -/
def leastFree (A : ℕ → Option T) : Option ℕ :=
  (List.range capacity).find? fun i ↦ (A i).isNone

/-- The least occupied position above `i` and below `capacity`, or `capacity` when there is
none. -/
def nextOccupied (A : ℕ → Option T) (i : ℕ) : ℕ :=
  ((List.range' (i + 1) (capacity - (i + 1))).find? fun j ↦ (A j).isSome).getD capacity

/-- The elements in ascending order of position. -/
def occupied (A : ℕ → Option T) : List T :=
  (List.range capacity).filterMap A

/-- The elements placed in the first positions, in ascending order of their old ones. -/
def compact (A : ℕ → Option T) : ℕ → Option T :=
  fun k ↦ (occupied capacity A)[k]?

/-- Placing `x`: at the least free position, which is the answer, or nowhere when every position
is taken, and the answer is `capacity`. -/
def emplace (A : ℕ → Option T) (x : T) : (ℕ → Option T) × ℕ :=
  match leastFree capacity A with
  | some i => (update A i (some x), i)
  | none => (A, capacity)

/-- Emptying position `i`, which must be below `capacity` and occupied; the answer is the next
occupied position. -/
def erase (A : ℕ → Option T) (i : ℕ) : Except String ((ℕ → Option T) × ℕ) :=
  if ¬i < capacity then .error "Index out of range"
  else if (A i).isNone then .error "Trying to erase from index pointing to an empty slot!"
  else .ok (update A i none, nextOccupied capacity A i)

variable {capacity} {A : ℕ → Option T}

/-- **`leastFree` is the least free position.** -/
theorem leastFree_eq_some_iff {i : ℕ} :
    leastFree capacity A = some i ↔ i < capacity ∧ A i = none ∧ ∀ j < i, (A j).isSome := by
  simp only [leastFree, List.find?_range_eq_some, Option.isNone_iff_eq_none, List.mem_range,
    Option.not_isNone]
  constructor
  · rintro ⟨hi, hlt, hj⟩
    refine ⟨hlt, hi, fun j hji ↦ ?_⟩
    simpa using hj j hji
  · rintro ⟨hlt, hi, hj⟩
    exact ⟨hi, hlt, fun j hji ↦ by simpa using hj j hji⟩

theorem leastFree_eq_none_iff : leastFree capacity A = none ↔ ∀ i < capacity, (A i).isSome := by
  simp [leastFree, Option.isSome_iff_ne_none]

/-- **`nextOccupied` is the next occupied position** above `i < capacity`: none lies between, and
it is occupied unless it is `capacity`. -/
theorem nextOccupied_spec {i : ℕ} (hi : i < capacity) :
    i < nextOccupied capacity A i ∧ nextOccupied capacity A i ≤ capacity ∧
      (nextOccupied capacity A i < capacity → (A (nextOccupied capacity A i)).isSome) ∧
      ∀ l, i < l → l < nextOccupied capacity A i → A l = none := by
  unfold nextOccupied
  cases hf : (List.range' (i + 1) (capacity - (i + 1))).find? fun j ↦ (A j).isSome with
  | none =>
    rw [List.find?_range'_eq_none] at hf
    simp only [Option.getD_none]
    refine ⟨hi, Nat.le_refl _, fun h ↦ absurd h (Nat.lt_irrefl _), fun l hil hlc ↦ ?_⟩
    simpa using hf l hil (by omega)
  | some j =>
    obtain ⟨hj, hmem, hbefore⟩ := List.find?_range'_eq_some.1 hf
    have hjr := List.mem_range'_1.1 hmem
    refine ⟨by simp only [Option.getD_some]; omega, by simp only [Option.getD_some]; omega,
      fun _ ↦ hj, fun l hil hlj ↦ ?_⟩
    simpa using hbefore l hil hlj

theorem length_occupied_le : (occupied capacity A).length ≤ capacity :=
  Nat.le_trans (List.length_filterMap_le _ _) (Nat.le_of_eq List.length_range)

/-- **Compacting keeps the elements and their order.** -/
theorem occupied_compact : occupied capacity (compact capacity A) = occupied capacity A :=
  IndexFilter.filterMap_range_getElem? _ length_occupied_le

end Positions

/-! ### A bank of containers -/

namespace FixedPositionContainer

variable {T : Type*} {capacity : ℕ}

/-- A call on a bank of containers, each named by its index: `k` is the container the call is
made on, `rhs` the source of a copy or a move, and an iterator is the container it was taken from
and its index. -/
inductive Op (T : Type*)
  | emplace (k : ℕ) (x : T)
  | erase (k index : ℕ)
  | eraseIterator (k origin index : ℕ)
  | clear (k : ℕ)
  | copyConstruct (k rhs : ℕ)
  | moveConstruct (k rhs : ℕ)
  | copyAssign (k rhs : ℕ)
  | moveAssign (k rhs : ℕ)

/-- `erase(Iterator it)` on the container `self` of a bank, for an iterator into the container
`origin` at `index`: `it.origins_from(*this)` compares the two, and the call is then
`erase(it.to_index())`. -/
def eraseIterator (c : FixedPositionContainer T capacity) (self origin index : ℕ) :
    Except String (FixedPositionContainer T capacity × ℕ) :=
  if origin = self then c.erase index else .error "Iterator belongs to a different container!"

/-- The answer of a call that returns an iterator, written back into the bank: the container
takes its new state and the call answers the iterator's index. An `IOX_ENFORCE` that fails ends
the process with its message, and the bank keeps what it had. -/
def writeBack {σ : Type*} (b : ℕ → σ) (k : ℕ) :
    Except String (σ × ℕ) → (ℕ → σ) × Except String (Option ℕ)
  | .ok (c, index) => (update b k c, .ok (some index))
  | .error e => (b, .error e)

/-- One call on the bank. `operator=` does nothing when both sides are the same container. -/
def bankStep (b : ℕ → FixedPositionContainer T capacity) :
    Op T → (ℕ → FixedPositionContainer T capacity) × Except String (Option ℕ)
  | .emplace k x => writeBack b k ((b k).emplace x)
  | .erase k index => writeBack b k ((b k).erase index)
  | .eraseIterator k origin index => writeBack b k ((b k).eraseIterator k origin index)
  | .clear k => (update b k (b k).clear, .ok none)
  | .copyConstruct k rhs => (update b k (b rhs).copyConstruct, .ok none)
  | .moveConstruct k rhs =>
    (update (update b k (b rhs).moveConstruct.1) rhs (b rhs).moveConstruct.2, .ok none)
  | .copyAssign k rhs =>
    if k = rhs then (b, .ok none) else (update b k ((b k).copyAssign (b rhs)), .ok none)
  | .moveAssign k rhs =>
    if k = rhs then (b, .ok none)
    else
      (update (update b k ((b k).moveAssign (b rhs)).1) rhs ((b k).moveAssign (b rhs)).2,
        .ok none)

/-- The bank of containers as a machine. -/
def bank (T : Type*) (capacity : ℕ) :
    Machine (ℕ → FixedPositionContainer T capacity) (Op T) (Except String (Option ℕ)) :=
  ⟨bankStep⟩

/-- One call on a bank of maps: what the call means. -/
def positionsStep (capacity : ℕ) (S : ℕ → ℕ → Option T) :
    Op T → (ℕ → ℕ → Option T) × Except String (Option ℕ)
  | .emplace k x => writeBack S k (.ok (Positions.emplace capacity (S k) x))
  | .erase k index => writeBack S k (Positions.erase capacity (S k) index)
  | .eraseIterator k origin index =>
    writeBack S k (if origin = k then Positions.erase capacity (S k) index
      else .error "Iterator belongs to a different container!")
  | .clear k => (update S k fun _ ↦ none, .ok none)
  | .copyConstruct k rhs => (update S k (Positions.compact capacity (S rhs)), .ok none)
  | .moveConstruct k rhs =>
    (update (update S k (Positions.compact capacity (S rhs))) rhs fun _ ↦ none, .ok none)
  | .copyAssign k rhs =>
    if k = rhs then (S, .ok none) else (update S k (Positions.compact capacity (S rhs)), .ok none)
  | .moveAssign k rhs =>
    if k = rhs then (S, .ok none)
    else (update (update S k (Positions.compact capacity (S rhs))) rhs fun _ ↦ none, .ok none)

/-- The bank of maps as a machine. -/
def positions (T : Type*) (capacity : ℕ) :
    Machine (ℕ → ℕ → Option T) (Op T) (Except String (Option ℕ)) :=
  ⟨positionsStep capacity⟩


/-! ### A container that holds a map -/

section Holds

open IndexFilter Positions

variable {c : FixedPositionContainer T capacity} {A : ℕ → Option T}

/-- Below `CAPACITY`, a slot of a well-formed container is used exactly when it holds an
element. -/
theorem Inv.marked_used_eq (h : Inv c) {i : ℕ} (hi : i < capacity) :
    marked c.status .used i = (c.data i).isSome := by
  rw [Bool.eq_iff_iff, marked_used_iff, h.data_isSome]
  exact ⟨fun hu ↦ ⟨hi, hu⟩, fun hu ↦ hu.2⟩

theorem Inv.freeIndices_eq_filter (h : Inv c) :
    c.freeIndices = (List.range capacity).filter fun i ↦ (c.data i).isNone := by
  refine List.filter_congr fun i hi ↦ ?_
  rw [marked_free_eq_not, h.marked_used_eq (List.mem_range.1 hi), Option.not_isSome]

theorem Inv.above_eq (h : Inv c) (m : ℕ) :
    above (marked c.status .used) m capacity =
      (List.range' (m + 1) (capacity - (m + 1))).filter fun j ↦ (c.data j).isSome :=
  List.filter_congr fun j hj ↦ h.marked_used_eq (by have := List.mem_range'_1.1 hj; omega)

/-- The iteration of a well-formed container is its elements in ascending order of slot. -/
theorem Inv.elements_eq (h : Inv c) : c.elements = occupied capacity c.data := by
  rw [elements, h.iterIndices_eq, usedIndices, List.filterMap_filter, occupied]
  refine List.filterMap_congr fun i hi ↦ ?_
  rw [h.marked_used_eq (List.mem_range.1 hi)]
  cases c.data i <;> rfl

/-- The container `c` is well formed and holds `A`. -/
structure Holds (c : FixedPositionContainer T capacity) (A : ℕ → Option T) : Prop where
  inv : Inv c
  data_eq : c.data = A

theorem holds_new : Holds (new : FixedPositionContainer T capacity) fun _ ↦ none :=
  ⟨inv_new, rfl⟩

/-- The answer of a call that returns an iterator meets the map's answer: both fail with the same
message, or the container holds the map's new contents and the iterators agree. -/
def Answers : Except String (FixedPositionContainer T capacity × ℕ) →
    Except String ((ℕ → Option T) × ℕ) → Prop
  | .ok (c, i), .ok (A, j) => Holds c A ∧ i = j
  | .error e, .error e' => e = e'
  | _, _ => False

/-- **`emplace` places the element at the least free slot**, and answers `end()` exactly when no
slot is free. -/
theorem Holds.emplace (h : Holds c A) (x : T) :
    Answers (c.emplace x) (.ok (Positions.emplace capacity A x)) := by
  have hleast : leastFree capacity A = c.freeIndices.head? := by
    rw [leastFree, ← List.head?_filter, h.inv.freeIndices_eq_filter, h.data_eq]
  cases hfull : c.full with
  | true =>
    rw [emplace_of_full hfull, Positions.emplace, hleast, h.inv.full_iff.1 hfull]
    exact ⟨h, rfl⟩
  | false =>
    obtain ⟨c', hc', hinv', hdata'⟩ := emplace_spec h.inv hfull x
    rw [hc', Positions.emplace, hleast,
      (h.inv.freeIndices_eq_cons (by simpa [full] using hfull)).1, List.head?_cons]
    exact ⟨⟨hinv', by rw [hdata', h.data_eq]⟩, rfl⟩

/-- **`erase` of a used slot empties exactly that slot** and answers the next used slot; the
other calls fail with the source's message. -/
theorem Holds.erase (h : Holds c A) (i : ℕ) :
    Answers (c.erase i) (Positions.erase capacity A i) := by
  by_cases hi : i < capacity
  · by_cases hused : c.status i = .used
    · obtain ⟨c', hc', hinv', hdata'⟩ := erase_spec h.inv hi hused
      have hsome : (A i).isSome := h.data_eq ▸ (h.inv.data_isSome i).2 ⟨hi, hused⟩
      rw [hc', Positions.erase, if_neg (not_not.2 hi),
        if_neg (by rw [← Option.not_isSome, hsome]; decide)]
      refine ⟨⟨hinv', by rw [hdata', h.data_eq]⟩, ?_⟩
      rw [nextOccupied, ← List.head?_filter, ← h.data_eq, ← h.inv.above_eq,
        List.headD_eq_head?_getD]
    · have hnone : (A i).isNone := by
        rw [← h.data_eq, h.inv.data_eq_none fun hu ↦ hused hu.2]
        rfl
      rw [FixedPositionContainer.erase, if_neg (not_not.2 hi), if_pos hused, Positions.erase,
        if_neg (not_not.2 hi), if_pos hnone]
      rfl
  · rw [FixedPositionContainer.erase, if_pos hi, Positions.erase, if_pos hi]
    rfl

theorem Holds.eraseIterator (h : Holds c A) (self origin index : ℕ) :
    Answers (c.eraseIterator self origin index)
      (if origin = self then Positions.erase capacity A index
        else .error "Iterator belongs to a different container!") := by
  unfold FixedPositionContainer.eraseIterator
  split_ifs
  · exact h.erase index
  · rfl

/-- **`clear` empties the container.** -/
theorem Holds.clear (h : Holds c A) : Holds c.clear fun _ ↦ none :=
  ⟨h.inv.clear, funext fun i ↦ by
    by_cases hi : i < capacity
    · exact if_pos hi
    · exact (if_neg hi).trans (h.inv.data_eq_none fun h' ↦ hi h'.1)⟩

/-- **A copy or a move holds the source's map, compacted.** -/
theorem Holds.copyAndMoveImpl {isCtor : Bool} {rhs : FixedPositionContainer T capacity}
    {B : ℕ → Option T} (hrhs : Holds rhs B)
    (hlive : ∀ k, (c.data k).isSome → k < capacity ∧ c.status k = .used ∧ isCtor = false) :
    Holds (copyAndMoveImpl isCtor c rhs) (compact capacity B) :=
  ⟨(copyAndMoveImpl_spec hrhs.inv hlive).1, funext fun k ↦ by
    rw [copyAndMoveImpl_data hrhs.inv hlive, hrhs.inv.elements_eq, hrhs.data_eq]
    rfl⟩

end Holds

/-! ### The bank simulates a bank of maps -/

section Bank

variable {b : ℕ → FixedPositionContainer T capacity} {S : ℕ → ℕ → Option T}

/-- Each container of the bank holds the map of the same index. -/
def BankHolds (b : ℕ → FixedPositionContainer T capacity) (S : ℕ → ℕ → Option T) : Prop :=
  ∀ k, Holds (b k) (S k)

theorem BankHolds.update (h : BankHolds b S) {k : ℕ} {c : FixedPositionContainer T capacity}
    {A : ℕ → Option T} (hc : Holds c A) : BankHolds (update b k c) (update S k A) := by
  intro j
  by_cases hj : j = k
  · subst hj
    rw [Function.update_self, Function.update_self]
    exact hc
  · rw [Function.update_of_ne hj, Function.update_of_ne hj]
    exact h j

/-- A call whose answer meets the map's keeps the banks related and answers the same. -/
theorem BankHolds.writeBack (h : BankHolds b S) {k : ℕ}
    {o : Except String (FixedPositionContainer T capacity × ℕ)}
    {o' : Except String ((ℕ → Option T) × ℕ)} (ho : Answers o o') :
    (writeBack b k o).2 = (writeBack S k o').2 ∧
      BankHolds (writeBack b k o).1 (writeBack S k o').1 := by
  match o, o', ho with
  | .ok (c, i), .ok (A, j), ⟨hc, hij⟩ => exact ⟨by simp only [FixedPositionContainer.writeBack, hij], h.update hc⟩
  | .error e, .error e', he => exact ⟨by rw [show e = e' from he]; rfl, h⟩

/-- **One call on the bank simulates one call on the maps**, whatever the call. -/
theorem holds_bankStep :
    (bank T capacity).Simulation (positions T capacity) (fun _ _ ↦ True) BankHolds := by
  intro b S o h _
  cases o with
  | emplace k x => exact h.writeBack ((h k).emplace x)
  | erase k index => exact h.writeBack ((h k).erase index)
  | eraseIterator k origin index => exact h.writeBack ((h k).eraseIterator k origin index)
  | clear k => exact ⟨rfl, h.update (h k).clear⟩
  | copyConstruct k rhs => exact ⟨rfl, h.update ((h rhs).copyAndMoveImpl new_live)⟩
  | moveConstruct k rhs =>
    exact ⟨rfl, (h.update ((h rhs).copyAndMoveImpl new_live)).update (h rhs).clear⟩
  | copyAssign k rhs =>
    simp only [bank, positions, bankStep, positionsStep]
    split_ifs
    · exact ⟨rfl, h⟩
    · exact ⟨rfl, h.update ((h rhs).copyAndMoveImpl (h k).inv.live)⟩
  | moveAssign k rhs =>
    simp only [bank, positions, bankStep, positionsStep]
    split_ifs
    · exact ⟨rfl, h⟩
    · exact ⟨rfl, (h.update ((h rhs).copyAndMoveImpl (h k).inv.live)).update (h rhs).clear⟩

/-- **The bank refines the maps on every run**: from new containers, every run answers what the
maps answer and ends with each container holding its map. -/
theorem bank_refines_positions (os : List (Op T)) :
    ((bank T capacity).run (fun _ ↦ new) os).2 =
        ((positions T capacity).run (fun _ _ ↦ none) os).2 ∧
      BankHolds ((bank T capacity).run (fun _ ↦ new) os).1
        ((positions T capacity).run (fun _ _ ↦ none) os).1 :=
  holds_bankStep.run os (fun _ ↦ holds_new) ((positions T capacity).admits_true _ os)

theorem fixedPositionContainer_keeps_lists_and_positions (os : List (Op T)) :
    ((bank T capacity).run (fun _ ↦ new) os).2 =
        ((positions T capacity).run (fun _ _ ↦ none) os).2 ∧
      ∀ k, Lists (((bank T capacity).run (fun _ ↦ new) os).1 k) ∧
        (((bank T capacity).run (fun _ ↦ new) os).1 k).data =
          ((positions T capacity).run (fun _ _ ↦ none) os).1 k ∧
        (((bank T capacity).run (fun _ ↦ new) os).1 k).elements =
          Positions.occupied capacity (((positions T capacity).run (fun _ _ ↦ none) os).1 k) := by
  obtain ⟨hres, hholds⟩ := @bank_refines_positions T capacity os
  refine ⟨hres, fun k ↦ ⟨(hholds k).inv.lists, (hholds k).data_eq, ?_⟩⟩
  rw [(hholds k).inv.elements_eq, (hholds k).data_eq]

end Bank

end FixedPositionContainer

end Iox.Container
