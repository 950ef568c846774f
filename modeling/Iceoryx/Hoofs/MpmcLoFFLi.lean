import Mathlib.Algebra.Group.Nat.Defs
import Mathlib.Data.Finset.Card
import Mathlib.Data.List.Range
import Iceoryx.Machine.Run
import Iceoryx.Data.NextChain

/-!
# `MpmcLoFFLi`: the lock-free free list of indices

`iox::concurrent::MpmcLoFFLi` (`mpmc_loffli.cpp`) hands out the indices `0, …, capacity - 1` of a
memory pool. It is an intrusive singly linked list threaded through the array behind
`m_nextFreeIndex`: the head node names the first free index, the array entry of a free index
names the next one, and the list ends at the index `m_size`. A handed-out index has its entry
overwritten with the marker `m_invalidIndex = m_size + 1`, and `push` refuses any index whose
entry does not carry the marker; that check is the only protection against a double free.

## The model

The state is the array as a function `ℕ → ℕ`, the head node's two fields and the two sizes;
`pop` and `push` are the source's bodies with the compare-exchange loops run once, as they are
in a sequential run. The model starts from `init` on a default-constructed object, so the head
index is `0` and `m_nextFreeIndex` is the non-null pointer `init` was given: the null-pointer
branches of `pop` and `push` never fire and are not modelled. `init` returns `none` where an
`IOX_ENFORCE` of the source terminates the process.

## What is proved

A run is tracked together with its **out list**, the indices returned by successful pops and not
yet successfully pushed back (`trackedStep`). `FreeListInv` is the invariant that makes the list
exact: the out list has no duplicates and carries the marker, and the chain from the head visits
every other index below the capacity exactly once and ends at the capacity. It holds after `init`
(`freeListInv_init`) and every call keeps it (`freeListInv_trackedStep`); under it a pop succeeds
exactly when fewer than `capacity` indices are out (`pop_isSome_iff`), a push succeeds exactly on
an out index (`push_ok_iff`), and a refused push changes nothing (`push_of_not_ok`).

The marker cannot be mistaken for a link because every link is a free index or the end `m_size`
(`NextChain.next_mem_or_eq`), both below `m_size + 1`.
-/

namespace Iox.Concurrent

/-- An initialised `MpmcLoFFLi`: `m_size`, `m_invalidIndex`, the head node `m_head` and the
index array behind `m_nextFreeIndex`. -/
structure MpmcLoFFLi where
  /-- `m_size`, the number of managed indices. -/
  size : ℕ
  /-- `m_invalidIndex`, the marker of a handed-out index. -/
  invalidIndex : ℕ
  /-- `m_head.indexToNextFreeIndex`. -/
  head : ℕ
  /-- `m_head.abaCounter`, a wrapping `uint32_t`. -/
  abaCounter : UInt32
  /-- The array `m_nextFreeIndex` points to. -/
  nextFreeIndex : ℕ → ℕ

namespace MpmcLoFFLi

/-- `INTERNALLY_RESERVED_INDICES` of `init`. -/
def internallyReservedIndices : ℕ := 1

/-- `std::numeric_limits<Index_t>::max()` for `Index_t = uint32_t`. -/
def indexMax : ℕ := 2 ^ 32 - 1

/-- The state `init` leaves in a default-constructed free list (head `{0, 1}`): the array
entry of every `i ≤ capacity` linked to `i + 1`. -/
def initialState (capacity : ℕ) : MpmcLoFFLi where
  size := capacity
  invalidIndex := capacity + 1
  head := 0
  abaCounter := 1
  nextFreeIndex := fun i ↦ i + 1

/-- `init(freeIndicesMemory, capacity)`: the two `IOX_ENFORCE`s, then `initialState`. -/
def init (capacity : ℕ) : Option MpmcLoFFLi :=
  if 0 < capacity ∧ capacity < indexMax - internallyReservedIndices then
    some (initialState capacity)
  else
    none

/-- The enforcement of `init` is strict: `capacity = 2^32 - 2`, below `2^32 - 1`, already
terminates the process, so no free list of that capacity exists. -/
theorem init_two_pow_32_sub_two : ¬ ∃ l, init (2 ^ 32 - 2) = some l := by
  rintro ⟨l, hl⟩
  simp [init, indexMax, internallyReservedIndices] at hl

/-- `sizeof(Index_t)`, `Index_t = uint32_t`. -/
def sizeOfIndex : ℕ := 4

/-- `requiredIndexMemorySize(capacity)`: the array behind `m_nextFreeIndex` has one entry more
than the capacity; computed in `uint64_t`. -/
def requiredIndexMemorySize (capacity : ℕ) : ℕ := (capacity + 1) * sizeOfIndex % 2 ^ 64

/-- `pop`: the list is empty when the head index is at least `m_size`; otherwise the head index
is handed out, the head moves to its link, and its entry is overwritten with the marker. -/
def pop (l : MpmcLoFFLi) : MpmcLoFFLi × Option ℕ :=
  if l.size ≤ l.head then
    (l, none)
  else
    ({ l with head := l.nextFreeIndex l.head, abaCounter := l.abaCounter + 1,
              nextFreeIndex := Function.update l.nextFreeIndex l.head l.invalidIndex },
     some l.head)

/-- `push(index)`: refused unless `index < m_size` and its entry carries the marker; otherwise
the entry is linked to the old head and `index` becomes the head. -/
def push (l : MpmcLoFFLi) (index : ℕ) : MpmcLoFFLi × Bool :=
  if l.size ≤ index ∨ l.nextFreeIndex index ≠ l.invalidIndex then
    (l, false)
  else
    ({ l with nextFreeIndex := Function.update l.nextFreeIndex index l.head, head := index,
              abaCounter := l.abaCounter + 1 }, true)

/-- A call on the free list. -/
inductive Op where
  | pop
  | push (index : ℕ)
  deriving DecidableEq, Repr

/-- What a call returns: the popped index (if any), or whether a push was accepted. -/
inductive Result where
  | popped (index : Option ℕ)
  | pushed (ok : Bool)
  deriving DecidableEq, Repr

/-- One call, tracking the **out list**: a successful pop appends the index it returned, a
successful push removes the index it returned. -/
def trackedStep : MpmcLoFFLi × List ℕ → Op → (MpmcLoFFLi × List ℕ) × Result
  | (l, out), .pop => (((pop l).1, out ++ (pop l).2.toList), .popped (pop l).2)
  | (l, out), .push i =>
    (((push l i).1, if (push l i).2 then out.erase i else out), .pushed (push l i).2)

/-- The free list with its out list, as a machine. -/
def tracked : Machine (MpmcLoFFLi × List ℕ) Op Result := ⟨trackedStep⟩

/-! ### The invariant -/

/-- The free list is **exact** for the out list `out`: the marker is `m_size + 1`, the out list
has no duplicates and every out index is below `m_size` and carries the marker, and following
the links from the head visits every other index below `m_size` once and ends at `m_size`. -/
structure FreeListInv (l : MpmcLoFFLi) (out : List ℕ) : Prop where
  invalidIndex_eq : l.invalidIndex = l.size + 1
  out_nodup : out.Nodup
  out_lt : ∀ i ∈ out, i < l.size
  out_marked : ∀ i ∈ out, l.nextFreeIndex i = l.invalidIndex
  free_chain : ∃ free : List ℕ, free.Nodup ∧ (∀ i, i ∈ free ↔ i < l.size ∧ i ∉ out) ∧
    NextChain l.nextFreeIndex l.head free l.size

/-- `init` establishes the invariant with nothing out: the free list is `0, …, capacity - 1`. -/
theorem freeListInv_init {capacity : ℕ} {l : MpmcLoFFLi} (h : init capacity = some l) :
    FreeListInv l [] := by
  unfold init at h
  split at h
  · cases h
    refine ⟨rfl, List.nodup_nil, by simp, by simp, List.range' 0 capacity, List.nodup_range', ?_,
      ?_⟩
    · intro i
      simp [List.mem_range', initialState]
    · simpa [initialState] using NextChain.succ_range' 0 capacity
  · cases h

/-- A free list holds the indices below `m_size` that are not out, so the two lengths add up to
`m_size`. -/
theorem length_free_add_length_out {n : ℕ} {free out : List ℕ} (hfree : free.Nodup)
    (hout : out.Nodup) (hlt : ∀ i ∈ out, i < n) (hmem : ∀ i, i ∈ free ↔ i < n ∧ i ∉ out) :
    free.length + out.length = n := by
  have hunion : free.toFinset ∪ out.toFinset = Finset.range n := by
    ext i
    by_cases hi : i ∈ out
    · simp [hi, hlt i hi]
    · simp [hi, hmem i]
  have hdisj : Disjoint free.toFinset out.toFinset := by
    rw [Finset.disjoint_left]
    intro i hf ho
    exact ((hmem i).1 (List.mem_toFinset.1 hf)).2 (List.mem_toFinset.1 ho)
  calc free.length + out.length = free.toFinset.card + out.toFinset.card := by
        rw [List.toFinset_card_of_nodup hfree, List.toFinset_card_of_nodup hout]
    _ = (free.toFinset ∪ out.toFinset).card := (Finset.card_union_of_disjoint hdisj).symm
    _ = n := by rw [hunion, Finset.card_range]

variable {l : MpmcLoFFLi} {out : List ℕ}

/-- A link stored at a free index is at most `m_size`, so it is never the marker. -/
theorem FreeListInv.link_ne_invalid (hinv : FreeListInv l out) {i : ℕ} (hi : i < l.size)
    (hout : i ∉ out) : l.nextFreeIndex i ≠ l.invalidIndex := by
  obtain ⟨free, -, hmem, hchain⟩ := hinv.free_chain
  have hle : l.nextFreeIndex i ≤ l.size := by
    rcases hchain.next_mem_or_eq ((hmem i).2 ⟨hi, hout⟩) with h | h
    · exact ((hmem _).1 h).1.le
    · exact h.le
  rw [hinv.invalidIndex_eq]
  omega

/-! ### `pop` -/

/-- A pop on an empty list returns `none` and changes nothing. -/
theorem pop_of_size_le (h : l.size ≤ l.head) : pop l = (l, none) :=
  if_pos h

/-- A pop on a nonempty list hands out the head index. -/
theorem pop_of_lt_size (h : l.head < l.size) :
    pop l =
      ({ l with
          head := l.nextFreeIndex l.head
          abaCounter := l.abaCounter + 1
          nextFreeIndex := Function.update l.nextFreeIndex l.head l.invalidIndex },
        some l.head) :=
  if_neg (Nat.not_le.2 h)

/-- A refused pop leaves the free list as it was. -/
theorem pop_of_none (hpop : (pop l).2 = none) : (pop l).1 = l := by
  by_cases h : l.size ≤ l.head
  · rw [pop_of_size_le h]
  · rw [pop_of_lt_size (Nat.lt_of_not_le h)] at hpop
    cases hpop

/-- **A pop succeeds exactly when fewer than `m_size` indices are out.** -/
theorem pop_isSome_iff (hinv : FreeListInv l out) : (pop l).2.isSome ↔ out.length < l.size := by
  obtain ⟨free, hnodup, hmem, hchain⟩ := hinv.free_chain
  have hlen := length_free_add_length_out hnodup hinv.out_nodup hinv.out_lt hmem
  cases free with
  | nil =>
    -- the chain is empty, so the head is the end `m_size` and every index is out
    have hhead : l.head = l.size := hchain
    rw [pop_of_size_le hhead.ge]
    simp only [List.length_nil, Nat.zero_add] at hlen
    simp only [Option.isSome_none, Bool.false_eq_true, false_iff, Nat.not_lt]
    exact hlen.ge
  | cons x xs =>
    obtain ⟨rfl, -⟩ := hchain
    have hx : l.head < l.size := ((hmem _).1 List.mem_cons_self).1
    rw [pop_of_lt_size hx]
    simp only [List.length_cons] at hlen
    simp only [Option.isSome_some, true_iff]
    omega

/-- A successful pop returns the head of the free list, an index below `m_size` that is not
out, and leaves the invariant for the out list extended by it. -/
theorem freeListInv_pop {i : ℕ} (hinv : FreeListInv l out) (hpop : (pop l).2 = some i) :
    i < l.size ∧ i ∉ out ∧ FreeListInv (pop l).1 (out ++ [i]) := by
  have hhead : l.head < l.size := by
    by_contra h
    rw [pop_of_size_le (Nat.le_of_not_lt h)] at hpop
    cases hpop
  rw [pop_of_lt_size hhead] at hpop ⊢
  cases hpop
  obtain ⟨free, hnodup, hmem, hchain⟩ := hinv.free_chain
  cases free with
  | nil => exact absurd (show l.head = l.size from hchain) (by omega)
  | cons x xs =>
    obtain ⟨rfl, hrest⟩ := hchain
    have hxout : l.head ∉ out := ((hmem _).1 List.mem_cons_self).2
    have hxs : l.head ∉ xs := (List.nodup_cons.1 hnodup).1
    refine ⟨hhead, hxout, hinv.invalidIndex_eq, ?_, ?_, ?_, xs, (List.nodup_cons.1 hnodup).2,
      ?_, hrest.update hxs⟩
    · exact List.nodup_append.2 ⟨hinv.out_nodup, List.nodup_singleton _,
        fun a ha b hb hab ↦ hxout (by rw [List.mem_singleton.1 hb] at hab; exact hab ▸ ha)⟩
    · intro j hj
      rcases List.mem_append.1 hj with hj | hj
      · exact hinv.out_lt j hj
      · rw [List.mem_singleton.1 hj]
        exact hhead
    · intro j hj
      rcases List.mem_append.1 hj with hj | hj
      · have hne : j ≠ l.head := fun h ↦ hxout (h ▸ hj)
        simpa [Function.update_of_ne hne] using hinv.out_marked j hj
      · rw [List.mem_singleton.1 hj]
        simp
    · intro j
      have := hmem j
      constructor
      · intro hj
        have hne : j ≠ l.head := fun h ↦ hxs (h ▸ hj)
        simp only [List.mem_cons, hj, or_true, true_iff] at this
        simpa [hne] using this
      · rintro ⟨hj, hjout⟩
        simp only [List.mem_append, List.mem_singleton, not_or] at hjout
        simpa [hjout.2, hj, hjout.1] using this

/-- The invariant reads the out list only through its members and its lack of duplicates. -/
theorem FreeListInv.perm {out' : List ℕ} (hinv : FreeListInv l out) (hp : out.Perm out') :
    FreeListInv l out' := by
  obtain ⟨free, hnodup, hmem, hchain⟩ := hinv.free_chain
  refine ⟨hinv.invalidIndex_eq, hp.nodup_iff.1 hinv.out_nodup,
    fun i hi ↦ hinv.out_lt i (hp.mem_iff.2 hi), fun i hi ↦ hinv.out_marked i (hp.mem_iff.2 hi),
    free, hnodup, fun i ↦ ?_, hchain⟩
  rw [hmem i, hp.mem_iff]

/-- No more indices are out than the list manages. -/
theorem FreeListInv.length_le (hinv : FreeListInv l out) : out.length ≤ l.size := by
  have hsub : out.Subperm (List.range l.size) :=
    hinv.out_nodup.subperm fun i hi ↦ List.mem_range.2 (hinv.out_lt i hi)
  simpa using hsub.length_le

/-! ### `push` -/

/-- A push of an index below `m_size` that carries the marker links it in as the new head. -/
theorem push_of_marked {i : ℕ} (hi : i < l.size) (hm : l.nextFreeIndex i = l.invalidIndex) :
    push l i =
      ({ l with
          nextFreeIndex := Function.update l.nextFreeIndex i l.head
          head := i
          abaCounter := l.abaCounter + 1 },
        true) :=
  if_neg (by simp [hi, hm])

/-- **A refused push changes nothing.** -/
theorem push_of_not_ok {i : ℕ} (hok : (push l i).2 = false) : (push l i).1 = l := by
  unfold push at hok ⊢
  split
  · rfl
  · rename_i hcond
    rw [if_neg hcond] at hok
    cases hok

/-- **A push succeeds exactly on an out index**: an index at or beyond `m_size`, one never
popped, or one already pushed back is refused. -/
theorem push_ok_iff (hinv : FreeListInv l out) (i : ℕ) : (push l i).2 = true ↔ i ∈ out := by
  constructor
  · intro hok
    by_contra hout
    by_cases hi : i < l.size
    · -- a free index holds a link, never the marker, so the check refuses it
      have hne := hinv.link_ne_invalid hi hout
      have : push l i = (l, false) := if_pos (Or.inr hne)
      rw [this] at hok
      cases hok
    · have : push l i = (l, false) := if_pos (Or.inl (Nat.le_of_not_lt hi))
      rw [this] at hok
      cases hok
  · intro hout
    rw [push_of_marked (hinv.out_lt i hout) (hinv.out_marked i hout)]

/-- A successful push puts the index back at the head of the free list and leaves the
invariant for the out list without it. -/
theorem freeListInv_push {i : ℕ} (hinv : FreeListInv l out) (hok : (push l i).2 = true) :
    FreeListInv (push l i).1 (out.erase i) := by
  have hiout : i ∈ out := (push_ok_iff hinv i).1 hok
  have hilt := hinv.out_lt i hiout
  rw [push_of_marked hilt (hinv.out_marked i hiout)]
  obtain ⟨free, hnodup, hmem, hchain⟩ := hinv.free_chain
  have hifree : i ∉ free := fun h ↦ ((hmem i).1 h).2 hiout
  refine ⟨hinv.invalidIndex_eq, hinv.out_nodup.erase i,
    fun j hj ↦ hinv.out_lt j (List.mem_of_mem_erase hj), ?_, i :: free,
    List.nodup_cons.2 ⟨hifree, hnodup⟩, ?_, hchain.cons_update hifree⟩
  · intro j hj
    have hne : j ≠ i := fun h ↦ (hinv.out_nodup.not_mem_erase) (h ▸ hj)
    simpa [Function.update_of_ne hne] using hinv.out_marked j (List.mem_of_mem_erase hj)
  · intro j
    by_cases hji : j = i
    · subst hji
      simp [hilt, hinv.out_nodup.not_mem_erase]
    · simp [hji, hinv.out_nodup.mem_erase_iff, hmem j]

/-! ### Runs -/

theorem size_pop (l : MpmcLoFFLi) : (pop l).1.size = l.size := by
  unfold pop
  split <;> rfl

theorem size_push (l : MpmcLoFFLi) (i : ℕ) : (push l i).1.size = l.size := by
  unfold push
  split <;> rfl

/-- No call changes `m_size`. -/
theorem size_trackedStep (n : ℕ) : tracked.Invariant (fun _ _ ↦ True) (fun g ↦ g.1.size = n) := by
  rintro ⟨l, out⟩ o hn -
  cases o with
  | pop => exact (size_pop l).trans hn
  | push i => exact (size_push l i).trans hn

/-- **Every call keeps the invariant**, with the out list that `trackedStep` keeps: the indices
popped and not yet pushed back. -/
theorem freeListInv_trackedStep : tracked.Invariant (fun _ _ ↦ True)
    (fun g ↦ FreeListInv g.1 g.2) := by
  rintro ⟨l, out⟩ o hinv -
  cases o with
  | pop =>
    show FreeListInv (pop l).1 (out ++ (pop l).2.toList)
    rcases hp : (pop l).2 with _ | i
    · simpa [pop_of_none hp] using hinv
    · simpa using (freeListInv_pop hinv hp).2.2
  | push i =>
    show FreeListInv (trackedStep (l, out) (.push i)).1.1 (trackedStep (l, out) (.push i)).1.2
    simp only [trackedStep]
    cases hok : (push l i).2
    · simpa [push_of_not_ok hok] using hinv
    · simpa using freeListInv_push hinv hok

/-- **`MpmcLoFFLi` never hands out an index twice and refuses every invalid release.** After
`init` with `0 < capacity < 2^32 - 2`, at every point of every run, with the out list tracked as
the indices popped and not yet pushed back: the out list has no duplicates; following the links
from the head visits exactly the indices below `capacity` that are not out, each once, and ends at
`capacity`; the next pop succeeds iff fewer than `capacity` indices are out; the next push
succeeds iff its index is out; and a refused push changes nothing. -/
theorem loffli_hands_out_each_index_once {capacity : ℕ} (hpos : 0 < capacity)
    (hcap : capacity < 2 ^ 32 - 2) :
    ∃ l, init capacity = some l ∧ ∀ ops : List Op,
      (tracked.run (l, []) ops).1.2.Nodup ∧
      (∃ free : List ℕ, free.Nodup ∧
        (∀ i, i ∈ free ↔ i < capacity ∧ i ∉ (tracked.run (l, []) ops).1.2) ∧
        NextChain (tracked.run (l, []) ops).1.1.nextFreeIndex (tracked.run (l, []) ops).1.1.head
          free capacity) ∧
      ((pop (tracked.run (l, []) ops).1.1).2.isSome ↔
        (tracked.run (l, []) ops).1.2.length < capacity) ∧
      (∀ i, (push (tracked.run (l, []) ops).1.1 i).2 = true ↔ i ∈ (tracked.run (l, []) ops).1.2) ∧
      (∀ i, (push (tracked.run (l, []) ops).1.1 i).2 = false →
        (push (tracked.run (l, []) ops).1.1 i).1 = (tracked.run (l, []) ops).1.1) := by
  have hinit : init capacity = some (initialState capacity) :=
    if_pos ⟨hpos, by simp only [indexMax, internallyReservedIndices]; omega⟩
  refine ⟨_, hinit, fun ops ↦ ?_⟩
  set g := (tracked.run (_, []) ops).1 with hg
  have hinv : FreeListInv g.1 g.2 :=
    freeListInv_trackedStep.run ops (freeListInv_init hinit) (tracked.admits_true _ ops)
  have hsize : g.1.size = capacity :=
    (size_trackedStep capacity).run ops rfl (tracked.admits_true _ ops)
  obtain ⟨free, hnodup, hmem, hchain⟩ := hinv.free_chain
  rw [hsize] at hmem hchain
  refine ⟨hinv.out_nodup, ⟨free, hnodup, hmem, hchain⟩, ?_, push_ok_iff hinv,
    fun i ↦ push_of_not_ok⟩
  rw [← hsize]
  exact pop_isSome_iff hinv

/-- The theorem at capacity one: the only index is handed out at most once. -/
theorem loffli_hands_out_each_index_once_capacity_one :
    0 < 1 ∧ 1 < 2 ^ 32 - 2 ∧ ∃ l, init 1 = some l ∧ ∀ ops : List Op,
      (tracked.run (l, []) ops).1.2.Nodup ∧
      (∃ free : List ℕ, free.Nodup ∧
        (∀ i, i ∈ free ↔ i < 1 ∧ i ∉ (tracked.run (l, []) ops).1.2) ∧
        NextChain (tracked.run (l, []) ops).1.1.nextFreeIndex (tracked.run (l, []) ops).1.1.head
          free 1) ∧
      ((pop (tracked.run (l, []) ops).1.1).2.isSome ↔
        (tracked.run (l, []) ops).1.2.length < 1) ∧
      (∀ i, (push (tracked.run (l, []) ops).1.1 i).2 = true ↔ i ∈ (tracked.run (l, []) ops).1.2) ∧
      (∀ i, (push (tracked.run (l, []) ops).1.1 i).2 = false →
        (push (tracked.run (l, []) ops).1.1 i).1 = (tracked.run (l, []) ops).1.1) :=
  ⟨by decide, by decide, loffli_hands_out_each_index_once (by decide) (by decide)⟩

end MpmcLoFFLi

end Iox.Concurrent
