import Iceoryx.Data.Holdings
import Iceoryx.Data.NextChain
import Iceoryx.Machine.Run
import Iceoryx.Mepoo.MemoryManager

/-!
# `UsedChunkList`

A sender and a receiver record every chunk their user holds in a `UsedChunkList`
(`used_chunk_list.inl`), so that RouDi can release them if the process dies. The list is an
array of `Capacity` slots; `m_listIndices` threads two singly linked lists through them, the
used list from `m_usedListHead` and the free list from `m_freeListHead`, both ended by
`INVALID_INDEX = Capacity`. A used slot holds a `ShmSafeUnmanagedChunk`, that is one reference
to a chunk, named here by the index of its `ChunkManagement`.

* `insert` takes the head of the free list, stores the chunk there and makes it the head of the
  used list;
* `remove` walks the used list for the first slot whose chunk has the requested header, releases
  it into the caller's `SharedChunk`, and moves the slot to the free list;
* `cleanup` releases every slot, in the order of the array, and initialises the list again.

## What is proved

`Inv` says that the two chains partition the slots, that used slots hold a chunk and free
slots nothing. It holds after `init` and is kept by `insert` and `remove`. The references the
list holds are `contents`, read from the slots in array order. `insert_spec`, `remove_spec` and
`cleanup_spec` say how each call changes them: an accepted insert adds the chunk, a successful
remove hands out exactly one chunk with the requested header, and a remove that finds nothing
leaves the list as it was. The walk of `remove` always reaches the end of the used list within
its `Capacity + 1` passes, so the loop, modelled with fuel, never runs out.

Over whole runs of calls (`Call`, `call`) the list is a bounded multiset of chunks
(`BoundedMultiset`): `insert` succeeds exactly below capacity, and read against the reference
counts of a `MemoryManager` (`MemoryManager.Owns`) the slot of an inserted chunk holds one
reference of its own, `remove` moves the slot's reference to the caller, and `cleanup` drops
every reference once. `insert` takes a `SharedChunk`, which may be null (`none`); the list
stays well formed only when it is not, which is the callers' precondition (`Call.nonNull`): each
passes a chunk it holds.
-/

namespace Iox.Popo

/-- A `UsedChunkList<Capacity>`. -/
structure UsedChunkList where
  /-- `Capacity`, which is also `INVALID_INDEX`. -/
  capacity : ℕ
  /-- `m_usedListHead`. -/
  usedListHead : ℕ
  /-- `m_freeListHead`. -/
  freeListHead : ℕ
  /-- `m_listIndices`. -/
  listIndices : ℕ → ℕ
  /-- `m_listData`: the chunk a slot holds; `none` is `DATA_ELEMENT_LOGICAL_NULLPTR`. -/
  listData : ℕ → Option ℕ

namespace UsedChunkList

variable {β : Type*} [DecidableEq β]

/-- `INVALID_INDEX`. -/
def invalidIndex (l : UsedChunkList) : ℕ := l.capacity

/-- The list `init()` leaves: slot `i` links to `i + 1` (for the last slot that is
`INVALID_INDEX`, which the source writes again), the used list is empty, and no slot holds a
chunk. -/
def init (capacity : ℕ) : UsedChunkList where
  capacity
  usedListHead := capacity
  freeListHead := 0
  listIndices := fun i ↦ i + 1
  listData := fun _ ↦ none

/-- `insert(chunk)`: the head of the free list stores `DataElement_t(chunk)` and becomes the head
of the used list; `false` when the free list is empty. A null `SharedChunk` (`none`) is stored as
the logical nullptr. -/
def insert (l : UsedChunkList) (chunk : Option ℕ) : UsedChunkList × Bool :=
  if l.freeListHead ≠ l.invalidIndex then
    let nextFree := l.listIndices l.freeListHead
    ({ l with
        listIndices := Function.update l.listIndices l.freeListHead l.usedListHead
        usedListHead := l.freeListHead
        listData := Function.update l.listData l.freeListHead chunk
        freeListHead := nextFree }, true)
  else
    (l, false)

/-- The body of `remove` at a matching slot `current` whose predecessor on the used list is
`previous`: the slot's chunk is released, the slot leaves the used list and heads the free
list. -/
def unlink (l : UsedChunkList) (previous current : ℕ) : UsedChunkList :=
  let listIndices := if current = l.usedListHead then l.listIndices
    else Function.update l.listIndices previous (l.listIndices current)
  { l with
    usedListHead := if current = l.usedListHead then l.listIndices current else l.usedListHead
    listIndices := Function.update listIndices current l.freeListHead
    listData := Function.update l.listData current none
    freeListHead := current }

/-- One pass of the loop of `remove(chunkHeader, chunk)` at `(previous, current)`: it leaves at
the end of the used list with nothing, or at a slot whose chunk has the header `chunkHeader`;
otherwise it goes on to the next slot. -/
def removeStep (chunkHeaderOf : ℕ → β) (chunkHeader : β) (l : UsedChunkList) (pos : ℕ × ℕ) :
    (ℕ × ℕ) ⊕ (UsedChunkList × Option ℕ) :=
  if pos.2 = l.invalidIndex then
    .inr (l, none)
  else
    match l.listData pos.2 with
    | some chunk =>
      if chunkHeaderOf chunk = chunkHeader then .inr (l.unlink pos.1 pos.2, some chunk)
      else .inl (pos.2, l.listIndices pos.2)
    | none => .inl (pos.2, l.listIndices pos.2)

/-- `remove(chunkHeader, chunk)`: the list and the chunk handed to the caller, if one was found.
The source walks until `INVALID_INDEX`; the walk is given `Capacity + 1` passes, and `none`
would mean that they did not suffice. -/
def remove (chunkHeaderOf : ℕ → β) (chunkHeader : β) (l : UsedChunkList) :
    Option (UsedChunkList × Option ℕ) :=
  Loop.iterate (removeStep chunkHeaderOf chunkHeader l) (l.capacity + 1)
    (l.invalidIndex, l.usedListHead)

/-- The references the list holds, slot by slot. -/
def contents (l : UsedChunkList) : List ℕ :=
  (List.range l.capacity).filterMap l.listData

/-- `cleanup()`: the list `init()` leaves, and the chunks released on the way, in the order of
the slots; each is dropped by the `SharedChunk` that `releaseToSharedChunk` returns. -/
def cleanup (l : UsedChunkList) : UsedChunkList × List ℕ :=
  (init l.capacity, l.contents)

/-! ### The invariant -/

/-- The slots of `l` are split into the used list `used` and the free list `free`: both are
chains ending at `INVALID_INDEX`, together they are every slot once, a slot on the used list
holds a chunk and a slot off it holds nothing. -/
structure Lists (l : UsedChunkList) (used free : List ℕ) : Prop where
  used_chain : NextChain l.listIndices l.usedListHead used l.capacity
  free_chain : NextChain l.listIndices l.freeListHead free l.capacity
  nodup : (used ++ free).Nodup
  mem_iff : ∀ i, i ∈ used ++ free ↔ i < l.capacity
  data_used : ∀ i ∈ used, (l.listData i).isSome
  data_free : ∀ i, i ∉ used → l.listData i = none

/-- **The list is well formed**: `Capacity > 0`, as the source asserts statically, and the slots
are split into a used and a free list. -/
structure Inv (l : UsedChunkList) : Prop where
  capacity_pos : 0 < l.capacity
  lists : ∃ used free, Lists l used free

variable {l : UsedChunkList} {used free : List ℕ}

theorem Lists.lt_of_mem_used (h : Lists l used free) {i : ℕ} (hi : i ∈ used) : i < l.capacity :=
  (h.mem_iff i).1 (List.mem_append_left free hi)

theorem Lists.length_used_le (h : Lists l used free) : used.length ≤ l.capacity := by
  have hsub : used.Subperm (List.range l.capacity) :=
    (List.nodup_append.1 h.nodup).1.subperm fun i hi ↦ List.mem_range.2 (h.lt_of_mem_used hi)
  simpa using hsub.length_le

/-- A chunk the list holds lies in a used slot. -/
theorem Lists.exists_mem_used_of_mem_contents (h : Lists l used free) {c : ℕ}
    (hc : c ∈ l.contents) : ∃ i ∈ used, l.listData i = some c := by
  obtain ⟨i, -, hi⟩ := List.mem_filterMap.1 hc
  by_contra hnot
  exact absurd (h.data_free i fun hu ↦ hnot ⟨i, hu, hi⟩) (by simp [hi])

/-- `init` starts well formed: everything is free. -/
theorem inv_init {capacity : ℕ} (h : 0 < capacity) : Inv (init capacity) := by
  refine ⟨h, [], List.range' 0 capacity, rfl, ?_, List.nodup_range', ?_, by simp,
    fun _ _ ↦ rfl⟩
  · simpa [init] using NextChain.succ_range' 0 capacity
  · simp [init, List.mem_range']

@[simp] theorem contents_init (capacity : ℕ) : (init capacity).contents = [] := by
  simp [contents, init]

@[simp] theorem capacity_insert (chunk : Option ℕ) : (l.insert chunk).1.capacity = l.capacity := by
  unfold insert
  split <;> rfl

/-! ### `insert` -/

/-- **`insert` adds the chunk** when the free list has a slot, and changes nothing otherwise. -/
theorem insert_spec (hinv : Inv l) (chunk : ℕ) :
    Inv (l.insert (some chunk)).1 ∧
      ((l.insert (some chunk)).1.contents).Perm
        (l.contents ++ if (l.insert (some chunk)).2 then [chunk] else []) := by
  by_cases hfree : l.freeListHead = l.invalidIndex
  · simp [insert, hfree, hinv]
  obtain ⟨used, free, h⟩ := hinv.lists
  cases free with
  | nil => exact absurd h.free_chain hfree
  | cons f free =>
    obtain ⟨hf, hfc⟩ := h.free_chain
    subst hf
    -- the slot taken is on neither list once it leaves the free list
    have hnd : (l.freeListHead :: (used ++ free)).Nodup := List.perm_middle.nodup_iff.1 h.nodup
    have hfu : l.freeListHead ∉ used ++ free := (List.nodup_cons.1 hnd).1
    have hflt : l.freeListHead < l.capacity := (h.mem_iff _).1 (by simp)
    have hfused : l.freeListHead ∉ used := fun hm ↦ hfu (List.mem_append_left _ hm)
    simp only [insert, if_pos hfree, if_true]
    refine ⟨⟨hinv.capacity_pos, l.freeListHead :: used, free, ?_⟩, ?_⟩
    · exact {
        used_chain := NextChain.cons_update h.used_chain hfused
        free_chain := NextChain.update hfc fun hm ↦ hfu (List.mem_append_right _ hm)
        nodup := hnd
        mem_iff := fun i ↦ List.perm_middle.mem_iff.symm.trans (h.mem_iff i)
        data_used := fun i hi ↦ by
          rcases List.mem_cons.1 hi with rfl | hi
          · simp
          · have hne : i ≠ l.freeListHead := fun he ↦ hfused (he ▸ hi)
            dsimp only
            rw [Function.update_of_ne hne]
            exact h.data_used i hi
        data_free := fun i hi ↦ by
          rw [List.mem_cons, not_or] at hi
          dsimp only
          rw [Function.update_of_ne hi.1, h.data_free i hi.2] }
    · have hslot := List.filterMap_range_update_perm l.listData (some chunk) hflt
      rw [h.data_free _ hfused, Option.toList_none, List.append_nil] at hslot
      exact hslot

/-! ### `remove` -/

@[simp] theorem capacity_unlink (previous current : ℕ) :
    (l.unlink previous current).capacity = l.capacity :=
  rfl

theorem unlink_of_eq_head (previous : ℕ) {current : ℕ} (h : current = l.usedListHead) :
    (l.unlink previous current).usedListHead = l.listIndices current ∧
      (l.unlink previous current).listIndices =
        Function.update l.listIndices current l.freeListHead := by
  simp [unlink, h]

theorem unlink_of_ne_head (previous : ℕ) {current : ℕ} (h : current ≠ l.usedListHead) :
    (l.unlink previous current).usedListHead = l.usedListHead ∧
      (l.unlink previous current).listIndices = Function.update
        (Function.update l.listIndices previous (l.listIndices current)) current l.freeListHead := by
  simp [unlink, h]

/-- **Unlinking a used slot** keeps the list well formed: the slot `x` moves from the used list
to the head of the free list, and its chunk leaves the contents. -/
theorem Lists.unlink (h : Lists l used free) {pre post : List ℕ} {x c : ℕ}
    (hused : used = pre ++ x :: post) (hx : l.listData x = some c) :
    Lists (l.unlink (pre.getLast?.getD l.capacity) x) (pre ++ post) (x :: free) ∧
      ((l.unlink (pre.getLast?.getD l.capacity) x).contents ++ [c]).Perm l.contents := by
  subst hused
  have hperm : ((pre ++ post) ++ x :: free).Perm ((pre ++ x :: post) ++ free) := by
    rw [List.append_assoc, List.append_assoc]
    exact List.Perm.append_left pre List.perm_middle
  have hnd := hperm.nodup_iff.2 h.nodup
  have hxlt : x < l.capacity := h.lt_of_mem_used (by simp)
  have hxnot : x ∉ (pre ++ post) ++ free := by
    have := List.perm_middle.nodup_iff.1 hnd
    exact (List.nodup_cons.1 this).1
  have hxpost : x ∉ post := fun hm ↦ hxnot (by simp [hm])
  have hxfree : x ∉ free := fun hm ↦ hxnot (by simp [hm])
  have hchains : NextChain (l.unlink (pre.getLast?.getD l.capacity) x).listIndices
      (l.unlink (pre.getLast?.getD l.capacity) x).usedListHead (pre ++ post) l.capacity ∧
      NextChain (l.unlink (pre.getLast?.getD l.capacity) x).listIndices x (x :: free)
        l.capacity := by
    rcases List.eq_nil_or_concat pre with rfl | ⟨pre₀, y, hpre⟩
    · -- `x` heads the used list: the head moves on
      obtain ⟨hhead, hc⟩ := h.used_chain
      obtain ⟨hu, hi⟩ := unlink_of_eq_head (l := l) l.capacity hhead.symm
      simp only [List.getLast?_nil, Option.getD_none, hu, hi, List.nil_append]
      exact ⟨hc.update hxpost, NextChain.cons_update h.free_chain hxfree⟩
    · -- `x` follows `y`: `y` is relinked past it
      rw [List.concat_eq_append] at hpre
      subst hpre
      have hchain : NextChain l.listIndices l.usedListHead (pre₀ ++ y :: x :: post) l.capacity := by
        simpa using h.used_chain
      have hnd' : (pre₀ ++ y :: x :: post).Nodup := by
        simpa using (List.nodup_append.1 h.nodup).1
      have hne : x ≠ l.usedListHead := by
        intro hxh
        cases pre₀ with
        | nil =>
          obtain ⟨hy, -⟩ := hchain
          exact (List.nodup_cons.1 hnd').1 (by simp [← hy, ← hxh])
        | cons a pre₁ =>
          obtain ⟨ha, -⟩ := hchain
          exact (List.nodup_cons.1 hnd').1 (by simp [← ha, ← hxh])
      have hyfree : y ∉ free := fun hm ↦
        (List.nodup_append.1 h.nodup).2.2 y (by simp) y hm rfl
      obtain ⟨hu, hi⟩ := unlink_of_ne_head (l := l) y hne
      simp only [List.getLast?_concat, Option.getD_some, hu, hi]
      refine ⟨?_, NextChain.cons_update (h.free_chain.update hyfree) hxfree⟩
      rw [List.append_assoc, List.singleton_append]
      refine (NextChain.splice hchain hnd').update fun hm ↦ hxnot ?_
      simp only [List.mem_append, List.mem_cons] at hm ⊢
      tauto
  refine ⟨⟨hchains.1, hchains.2, hnd, fun i ↦ (hperm.mem_iff.trans (h.mem_iff i)),
    fun i hi ↦ ?_, fun i hi ↦ ?_⟩, ?_⟩
  · -- the unlinked slot is off both halves of the used list
    have hix : i ≠ x := fun he ↦ hxnot (he ▸ List.mem_append_left free hi)
    simp only [unlink, Function.update_of_ne hix]
    exact h.data_used i (by simp only [List.mem_append, List.mem_cons] at hi ⊢; tauto)
  · by_cases hix : i = x
    · subst hix
      exact Function.update_self ..
    · exact (Function.update_of_ne hix ..).trans (h.data_free i (by simp_all))
  · have hslot := List.filterMap_range_update_perm l.listData none hxlt
    rw [hx, Option.toList_none, List.append_nil, Option.toList_some] at hslot
    exact hslot


/-- **The walk of `remove`**: from `(previous, current)`, where `current` starts the rest `rest`
of the used list after `pre` and `previous` is the last slot of `pre` (`INVALID_INDEX` at the
head), the loop either reaches the end, when no slot of `rest` holds a chunk with the header, or
leaves at the first slot `x` that does and unlinks it. The induction is on `rest`, one pass per
slot. -/
theorem iterate_removeStep (h : Lists l used free) (chunkHeaderOf : ℕ → β) (chunkHeader : β) :
    ∀ (rest pre : List ℕ), used = pre ++ rest →
      ∀ {current : ℕ}, NextChain l.listIndices current rest l.capacity →
      ∀ {fuel : ℕ}, rest.length < fuel →
      (Loop.iterate (removeStep chunkHeaderOf chunkHeader l) fuel
          (pre.getLast?.getD l.capacity, current) = some (l, none) ∧
        ∀ x ∈ rest, ∀ c, l.listData x = some c → chunkHeaderOf c ≠ chunkHeader) ∨
      ∃ pre' x post c, used = pre' ++ x :: post ∧ l.listData x = some c ∧
        chunkHeaderOf c = chunkHeader ∧
        Loop.iterate (removeStep chunkHeaderOf chunkHeader l) fuel
          (pre.getLast?.getD l.capacity, current) =
          some (l.unlink (pre'.getLast?.getD l.capacity) x, some c)
  | [], _, _, _, hc, fuel + 1, _ => by
    -- the end of the used list
    refine Or.inl ⟨Loop.iterate_succ_of_inr ?_ fuel, by simp⟩
    simp [removeStep, invalidIndex, show _ = l.capacity from hc]
  | x :: rest, pre, hused, _, ⟨rfl, hc⟩, fuel + 1, hlen => by
    have hx : x ≠ l.invalidIndex := Nat.ne_of_lt (h.lt_of_mem_used (by simp [hused]))
    by_cases hm : ∃ c, l.listData x = some c ∧ chunkHeaderOf c = chunkHeader
    · -- the slot matches: the loop leaves here
      obtain ⟨c, hd, hch⟩ := hm
      refine Or.inr ⟨pre, x, rest, c, hused, hd, hch, Loop.iterate_succ_of_inr ?_ fuel⟩
      simp [removeStep, hx, hd, hch]
    · -- the slot does not match: the walk goes on with `x` as the predecessor
      have hstep : removeStep chunkHeaderOf chunkHeader l (pre.getLast?.getD l.capacity, x) =
          .inl (x, l.listIndices x) := by
        unfold removeStep
        rw [if_neg hx]
        cases hd : l.listData x with
        | none => rfl
        | some c => exact if_neg fun hch ↦ hm ⟨c, hd, hch⟩
      have ih := iterate_removeStep h chunkHeaderOf chunkHeader rest (pre ++ [x])
        (by rw [hused, List.append_assoc, List.singleton_append]) hc (Nat.lt_of_succ_lt_succ hlen)
      rw [List.getLast?_concat, Option.getD_some] at ih
      rw [Loop.iterate_succ_of_inl hstep]
      rcases ih with ⟨hit, hno⟩ | hfound
      · refine Or.inl ⟨hit, fun y hy c hyc ↦ ?_⟩
        rcases List.mem_cons.1 hy with rfl | hy
        · exact fun hch ↦ hm ⟨c, hyc, hch⟩
        · exact hno y hy c hyc
      · exact Or.inr hfound

/-- **`remove` hands out one matching chunk**: the walk always ends; when it finds nothing, the
list is unchanged and holds no chunk with the header; otherwise the chunk it hands out has the
header and leaves the contents, and the list stays well formed. -/
theorem remove_spec (hinv : Inv l) (chunkHeaderOf : ℕ → β) (chunkHeader : β) :
    ∃ r, l.remove chunkHeaderOf chunkHeader = some r ∧
      (r.2 = none → r.1 = l ∧ ∀ c ∈ l.contents, chunkHeaderOf c ≠ chunkHeader) ∧
      ∀ c, r.2 = some c → chunkHeaderOf c = chunkHeader ∧ Inv r.1 ∧
        r.1.capacity = l.capacity ∧ (r.1.contents ++ [c]).Perm l.contents := by
  obtain ⟨used, free, h⟩ := hinv.lists
  rcases iterate_removeStep h chunkHeaderOf chunkHeader used [] rfl h.used_chain
    (Nat.lt_succ_of_le h.length_used_le) with ⟨hit, hno⟩ | ⟨pre, x, post, c, hused, hd, hch, hit⟩
  · refine ⟨_, hit, fun _ ↦ ⟨rfl, fun c hc ↦ ?_⟩, fun c hc ↦ by cases hc⟩
    obtain ⟨i, hi, hic⟩ := h.exists_mem_used_of_mem_contents hc
    exact hno i hi c hic
  · obtain ⟨hlists, hperm⟩ := h.unlink hused hd
    refine ⟨_, hit, (fun hc ↦ by cases hc), fun c' hc' ↦ ?_⟩
    cases hc'
    exact ⟨hch, ⟨hinv.capacity_pos, _, _, hlists⟩, rfl, hperm⟩

/-- **What `remove` keeps and what it hands out are what the list held**, and the list stays
well formed. -/
theorem remove_perm (hinv : Inv l) (chunkHeaderOf : ℕ → β) (chunkHeader : β) :
    ∃ l' chunk, l.remove chunkHeaderOf chunkHeader = some (l', chunk) ∧ Inv l' ∧
      (l'.contents ++ chunk.toList).Perm l.contents := by
  obtain ⟨⟨l', chunk⟩, hremove, hnone, hsome⟩ := remove_spec hinv chunkHeaderOf chunkHeader
  refine ⟨l', chunk, hremove, ?_⟩
  cases chunk with
  | none =>
    obtain ⟨rfl, -⟩ := hnone rfl
    exact ⟨hinv, by simp⟩
  | some c =>
    obtain ⟨-, hinv', -, hperm⟩ := hsome c rfl
    exact ⟨hinv', hperm⟩

/-! ### `cleanup` -/

/-- **`cleanup` releases everything**: it hands out the contents and leaves a well-formed empty
list of the same capacity. -/
theorem cleanup_spec (hinv : Inv l) :
    Inv l.cleanup.1 ∧ l.cleanup.1.capacity = l.capacity ∧ l.cleanup.1.contents = [] ∧
      l.cleanup.2 = l.contents :=
  ⟨inv_init hinv.capacity_pos, rfl, contents_init _, rfl⟩

/-! ### The list as a bounded multiset -/

/-- The slots are the used and the free list. -/
theorem Lists.perm_range (h : Lists l used free) : (used ++ free).Perm (List.range l.capacity) :=
  (List.perm_ext_iff_of_nodup h.nodup List.nodup_range).2 fun i ↦
    (h.mem_iff i).trans List.mem_range.symm

/-- **One chunk per used slot**: the list holds as many chunks as the used list has slots. -/
theorem Lists.length_contents (h : Lists l used free) : l.contents.length = used.length := by
  have hcount := h.perm_range.countP_eq fun i ↦ (l.listData i).isSome
  rw [List.countP_append, List.countP_eq_length.2 h.data_used,
    List.countP_eq_zero.2 fun i hi ↦ ?_] at hcount
  · rw [contents, List.length_filterMap_eq_countP, ← hcount, Nat.add_zero]
  · -- a free slot holds nothing
    have hnot : i ∉ used := fun hu ↦ List.disjoint_of_nodup_append h.nodup hu hi
    simp [h.data_free i hnot]

/-- The free list is empty exactly when its head is `INVALID_INDEX`. -/
theorem Lists.free_eq_nil_iff (h : Lists l used free) :
    free = [] ↔ l.freeListHead = l.invalidIndex := by
  cases free with
  | nil => exact ⟨fun _ ↦ h.free_chain, fun _ ↦ rfl⟩
  | cons f free =>
    obtain ⟨hf, -⟩ := h.free_chain
    have hlt : f < l.capacity := (h.mem_iff f).1 (by simp)
    simp only [reduceCtorEq, false_iff, invalidIndex, hf]
    omega

/-- **`insert` succeeds exactly below capacity.** -/
theorem insert_iff (hinv : Inv l) (chunk : Option ℕ) :
    (l.insert chunk).2 = true ↔ l.contents.length < l.capacity := by
  obtain ⟨used, free, h⟩ := hinv.lists
  have hlen := h.perm_range.length_eq
  rw [List.length_append, List.length_range] at hlen
  rw [h.length_contents]
  by_cases hfree : l.freeListHead = l.invalidIndex
  · have hnil := h.free_eq_nil_iff.2 hfree
    subst hnil
    simp [insert, hfree, ← hlen]
  · have hne : free ≠ [] := fun hn ↦ hfree (h.free_eq_nil_iff.1 hn)
    have hpos : 0 < free.length := List.length_pos_iff.2 hne
    simp only [insert, if_pos hfree, true_iff]
    omega

/-- A refused `insert` leaves the list as it is. -/
theorem insert_of_refused {chunk : Option ℕ} (h : (l.insert chunk).2 = false) :
    (l.insert chunk).1 = l := by
  unfold insert at h ⊢
  split <;> simp_all

/-- **An accepted `insert` holds one reference more**: the chunk, which the caller holds, gets
a reference of its own in the slot. -/
theorem insert_owns (hinv : Inv l) {mm : Mepoo.MemoryManager} {F : List ℕ} {chunk : ℕ}
    (hchunk : chunk ∈ F) (h : Mepoo.MemoryManager.Owns mm (F ++ l.contents))
    (hins : (l.insert (some chunk)).2 = true) :
    Mepoo.MemoryManager.Owns (mm.incrementReferenceCounter chunk)
      (F ++ (l.insert (some chunk)).1.contents) := by
  have hperm := (insert_spec hinv chunk).2
  rw [hins, if_pos rfl] at hperm
  refine (h.increment (List.mem_append_left _ hchunk)).perm (List.perm_iff_count.2 fun a ↦ ?_)
  have := hperm.count_eq a
  simp only [List.count_append, List.count_cons, List.count_nil] at this ⊢
  omega

/-- **`remove` transfers the reference** of the chunk it finds to the caller's `SharedChunk`. -/
theorem remove_owns {mm : Mepoo.MemoryManager} {F : List ℕ} {l' : UsedChunkList} {c : ℕ}
    (h : Mepoo.MemoryManager.Owns mm (F ++ l.contents)) (hperm : (l'.contents ++ [c]).Perm l.contents) :
    Mepoo.MemoryManager.Owns mm ((c :: F) ++ l'.contents) :=
  h.perm (List.perm_iff_count.2 fun a ↦ by
    have := hperm.count_eq a
    simp only [List.count_append, List.count_cons, List.count_nil] at this ⊢
    omega)

/-- **`cleanup` releases each reference once**: dropping the chunks it hands out never fails,
and leaves the counts of the other holders. -/
theorem cleanup_owns {mm : Mepoo.MemoryManager} {F : List ℕ}
    (h : Mepoo.MemoryManager.Owns mm (l.contents ++ F)) :
    ∃ mm', mm.decrementEach l.cleanup.2 = some mm' ∧ Mepoo.MemoryManager.Owns mm' F :=
  h.decrementEach

/-- **What a used list does**, at a list `l`: its two lists; `insert` succeeds exactly below
capacity, adds the chunk with one reference of its own, and changes nothing when refused;
`remove` finds a chunk exactly when one with the header is stored, hands out one such chunk with
its reference, and changes nothing otherwise; `cleanup` releases every stored reference once and
leaves the initial list. -/
structure BoundedMultiset (chunkHeaderOf : ℕ → β) (l : UsedChunkList) : Prop where
  lists : ∃ used free, Lists l used free
  insert_iff : ∀ chunk, (l.insert chunk).2 = true ↔ l.contents.length < l.capacity
  insert_contents : ∀ chunk : ℕ, ((l.insert (some chunk)).1.contents).Perm
    (l.contents ++ if (l.insert (some chunk)).2 then [chunk] else [])
  insert_refused : ∀ chunk, (l.insert chunk).2 = false → (l.insert chunk).1 = l
  insert_owns : ∀ (mm : Mepoo.MemoryManager) (F : List ℕ) chunk, chunk ∈ F →
    Mepoo.MemoryManager.Owns mm (F ++ l.contents) → (l.insert (some chunk)).2 = true →
    Mepoo.MemoryManager.Owns (mm.incrementReferenceCounter chunk)
      (F ++ (l.insert (some chunk)).1.contents)
  remove_found : ∀ chunkHeader, ∃ r, l.remove chunkHeaderOf chunkHeader = some r ∧
    (r.2.isSome ↔ ∃ c ∈ l.contents, chunkHeaderOf c = chunkHeader) ∧ (r.2 = none → r.1 = l)
  remove_some : ∀ chunkHeader r c, l.remove chunkHeaderOf chunkHeader = some r → r.2 = some c →
    chunkHeaderOf c = chunkHeader ∧ (r.1.contents ++ [c]).Perm l.contents ∧
    ∀ (mm : Mepoo.MemoryManager) (F : List ℕ), Mepoo.MemoryManager.Owns mm (F ++ l.contents) →
      Mepoo.MemoryManager.Owns mm ((c :: F) ++ r.1.contents)
  cleanup_eq : l.cleanup = (init l.capacity, l.contents)
  cleanup_owns : ∀ (mm : Mepoo.MemoryManager) (F : List ℕ),
    Mepoo.MemoryManager.Owns mm (l.contents ++ F) →
    ∃ mm', mm.decrementEach l.cleanup.2 = some mm' ∧ Mepoo.MemoryManager.Owns mm' F

/-- **A well-formed list behaves as a bounded multiset.** -/
theorem Inv.boundedMultiset (hinv : Inv l) (chunkHeaderOf : ℕ → β) :
    BoundedMultiset chunkHeaderOf l := by
  refine ⟨hinv.lists, insert_iff hinv, fun chunk ↦ (insert_spec hinv chunk).2,
    fun _ ↦ insert_of_refused, fun _ _ _ hchunk h hins ↦ insert_owns hinv hchunk h hins,
    fun chunkHeader ↦ ?_, fun chunkHeader r c hr hc ↦ ?_, rfl, fun _ _ h ↦ cleanup_owns h⟩
  · obtain ⟨r, hr, hnone, hsome⟩ := remove_spec hinv chunkHeaderOf chunkHeader
    refine ⟨r, hr, ⟨fun hfound ↦ ?_, fun ⟨c, hc, hch⟩ ↦ ?_⟩, fun hn ↦ (hnone hn).1⟩
    · -- the chunk handed out was stored
      obtain ⟨c, hc⟩ := Option.isSome_iff_exists.1 hfound
      obtain ⟨hch, -, -, hperm⟩ := hsome c hc
      exact ⟨c, hperm.mem_iff.1 (by simp), hch⟩
    · cases hr2 : r.2 with
      | none => exact absurd hch ((hnone hr2).2 c hc)
      | some _ => rfl
  · obtain ⟨r', hr', -, hsome⟩ := remove_spec hinv chunkHeaderOf chunkHeader
    obtain rfl : r' = r := Option.some.inj (hr'.symm.trans hr)
    obtain ⟨hch, -, -, hperm⟩ := hsome c hc
    exact ⟨hch, hperm, fun _ _ h ↦ remove_owns h hperm⟩

/-! ### Runs -/

/-- A call on a used list. -/
inductive Call (β : Type*) where
  /-- `insert(chunk)` of a `SharedChunk`, null when `none`. -/
  | insert (chunk : Option ℕ)
  | remove (chunkHeader : β)
  | cleanup

/-- The callers' precondition: `insert` is handed a chunk the caller holds, never a null
`SharedChunk`. -/
def Call.nonNull : Call β → Bool
  | .insert chunk => chunk.isSome
  | .remove _ | .cleanup => true

/-- The list after a call; `remove` gives `none` only if its walk ran out of passes. -/
def call (chunkHeaderOf : ℕ → β) (l : UsedChunkList) : Call β → Option UsedChunkList
  | .insert chunk => some (l.insert chunk).1
  | .remove chunkHeader => (l.remove chunkHeaderOf chunkHeader).map Prod.fst
  | .cleanup => some l.cleanup.1

/-- **Step lemma**: every call that keeps the callers' precondition returns, and keeps the list
well formed and its capacity. -/
theorem inv_call (hinv : Inv l) (chunkHeaderOf : ℕ → β) (c : Call β) (hc : c.nonNull = true) :
    ∃ l', call chunkHeaderOf l c = some l' ∧ Inv l' ∧ l'.capacity = l.capacity := by
  cases c with
  | insert chunk =>
    obtain ⟨chunk, rfl⟩ := Option.isSome_iff_exists.1 hc
    exact ⟨_, rfl, (insert_spec hinv chunk).1, capacity_insert _⟩
  | remove chunkHeader =>
    obtain ⟨⟨l', found⟩, hr, hnone, hsome⟩ := remove_spec hinv chunkHeaderOf chunkHeader
    refine ⟨l', by simp [call, hr], ?_⟩
    cases found with
    | none =>
      obtain ⟨rfl, -⟩ := hnone rfl
      exact ⟨hinv, rfl⟩
    | some c =>
      obtain ⟨-, hinv', hcap, -⟩ := hsome c rfl
      exact ⟨hinv', hcap⟩
  | cleanup =>
    obtain ⟨hinv', hcap, -⟩ := cleanup_spec hinv
    exact ⟨_, rfl, hinv', hcap⟩

/-- **Run lemma**: from a well-formed list every run of calls that keep the callers'
precondition returns, to a well-formed list of the same capacity. -/
theorem inv_run (chunkHeaderOf : ℕ → β) :
    ∀ (calls : List (Call β)) {l : UsedChunkList}, Inv l → (∀ c ∈ calls, c.nonNull = true) →
      ∃ l', Scheduler.run (call chunkHeaderOf) l calls = some l' ∧ Inv l' ∧
        l'.capacity = l.capacity
  | [], l, hinv, _ => ⟨l, rfl, hinv, rfl⟩
  | c :: calls, l, hinv, hcalls => by
    obtain ⟨l₁, h₁, hinv₁, hcap₁⟩ := inv_call hinv chunkHeaderOf c (hcalls c List.mem_cons_self)
    obtain ⟨l₂, h₂, hinv₂, hcap₂⟩ := inv_run chunkHeaderOf calls hinv₁
      fun c' hc' ↦ hcalls c' (List.mem_cons_of_mem c hc')
    exact ⟨l₂, by simp [Scheduler.run, h₁, h₂], hinv₂, hcap₂.trans hcap₁⟩

/-- **`UsedChunkList<Capacity>` is a bounded multiset of chunks**: every run of `insert`,
`remove` and `cleanup` from a new list in which `insert` is never handed a null `SharedChunk`
returns, and at the list it reaches the used and free lists partition the slots, with a chunk in
exactly the used ones, and the next call does what `BoundedMultiset` says. -/
theorem usedChunkList_is_bounded_multiset (chunkHeaderOf : ℕ → β) {capacity : ℕ}
    (hcapacity : 0 < capacity) (calls : List (Call β))
    (hcalls : ∀ c ∈ calls, c.nonNull = true) :
    ∃ l, Scheduler.run (call chunkHeaderOf) (init capacity) calls = some l ∧
      l.capacity = capacity ∧ BoundedMultiset chunkHeaderOf l := by
  obtain ⟨l, hrun, hinv, hcap⟩ := inv_run chunkHeaderOf calls (inv_init hcapacity) hcalls
  exact ⟨l, hrun, hcap, hinv.boundedMultiset chunkHeaderOf⟩

/-- The run that stores a chunk and removes it again, in a list of one slot. -/
theorem usedChunkList_is_bounded_multiset_insert_remove :
    0 < 1 ∧ (∀ c ∈ ([.insert (some 7), .remove 7] : List (Call ℕ)), c.nonNull = true) ∧
      ∃ l, Scheduler.run (call fun c : ℕ ↦ c) (init 1) [.insert (some 7), .remove 7] = some l ∧
        l.capacity = 1 ∧ BoundedMultiset (fun c : ℕ ↦ c) l :=
  have hcalls : ∀ c ∈ ([.insert (some 7), .remove 7] : List (Call ℕ)), c.nonNull = true := by
    decide
  ⟨Nat.one_pos, hcalls,
    usedChunkList_is_bounded_multiset (fun c : ℕ ↦ c) Nat.one_pos _ hcalls⟩

end UsedChunkList

end Iox.Popo
