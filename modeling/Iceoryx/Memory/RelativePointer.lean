import Mathlib.Logic.Function.Basic
import Iceoryx.Machine.Run
import Iceoryx.Memory.Align

/-!
# Relative pointers and the pointer repository

A `RelativePointer<T>` (`relative_pointer.inl`) stores a pointer as a segment id and an offset,
so that processes that map a shared-memory segment at different addresses can share it. The ids
are handed out by the process-wide `PointerRepository` (`pointer_repository.inl`), which keeps
for each id the first and the last address of its segment (`basePtr`, `endPtr`).
`RelativePointerData` (`relative_pointer_data.inl`) packs an id and an offset into 16 + 48 bits
of one `uint64_t`, for `ShmSafeUnmanagedChunk`.

## The model

Addresses and `uint64_t` values are natural numbers below `2 ^ 64`; a computation the source
does in `uintptr_t` or `uint64_t` arithmetic is taken modulo `2 ^ 64` (`Iox.wrap`), and `nullptr` is
address `0`. The repository's `vector<Info, CAPACITY>` is a function from ids to entries, all of
them `nullptr` at construction. The loops of `registerPtr` and `searchId` are searches over the
ids in increasing order.

## What is proved

Every run keeps `m_maxRegistered` an id and every set segment at or below it (`wellFormed_run`),
and `searchId` answers an id whose stored interval holds the pointer (`searchId_spec`). So a
relative pointer built from a pointer below `2 ^ 64 - 1` gives the pointer back (`get_ofPtr`),
whatever segment `searchId` chose: the offset is taken from and added to the same base.

But `unregisterPtr` clears only `basePtr`: the interval of a freed id becomes
`[nullptr, endPtr]`, and `searchId` still scans it. After `unregisterPtr(1)` every pointer up to
the old end is given the freed id (`searchId_unregisterPtr_minId`), also a pointer of another
registered segment (`searchId_answers_unregistered_id`); at the last address the offset is then
`NULL_POINTER_OFFSET` and `get()` answers `nullptr` (`get_ofPtr_last_address_of_stale_end`).
Runs that only register non-null segments keep every free interval empty (`clean_run`), and
there a pointer of a registered segment always resolves to a registered id and back to itself
(`searchId_registered_of_clean`, `get_ofPtr_of_registered`).

`RelativePointerData` gives back its id and offset when both are in range
(`RelativePointerData.new_round_trip`) and is the logical `nullptr` otherwise
(`RelativePointerData.new_of_out_of_range`).
-/

namespace Iox

/-- An entry of `m_info`: the first and the last address of a segment. -/
structure PointerInfo where
  /-- `basePtr`; `0` is `nullptr`, a free id. -/
  basePtr : ℕ
  /-- `endPtr`. -/
  endPtr : ℕ
  deriving DecidableEq, Repr

/-- A `PointerRepository<id_t, ptr_t, CAPACITY>`. -/
structure PointerRepository where
  /-- `CAPACITY`. -/
  capacity : ℕ
  /-- `m_info`. -/
  info : ℕ → PointerInfo
  /-- `m_maxRegistered`. -/
  maxRegistered : ℕ

namespace PointerRepository

/-- `MIN_ID`. -/
def minId : ℕ := 1

/-- `MAX_ID`. -/
def maxId (r : PointerRepository) : ℕ := r.capacity - 1

/-- `RAW_POINTER_BEHAVIOUR_ID`: the pointer is kept as an address, relative to `0`. -/
def rawPointerBehaviourId : ℕ := 0

/-- `MAX_POINTER_REPO_CAPACITY`, the capacity of the repository of `RelativePointer`. -/
def maxPointerRepoCapacity : ℕ := 10000

/-- The constructor: every entry `nullptr`, nothing registered. -/
def new (capacity : ℕ) : PointerRepository where
  capacity
  info := fun _ ↦ ⟨0, 0⟩
  maxRegistered := 0

/-- `addPointerIfIdIsFree(id, ptr, size)`: a free id takes the segment `[ptr, ptr + size - 1]`,
with the end computed in `uintptr_t`. -/
def addPointerIfIdIsFree (r : PointerRepository) (id ptr size : ℕ) : PointerRepository × Bool :=
  if (r.info id).basePtr = 0 then
    ({ r with
        info := Function.update r.info id ⟨ptr, wrap (ptr + wrap (size + (2 ^ 64 - 1)))⟩
        maxRegistered := if id > r.maxRegistered then id else r.maxRegistered }, true)
  else
    (r, false)

/-- `registerPtrWithId(id, ptr, size)`. -/
def registerPtrWithId (r : PointerRepository) (id ptr size : ℕ) : PointerRepository × Bool :=
  if id > r.maxId then (r, false) else r.addPointerIfIdIsFree id ptr size

/-- The loop of `registerPtr` over the ids `ids`: the first free one takes the segment. -/
def registerFirstFree (r : PointerRepository) (ptr size : ℕ) : List ℕ → PointerRepository × Option ℕ
  | [] => (r, none)
  | id :: ids =>
    match r.addPointerIfIdIsFree id ptr size with
    | (r', true) => (r', some id)
    | (_, false) => registerFirstFree r ptr size ids

/-- `registerPtr(ptr, size)`: the first free id from `1` to `MAX_ID`. -/
def registerPtr (r : PointerRepository) (ptr size : ℕ) : PointerRepository × Option ℕ :=
  r.registerFirstFree ptr size (List.range' minId r.maxId)

/-- `unregisterPtr(id)`: only `basePtr` is reset; `endPtr` and `m_maxRegistered` stay. -/
def unregisterPtr (r : PointerRepository) (id : ℕ) : PointerRepository × Bool :=
  if id ≤ r.maxId ∧ id ≥ minId ∧ (r.info id).basePtr ≠ 0 then
    ({ r with info := Function.update r.info id { r.info id with basePtr := 0 } }, true)
  else
    (r, false)

/-- `unregisterAll()`: every `basePtr` is reset and `m_maxRegistered` is `0`. -/
def unregisterAll (r : PointerRepository) : PointerRepository :=
  { r with info := fun id ↦ { r.info id with basePtr := 0 }, maxRegistered := 0 }

/-- `getBasePtr(id)`: `nullptr` outside `MIN_ID .. MAX_ID`. -/
def getBasePtr (r : PointerRepository) (id : ℕ) : ℕ :=
  if id ≤ r.maxId ∧ id ≥ minId then (r.info id).basePtr else 0

/-- Whether the stored interval of `id` contains `ptr`: the test of the loop of `searchId`. -/
def inInterval (r : PointerRepository) (ptr id : ℕ) : Bool :=
  decide ((r.info id).basePtr ≤ ptr ∧ ptr ≤ (r.info id).endPtr)

/-- `searchId(ptr)`: the first id from `1` to `m_maxRegistered` whose interval contains `ptr`,
otherwise `RAW_POINTER_BEHAVIOUR_ID`. -/
def searchId (r : PointerRepository) (ptr : ℕ) : ℕ :=
  ((List.range' 1 r.maxRegistered).find? (r.inInterval ptr)).getD rawPointerBehaviourId

/-- **`searchId` answers an id whose interval contains the pointer**, or the raw id. -/
theorem searchId_spec (r : PointerRepository) (ptr : ℕ) :
    r.searchId ptr = rawPointerBehaviourId ∨
      (1 ≤ r.searchId ptr ∧ r.searchId ptr ≤ r.maxRegistered ∧
        (r.info (r.searchId ptr)).basePtr ≤ ptr ∧ ptr ≤ (r.info (r.searchId ptr)).endPtr) := by
  unfold searchId
  cases hfind : (List.range' 1 r.maxRegistered).find? (r.inInterval ptr) with
  | none => exact Or.inl rfl
  | some id =>
    -- the id found lies in the range scanned and passes the test
    have hmem := List.mem_range'_1.1 (List.mem_of_find?_eq_some hfind)
    have htest : r.inInterval ptr id = true := List.find?_some hfind
    simp only [inInterval, decide_eq_true_eq] at htest
    simp only [Option.getD_some]
    exact Or.inr ⟨hmem.1, by omega, htest⟩

/-- `searchId` answers an id at or below every scanned id whose interval contains the pointer;
in particular not the raw id. -/
theorem searchId_le_of_inInterval (r : PointerRepository) {ptr id : ℕ} (h1 : 1 ≤ id)
    (hmax : id ≤ r.maxRegistered) (hin : r.inInterval ptr id = true) :
    1 ≤ r.searchId ptr ∧ r.searchId ptr ≤ id := by
  unfold searchId
  have hmem : id ∈ List.range' 1 r.maxRegistered := List.mem_range'_1.2 ⟨h1, by omega⟩
  cases hfind : (List.range' 1 r.maxRegistered).find? (r.inInterval ptr) with
  | none => exact absurd hin (by simpa using List.find?_eq_none.1 hfind id hmem)
  | some id' =>
    -- the list is increasing, so the first hit is at or below every later hit
    have hmem' := List.mem_range'_1.1 (List.mem_of_find?_eq_some hfind)
    simp only [Option.getD_some]
    refine ⟨hmem'.1, Nat.le_of_not_lt fun hlt ↦ ?_⟩
    obtain ⟨-, as, bs, hsplit, hbefore⟩ := List.find?_eq_some_iff_append.1 hfind
    have hid : id ∈ as := by
      have hsorted : (as ++ id' :: bs).Pairwise (· < ·) := by
        rw [← hsplit]
        exact List.pairwise_lt_range'
      rw [hsplit, List.mem_append, List.mem_cons] at hmem
      rcases hmem with h | h | h
      · exact h
      · omega
      · exact absurd (List.rel_of_pairwise_cons (List.pairwise_append.1 hsorted).2.1 h) (by omega)
    have := hbefore id hid
    simp [hin] at this

/-! ### Runs of the repository -/

/-- The calls on the repository. -/
inductive Op
  | registerPtr (ptr size : ℕ)
  | registerPtrWithId (id ptr size : ℕ)
  | unregisterPtr (id : ℕ)
  | unregisterAll
  deriving DecidableEq, Repr

/-- One call; its return value is not observed. -/
def step (r : PointerRepository) : Op → PointerRepository
  | .registerPtr ptr size => (r.registerPtr ptr size).1
  | .registerPtrWithId id ptr size => (r.registerPtrWithId id ptr size).1
  | .unregisterPtr id => (r.unregisterPtr id).1
  | .unregisterAll => r.unregisterAll

/-- The repository as a machine. -/
def machine : Machine PointerRepository Op Unit := ⟨fun r o ↦ (step r o, ())⟩

/-- An id from `MIN_ID` to `MAX_ID` whose segment is set. -/
def Registered (r : PointerRepository) (id : ℕ) : Prop :=
  minId ≤ id ∧ id ≤ r.maxId ∧ (r.info id).basePtr ≠ 0

instance (r : PointerRepository) (id : ℕ) : Decidable (r.Registered id) := by
  unfold Registered
  infer_instance

/-- The invariant of every run: `m_maxRegistered` is an id, and every set segment lies at or
below it, so that `searchId` scans it. -/
structure WellFormed (r : PointerRepository) : Prop where
  maxRegistered_le : r.maxRegistered ≤ r.maxId
  le_maxRegistered : ∀ id, (r.info id).basePtr ≠ 0 → id ≤ r.maxRegistered

theorem wellFormed_new (capacity : ℕ) : (new capacity).WellFormed :=
  ⟨Nat.zero_le _, fun _ h ↦ absurd rfl h⟩

@[simp] theorem capacity_addPointerIfIdIsFree (r : PointerRepository) (id ptr size : ℕ) :
    (r.addPointerIfIdIsFree id ptr size).1.capacity = r.capacity := by
  unfold addPointerIfIdIsFree
  split <;> rfl

theorem WellFormed.addPointerIfIdIsFree {r : PointerRepository} (h : r.WellFormed) {id : ℕ}
    (hid : id ≤ r.maxId) (ptr size : ℕ) : (r.addPointerIfIdIsFree id ptr size).1.WellFormed := by
  unfold PointerRepository.addPointerIfIdIsFree
  split
  · constructor
    · simp only [maxId] at hid h ⊢
      have := h.maxRegistered_le
      simp only [maxId] at this
      split <;> omega
    · intro id' hid'
      simp only [Function.update_apply] at hid' ⊢
      split at hid'
      · split <;> omega
      · have := h.le_maxRegistered id' hid'
        split <;> omega
  · exact h

/-- The loop of `registerPtr` either finds no free id, or registers the segment at a free id of
the list: every property of `addPointerIfIdIsFree` at a free id carries over to it. -/
theorem registerFirstFree_cases (r : PointerRepository) (ptr size : ℕ) :
    ∀ ids : List ℕ, r.registerFirstFree ptr size ids = (r, none) ∨
      ∃ id ∈ ids, (r.info id).basePtr = 0 ∧
        r.registerFirstFree ptr size ids = ((r.addPointerIfIdIsFree id ptr size).1, some id)
  | [] => Or.inl rfl
  | id :: ids => by
    by_cases hfree : (r.info id).basePtr = 0
    · have hadd : r.addPointerIfIdIsFree id ptr size = ((r.addPointerIfIdIsFree id ptr size).1, true) := by
        simp [PointerRepository.addPointerIfIdIsFree, hfree]
      refine Or.inr ⟨id, List.mem_cons_self, hfree, ?_⟩
      rw [registerFirstFree, hadd]
    · have hadd : r.addPointerIfIdIsFree id ptr size = (r, false) := by
        simp [PointerRepository.addPointerIfIdIsFree, hfree]
      rw [registerFirstFree, hadd]
      rcases registerFirstFree_cases r ptr size ids with h | ⟨id', hmem, hfree', h⟩
      · exact Or.inl h
      · exact Or.inr ⟨id', List.mem_cons_of_mem _ hmem, hfree', h⟩

/-- `registerPtr` either changes nothing or registers at a free id from `1` to `MAX_ID`. -/
theorem registerPtr_cases (r : PointerRepository) (ptr size : ℕ) :
    r.registerPtr ptr size = (r, none) ∨
      ∃ id, minId ≤ id ∧ id ≤ r.maxId ∧ (r.info id).basePtr = 0 ∧
        r.registerPtr ptr size = ((r.addPointerIfIdIsFree id ptr size).1, some id) := by
  rcases registerFirstFree_cases r ptr size (List.range' minId r.maxId) with h | ⟨id, hmem, hfree, h⟩
  · exact Or.inl h
  · have := List.mem_range'_1.1 hmem
    exact Or.inr ⟨id, this.1, by simp only [minId] at this; omega, hfree, h⟩

theorem WellFormed.step {r : PointerRepository} (h : r.WellFormed) : ∀ o, (r.step o).WellFormed
  | .registerPtr ptr size => by
    rcases registerPtr_cases r ptr size with hr | ⟨id, -, hid, -, hr⟩ <;>
      simp only [PointerRepository.step, hr]
    · exact h
    · exact h.addPointerIfIdIsFree hid ptr size
  | .registerPtrWithId id ptr size => by
    simp only [PointerRepository.step, registerPtrWithId]
    split
    · exact h
    · exact h.addPointerIfIdIsFree (by omega) ptr size
  | .unregisterPtr id => by
    simp only [PointerRepository.step, unregisterPtr]
    split
    · refine ⟨h.maxRegistered_le, fun id' hid' ↦ h.le_maxRegistered id' ?_⟩
      simp only [Function.update_apply] at hid'
      split at hid' <;> simp_all
    · exact h
  | .unregisterAll => ⟨Nat.zero_le _, fun _ h ↦ absurd rfl h⟩

/-- **Every run keeps the repository well formed.** -/
theorem wellFormed_run {r : PointerRepository} (h : r.WellFormed) (ops : List Op) :
    (machine.run r ops).1.WellFormed :=
  Machine.Invariant.run (fun _ o hr _ ↦ hr.step o) ops h (machine.admits_true r ops)

/-! ### Free slots that still cover pointers -/

/-- Every free id has the interval `[nullptr, nullptr]`, which holds no pointer but `nullptr`. -/
def Clean (r : PointerRepository) : Prop :=
  ∀ id, (r.info id).basePtr = 0 → (r.info id).endPtr = 0

/-- A call that registers a segment other than `nullptr`. -/
def Op.RegistersNonNull : Op → Prop
  | .registerPtr ptr _ => ptr ≠ 0
  | .registerPtrWithId _ ptr _ => ptr ≠ 0
  | _ => False

theorem clean_new (capacity : ℕ) : (new capacity).Clean := fun _ _ ↦ rfl

theorem Clean.addPointerIfIdIsFree {r : PointerRepository} (h : r.Clean) (id : ℕ) {ptr : ℕ}
    (hptr : ptr ≠ 0) (size : ℕ) : (r.addPointerIfIdIsFree id ptr size).1.Clean := by
  unfold PointerRepository.addPointerIfIdIsFree
  split
  · intro id' hid'
    by_cases hid : id' = id
    · simp [hid] at hid'
      exact absurd hid' hptr
    · simp only [Function.update_apply, hid, if_false] at hid' ⊢
      exact h id' hid'
  · exact h

theorem Clean.step {r : PointerRepository} (h : r.Clean) :
    ∀ o, o.RegistersNonNull → (r.step o).Clean
  | .registerPtr ptr size, hptr => by
    rcases registerPtr_cases r ptr size with hr | ⟨id, -, -, -, hr⟩ <;>
      simp only [PointerRepository.step, hr]
    · exact h
    · exact h.addPointerIfIdIsFree id hptr size
  | .registerPtrWithId id ptr size, hptr => by
    simp only [PointerRepository.step, registerPtrWithId]
    split
    · exact h
    · exact h.addPointerIfIdIsFree id hptr size

/-- **Runs that only register segments keep every free id clean**: until the first
`unregisterPtr` or `unregisterAll`, `searchId` cannot land on a free id. -/
theorem clean_run {r : PointerRepository} (h : r.Clean) (ops : List Op)
    (hops : machine.Admits (fun _ o ↦ o.RegistersNonNull) r ops) : (machine.run r ops).1.Clean :=
  Machine.Invariant.run (fun _ o hr ho ↦ hr.step o ho) ops h hops

/-- On a clean repository `searchId` answers the raw id or a registered id whose segment
holds the pointer. -/
theorem searchId_registered_of_clean {r : PointerRepository} (hwf : r.WellFormed) (hclean : r.Clean)
    {ptr : ℕ} (hptr : ptr ≠ 0) :
    r.searchId ptr = rawPointerBehaviourId ∨
      (r.Registered (r.searchId ptr) ∧ r.inInterval ptr (r.searchId ptr) = true) := by
  rcases searchId_spec r ptr with h | ⟨h1, hmax, hbase, hend⟩
  · exact Or.inl h
  · -- a free id of a clean repository only covers `nullptr`
    have hset : (r.info (r.searchId ptr)).basePtr ≠ 0 := fun h0 ↦ by
      have := hclean _ h0
      omega
    have := hwf.maxRegistered_le
    exact Or.inr ⟨⟨h1, by omega, hset⟩, by simp [inInterval, hbase, hend]⟩

@[simp] theorem maxRegistered_unregisterPtr (r : PointerRepository) (id : ℕ) :
    (r.unregisterPtr id).1.maxRegistered = r.maxRegistered := by
  unfold unregisterPtr
  split <;> rfl

/-- `unregisterPtr` of a set id clears its `basePtr` and nothing else: the stale interval
`[nullptr, endPtr]` stays. -/
theorem info_unregisterPtr {r : PointerRepository} {id : ℕ} (h : r.Registered id) (id' : ℕ) :
    ((r.unregisterPtr id).1.info id') =
      if id' = id then { r.info id with basePtr := 0 } else r.info id' := by
  simp [unregisterPtr, h.1, h.2.1, h.2.2, Function.update_apply]

/-- **After `unregisterPtr(MIN_ID)`, `searchId` answers the unregistered id for every pointer up
to its old end**, also for a pointer that lies in another registered segment: `searchId` scans
ids from `1`, and the interval of a freed id keeps its `endPtr`. -/
theorem searchId_unregisterPtr_minId {r : PointerRepository} (hwf : r.WellFormed)
    (h1 : r.Registered minId) {ptr : ℕ} (hptr : ptr ≤ (r.info minId).endPtr) :
    (r.unregisterPtr minId).1.searchId ptr = minId ∧ ¬ (r.unregisterPtr minId).1.Registered minId := by
  have hfreed := info_unregisterPtr h1 minId
  simp only [if_true] at hfreed
  have hmax : minId ≤ (r.unregisterPtr minId).1.maxRegistered := by
    rw [maxRegistered_unregisterPtr]
    exact hwf.le_maxRegistered minId h1.2.2
  have hin : (r.unregisterPtr minId).1.inInterval ptr minId = true := by
    simp [inInterval, hfreed, hptr]
  have := searchId_le_of_inInterval _ (le_refl 1) hmax hin
  refine ⟨by simp only [minId] at this ⊢; omega, fun hreg ↦ hreg.2.2 ?_⟩
  rw [hfreed]

end PointerRepository

/-- A `RelativePointer<T>`: `m_id` and `m_offset`. -/
structure RelativePointer where
  /-- `m_id`. -/
  id : ℕ
  /-- `m_offset`. -/
  offset : ℕ
  deriving DecidableEq, Repr

namespace RelativePointer

open PointerRepository

/-- `NULL_POINTER_ID`, the largest `segment_id_underlying_t = uint64_t`. -/
def nullPointerId : ℕ := 2 ^ 64 - 1

/-- `NULL_POINTER_OFFSET`, the largest `offset_t = uint64_t`. -/
def nullPointerOffset : ℕ := 2 ^ 64 - 1

/-- `RelativePointer::searchId(ptr)`: `nullptr` has its own id. -/
def searchId (r : PointerRepository) (ptr : ℕ) : ℕ :=
  if ptr = 0 then nullPointerId else r.searchId ptr

/-- `getOffset(id, ptr)`: the distance from the segment's base, in `uintptr_t`. -/
def getOffset (r : PointerRepository) (id ptr : ℕ) : ℕ :=
  if id = nullPointerId then nullPointerOffset else wrap (ptr + (2 ^ 64 - r.getBasePtr id))

/-- `getPtr(id, offset)`: the base of the segment plus the offset. -/
def getPtr (r : PointerRepository) (id offset : ℕ) : ℕ :=
  if offset = nullPointerOffset then 0 else wrap (offset + r.getBasePtr id)

/-- The constructor `RelativePointer(ptr)`: the id from `searchId`, then the offset to its
base. -/
def ofPtr (r : PointerRepository) (ptr : ℕ) : RelativePointer :=
  let id := searchId r ptr
  ⟨id, getOffset r id ptr⟩

/-- `get()`. -/
def get (r : PointerRepository) (p : RelativePointer) : ℕ :=
  getPtr r p.id p.offset

/-- The base that `searchId` chooses lies at or below the pointer. -/
theorem getBasePtr_searchId_le (r : PointerRepository) (ptr : ℕ) :
    r.getBasePtr (r.searchId ptr) ≤ ptr := by
  rcases searchId_spec r ptr with h | ⟨-, -, hbase, -⟩
  · rw [h]
    simp [getBasePtr, rawPointerBehaviourId, minId]
  · unfold getBasePtr
    split <;> omega

/-- The repository never answers `NULL_POINTER_ID`: its ids stay below `CAPACITY`. -/
theorem searchId_ne_nullPointerId {r : PointerRepository} (hwf : r.WellFormed)
    (hcap : r.capacity < 2 ^ 64) (ptr : ℕ) : r.searchId ptr ≠ nullPointerId := by
  have := hwf.maxRegistered_le
  rcases searchId_spec r ptr with h | ⟨-, hle, -⟩
  · rw [h]
    simp [rawPointerBehaviourId, nullPointerId]
  · simp only [maxId] at this
    unfold nullPointerId
    omega

/-- `get()` of a relative pointer built from a non-null pointer gives the pointer back unless
its offset is `NULL_POINTER_OFFSET`. -/
theorem get_ofPtr_of_offset_ne {r : PointerRepository} (hwf : r.WellFormed)
    (hcap : r.capacity < 2 ^ 64) {ptr : ℕ} (hnull : ptr ≠ 0) (hptr : ptr < 2 ^ 64)
    (hoff : ptr - r.getBasePtr (r.searchId ptr) ≠ nullPointerOffset) :
    get r (ofPtr r ptr) = ptr := by
  have hbase := getBasePtr_searchId_le r ptr
  simp only [get, ofPtr, searchId, if_neg hnull, getOffset,
    if_neg (searchId_ne_nullPointerId hwf hcap ptr), getPtr, wrap_add_sub hbase hptr, if_neg hoff]
  -- the offset is added back to the same base
  unfold wrap
  rw [Nat.sub_add_cancel hbase]
  exact Nat.mod_eq_of_lt hptr

/-- **A relative pointer gives its pointer back**, for every pointer below `2 ^ 64 - 1` and
every state a run reaches: the offset is taken from, and added to, the same base, whichever
segment `searchId` chose. -/
theorem get_ofPtr {r : PointerRepository} (hwf : r.WellFormed) (hcap : r.capacity < 2 ^ 64)
    {ptr : ℕ} (hptr : ptr < 2 ^ 64 - 1) : get r (ofPtr r ptr) = ptr := by
  by_cases hnull : ptr = 0
  · subst hnull
    simp [get, ofPtr, searchId, getOffset, getPtr, nullPointerOffset]
  · exact get_ofPtr_of_offset_ne hwf hcap hnull (by omega) (by unfold nullPointerOffset; omega)

/-- The pointer `0x1010` after segment `1` was freed: `searchId` answers the freed id `1`, whose
stale interval still holds the pointer, and `get()` still gives the pointer back. -/
theorem get_ofPtr_of_stale_id :
    searchId (machine.run (new maxPointerRepoCapacity)
        [.registerPtr 0x8000 0x1000, .registerPtr 0x1000 0x100, .unregisterPtr 1]).1 0x1010 = 1 ∧
      get (machine.run (new maxPointerRepoCapacity)
          [.registerPtr 0x8000 0x1000, .registerPtr 0x1000 0x100, .unregisterPtr 1]).1
        (ofPtr (machine.run (new maxPointerRepoCapacity)
          [.registerPtr 0x8000 0x1000, .registerPtr 0x1000 0x100, .unregisterPtr 1]).1 0x1010) =
        0x1010 :=
  ⟨by decide, get_ofPtr (wellFormed_run (wellFormed_new _) _) (by decide) (by decide)⟩

/-- **On a clean repository a pointer of a registered segment resolves to itself**, also at
the last address: `searchId` lands on a registered id, whose base is not `nullptr`, so the
offset stays below `NULL_POINTER_OFFSET`. -/
theorem get_ofPtr_of_registered {r : PointerRepository} (hwf : r.WellFormed) (hclean : r.Clean)
    (hcap : r.capacity < 2 ^ 64) {s ptr : ℕ} (hs : r.Registered s) (hin : r.inInterval ptr s = true)
    (hptr : ptr < 2 ^ 64) : get r (ofPtr r ptr) = ptr := by
  have hbase : (r.info s).basePtr ≤ ptr := by
    simp only [inInterval, decide_eq_true_eq] at hin
    exact hin.1
  have hnull : ptr ≠ 0 := fun h ↦ hs.2.2 (by omega)
  -- `searchId` does not answer the raw id, since `s` is scanned and holds the pointer
  have hfound := searchId_le_of_inInterval r hs.1 (hwf.le_maxRegistered s hs.2.2) hin
  rcases searchId_registered_of_clean hwf hclean hnull with hraw | ⟨hreg, -⟩
  · rw [hraw] at hfound
    exact absurd hfound.1 (by decide)
  · have hset : r.getBasePtr (r.searchId ptr) ≠ 0 := by
      simpa [getBasePtr, hreg.1, hreg.2.1] using hreg.2.2
    exact get_ofPtr_of_offset_ne hwf hcap hnull hptr (by unfold nullPointerOffset; omega)

/-- After two segments are registered and the first one is unregistered, a pointer of the
second segment is given the id of the first: `searchId` stops at the stale interval
`[nullptr, 0x8fff]` of id `1`. -/
theorem searchId_answers_unregistered_id :
    (fun r : PointerRepository ↦
        r.Registered 2 ∧ r.inInterval 0x1010 2 = true ∧ ¬ r.Registered 1 ∧ searchId r 0x1010 = 1)
      (machine.run (new maxPointerRepoCapacity)
        [.registerPtr 0x8000 0x1000, .registerPtr 0x1000 0x100, .unregisterPtr 1]).1 := by
  decide

/-- When the stale interval reaches the last address, the last address of a registered segment
is given the freed id, relative to `nullptr`; its offset is then `NULL_POINTER_OFFSET` and
`get()` answers `nullptr`. -/
theorem get_ofPtr_last_address_of_stale_end :
    let r := (machine.run (new maxPointerRepoCapacity)
      [.registerPtr (2 ^ 64 - 16) 16, .registerPtr (2 ^ 64 - 64) 64, .unregisterPtr 1]).1
    r.Registered 2 ∧ r.inInterval (2 ^ 64 - 1) 2 = true ∧ get r (ofPtr r (2 ^ 64 - 1)) = 0 := by
  decide

end RelativePointer

/-- A `RelativePointerData`: `m_idAndOffset`, an id in the low 16 bits and an offset in the
high 48 bits of one `uint64_t`. -/
structure RelativePointerData where
  /-- `m_idAndOffset`. -/
  idAndOffset : ℕ
  deriving DecidableEq, Repr

namespace RelativePointerData

/-- `ID_RANGE`, the largest `identifier_t = uint16_t`. -/
def idRange : ℕ := 2 ^ 16 - 1

/-- `NULL_POINTER_ID`. -/
def nullPointerId : ℕ := idRange

/-- `MAX_VALID_ID`. -/
def maxValidId : ℕ := idRange - 1

/-- `OFFSET_RANGE`. -/
def offsetRange : ℕ := 2 ^ 48 - 1

/-- `NULL_POINTER_OFFSET`. -/
def nullPointerOffset : ℕ := offsetRange

/-- `MAX_VALID_OFFSET`. -/
def maxValidOffset : ℕ := offsetRange - 1

/-- `ID_BIT_SIZE`. -/
def idBitSize : ℕ := 16

/-- `LOGICAL_NULLPTR`. -/
def logicalNullptr : ℕ := (nullPointerOffset <<< idBitSize) ||| nullPointerId

/-- The constructor `RelativePointerData(id, offset)`: the packed value, computed in `uint64_t`,
and `LOGICAL_NULLPTR` when the id or the offset is out of range. -/
def new (id offset : ℕ) : RelativePointerData :=
  if id > maxValidId ∨ offset > maxValidOffset then ⟨logicalNullptr⟩
  else ⟨id ||| wrap (offset <<< idBitSize)⟩

/-- `id()`. -/
def id (d : RelativePointerData) : ℕ := d.idAndOffset &&& idRange

/-- `offset()`. -/
def offset (d : RelativePointerData) : ℕ := (d.idAndOffset >>> idBitSize) &&& offsetRange

/-- `isLogicalNullptr()`. -/
def isLogicalNullptr (d : RelativePointerData) : Bool := d.idAndOffset = logicalNullptr

/-- An id below `2 ^ 16` and an offset below `2 ^ 48` share the word without overlapping: the
packed value is `offset * 2 ^ 16 + id`. -/
theorem pack_eq {id offset : ℕ} (hid : id < 2 ^ 16) (hoffset : offset < 2 ^ 48) :
    id ||| wrap (offset <<< idBitSize) = offset * 2 ^ 16 + id := by
  have hfits : offset <<< idBitSize < 2 ^ 64 := by
    rw [idBitSize, Nat.shiftLeft_eq]
    omega
  rw [wrap, Nat.mod_eq_of_lt hfits, Nat.lor_comm, idBitSize, ← Nat.shiftLeft_add_eq_or_of_lt hid,
    Nat.shiftLeft_eq]

theorem id_pack {id offset : ℕ} (hid : id < 2 ^ 16) :
    (offset * 2 ^ 16 + id) &&& idRange = id := by
  rw [idRange, Nat.and_two_pow_sub_one_eq_mod, Nat.mul_add_mod_self_right]
  exact Nat.mod_eq_of_lt hid

theorem offset_pack {id offset : ℕ} (hid : id < 2 ^ 16) (hoffset : offset < 2 ^ 48) :
    ((offset * 2 ^ 16 + id) >>> idBitSize) &&& offsetRange = offset := by
  rw [idBitSize, Nat.shiftRight_eq_div_pow, offsetRange, Nat.and_two_pow_sub_one_eq_mod,
    Nat.add_comm, Nat.add_mul_div_right _ _ (Nat.two_pow_pos 16), Nat.div_eq_of_lt hid, Nat.zero_add]
  exact Nat.mod_eq_of_lt hoffset

/-- `LOGICAL_NULLPTR` reads back as `NULL_POINTER_ID` and `NULL_POINTER_OFFSET`. -/
theorem logicalNullptr_eq : logicalNullptr = nullPointerOffset * 2 ^ 16 + nullPointerId := by
  rw [logicalNullptr, idBitSize, ← Nat.shiftLeft_add_eq_or_of_lt (by decide), Nat.shiftLeft_eq]

/-- **A relative pointer's id and offset come back** whenever both are in range, and the value
is then not the logical `nullptr`. -/
theorem new_round_trip {id offset : ℕ} (hid : id ≤ maxValidId) (hoffset : offset ≤ maxValidOffset) :
    (new id offset).id = id ∧ (new id offset).offset = offset ∧
      (new id offset).isLogicalNullptr = false := by
  have hid' : id < 2 ^ 16 := by simp only [maxValidId, idRange] at hid; omega
  have hoffset' : offset < 2 ^ 48 := by simp only [maxValidOffset, offsetRange] at hoffset; omega
  have hnew : new id offset = ⟨offset * 2 ^ 16 + id⟩ := by
    rw [new, if_neg (by omega), pack_eq hid' hoffset']
  refine ⟨by rw [hnew, RelativePointerData.id, id_pack hid'],
    by rw [hnew, RelativePointerData.offset, offset_pack hid' hoffset'], ?_⟩
  -- the logical `nullptr` carries the id `NULL_POINTER_ID`, which is out of range
  have hne : offset * 2 ^ 16 + id ≠ logicalNullptr := fun heq ↦ by
    have := congrArg (· &&& idRange) heq
    simp only [id_pack hid', logicalNullptr_eq, id_pack (by decide : nullPointerId < 2 ^ 16)] at this
    simp only [maxValidId, nullPointerId, idRange] at hid this
    omega
  rw [hnew, isLogicalNullptr, decide_eq_false_iff_not]
  exact hne

/-- **Out of range, the constructor gives the logical `nullptr`.** -/
theorem new_of_out_of_range {id offset : ℕ} (h : id > maxValidId ∨ offset > maxValidOffset) :
    (new id offset).isLogicalNullptr = true := by
  simp [new, h, isLogicalNullptr]

end RelativePointerData

end Iox
