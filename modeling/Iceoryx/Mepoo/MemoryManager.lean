import Mathlib.Algebra.Order.BigOperators.Group.Finset
import Iceoryx.Data.Holdings
import Iceoryx.Hoofs.MpmcLoFFLi

/-!
# `MemoryManager`, `MemPool` and the reference counter of `SharedChunk`

Every chunk of shared memory comes from a `MemPool` of `MemoryManager::m_memPoolVector`
(`memory_manager.cpp`), and carries a `ChunkManagement` taken from
`m_chunkManagementPool`: the management records where the chunk lies and holds
`m_referenceCounter`. A `SharedChunk` (`shared_chunk.cpp`) is a counted reference to a
management; the last reference to go calls `MemoryManager::freeChunk`, which returns the
management and then the chunk to their pools. Both pools hand out indices from an
`MpmcLoFFLi`, whose `push` refuses an index that is not out: that refusal is the
`POSH__MEMPOOL_POSSIBLE_DOUBLE_FREE` fatal error.

## The model

Chunks are named by their management's index in the management pool: that is what a
`SharedChunk` and a `ShmSafeUnmanagedChunk` store. A management records its chunk's index in its
mempool and the mempool's position in `m_memPoolVector`; the pair is the chunk's address, the
`ChunkHeader*` the building blocks compare. The chunk headers themselves are a function of that
address. `getChunk` and `freeChunk` are the source's bodies over the free lists of
`Iceoryx.Hoofs.MpmcLoFFLi`; the placement `new` on a null management chunk, and the
`IOX_PANIC`/`IOX_REPORT_FATAL` of a refused free, end the run (`none`).

## What is proved

`Owns mm refs` says that the memory manager **accounts exactly** for the references `refs`
held anywhere in the system: every counter is the number of references to its management, the
managements and chunks out of their pools are exactly those referenced, and the management pool
is as large as all mempools together. Increments of a held reference (`Owns.increment`),
decrements (`Owns.decrement`, which frees at the last reference and never double-frees), and
`getChunk` (`Owns.getChunk`, which hands out an unreferenced chunk and never runs out of
managements) keep it.
-/

namespace Iox.Mepoo

open Iox.Concurrent
open Iox.Concurrent.MpmcLoFFLi (FreeListInv)

/-- `popo::InvalidPortId`, the origin of a chunk that no port has claimed yet. -/
def invalidPortId : ℕ := 0

/-- The fields of a `ChunkHeader` that the building blocks read and write. -/
structure ChunkHeader where
  /-- `m_chunkSize`. -/
  chunkSize : ℕ
  /-- `m_originId`. -/
  originId : ℕ
  /-- `m_sequenceNumber`, a `SequenceNumber_t = uint64_t`. -/
  sequenceNumber : UInt64

/-- A `ChunkManagement`: where its chunk lies, and `m_referenceCounter`. -/
structure ChunkManagement where
  /-- `m_chunkHeader`, as the chunk's index in its mempool. -/
  chunkHeader : ℕ
  /-- `m_mempool`, as the mempool's position in `m_memPoolVector`. -/
  mempool : ℕ
  /-- `m_referenceCounter`. -/
  referenceCounter : ℕ

/-- A `MemPool`: `m_chunkSize` and the free list `m_freeIndices`. -/
structure MemPool where
  /-- `m_chunkSize`. -/
  chunkSize : ℕ
  /-- `m_freeIndices`. -/
  freeIndices : MpmcLoFFLi

/-- `MemoryManager::Error`. -/
inductive Error where
  | noMempoolsAvailable
  | noMempoolForRequestedChunkSize
  | mempoolOutOfChunks
  deriving DecidableEq, Repr

/-- A `MemoryManager`: its mempools, the management pool, and the contents of the memory both
hand out. -/
structure MemoryManager where
  /-- `m_memPoolVector`. -/
  memPoolVector : List MemPool
  /-- The free list of `m_chunkManagementPool.front()`. -/
  chunkManagementPool : MpmcLoFFLi
  /-- The `ChunkManagement` stored at each index of the management pool. -/
  chunkManagement : ℕ → ChunkManagement
  /-- The `ChunkHeader` stored at each chunk address (mempool, index). -/
  chunkHeaders : ℕ × ℕ → ChunkHeader

namespace MemoryManager

/-- `SharedChunk::getChunkHeader()`: the address of the chunk a management manages. -/
def chunkHeaderOf (mm : MemoryManager) (m : ℕ) : ℕ × ℕ :=
  ((mm.chunkManagement m).mempool, (mm.chunkManagement m).chunkHeader)

/-- `getChunk(chunkSettings)`: the first mempool whose chunks fit serves the request; its chunk
and a management chunk are taken, and the management starts with one reference. -/
def getChunk (mm : MemoryManager) (requiredChunkSize : ℕ) :
    Option (Except Error (MemoryManager × ℕ)) :=
  match mm.memPoolVector.zipIdx.find? fun x ↦ requiredChunkSize ≤ x.1.chunkSize with
  | none =>
    some (.error (if mm.memPoolVector = [] then .noMempoolsAvailable
      else .noMempoolForRequestedChunkSize))
  | some (memPool, p) =>
    match memPool.freeIndices.pop with
    | (_, none) => some (.error .mempoolOutOfChunks)
    | (freeIndices, some index) =>
      match mm.chunkManagementPool.pop with
      -- the source constructs the management at the null pointer
      | (_, none) => none
      | (chunkManagementPool, some m) =>
        some (.ok ({ memPoolVector := mm.memPoolVector.set p { memPool with freeIndices }
                     chunkManagementPool
                     chunkManagement := Function.update mm.chunkManagement m ⟨index, p, 1⟩
                     chunkHeaders := Function.update mm.chunkHeaders (p, index)
                       ⟨memPool.chunkSize, invalidPortId, 0⟩ }, m))

/-- `freeChunk(chunkManagement)`: the management goes back to the management pool, then the
chunk to its mempool; a refused free ends the run. -/
def freeChunk (mm : MemoryManager) (m : ℕ) : Option MemoryManager :=
  let chunkManagement := mm.chunkManagement m
  match mm.chunkManagementPool.push m with
  | (_, false) => none
  | (chunkManagementPool, true) =>
    match mm.memPoolVector[chunkManagement.mempool]? with
    | none => none
    | some memPool =>
      match memPool.freeIndices.push chunkManagement.chunkHeader with
      | (_, false) => none
      | (freeIndices, true) =>
        some { mm with
          chunkManagementPool
          memPoolVector := mm.memPoolVector.set chunkManagement.mempool { memPool with freeIndices } }

/-- The memory manager with `m_referenceCounter` of management `m` set to `c`. -/
def setReferenceCounter (mm : MemoryManager) (m c : ℕ) : MemoryManager :=
  { mm with
    chunkManagement := Function.update mm.chunkManagement m
      { mm.chunkManagement m with referenceCounter := c } }

/-- `SharedChunk::incrementReferenceCounter`, and the `fetch_add` of `cloneToSharedChunk`. -/
def incrementReferenceCounter (mm : MemoryManager) (m : ℕ) : MemoryManager :=
  mm.setReferenceCounter m ((mm.chunkManagement m).referenceCounter + 1)

/-- `SharedChunk::decrementReferenceCounter`: the reference whose `fetch_sub` returns one frees
the chunk. -/
def decrementReferenceCounter (mm : MemoryManager) (m : ℕ) : Option MemoryManager :=
  let referenceCounter := (mm.chunkManagement m).referenceCounter
  let mm' := mm.setReferenceCounter m (referenceCounter - 1)
  if referenceCounter = 1 then freeChunk mm' m else some mm'

/-- Drop the references `ms` one after another, as the loops that release a container do. -/
def decrementEach (mm : MemoryManager) : List ℕ → Option MemoryManager
  | [] => some mm
  | m :: ms => (decrementReferenceCounter mm m).bind fun mm' ↦ decrementEach mm' ms

/-- `ShmSafeUnmanagedChunk::releaseToSharedChunk()` with the returned `SharedChunk` dropped at
once: the reference of the chunk, if there is one, is released. -/
def releaseToSharedChunk (mm : MemoryManager) : Option ℕ → Option MemoryManager
  | some chunk => decrementReferenceCounter mm chunk
  | none => some mm

/-! ### Accounting -/

/-- The chunk indices that the managements `live` hold in mempool `p`. -/
def chunksIn (chunkManagement : ℕ → ChunkManagement) (live : List ℕ) (p : ℕ) : List ℕ :=
  (live.filter fun m ↦ (chunkManagement m).mempool = p).map fun m ↦ (chunkManagement m).chunkHeader

/-- **The memory manager accounts exactly for `refs`**: each counter is the number of references
to its management; the managements out of the management pool (`live`) are the referenced ones,
and the chunks out of each mempool are theirs; every referenced management lies in an existing
mempool; and the management pool has a chunk for every chunk of the mempools. -/
structure Owns (mm : MemoryManager) (refs : List ℕ) : Prop where
  referenceCounter_eq : ∀ m, (mm.chunkManagement m).referenceCounter = refs.count m
  mempool_lt : ∀ m ∈ refs, (mm.chunkManagement m).mempool < mm.memPoolVector.length
  size_eq : mm.chunkManagementPool.size =
    (mm.memPoolVector.map fun memPool ↦ memPool.freeIndices.size).sum
  pools : ∃ live : List ℕ, (∀ m, m ∈ live ↔ m ∈ refs) ∧
    FreeListInv mm.chunkManagementPool live ∧
    ∀ p (hp : p < mm.memPoolVector.length),
      FreeListInv mm.memPoolVector[p].freeIndices (chunksIn mm.chunkManagement live p)

variable {mm : MemoryManager} {refs : List ℕ} {m : ℕ}

@[simp] theorem setReferenceCounter_memPoolVector (c : ℕ) :
    (mm.setReferenceCounter m c).memPoolVector = mm.memPoolVector :=
  rfl

@[simp] theorem setReferenceCounter_chunkManagementPool (c : ℕ) :
    (mm.setReferenceCounter m c).chunkManagementPool = mm.chunkManagementPool :=
  rfl

@[simp] theorem mempool_setReferenceCounter (c m' : ℕ) :
    ((mm.setReferenceCounter m c).chunkManagement m').mempool = (mm.chunkManagement m').mempool := by
  by_cases h : m' = m
  · subst h
    simp [setReferenceCounter]
  · simp [setReferenceCounter, Function.update_of_ne h]

@[simp] theorem chunkHeader_setReferenceCounter (c m' : ℕ) :
    ((mm.setReferenceCounter m c).chunkManagement m').chunkHeader =
      (mm.chunkManagement m').chunkHeader := by
  by_cases h : m' = m
  · subst h
    simp [setReferenceCounter]
  · simp [setReferenceCounter, Function.update_of_ne h]

@[simp] theorem chunkHeaderOf_setReferenceCounter (c m' : ℕ) :
    (mm.setReferenceCounter m c).chunkHeaderOf m' = mm.chunkHeaderOf m' := by
  simp [chunkHeaderOf]

theorem referenceCounter_setReferenceCounter (c m' : ℕ) :
    ((mm.setReferenceCounter m c).chunkManagement m').referenceCounter =
      if m' = m then c else (mm.chunkManagement m').referenceCounter := by
  by_cases h : m' = m
  · subst h
    simp [setReferenceCounter]
  · simp [setReferenceCounter, h]

theorem chunksIn_perm (cm : ℕ → ChunkManagement) {live live' : List ℕ} (hp : live.Perm live')
    (p : ℕ) : (chunksIn cm live p).Perm (chunksIn cm live' p) :=
  (hp.filter _).map _

theorem chunksIn_cons (cm : ℕ → ChunkManagement) (live : List ℕ) (p : ℕ) :
    chunksIn cm (m :: live) p = if (cm m).mempool = p
      then (cm m).chunkHeader :: chunksIn cm live p else chunksIn cm live p := by
  by_cases h : (cm m).mempool = p <;> simp [chunksIn, h]

theorem chunksIn_append (cm : ℕ → ChunkManagement) (live live' : List ℕ) (p : ℕ) :
    chunksIn cm (live ++ live') p = chunksIn cm live p ++ chunksIn cm live' p := by
  simp [chunksIn]

/-- `chunksIn` reads the managements of `live` only through where their chunks lie. -/
theorem chunksIn_congr {cm cm' : ℕ → ChunkManagement} {live : List ℕ}
    (h : ∀ m ∈ live, (cm' m).mempool = (cm m).mempool ∧ (cm' m).chunkHeader = (cm m).chunkHeader)
    (p : ℕ) : chunksIn cm' live p = chunksIn cm live p := by
  unfold chunksIn
  rw [List.filter_congr fun m hm ↦ by rw [(h m hm).1]]
  exact List.map_congr_left fun m hm ↦ (h m (List.mem_of_mem_filter hm)).2

/-- A management that `live` does not hold does not count. -/
theorem chunksIn_update_of_not_mem {cm : ℕ → ChunkManagement} {live : List ℕ} (hm : m ∉ live)
    (x : ChunkManagement) (p : ℕ) : chunksIn (Function.update cm m x) live p = chunksIn cm live p :=
  chunksIn_congr (fun _ hm' ↦ by rw [Function.update_of_ne (ne_of_mem_of_not_mem hm' hm)]; simp) p

@[simp] theorem chunksIn_setReferenceCounter (live : List ℕ) (p c : ℕ) :
    chunksIn (mm.setReferenceCounter m c).chunkManagement live p = chunksIn mm.chunkManagement live p :=
  chunksIn_congr (fun _ _ ↦ ⟨mempool_setReferenceCounter c _, chunkHeader_setReferenceCounter c _⟩) p

theorem mem_chunksIn (cm : ℕ → ChunkManagement) {live : List ℕ} (hm : m ∈ live) :
    (cm m).chunkHeader ∈ chunksIn cm live (cm m).mempool :=
  List.mem_map.2 ⟨m, List.mem_filter.2 ⟨hm, by simp⟩, rfl⟩

/-- Managements in existing mempools are as many as the chunks they hold in all mempools. -/
theorem length_eq_sum_chunksIn {live : List ℕ}
    (hlt : ∀ m ∈ live, (mm.chunkManagement m).mempool < mm.memPoolVector.length) :
    live.length =
      ∑ p ∈ Finset.range mm.memPoolVector.length, (chunksIn mm.chunkManagement live p).length := by
  simp only [chunksIn, List.length_map]
  exact List.length_eq_sum_filter _ hlt

/-- Replacing a mempool by one of the same size keeps the total size. -/
theorem sum_sizes_set {l : List MemPool} {p : ℕ} (hp : p < l.length) {memPool : MemPool}
    (hsize : memPool.freeIndices.size = l[p].freeIndices.size) :
    ((l.set p memPool).map fun x ↦ x.freeIndices.size).sum =
      (l.map fun x ↦ x.freeIndices.size).sum := by
  have hp' : p < (l.map fun x ↦ x.freeIndices.size).length := by simpa using hp
  have hget : (l.map fun x ↦ x.freeIndices.size)[p] = memPool.freeIndices.size := by
    rw [List.getElem_map, hsize]
  rw [List.map_set, ← hget, List.set_getElem_self]

/-- `freeChunk` when both pools take their index back. -/
theorem freeChunk_of_push (mm : MemoryManager) (m : ℕ) (memPool : MemPool)
    (hget : mm.memPoolVector[(mm.chunkManagement m).mempool]? = some memPool)
    (hmg : (mm.chunkManagementPool.push m).2 = true)
    (hpool : (memPool.freeIndices.push (mm.chunkManagement m).chunkHeader).2 = true) :
    freeChunk mm m = some { mm with
      chunkManagementPool := (mm.chunkManagementPool.push m).1
      memPoolVector := mm.memPoolVector.set (mm.chunkManagement m).mempool
        ({ memPool with
          freeIndices := (memPool.freeIndices.push (mm.chunkManagement m).chunkHeader).1 }) } := by
  unfold freeChunk
  rw [show mm.chunkManagementPool.push m = ((mm.chunkManagementPool.push m).1, true) from
    Prod.ext rfl hmg]
  simp only [hget]
  rw [show memPool.freeIndices.push (mm.chunkManagement m).chunkHeader =
    ((memPool.freeIndices.push (mm.chunkManagement m).chunkHeader).1, true) from Prod.ext rfl hpool]

/-- The contents of the chunks play no part in the accounting. -/
theorem Owns.with_chunkHeaders (h : Owns mm refs) (chunkHeaders : ℕ × ℕ → ChunkHeader) :
    Owns { mm with chunkHeaders } refs :=
  ⟨h.referenceCounter_eq, h.mempool_lt, h.size_eq, h.pools⟩

/-- **Accounting is up to permutation** of the references. -/
theorem Owns.perm {refs' : List ℕ} (h : Owns mm refs) (hp : refs.Perm refs') : Owns mm refs' := by
  obtain ⟨live, hlive, hmg, hpools⟩ := h.pools
  exact ⟨fun m ↦ (h.referenceCounter_eq m).trans (hp.count_eq m),
    fun m hm ↦ h.mempool_lt m (hp.mem_iff.2 hm), h.size_eq,
    live, fun m ↦ (hlive m).trans hp.mem_iff, hmg, hpools⟩

/-- **A copy of a held reference** counts one more. -/
theorem Owns.increment (h : Owns mm refs) (hm : m ∈ refs) :
    Owns (incrementReferenceCounter mm m) (m :: refs) := by
  obtain ⟨live, hlive, hmg, hpools⟩ := h.pools
  refine ⟨fun m' ↦ ?_, fun m' hm' ↦ ?_, h.size_eq, live, fun m' ↦ ?_, hmg, fun p hp ↦ ?_⟩
  · rw [incrementReferenceCounter, referenceCounter_setReferenceCounter]
    split_ifs with he
    · subst he
      rw [List.count_cons_self, h.referenceCounter_eq]
    · rw [List.count_cons_of_ne (Ne.symm he), h.referenceCounter_eq]
  · rw [incrementReferenceCounter, mempool_setReferenceCounter]
    rcases List.mem_cons.1 hm' with rfl | hm'
    exacts [h.mempool_lt _ hm, h.mempool_lt m' hm']
  · rw [hlive m', List.mem_cons]
    exact ⟨Or.inr, fun h' ↦ h'.elim (fun he ↦ he ▸ hm) id⟩
  · show FreeListInv mm.memPoolVector[p].freeIndices (chunksIn (mm.setReferenceCounter m _).chunkManagement live p)
    rw [chunksIn_setReferenceCounter]
    exact hpools p hp

/-- **The last reference frees**: dropping a reference from `m :: refs` succeeds; when it was the
last, the management and the chunk go back to their pools, neither refused. -/
theorem Owns.decrement (h : Owns mm (m :: refs)) :
    ∃ mm', decrementReferenceCounter mm m = some mm' ∧ Owns mm' refs := by
  obtain ⟨live, hlive, hmg, hpools⟩ := h.pools
  set c := (mm.chunkManagement m).referenceCounter with hc
  have hcount : c = refs.count m + 1 := by rw [hc, h.referenceCounter_eq, List.count_cons_self]
  -- the counter written back, before any free
  have hrc₁ : ∀ m', ((mm.setReferenceCounter m (c - 1)).chunkManagement m').referenceCounter =
      refs.count m' := by
    intro m'
    rw [referenceCounter_setReferenceCounter]
    split_ifs with he
    · subst he
      omega
    · rw [h.referenceCounter_eq, List.count_cons_of_ne (Ne.symm he)]
  have hpos₁ : ∀ m' ∈ refs, ((mm.setReferenceCounter m (c - 1)).chunkManagement m').mempool <
      mm.memPoolVector.length := fun m' hm' ↦ by
    rw [mempool_setReferenceCounter]
    exact h.mempool_lt m' (List.mem_cons_of_mem m hm')
  by_cases hlast : c = 1
  · -- the last reference: `freeChunk`, with both indices out of their pools
    have hnot : m ∉ refs := fun hm ↦ by
      have := List.count_pos_iff.2 hm
      omega
    have hmlive : m ∈ live := (hlive m).2 List.mem_cons_self
    have hpush := (MpmcLoFFLi.push_ok_iff hmg m).2 hmlive
    have hp := h.mempool_lt m List.mem_cons_self
    have hpushPool := (MpmcLoFFLi.push_ok_iff (hpools _ hp) _).2 (mem_chunksIn mm.chunkManagement hmlive)
    have hfree := freeChunk_of_push (mm.setReferenceCounter m (c - 1)) m
      mm.memPoolVector[(mm.chunkManagement m).mempool]
      (by simp [List.getElem?_eq_getElem hp]) hpush (by rw [chunkHeader_setReferenceCounter]; exact hpushPool)
    refine ⟨_, by dsimp only [decrementReferenceCounter]; rw [if_pos hlast]; exact hfree, ?_⟩
    -- what stays out of the pools is `live` without `m`
    have hnodup := hmg.out_nodup
    have hsplit := chunksIn_perm mm.chunkManagement (List.perm_cons_erase hmlive)
    refine ⟨hrc₁, fun m' hm' ↦ by simpa using hpos₁ m' hm', ?_, live.erase m, fun m' ↦ ?_,
      MpmcLoFFLi.freeListInv_push hmg hpush, fun p' hp' ↦ ?_⟩
    · simp only [setReferenceCounter_memPoolVector, setReferenceCounter_chunkManagementPool,
        mempool_setReferenceCounter]
      rw [sum_sizes_set hp (by simp [MpmcLoFFLi.size_push]), MpmcLoFFLi.size_push]
      exact h.size_eq
    · by_cases he : m' = m
      · subst he
        exact ⟨fun h' ↦ absurd h' hnodup.not_mem_erase, fun h' ↦ absurd h' hnot⟩
      · rw [hnodup.mem_erase_iff, hlive m', List.mem_cons]
        exact ⟨fun h' ↦ h'.2.resolve_left he, fun h' ↦ ⟨he, Or.inr h'⟩⟩
    · simp only [List.length_set, setReferenceCounter_memPoolVector,
        mempool_setReferenceCounter] at hp' ⊢
      show FreeListInv _ (chunksIn (mm.setReferenceCounter m (c - 1)).chunkManagement (live.erase m) p')
      rw [chunksIn_setReferenceCounter]
      by_cases hpp : p' = (mm.chunkManagement m).mempool
      · -- the freed chunk's mempool: its out list loses the chunk's index
        subst hpp
        simp only [List.getElem_set_self, chunkHeader_setReferenceCounter]
        refine (MpmcLoFFLi.freeListInv_push (hpools _ hp) hpushPool).perm ?_
        have h1 := (hsplit (mm.chunkManagement m).mempool).erase (mm.chunkManagement m).chunkHeader
        rwa [chunksIn_cons, if_pos rfl, List.erase_cons_head] at h1
      · rw [List.getElem_set_ne (Ne.symm hpp)]
        refine (hpools p' hp').perm ?_
        have h1 := hsplit p'
        rwa [chunksIn_cons, if_neg (Ne.symm hpp)] at h1
  · -- another reference remains
    have hm : m ∈ refs := List.count_pos_iff.1 (by omega)
    refine ⟨mm.setReferenceCounter m (c - 1),
      by dsimp only [decrementReferenceCounter]; rw [if_neg hlast], hrc₁, hpos₁,
      h.size_eq, live, fun m' ↦ ?_, hmg, fun p hp ↦ ?_⟩
    · rw [hlive m', List.mem_cons]
      exact ⟨fun h' ↦ h'.elim (fun he ↦ he ▸ hm) id, Or.inr⟩
    · show FreeListInv mm.memPoolVector[p].freeIndices (chunksIn (mm.setReferenceCounter m _).chunkManagement live p)
      rw [chunksIn_setReferenceCounter]
      exact hpools p hp

/-- **Dropping references one after another** never fails and leaves the rest accounted. -/
theorem Owns.decrementEach : ∀ {mm : MemoryManager} {ms : List ℕ}, Owns mm (ms ++ refs) →
    ∃ mm', decrementEach mm ms = some mm' ∧ Owns mm' refs
  | mm, [], h => ⟨mm, rfl, h⟩
  | _, m :: ms, h => by
    obtain ⟨mm₁, h₁, hown₁⟩ := Owns.decrement h
    obtain ⟨mm₂, h₂, hown₂⟩ := Owns.decrementEach hown₁
    exact ⟨mm₂, by simp [MemoryManager.decrementEach, h₁, h₂], hown₂⟩

theorem Owns.releaseToSharedChunk {chunk : Option ℕ} (h : Owns mm (chunk.toList ++ refs)) :
    ∃ mm', releaseToSharedChunk mm chunk = some mm' ∧ Owns mm' refs := by
  cases chunk with
  | none => exact ⟨mm, rfl, h⟩
  | some chunk => exact Owns.decrement h

/-- **Managements do not run out first**: while mempool `p` still has a chunk, fewer managements
are out than the management pool holds, because every management out holds a chunk and the
management pool is as large as all mempools together. -/
theorem Owns.length_lt_of_pop {live : List ℕ} (h : Owns mm refs) (hlive : ∀ m, m ∈ live ↔ m ∈ refs)
    (hpools : ∀ p (hp : p < mm.memPoolVector.length),
      FreeListInv mm.memPoolVector[p].freeIndices (chunksIn mm.chunkManagement live p))
    {p : ℕ} (hp : p < mm.memPoolVector.length)
    (hpop : (mm.memPoolVector[p].freeIndices.pop).2.isSome) :
    live.length < mm.chunkManagementPool.size := by
  -- the size of mempool `q`, as `sum_map_eq_sum_range` reads it
  let size : ℕ → ℕ := fun q ↦ (mm.memPoolVector[q]?.map fun x ↦ x.freeIndices.size).getD 0
  have hle : ∀ q ∈ Finset.range mm.memPoolVector.length,
      (chunksIn mm.chunkManagement live q).length ≤ size q := by
    intro q hq
    have hq := Finset.mem_range.1 hq
    simp only [size, List.getElem?_eq_getElem hq, Option.map_some, Option.getD_some]
    exact (hpools q hq).length_le
  have hlt : (chunksIn mm.chunkManagement live p).length < size p := by
    simp only [size, List.getElem?_eq_getElem hp, Option.map_some, Option.getD_some]
    exact (MpmcLoFFLi.pop_isSome_iff (hpools p hp)).1 hpop
  calc live.length
      = ∑ q ∈ Finset.range mm.memPoolVector.length, (chunksIn mm.chunkManagement live q).length :=
        length_eq_sum_chunksIn fun m hm ↦ h.mempool_lt m ((hlive m).1 hm)
    _ < ∑ q ∈ Finset.range mm.memPoolVector.length, size q :=
        Finset.sum_lt_sum hle ⟨p, Finset.mem_range.2 hp, hlt⟩
    _ = mm.chunkManagementPool.size := by rw [h.size_eq, List.sum_map_eq_sum_range]

/-- **`getChunk` hands out a fresh chunk**: it always returns (the management pool never fails
it), and a chunk it hands out was referenced nowhere and is then accounted for with its one
reference. -/
theorem Owns.getChunk (h : Owns mm refs) (requiredChunkSize : ℕ) :
    ∃ r, mm.getChunk requiredChunkSize = some r ∧
      ∀ mm' m, r = .ok (mm', m) → m ∉ refs ∧ Owns mm' (m :: refs) := by
  obtain ⟨live, hlive, hmg, hpools⟩ := h.pools
  unfold MemoryManager.getChunk
  split
  · exact ⟨_, rfl, fun _ _ he ↦ by cases he⟩
  next memPool p hfind =>
    -- the mempool found is the `p`-th one
    have hmem := List.getElem?_eq_some_iff.1
      (List.mem_zipIdx_iff_getElem?.1 (List.mem_of_find?_eq_some hfind))
    obtain ⟨hp, hget⟩ := hmem
    dsimp only at hp hget
    subst hget
    split
    · exact ⟨_, rfl, fun _ _ he ↦ by cases he⟩
    next freeIndices index hpop =>
      have hpop₂ : (mm.memPoolVector[p].freeIndices.pop).2 = some index := by rw [hpop]
      have hlen := h.length_lt_of_pop hlive hpools hp (by rw [hpop₂]; rfl)
      split
      next hmpop =>
        have := (MpmcLoFFLi.pop_isSome_iff hmg).2 hlen
        rw [hmpop] at this
        cases this
      next chunkManagementPool m hmpop =>
        refine ⟨_, rfl, fun mm' m' he ↦ ?_⟩
        cases he
        obtain ⟨-, hfresh, hmg'⟩ := MpmcLoFFLi.freeListInv_pop hmg (by rw [hmpop])
        obtain ⟨-, -, hpool'⟩ := MpmcLoFFLi.freeListInv_pop (hpools p hp) hpop₂
        rw [hmpop] at hmg'
        rw [hpop] at hpool'
        have hnot : m ∉ refs := fun hm ↦ hfresh ((hlive m).2 hm)
        refine ⟨hnot, fun m' ↦ ?_, fun m' hm' ↦ ?_, ?_, live ++ [m], fun m' ↦ ?_, hmg',
          fun p' hp' ↦ ?_⟩
        · by_cases he : m' = m
          · subst he
            simp [List.count_eq_zero_of_not_mem hnot]
          · simp [Function.update_of_ne he, List.count_cons_of_ne (Ne.symm he),
              h.referenceCounter_eq]
        · rcases List.mem_cons.1 hm' with rfl | hm'
          · simpa using hp
          · have hne : m' ≠ m := ne_of_mem_of_not_mem hm' hnot
            simpa [Function.update_of_ne hne] using h.mempool_lt m' hm'
        · -- popping keeps the size of both pools
          have hsize := MpmcLoFFLi.size_pop mm.memPoolVector[p].freeIndices
          have hmsize := MpmcLoFFLi.size_pop mm.chunkManagementPool
          rw [hpop] at hsize
          rw [hmpop] at hmsize
          dsimp only at hsize hmsize ⊢
          rw [sum_sizes_set hp hsize, ← h.size_eq, hmsize]
        · rw [List.mem_append, hlive m', List.mem_singleton, List.mem_cons, or_comm]
        · dsimp only at hp' ⊢
          rw [List.length_set] at hp'
          rw [chunksIn_append, chunksIn_update_of_not_mem hfresh, chunksIn_cons,
            Function.update_self]
          by_cases hpp : p' = p
          · -- the mempool served: its out list gains the chunk's index
            subst hpp
            simpa [chunksIn] using hpool'
          · rw [List.getElem_set_ne (Ne.symm hpp), if_neg (Ne.symm hpp)]
            simpa [chunksIn] using hpools p' hp'

end MemoryManager

end Iox.Mepoo
