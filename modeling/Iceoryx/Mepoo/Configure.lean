import Iceoryx.Mepoo.MemoryManager
import Iceoryx.Mepoo.ChunkHeader
import Iceoryx.Machine.Run
import Iceoryx.Memory.BumpAllocator

/-!
# Configuring the `MemoryManager`

`configureMemoryManager(mePooConfig, managementAllocator, chunkMemoryAllocator)`
(`memory_manager.cpp`) adds one `MemPool` per entry of the `MePooConfig`, in increasing chunk
size, and then the chunk management pool, with one `ChunkManagement` per chunk of all mempools.
The memory comes from two `BumpAllocator`s (`bump_allocator.cpp`), sized beforehand by
`requiredManagementMemorySize` and `requiredChunkMemorySize`.

## The model

The allocators are explicit state (`Allocators`); a `MemPool` takes the raw chunk memory from one
allocator and its free list from another, and the management pool takes both from the
management allocator: `AllocatorRef` names which. Every `IOX_REPORT_FATAL`, `IOX_ENFORCE`,
`IOX_PANIC` (of `greater_or_equal` and `range`) and failed `.expect` ends the run (`none`).
`m_totalNumberOfChunks` is a `uint32_t` and wraps; the sizing functions sum in `uint64_t`.

## What is proved

A configuration leaves one mempool per entry, whose sizes are the entries' chunk counts, and a
management pool of `(Σ counts) mod 2 ^ 32` chunks (`configureMemoryManager_sizes`). When the sum
fits in `uint32_t` the result owns no references (`configureMemoryManager_owns`), and from there
no run of `getChunk` requests and releases ever finds the management pool empty
(`serve_run_owns`, `configureMemoryManager_serve_run`). When it does not fit, the management pool is too small: two mempools of
`2 ^ 31` and `2 ^ 31 + 1` chunks get a management pool of one chunk, and the second `getChunk`
constructs its `ChunkManagement` at `nullptr`
(`configureMemoryManager_management_pool_runs_dry`).
-/

namespace Iox.Mepoo

open Iox.Concurrent

/-- `sizeof(ChunkManagement)`: three `RelativePointer`s of two `uint64_t` each, and the
`uint64_t` reference counter. -/
def sizeOfChunkManagement : ℕ := 56

/-- A `MePooConfig::Entry`. -/
structure MePooConfig.Entry where
  /-- `m_size`, the chunk-payload size, a `uint64_t`. -/
  size : ℕ
  /-- `m_chunkCount`, a `uint32_t`. -/
  chunkCount : ℕ
  deriving DecidableEq, Repr

/-- A `MePooConfig`. -/
structure MePooConfig where
  /-- `m_mempoolConfig`. -/
  mempoolConfig : List MePooConfig.Entry
  deriving DecidableEq, Repr

/-- The two allocators of `configureMemoryManager`. -/
structure Allocators where
  /-- `managementAllocator`. -/
  management : BumpAllocator
  /-- `chunkMemoryAllocator`. -/
  chunkMemory : BumpAllocator
  deriving DecidableEq, Repr

/-- Which allocator a `BumpAllocator&` parameter refers to. -/
inductive AllocatorRef
  | management
  | chunkMemory
  deriving DecidableEq, Repr

namespace Allocators

/-- The allocator a reference names. -/
def get (as : Allocators) : AllocatorRef → BumpAllocator
  | .management => as.management
  | .chunkMemory => as.chunkMemory

/-- `allocate(size, alignment).expect(...)` on the allocator `ref`: a failure terminates. -/
def allocate (as : Allocators) (ref : AllocatorRef) (size alignment : ℕ) : Option Allocators :=
  match (as.get ref).allocate size alignment, ref with
  | .ok (a, _), .management => some { as with management := a }
  | .ok (a, _), .chunkMemory => some { as with chunkMemory := a }
  | .error _, _ => none

end Allocators

/-! ### Construction -/

/-- The constructor `MemPool(chunkSize, numberOfChunks, managementAllocator,
chunkMemoryAllocator)`: the `greater_or_equal` parameters, the alignment check, the
`IOX_ENFORCE` on the product, the raw memory, the free list memory and `MpmcLoFFLi::init`. -/
def MemPool.new (chunkSize numberOfChunks : ℕ) (managementAllocator chunkMemoryAllocator : AllocatorRef)
    (as : Allocators) : Option (MemPool × Allocators) :=
  if chunkSize < chunkMemoryAlignment ∨ numberOfChunks < 1 then none
  else if chunkSize % chunkMemoryAlignment ≠ 0 then none
  else if chunkSize > uint64Max / numberOfChunks then none
  else
    (as.allocate chunkMemoryAllocator (numberOfChunks * chunkSize) chunkMemoryAlignment).bind
      fun as ↦
    (as.allocate managementAllocator (MpmcLoFFLi.requiredIndexMemorySize numberOfChunks)
        chunkMemoryAlignment).bind fun as ↦
    (MpmcLoFFLi.init numberOfChunks).map fun freeIndices ↦ (⟨chunkSize, freeIndices⟩, as)

/-- The `MemoryManager` while it is configured: `m_memPoolVector`, `m_totalNumberOfChunks` (a
`uint32_t`) and `m_denyAddMemPool`. -/
structure Setup where
  /-- `m_memPoolVector`. -/
  memPoolVector : List MemPool
  /-- `m_totalNumberOfChunks`. -/
  totalNumberOfChunks : ℕ
  /-- `m_denyAddMemPool`. -/
  denyAddMemPool : Bool

namespace Setup

/-- A default-constructed `MemoryManager`. -/
def empty : Setup := ⟨[], 0, false⟩

/-- `sizeWithChunkHeaderStruct(size)`, whose parameter is a
`range<uint64_t, 1, max - sizeof(ChunkHeader)>`. -/
def sizeWithChunkHeaderStruct (size : ℕ) : Option ℕ :=
  if size < 1 ∨ size > uint64Max - sizeOfChunkHeader then none else some (size + sizeOfChunkHeader)

/-- `addMemPool(managementAllocator, chunkMemoryAllocator, chunkPayloadSize, numberOfChunks)`. -/
def addMemPool (c : Setup) (as : Allocators) (chunkPayloadSize numberOfChunks : ℕ) :
    Option (Setup × Allocators) :=
  -- the `greater_or_equal` parameters
  if chunkPayloadSize < chunkMemoryAlignment ∨ numberOfChunks < 1 then none
  else (sizeWithChunkHeaderStruct chunkPayloadSize).bind fun adjustedChunkSize ↦
    if c.denyAddMemPool then none
    else if (c.memPoolVector.getLast?.map fun last ↦ decide (adjustedChunkSize ≤ last.chunkSize)) =
        some true then none
    else
      (MemPool.new adjustedChunkSize numberOfChunks .management .chunkMemory as).map
        fun (memPool, as) ↦
          ({ c with
              memPoolVector := c.memPoolVector ++ [memPool]
              totalNumberOfChunks := (c.totalNumberOfChunks + numberOfChunks) % 2 ^ 32 }, as)

/-- One pass of the loop of `configureMemoryManager`: `addMemPool` for an entry. -/
def addEntry (acc : Setup × Allocators) (entry : MePooConfig.Entry) : Option (Setup × Allocators) :=
  acc.1.addMemPool acc.2 entry.size entry.chunkCount

/-- `generateChunkManagementPool(managementAllocator)`: one management chunk per counted chunk,
both memories from the management allocator. -/
def generateChunkManagementPool (c : Setup) (as : Allocators) : Option (MemPool × Allocators) :=
  MemPool.new sizeOfChunkManagement c.totalNumberOfChunks .management .management as

end Setup

/-- `configureMemoryManager(mePooConfig, managementAllocator, chunkMemoryAllocator)`: the
mempools of the entries, then the management pool. The managements and chunk headers are not
written before a chunk is handed out; the model starts them at zero. -/
def configureMemoryManager (config : MePooConfig) (as : Allocators) :
    Option (MemoryManager × Allocators) :=
  (config.mempoolConfig.foldlM Setup.addEntry (Setup.empty, as)).bind fun (c, as) ↦
    (c.generateChunkManagementPool as).map fun (chunkManagementPool, as) ↦
      (⟨c.memPoolVector, chunkManagementPool.freeIndices, fun _ ↦ ⟨0, 0, 0⟩,
        fun _ ↦ ⟨0, invalidPortId, 0⟩⟩, as)

/-! ### The sizing functions -/

/-- `requiredChunkMemorySize(mePooConfig)`: every mempool's chunks, each sum aligned. -/
def requiredChunkMemorySize (config : MePooConfig) : Option ℕ :=
  config.mempoolConfig.foldlM (fun memorySize entry ↦
      (Setup.sizeWithChunkHeaderStruct entry.size).map fun chunkSize ↦
        wrap (memorySize + align (wrap (entry.chunkCount * chunkSize)) chunkMemoryAlignment))
    0

/-- `requiredManagementMemorySize(mePooConfig)`: the free lists of the mempools, then the
management chunks and their free list for the sum of all chunks, each aligned. -/
def requiredManagementMemorySize (config : MePooConfig) : ℕ :=
  let (memorySize, sumOfAllChunks) := config.mempoolConfig.foldl
    (fun (acc : ℕ × ℕ) (entry : MePooConfig.Entry) ↦
      (wrap (acc.1 +
          align (MpmcLoFFLi.requiredIndexMemorySize entry.chunkCount) chunkMemoryAlignment),
        wrap (acc.2 + entry.chunkCount)))
    (0, 0)
  let memorySize :=
    wrap (memorySize + align (wrap (sumOfAllChunks * sizeOfChunkManagement)) chunkMemoryAlignment)
  wrap (memorySize + align (MpmcLoFFLi.requiredIndexMemorySize sumOfAllChunks) chunkMemoryAlignment)

/-! ### What a configuration leaves -/

namespace Setup

/-- A constructed mempool has one free-list index per chunk, none of them out. -/
theorem MemPool.new_fresh {chunkSize numberOfChunks : ℕ} {r r' : AllocatorRef} {as as' : Allocators}
    {memPool : MemPool} (h : MemPool.new chunkSize numberOfChunks r r' as = some (memPool, as')) :
    memPool.freeIndices.size = numberOfChunks ∧ MpmcLoFFLi.FreeListInv memPool.freeIndices [] := by
  unfold MemPool.new at h
  split_ifs at h
  simp only [Option.bind_eq_some_iff, Option.map_eq_some_iff, Prod.mk.injEq] at h
  obtain ⟨_, -, _, -, freeIndices, hinit, rfl, -⟩ := h
  refine ⟨?_, MpmcLoFFLi.freeListInv_init hinit⟩
  unfold MpmcLoFFLi.init at hinit
  split_ifs at hinit
  cases hinit
  rfl

/-- What the mempools of a setup are: fresh, one per counted entry, and counted modulo
`2 ^ 32` in `m_totalNumberOfChunks`. -/
structure Counts (c : Setup) (counts : List ℕ) : Prop where
  sizes_eq : c.memPoolVector.map (fun memPool ↦ memPool.freeIndices.size) = counts
  totalNumberOfChunks_eq : c.totalNumberOfChunks = counts.sum % 2 ^ 32
  fresh : ∀ memPool ∈ c.memPoolVector, MpmcLoFFLi.FreeListInv memPool.freeIndices []

theorem counts_empty : Counts empty [] := ⟨rfl, rfl, fun _ h ↦ absurd h List.not_mem_nil⟩

/-- `addMemPool` adds one fresh mempool of the entry's count. -/
theorem Counts.of_addEntry {c : Setup} {counts : List ℕ} (h : c.Counts counts) {as : Allocators}
    {entry : MePooConfig.Entry} {c' : Setup} {as' : Allocators}
    (hadd : addEntry (c, as) entry = some (c', as')) : c'.Counts (counts ++ [entry.chunkCount]) := by
  simp only [addEntry, addMemPool] at hadd
  -- past the parameter checks, the size check, the deny flag and the ordering check
  by_cases hparam : entry.size < chunkMemoryAlignment ∨ entry.chunkCount < 1
  · rw [if_pos hparam] at hadd
    cases hadd
  rw [if_neg hparam] at hadd
  obtain ⟨adjustedChunkSize, -, hadd⟩ := Option.bind_eq_some_iff.1 hadd
  split_ifs at hadd
  simp only [Option.map_eq_some_iff, Prod.mk.injEq] at hadd
  obtain ⟨⟨memPool, as''⟩, hnew, rfl, -⟩ := hadd
  obtain ⟨hsize, hfresh⟩ := MemPool.new_fresh hnew
  refine ⟨?_, ?_, ?_⟩
  · simp [h.sizes_eq, hsize]
  · simp [h.totalNumberOfChunks_eq, List.sum_append, Nat.add_mod]
  · intro memPool' hmem
    rcases List.mem_append.1 hmem with hmem | hmem
    · exact h.fresh memPool' hmem
    · rw [List.mem_singleton.1 hmem]
      exact hfresh

/-- The loop of `configureMemoryManager` counts every entry. -/
theorem Counts.of_foldlM {c : Setup} {counts : List ℕ} (h : c.Counts counts) :
    ∀ {as : Allocators} {entries : List MePooConfig.Entry} {c' : Setup} {as' : Allocators},
      entries.foldlM addEntry (c, as) = some (c', as') →
        c'.Counts (counts ++ entries.map fun entry ↦ entry.chunkCount)
  | _, [], _, _, hfold => by
    simp only [List.foldlM_nil, pure, Option.some.injEq, Prod.mk.injEq] at hfold
    obtain ⟨rfl, -⟩ := hfold
    simpa using h
  | as, entry :: entries, c', as', hfold => by
    simp only [List.foldlM_cons, bind, Option.bind_eq_some_iff] at hfold
    obtain ⟨⟨c₁, as₁⟩, hadd, hrest⟩ := hfold
    have := (h.of_addEntry hadd).of_foldlM hrest
    simpa using this

end Setup

/-- **What `configureMemoryManager` leaves**: one fresh mempool per entry, of the entry's chunk
count, and a fresh management pool of the sum of the counts **modulo `2 ^ 32`**. -/
theorem configureMemoryManager_sizes {config : MePooConfig} {as as' : Allocators}
    {mm : MemoryManager} (h : configureMemoryManager config as = some (mm, as')) :
    mm.memPoolVector.map (fun memPool ↦ memPool.freeIndices.size) =
        config.mempoolConfig.map (fun entry ↦ entry.chunkCount) ∧
      mm.chunkManagementPool.size = (config.mempoolConfig.map fun entry ↦ entry.chunkCount).sum % 2 ^ 32 ∧
      (∀ memPool ∈ mm.memPoolVector, MpmcLoFFLi.FreeListInv memPool.freeIndices []) ∧
      MpmcLoFFLi.FreeListInv mm.chunkManagementPool [] := by
  simp only [configureMemoryManager, Option.bind_eq_some_iff, Option.map_eq_some_iff] at h
  obtain ⟨⟨c, as₁⟩, hfold, ⟨pool, as₂⟩, hgen, hmm⟩ := h
  simp only [Prod.mk.injEq] at hmm
  obtain ⟨rfl, -⟩ := hmm
  have hc := Setup.counts_empty.of_foldlM hfold
  obtain ⟨hsize, hfresh⟩ := Setup.MemPool.new_fresh hgen
  simp only [List.nil_append] at hc
  exact ⟨hc.sizes_eq, by rw [hsize, hc.totalNumberOfChunks_eq], hc.fresh, hfresh⟩

/-- **When the chunk counts fit in `uint32_t`, a configured memory manager owns no references**:
its management pool is as large as all mempools together. -/
theorem configureMemoryManager_owns {config : MePooConfig} {as as' : Allocators}
    {mm : MemoryManager} (h : configureMemoryManager config as = some (mm, as'))
    (hsum : (config.mempoolConfig.map fun entry ↦ entry.chunkCount).sum < 2 ^ 32) :
    mm.Owns [] := by
  obtain ⟨hsizes, hmanagement, hfresh, hfreshManagement⟩ := configureMemoryManager_sizes h
  have hmm : mm.chunkManagement = fun _ ↦ ⟨0, 0, 0⟩ := by
    simp only [configureMemoryManager, Option.bind_eq_some_iff, Option.map_eq_some_iff,
      Prod.mk.injEq] at h
    obtain ⟨_, -, _, -, rfl, -⟩ := h
    rfl
  refine ⟨fun m ↦ by simp [hmm], fun _ h ↦ absurd h List.not_mem_nil, ?_, ⟨[], fun _ ↦ Iff.rfl,
    hfreshManagement, fun p hp ↦ ?_⟩⟩
  · rw [hmanagement, hsizes, Nat.mod_eq_of_lt hsum]
  · simpa [MemoryManager.chunksIn] using hfresh _ (List.getElem_mem hp)

/-! ### Serving requests -/

/-- A request to a configured memory manager: a `getChunk`, or the release of a held reference
(the last one frees the chunk). -/
inductive Request
  | getChunk (requiredChunkSize : ℕ)
  | release (m : ℕ)
  deriving DecidableEq, Repr

/-- One request, with the references held: a chunk handed out is a new reference, an error
changes nothing; releasing a reference that is not held is not a request anyone can make, and
changes nothing. `none` when the source terminates. -/
def serve : MemoryManager × List ℕ → Request → Option (MemoryManager × List ℕ)
  | (mm, refs), .getChunk requiredChunkSize =>
    (mm.getChunk requiredChunkSize).map fun
      | .ok (mm', m) => (mm', m :: refs)
      | .error _ => (mm, refs)
  | (mm, refs), .release m =>
    if m ∈ refs then (mm.decrementReferenceCounter m).map fun mm' ↦ (mm', refs.erase m)
    else some (mm, refs)

/-- Every request is served from a memory manager that owns the references held, and keeps
that. -/
theorem serve_owns {mm : MemoryManager} {refs : List ℕ} (h : mm.Owns refs) (request : Request) :
    ∃ s', serve (mm, refs) request = some s' ∧ s'.1.Owns s'.2 := by
  cases request with
  | getChunk requiredChunkSize =>
    obtain ⟨r, hr, hok⟩ := h.getChunk requiredChunkSize
    cases r with
    | ok res => exact ⟨(res.1, res.2 :: refs), by simp [serve, hr], (hok res.1 res.2 rfl).2⟩
    | error e => exact ⟨(mm, refs), by simp [serve, hr], h⟩
  | release m =>
    by_cases hm : m ∈ refs
    · -- the released reference goes first, so that `Owns.decrement` applies
      obtain ⟨mm', hdec, hown⟩ := (h.perm (List.perm_cons_erase hm)).decrement
      exact ⟨(mm', refs.erase m), by simp [serve, hm, hdec], hown⟩
    · exact ⟨(mm, refs), by simp [serve, hm], h⟩

/-- **No run of requests ever stops**, in particular none finds the management pool empty, from
a memory manager that owns the references held. -/
theorem serve_run_owns {mm : MemoryManager} {refs : List ℕ} (h : mm.Owns refs)
    (requests : List Request) :
    ∃ s', Scheduler.run serve (mm, refs) requests = some s' ∧ s'.1.Owns s'.2 :=
  Scheduler.run_total (P := fun s : MemoryManager × List ℕ ↦ s.1.Owns s.2)
    (fun _ request hs ↦ serve_owns hs request)
    requests h

/-- **A memory manager configured with fewer than `2 ^ 32` chunks in all never finds its
management pool empty**, whatever requests follow. -/
theorem configureMemoryManager_serve_run {config : MePooConfig} {as as' : Allocators}
    {mm : MemoryManager} (h : configureMemoryManager config as = some (mm, as'))
    (hsum : (config.mempoolConfig.map fun entry ↦ entry.chunkCount).sum < 2 ^ 32)
    (requests : List Request) :
    ∃ s', Scheduler.run serve (mm, []) requests = some s' ∧ s'.1.Owns s'.2 :=
  serve_run_owns (configureMemoryManager_owns h hsum) requests

/-- One mempool of two chunks of `8` bytes, from allocators of exactly the required sizes; two
chunks served and the first released. -/
theorem configureMemoryManager_serve_run_of_one_pool :
    ∃ mm as', configureMemoryManager ⟨[⟨8, 2⟩]⟩
        ⟨BumpAllocator.new 64 (requiredManagementMemorySize ⟨[⟨8, 2⟩]⟩),
          BumpAllocator.new 4096 (requiredChunkMemorySize ⟨[⟨8, 2⟩]⟩).get!⟩ = some (mm, as') ∧
      ∃ s', Scheduler.run serve (mm, []) [.getChunk 8, .getChunk 8, .release 0] = some s' ∧
        s'.1.Owns s'.2 :=
  ⟨_, _, rfl, @configureMemoryManager_serve_run ⟨[⟨8, 2⟩]⟩
    ⟨BumpAllocator.new 64 (requiredManagementMemorySize ⟨[⟨8, 2⟩]⟩),
      BumpAllocator.new 4096 (requiredChunkMemorySize ⟨[⟨8, 2⟩]⟩).get!⟩ _ _ rfl (by decide) _⟩

/-- Two mempools of `2 ^ 31` and `2 ^ 31 + 1` chunks, of 8 and 16 bytes in increasing order and
chunk sizes `56` and `64` multiples of 8, configured from allocators at 8-aligned addresses of
exactly the required sizes: configuration succeeds, but `m_totalNumberOfChunks` has wrapped to
`1`. The management pool has one chunk for `2 ^ 32 + 1` payload chunks: the first `getChunk` is
served, and the second finds the management pool empty and constructs its `ChunkManagement` at
`nullptr`. -/
theorem configureMemoryManager_management_pool_runs_dry :
    requiredChunkMemorySize ⟨[⟨8, 2 ^ 31⟩, ⟨16, 2 ^ 31 + 1⟩]⟩ = some 257698037824 ∧
      (configureMemoryManager ⟨[⟨8, 2 ^ 31⟩, ⟨16, 2 ^ 31 + 1⟩]⟩
          ⟨BumpAllocator.new (2 ^ 40)
              (requiredManagementMemorySize ⟨[⟨8, 2 ^ 31⟩, ⟨16, 2 ^ 31 + 1⟩]⟩),
            BumpAllocator.new (2 ^ 41) 257698037824⟩).map (fun r ↦
          (r.1.chunkManagementPool.size, (r.1.memPoolVector.map fun p ↦ p.freeIndices.size).sum,
            (Scheduler.run serve (r.1, []) [.getChunk (8 + sizeOfChunkHeader)]).isSome,
            (Scheduler.run serve (r.1, [])
              [.getChunk (8 + sizeOfChunkHeader), .getChunk (8 + sizeOfChunkHeader)]).isNone)) =
        some (1, 2 ^ 32 + 1, true, true) := by
  decide

end Iox.Mepoo
