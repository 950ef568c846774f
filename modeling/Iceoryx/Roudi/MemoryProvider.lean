import Iceoryx.Memory.BumpAllocator
import Iceoryx.Memory.RelativePointer

/-!
# `MemoryProvider::create`

A `MemoryProvider` (`memory_provider.cpp`) owns one piece of memory and places the
`MemoryBlock`s added to it there. `create()` runs two loops over the blocks. The first sizes the
memory: it keeps the largest alignment, and adds each block's size rounded up to its alignment
after rounding the running total up to it. `createMemory(totalSize, maxAlignment)`, a virtual
function of the subclass (shared memory or the heap), provides the memory, which is registered
as a segment for `RelativePointer`s. The second loop gives each block its memory from a
`BumpAllocator` over `[m_memory, m_memory + m_size)`.

## The model

The provider holds its blocks by value, each with what its `size()` and `alignment()` return and
its `m_memory`; `nullptr` is `0`. `createMemory` is a parameter, and the segment registry is the
`PointerRepository` of `Iceoryx.Memory.RelativePointer`, passed along. `IOX_REPORT_FATAL` ends the
run (`none`). `create` returns the provider and the registry with its result also on an error: the
second loop leaves the blocks before a failed allocation placed.

## What is proved

The first loop computes offsets from `0` and rounds each block's size up, while the allocator
rounds absolute addresses and advances by the size as it is. They agree because the memory
starts at a multiple of the largest alignment, which every alignment divides
(`foldl_sizeStep_snd`): the allocator's position never passes the first loop's total for the
blocks before (`allocate_of_sizesFit`, `allocateBlocks_placed`). So for blocks with power-of-two
alignments and positive sizes whose first loop stays in `uint64_t`, with memory inside the address
space at a multiple of the largest alignment, `create` succeeds as soon as the segment is
registered, and the blocks are aligned, inside the memory and pairwise disjoint
(`create_places_blocks`). A block of size `0` is refused by the allocator, and `create` fails
with `MEMORY_ALLOCATION_FAILED` (`create_fails_for_zero_sized_block`).
-/

namespace Iox.Roudi

open Iox.Mepoo (BumpAllocator)

/-- `MemoryProviderError`. -/
inductive MemoryProviderError
  | memoryBlocksExhausted
  | noMemoryBlocksPresent
  | memoryAlreadyCreated
  | memoryCreationFailed
  | memoryAlignmentExceedsPageSize
  | memoryAllocationFailed
  | memoryMappingFailed
  | memoryNotAvailable
  | memoryDestructionFailed
  | memoryDeallocationFailed
  | memoryUnmappingFailed
  | sigactionCallFailed
  deriving DecidableEq, Repr

/-- `MAX_NUMBER_OF_MEMORY_BLOCKS_PER_MEMORY_PROVIDER`, the capacity of `m_memoryBlocks`. -/
def maxNumberOfMemoryBlocksPerMemoryProvider : ℕ := 64

/-- A `MemoryBlock`. -/
structure MemoryBlock where
  /-- What `size()` returns. -/
  size : ℕ
  /-- What `alignment()` returns. -/
  alignment : ℕ
  /-- `m_memory`; `0` is `nullptr`. -/
  memory : ℕ
  deriving DecidableEq, Repr

/-- A `MemoryProvider`. -/
structure MemoryProvider where
  /-- `m_memory`; `0` is `nullptr`. -/
  memory : ℕ
  /-- `m_size`. -/
  size : ℕ
  /-- `m_segmentId`. -/
  segmentId : ℕ
  /-- `m_memoryAvailableAnnounced`. -/
  memoryAvailableAnnounced : Bool
  /-- `m_memoryBlocks`. -/
  memoryBlocks : List MemoryBlock
  deriving DecidableEq, Repr

namespace MemoryProvider

/-- `isAvailable()`. -/
def isAvailable (p : MemoryProvider) : Bool := p.memory != 0

/-- `addMemoryBlock(memoryBlock)`. -/
def addMemoryBlock (p : MemoryProvider) (memoryBlock : MemoryBlock) :
    Except MemoryProviderError MemoryProvider :=
  if p.isAvailable then .error .memoryAlreadyCreated
  else if p.memoryBlocks.length < maxNumberOfMemoryBlocksPerMemoryProvider then
    .ok { p with memoryBlocks := p.memoryBlocks ++ [memoryBlock] }
  else .error .memoryBlocksExhausted

/-- One pass of the first loop of `create`: `totalSize` and `maxAlignment` after the block. -/
def sizeStep (acc : ℕ × ℕ) (memoryBlock : MemoryBlock) : ℕ × ℕ :=
  let alignment := memoryBlock.alignment
  let maxAlignment := if alignment > acc.2 then alignment else acc.2
  let size := align memoryBlock.size alignment
  (wrap (align acc.1 alignment + size), maxAlignment)

/-- The first loop of `create`: `totalSize` and `maxAlignment`, from `0` and `1`. -/
def requiredSize (memoryBlocks : List MemoryBlock) : ℕ × ℕ :=
  memoryBlocks.foldl sizeStep (0, 1)

/-- The second loop of `create`: each block in turn gets its memory from the allocator; the
first failed allocation ends the loop with `MEMORY_ALLOCATION_FAILED`. -/
def allocateBlocks (allocator : BumpAllocator) :
    List MemoryBlock → List MemoryBlock × Except MemoryProviderError Unit
  | [] => ([], .ok ())
  | memoryBlock :: memoryBlocks =>
    match allocator.allocate memoryBlock.size memoryBlock.alignment with
    | .error _ => (memoryBlock :: memoryBlocks, .error .memoryAllocationFailed)
    | .ok (allocator, memory) =>
      let rest := allocateBlocks allocator memoryBlocks
      ({ memoryBlock with memory } :: rest.1, rest.2)

section Create

variable (createMemory : ℕ → ℕ → Except MemoryProviderError ℕ)

/-- `create()`, with the subclass's `createMemory(size, alignment)`; `none` is the
`IOX_REPORT_FATAL` when no segment id is left. -/
def create (p : MemoryProvider) (repository : PointerRepository) :
    Option (MemoryProvider × PointerRepository × Except MemoryProviderError Unit) :=
  if p.memoryBlocks.isEmpty then some (p, repository, .error .noMemoryBlocksPresent)
  else if p.isAvailable then some (p, repository, .error .memoryAlreadyCreated)
  else
    let totalSize := (requiredSize p.memoryBlocks).1
    let maxAlignment := (requiredSize p.memoryBlocks).2
    match createMemory totalSize maxAlignment with
    | .error e => some (p, repository, .error e)
    | .ok memory =>
      match repository.registerPtr memory totalSize with
      | (_, none) => none
      | (repository, some segmentId) =>
        let placed := allocateBlocks (BumpAllocator.new memory totalSize) p.memoryBlocks
        some ({ p with memory, size := totalSize, segmentId, memoryBlocks := placed.1 },
          repository, placed.2)

end Create

/-- `announceMemoryAvailable()`; the blocks' `onMemoryAvailable` callbacks are their own. -/
def announceMemoryAvailable (p : MemoryProvider) : MemoryProvider :=
  { p with memoryAvailableAnnounced := true }

/-- `destroy()`, with the subclass's `destroyMemory()`; the blocks' own `destroy()` is theirs. -/
def destroy (destroyMemory : Except MemoryProviderError Unit) (p : MemoryProvider)
    (repository : PointerRepository) :
    MemoryProvider × PointerRepository × Except MemoryProviderError Unit :=
  if !p.isAvailable then (p, repository, .error .memoryNotAvailable)
  else
    match destroyMemory with
    | .error e => (p, repository, .error e)
    | .ok () =>
      ({ p with memory := 0, size := 0 }, (repository.unregisterPtr p.segmentId).1, .ok ())

/-! ### The first loop -/

/-- The first loop of `create`, from a running total, stays in `uint64_t`: each `align` has the
room its note asks for, and each new total is below `2 ^ 64`. -/
def SizesFit : ℕ → List MemoryBlock → Prop
  | _, [] => True
  | total, b :: bs =>
    total + b.alignment ≤ 2 ^ 64 ∧ b.size + b.alignment ≤ 2 ^ 64 ∧
      align total b.alignment + align b.size b.alignment < 2 ^ 64 ∧
      SizesFit (align total b.alignment + align b.size b.alignment) bs

instance decidableSizesFit : ∀ (total : ℕ) (memoryBlocks : List MemoryBlock),
    Decidable (SizesFit total memoryBlocks)
  | _, [] => isTrue trivial
  | total, b :: bs =>
    haveI := decidableSizesFit (align total b.alignment + align b.size b.alignment) bs
    inferInstanceAs (Decidable (total + b.alignment ≤ 2 ^ 64 ∧ b.size + b.alignment ≤ 2 ^ 64 ∧
      align total b.alignment + align b.size b.alignment < 2 ^ 64 ∧
      SizesFit (align total b.alignment + align b.size b.alignment) bs))

/-- A pass of the first loop without overflow. -/
theorem sizeStep_eq {total maxAlignment : ℕ} {b : MemoryBlock}
    (h : align total b.alignment + align b.size b.alignment < 2 ^ 64) :
    sizeStep (total, maxAlignment) b =
      (align total b.alignment + align b.size b.alignment,
        if b.alignment > maxAlignment then b.alignment else maxAlignment) := by
  rw [sizeStep, wrap_of_lt h]

/-- **The first loop's total only grows.** -/
theorem le_foldl_sizeStep : ∀ {bs : List MemoryBlock} {total maxAlignment : ℕ},
    (∀ b ∈ bs, b.alignment.isPowerOfTwo) → (∀ b ∈ bs, 0 < b.size) → SizesFit total bs →
    total ≤ (bs.foldl sizeStep (total, maxAlignment)).1
  | [], _, _, _, _, _ => le_rfl
  | b :: bs, total, maxAlignment, hpow, hsize, ⟨h1, h2, h3, hrest⟩ => by
    have hb := hsize b List.mem_cons_self
    have hle : total ≤ align total b.alignment :=
      le_align (hpow b List.mem_cons_self) (by omega) h1
    rw [List.foldl_cons, sizeStep_eq h3]
    calc total ≤ align total b.alignment + align b.size b.alignment := by omega
      _ ≤ _ := le_foldl_sizeStep (fun c hc ↦ hpow c (List.mem_cons_of_mem b hc))
          (fun c hc ↦ hsize c (List.mem_cons_of_mem b hc)) hrest

/-- **The largest alignment is a power of two that every alignment divides**, the one the loop
starts from included. -/
theorem foldl_sizeStep_snd : ∀ {bs : List MemoryBlock} {total maxAlignment : ℕ},
    (∀ b ∈ bs, b.alignment.isPowerOfTwo) → maxAlignment.isPowerOfTwo →
    (bs.foldl sizeStep (total, maxAlignment)).2.isPowerOfTwo ∧
      maxAlignment ∣ (bs.foldl sizeStep (total, maxAlignment)).2 ∧
      ∀ b ∈ bs, b.alignment ∣ (bs.foldl sizeStep (total, maxAlignment)).2
  | [], _, _, _, hmax => ⟨hmax, dvd_rfl, fun _ h ↦ absurd h List.not_mem_nil⟩
  | b :: bs, total, maxAlignment, hpow, hmax => by
    have hb := hpow b List.mem_cons_self
    -- the running maximum after this block is one of two powers of two, at least both
    have hnext : (sizeStep (total, maxAlignment) b).2.isPowerOfTwo ∧
        maxAlignment ≤ (sizeStep (total, maxAlignment) b).2 ∧
        b.alignment ≤ (sizeStep (total, maxAlignment) b).2 := by
      simp only [sizeStep]
      split_ifs with hgt
      · exact ⟨hb, hgt.le, le_rfl⟩
      · exact ⟨hmax, le_rfl, Nat.le_of_not_lt hgt⟩
    obtain ⟨hpow', hdvd', hall⟩ := @foldl_sizeStep_snd bs (sizeStep (total, maxAlignment) b).1
      (sizeStep (total, maxAlignment) b).2 (fun c hc ↦ hpow c (List.mem_cons_of_mem b hc)) hnext.1
    rw [List.foldl_cons]
    refine ⟨hpow', (dvd_of_isPowerOfTwo_of_le hmax hnext.1 hnext.2.1).trans hdvd', ?_⟩
    intro c hc
    rcases List.mem_cons.1 hc with rfl | hc
    · exact (dvd_of_isPowerOfTwo_of_le hb hnext.1 hnext.2.2).trans hdvd'
    · exact hall c hc

/-! ### The second loop -/

theorem allocateBlocks_cons_of_ok {a a' : BumpAllocator} {b : MemoryBlock}
    {bs : List MemoryBlock} {address : ℕ} (h : a.allocate b.size b.alignment = .ok (a', address)) :
    allocateBlocks a (b :: bs) =
      ({ b with memory := address } :: (allocateBlocks a' bs).1, (allocateBlocks a' bs).2) := by
  rw [allocateBlocks, h]

/-- **One block of the second loop.** In memory that starts at a multiple of the block's
alignment, at a position no further than the first loop's total before the block, the allocation
succeeds at the start plus the position rounded up, and ends no further than the first loop's
total after the block. -/
theorem allocate_of_sizesFit {a : BumpAllocator} {b : MemoryBlock} {total : ℕ}
    (hpow : b.alignment.isPowerOfTwo) (hsize : 0 < b.size) (hdvd : b.alignment ∣ a.startAddress)
    (hspace : a.startAddress + a.length ≤ 2 ^ 64) (hposition : a.currentPosition ≤ total)
    (h1 : total + b.alignment ≤ 2 ^ 64) (h2 : b.size + b.alignment ≤ 2 ^ 64)
    (h3 : align total b.alignment + align b.size b.alignment < 2 ^ 64)
    (hroom : align total b.alignment + align b.size b.alignment ≤ a.length) :
    a.allocate b.size b.alignment =
        .ok ({ a with currentPosition := align a.currentPosition b.alignment + b.size },
          a.startAddress + align a.currentPosition b.alignment) ∧
      align a.currentPosition b.alignment + b.size ≤
        align total b.alignment + align b.size b.alignment := by
  have halign : b.alignment < 2 ^ 64 := by omega
  -- the first loop rounds a larger offset and a larger size
  have htotal : total ≤ align total b.alignment := le_align hpow halign h1
  have hmono : align a.currentPosition b.alignment ≤ align total b.alignment :=
    align_mono hpow halign h1 hposition
  have hsize_le : b.size ≤ align b.size b.alignment := le_align hpow halign h2
  have halignment_le : b.alignment ≤ align b.size b.alignment :=
    alignment_le_align hpow halign h2 hsize
  have hbound : align a.currentPosition b.alignment + b.size ≤
      align total b.alignment + align b.size b.alignment := by omega
  -- rounding the absolute address is rounding the position, as the start is aligned
  have hfit : a.startAddress + a.currentPosition + b.alignment ≤ 2 ^ 64 := by omega
  have hnext : a.nextAligned b.alignment = a.startAddress + align a.currentPosition b.alignment :=
    align_add_of_dvd hpow halign (by omega) hdvd hfit
  refine ⟨?_, hbound⟩
  rw [BumpAllocator.allocate_eq_of_noOverflow hpow halign hsize.ne' hfit (by omega), hnext,
    Nat.add_sub_cancel_left, if_pos (by omega)]

/-- **The second loop places every block**, when the allocator's memory is inside the address
space and starts at a multiple of every alignment, its position is no further than the first
loop's total before the blocks, and the first loop's total after them fits the memory. Each block
is aligned and placed between the current position and the end of the memory, and ends before
the next one starts. By recursion on the blocks, with the position and the first loop's total. -/
theorem allocateBlocks_placed : ∀ {bs : List MemoryBlock} {a : BumpAllocator} {total maxAlignment : ℕ},
    (∀ b ∈ bs, b.alignment.isPowerOfTwo) → (∀ b ∈ bs, 0 < b.size) →
    (∀ b ∈ bs, b.alignment ∣ a.startAddress) → a.startAddress + a.length ≤ 2 ^ 64 →
    a.currentPosition ≤ total → SizesFit total bs →
    (bs.foldl sizeStep (total, maxAlignment)).1 ≤ a.length →
    ∃ placed, allocateBlocks a bs = (placed, .ok ()) ∧
      placed.map (fun b ↦ (b.size, b.alignment)) = bs.map (fun b ↦ (b.size, b.alignment)) ∧
      (∀ b ∈ placed, b.alignment ∣ b.memory ∧ a.startAddress + a.currentPosition ≤ b.memory ∧
        b.memory + b.size ≤ a.startAddress + a.length) ∧
      placed.Pairwise fun b c ↦ b.memory + b.size ≤ c.memory
  | [], _, _, _, _, _, _, _, _, _, _ =>
    ⟨[], rfl, rfl, fun _ h ↦ absurd h List.not_mem_nil, List.Pairwise.nil⟩
  | b :: bs, a, total, maxAlignment, hpow, hsize, hdvd, hspace, hposition, ⟨h1, h2, h3, hrest⟩,
      hroom => by
    have tail {P : MemoryBlock → Prop} (h : ∀ c ∈ b :: bs, P c) : ∀ c ∈ bs, P c :=
      fun c hc ↦ h c (List.mem_cons_of_mem b hc)
    rw [List.foldl_cons, sizeStep_eq h3] at hroom
    have hnext : align total b.alignment + align b.size b.alignment ≤ a.length :=
      (le_foldl_sizeStep (tail hpow) (tail hsize) hrest).trans hroom
    obtain ⟨hallocate, hbound⟩ := allocate_of_sizesFit (hpow b List.mem_cons_self)
      (hsize b List.mem_cons_self) (hdvd b List.mem_cons_self) hspace hposition h1 h2 h3 hnext
    -- the rest of the loop runs from the end of this block
    obtain ⟨placed, hplaced, hsizes, hinside, hpairwise⟩ :=
      allocateBlocks_placed (a := { a with currentPosition := align a.currentPosition b.alignment + b.size })
        (tail hpow) (tail hsize) (tail hdvd) hspace hbound hrest hroom
    have hpow_b := hpow b List.mem_cons_self
    have halign_b : b.alignment < 2 ^ 64 := by have := hsize b List.mem_cons_self; omega
    have hle : a.currentPosition ≤ align a.currentPosition b.alignment :=
      le_align hpow_b halign_b (by omega)
    refine ⟨{ b with memory := a.startAddress + align a.currentPosition b.alignment } :: placed,
      by rw [allocateBlocks_cons_of_ok hallocate, hplaced], by simp [hsizes], ?_, ?_⟩
    · intro c hc
      rcases List.mem_cons.1 hc with rfl | hc
      · -- this block: at the start plus the position rounded up
        dsimp only
        refine ⟨Nat.dvd_add (hdvd b List.mem_cons_self) (dvd_align hpow_b halign_b (by omega)),
          by omega, by omega⟩
      · have := hinside c hc
        exact ⟨this.1, by dsimp only at this; omega, this.2.2⟩
    · refine List.Pairwise.cons (fun c hc ↦ ?_) hpairwise
      have := (hinside c hc).2.1
      dsimp only at this ⊢
      omega

section Create

variable (createMemory : ℕ → ℕ → Except MemoryProviderError ℕ)

/-- **`create` reserves enough memory for its own layout.** For blocks with power-of-two
alignments and positive sizes whose first loop stays in `uint64_t`, with memory from
`createMemory` inside the address space at a multiple of the largest alignment, `create` succeeds
as soon as the segment is registered (otherwise it ends the run): every allocation of the second
loop succeeds, and the blocks, of the sizes and alignments they had, are aligned, inside
`[m_memory, m_memory + m_size)` and pairwise disjoint. -/
theorem create_places_blocks {p : MemoryProvider} {repository : PointerRepository} {memory : ℕ}
    (hblocks : p.memoryBlocks ≠ []) (havailable : p.memory = 0)
    (hpow : ∀ b ∈ p.memoryBlocks, b.alignment.isPowerOfTwo)
    (hsize : ∀ b ∈ p.memoryBlocks, 0 < b.size) (hfits : SizesFit 0 p.memoryBlocks)
    (hcreate : createMemory (requiredSize p.memoryBlocks).1 (requiredSize p.memoryBlocks).2 =
      .ok memory)
    (haligned : (requiredSize p.memoryBlocks).2 ∣ memory)
    (hspace : memory + (requiredSize p.memoryBlocks).1 ≤ 2 ^ 64) :
    ∃ placed : List MemoryBlock,
      create createMemory p repository =
        (repository.registerPtr memory (requiredSize p.memoryBlocks).1).2.map (fun segmentId ↦
          ({ p with
              memory := memory
              size := (requiredSize p.memoryBlocks).1
              segmentId := segmentId
              memoryBlocks := placed },
            (repository.registerPtr memory (requiredSize p.memoryBlocks).1).1, .ok ())) ∧
      placed.map (fun b ↦ (b.size, b.alignment)) =
        p.memoryBlocks.map (fun b ↦ (b.size, b.alignment)) ∧
      (∀ b ∈ placed, b.alignment ∣ b.memory ∧ memory ≤ b.memory ∧
        b.memory + b.size ≤ memory + (requiredSize p.memoryBlocks).1) ∧
      placed.Pairwise fun b c ↦
        Disjoint (Set.Ico b.memory (b.memory + b.size)) (Set.Ico c.memory (c.memory + c.size)) := by
  -- every alignment divides the largest, which divides the memory's address
  have hdvd : ∀ b ∈ p.memoryBlocks, b.alignment ∣ memory := fun b hb ↦
    ((foldl_sizeStep_snd hpow ⟨0, rfl⟩).2.2 b hb).trans haligned
  obtain ⟨placed, hplaced, hsizes, hinside, hpairwise⟩ :=
    allocateBlocks_placed (a := BumpAllocator.new memory (requiredSize p.memoryBlocks).1) hpow
      hsize hdvd hspace (Nat.zero_le 0) hfits
      (le_rfl : (p.memoryBlocks.foldl sizeStep (0, 1)).1 ≤ (requiredSize p.memoryBlocks).1)
  refine ⟨placed, ?_, hsizes, fun b hb ↦ ?_,
    hpairwise.imp fun h ↦ Set.Ico_disjoint_Ico.2 (by omega)⟩
  · have hempty : p.memoryBlocks.isEmpty = false := List.isEmpty_eq_false_iff.2 hblocks
    have hnot : p.isAvailable = false := by simp [isAvailable, havailable]
    rw [create, if_neg (by simp [hempty]), if_neg (by simp [hnot])]
    dsimp only
    rw [hcreate]
    dsimp only
    -- the segment is registered, or the run ends
    split
    · next hregister => rw [hregister]; rfl
    · next hregister => rw [hregister, hplaced]; rfl
  · have := hinside b hb
    exact ⟨this.1, by simpa [BumpAllocator.new] using this.2.1, this.2.2⟩

/-- `create_places_blocks` for two blocks, of 8 bytes aligned to 8 and of 16 bytes aligned to
16, in memory at 4096. -/
theorem create_places_blocks_two_blocks :
    SizesFit 0 [⟨8, 8, 0⟩, ⟨16, 16, 0⟩] ∧
      ((create (fun _ _ ↦ .ok 4096) ⟨0, 0, 0, false, [⟨8, 8, 0⟩, ⟨16, 16, 0⟩]⟩
        (PointerRepository.new 2)).map fun r ↦ r.2.2) = some (.ok ()) := by
  have hfits : SizesFit 0 [⟨8, 8, 0⟩, ⟨16, 16, 0⟩] := by decide
  refine ⟨hfits, ?_⟩
  obtain ⟨placed, hcreate, -⟩ := @create_places_blocks (fun _ _ ↦ .ok 4096)
    ⟨0, 0, 0, false, [⟨8, 8, 0⟩, ⟨16, 16, 0⟩]⟩ (PointerRepository.new 2) 4096
    (List.cons_ne_nil _ _) rfl
    (by
      intro b hb
      simp only [List.mem_cons, List.not_mem_nil, or_false] at hb
      rcases hb with rfl | rfl
      · exact ⟨3, rfl⟩
      · exact ⟨4, rfl⟩)
    (by decide) hfits rfl (by decide) (by decide)
  rw [hcreate]
  rfl

end Create

/-- **A block of size `0` is refused.** One block of size `0` aligned to `1` meets every other
condition: the first loop asks for `0` bytes aligned to `1`, and memory at 8 is a multiple of `1`.
But the allocator refuses a request for `0` bytes, so `create` fails with
`MEMORY_ALLOCATION_FAILED`. -/
theorem create_fails_for_zero_sized_block :
    [(⟨0, 1, 0⟩ : MemoryBlock)] ≠ [] ∧ (1 : ℕ).isPowerOfTwo ∧ SizesFit 0 [⟨0, 1, 0⟩] ∧
      requiredSize [⟨0, 1, 0⟩] = (0, 1) ∧
      ((create (fun _ _ ↦ .ok 8) ⟨0, 0, 0, false, [⟨0, 1, 0⟩]⟩ (PointerRepository.new 2)).map
        fun r ↦ r.2.2) = some (.error .memoryAllocationFailed) :=
  ⟨List.cons_ne_nil _ _, ⟨0, rfl⟩, by decide, rfl, rfl⟩

end MemoryProvider

end Iox.Roudi
