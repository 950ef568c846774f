import Iceoryx.Memory.Align
import Iceoryx.Machine.Run
import Mathlib

/-!
# `BumpAllocator`

A `BumpAllocator` (`bump_allocator.cpp`) hands out consecutive pieces of one memory region of
`m_length` bytes at `m_startAddress`. `allocate(size, alignment)` rounds the address at
`m_currentPosition` up to the alignment and, if the piece from there ends within the region,
returns it and moves the position to its end; `deallocate()` starts over at position `0`. A
`MemPool` takes its chunks and its free list from two of them, and `MemoryProvider::create`
places its memory blocks with one.

## The model

Addresses and positions are `uint64_t`: natural numbers below `2 ^ 64`, computed with `wrap`, and
`align` is the bit trick of `memory.hpp` (`Iceoryx.Memory.Align`). An error returns no allocator,
so the caller keeps the one it had: a failed request changes nothing (`step_of_error`). A run of
requests is a `Machine`; `Tracked` runs the same requests with the blocks handed out since the
last `deallocate` kept alongside (`run_tracked`), and the statements about disjointness quantify
over those.

## What is proved

* **Without overflow `allocate` is bump allocation**: it returns the address at the current
  position rounded up to the alignment if the block from there ends within the region, and
  `OUT_OF_MEMORY` otherwise (`allocate_eq_of_noOverflow`).
* On every run whose requests have power-of-two alignments and leave the region's arithmetic
  in `uint64_t` (`Fits`: `S + L + alignment + size ≤ 2 ^ 64`), every block handed out since the
  last `deallocate` is aligned, inside the region and disjoint from the others
  (`blocks_of_run`).
* Without that room the end position wraps: in 16 bytes at address 0, after 8 bytes at 0, a
  request for `2 ^ 64 - 4` bytes succeeds at address 8 and moves the position back to 4, and the
  next 8 bytes are handed out at 4, over the first block (`allocate_wraps_past_length`).
-/

namespace Iox.Mepoo

/-- `BumpAllocatorError`. -/
inductive BumpAllocatorError
  | outOfMemory
  | requestedZeroSizedMemory
  deriving DecidableEq, Repr

/-- A `BumpAllocator`. -/
structure BumpAllocator where
  /-- `m_startAddress`. -/
  startAddress : ℕ
  /-- `m_length`. -/
  length : ℕ
  /-- `m_currentPosition`. -/
  currentPosition : ℕ
  deriving DecidableEq, Repr

namespace BumpAllocator

/-- The constructor `BumpAllocator(startAddress, length)`. -/
def new (startAddress length : ℕ) : BumpAllocator := ⟨startAddress, length, 0⟩

/-- `allocate(size, alignment)`: the next aligned position, if the memory has room up to it. -/
def allocate (a : BumpAllocator) (size alignment : ℕ) :
    Except BumpAllocatorError (BumpAllocator × ℕ) :=
  if size = 0 then .error .requestedZeroSizedMemory
  else
    let currentAddress := wrap (a.startAddress + a.currentPosition)
    let alignedPosition := wrap (align currentAddress alignment + (2 ^ 64 - a.startAddress))
    let nextPosition := wrap (alignedPosition + size)
    if a.length ≥ nextPosition then
      .ok ({ a with currentPosition := nextPosition }, wrap (a.startAddress + alignedPosition))
    else .error .outOfMemory

/-- `deallocate()`: the whole region is free again. -/
def deallocate (a : BumpAllocator) : BumpAllocator := { a with currentPosition := 0 }

/-! ### One allocation -/

/-- The address `allocate` hands out when nothing wraps: the one at the current position, rounded
up to the alignment. -/
def nextAligned (a : BumpAllocator) (alignment : ℕ) : ℕ :=
  align (a.startAddress + a.currentPosition) alignment

section Allocate

variable {a : BumpAllocator} {size alignment : ℕ}

theorem allocate_zero (a : BumpAllocator) (alignment : ℕ) :
    a.allocate 0 alignment = .error .requestedZeroSizedMemory :=
  if_pos rfl

/-- **Without overflow, `allocate` is bump allocation.** The hypotheses are the note of `align`
(the rounding stays in `uint64_t`) and that the end position does not wrap. -/
theorem allocate_eq_of_noOverflow (hpow : alignment.isPowerOfTwo) (halign : alignment < 2 ^ 64)
    (hsize : size ≠ 0) (hfit : a.startAddress + a.currentPosition + alignment ≤ 2 ^ 64)
    (hnext : a.nextAligned alignment - a.startAddress + size < 2 ^ 64) :
    a.allocate size alignment =
      if a.nextAligned alignment - a.startAddress + size ≤ a.length then
        .ok ({ a with currentPosition := a.nextAligned alignment - a.startAddress + size },
          a.nextAligned alignment)
      else .error .outOfMemory := by
  have hle : a.startAddress + a.currentPosition ≤ a.nextAligned alignment :=
    le_align hpow halign hfit
  have hlt : a.nextAligned alignment < a.startAddress + a.currentPosition + alignment :=
    align_lt hpow halign hfit
  -- each `uint64_t` operation of the source stays below `2 ^ 64`
  have hcurrent : wrap (a.startAddress + a.currentPosition) = a.startAddress + a.currentPosition :=
    wrap_of_lt (by omega)
  have haligned : wrap (a.nextAligned alignment + (2 ^ 64 - a.startAddress)) =
      a.nextAligned alignment - a.startAddress :=
    wrap_add_sub (by omega) (by omega)
  have haddress : wrap (a.startAddress + (a.nextAligned alignment - a.startAddress)) =
      a.nextAligned alignment := by
    rw [Nat.add_sub_cancel' (by omega)]
    exact wrap_of_lt (by omega)
  rw [allocate, if_neg hsize]
  dsimp only
  rw [hcurrent, show align (a.startAddress + a.currentPosition) alignment = a.nextAligned alignment
    from rfl, haligned, wrap_of_lt hnext, haddress]

end Allocate

/-! ### Runs -/

/-- A call on the allocator. -/
inductive Request
  | allocate (size alignment : ℕ)
  | deallocate
  deriving DecidableEq, Repr

/-- One call: the allocator after it, and what `allocate` returned (`none` for `deallocate`). -/
def step (a : BumpAllocator) : Request → BumpAllocator × Option (Except BumpAllocatorError ℕ)
  | .allocate size alignment =>
    match a.allocate size alignment with
    | .ok (a', address) => (a', some (.ok address))
    | .error e => (a, some (.error e))
  | .deallocate => (a.deallocate, none)

/-- The allocator as a machine. -/
def machine : Machine BumpAllocator Request (Option (Except BumpAllocatorError ℕ)) := ⟨step⟩

/-- **A failed request leaves the allocator as it was.** -/
theorem step_of_error {a : BumpAllocator} {o : Request} {e : BumpAllocatorError}
    (h : (a.step o).2 = some (.error e)) : (a.step o).1 = a := by
  cases o with
  | allocate size alignment =>
    cases hr : a.allocate size alignment with
    | ok r => simp [step, hr] at h
    | error e' => simp [step, hr]
  | deallocate => simp [step] at h

/-- A block handed out: its address, and the size and alignment it was asked with. -/
structure Block where
  address : ℕ
  size : ℕ
  alignment : ℕ
  deriving DecidableEq, Repr

/-- The bytes of a block. -/
def Block.range (b : Block) : Set ℕ := Set.Ico b.address (b.address + b.size)

/-- A block that ends where another starts, or before, is disjoint from it. -/
theorem Block.disjoint_of_le {b c : Block} (h : b.address + b.size ≤ c.address) :
    Disjoint b.range c.range := by
  rw [range, range, Set.Ico_disjoint_Ico]
  omega

/-- The allocator with the blocks it handed out since the last `deallocate`. -/
structure Tracked where
  allocator : BumpAllocator
  blocks : List Block

namespace Tracked

/-- One call, with the block it hands out recorded and the record cleared by `deallocate`. -/
def step (t : Tracked) : Request → Tracked × Option (Except BumpAllocatorError ℕ)
  | .allocate size alignment =>
    match t.allocator.allocate size alignment with
    | .ok (a', address) => (⟨a', t.blocks ++ [⟨address, size, alignment⟩]⟩, some (.ok address))
    | .error e => (t, some (.error e))
  | .deallocate => (⟨t.allocator.deallocate, []⟩, none)

/-- The tracked allocator as a machine. -/
def machine : Machine Tracked Request (Option (Except BumpAllocatorError ℕ)) := ⟨step⟩

theorem step_allocate_of_ok {t : Tracked} {size alignment address : ℕ} {a' : BumpAllocator}
    (h : t.allocator.allocate size alignment = .ok (a', address)) :
    t.step (.allocate size alignment) =
      (⟨a', t.blocks ++ [⟨address, size, alignment⟩]⟩, some (.ok address)) := by
  simp only [step, h]

theorem step_allocate_of_error {t : Tracked} {size alignment : ℕ} {e : BumpAllocatorError}
    (h : t.allocator.allocate size alignment = .error e) :
    t.step (.allocate size alignment) = (t, some (.error e)) := by
  simp only [step, h]

/-- Recording the blocks changes neither the allocator nor what it returns. -/
theorem simulation_machine :
    Tracked.machine.Simulation BumpAllocator.machine (fun _ _ ↦ True) (fun t a ↦ t.allocator = a) := by
  rintro t a o rfl -
  cases o with
  | allocate size alignment =>
    cases h : t.allocator.allocate size alignment with
    | ok r => simp [Tracked.machine, BumpAllocator.machine, step, BumpAllocator.step, h]
    | error e => simp [Tracked.machine, BumpAllocator.machine, step, BumpAllocator.step, h]
  | deallocate => exact ⟨rfl, rfl⟩

/-- **The tracked run is the allocator's run**: same results, and the same allocator at the end. -/
theorem run_tracked (t : Tracked) (os : List Request) :
    (Tracked.machine.run t os).2 = (BumpAllocator.machine.run t.allocator os).2 ∧
      (Tracked.machine.run t os).1.allocator = (BumpAllocator.machine.run t.allocator os).1 :=
  simulation_machine.run os rfl (Machine.admits_true _ _ _)

/-! ### The blocks since the last `deallocate` -/

/-- What holds of the allocator of a region of `L` bytes at `S` and of the blocks it handed out
since the last `deallocate`: they lie before the current position, are aligned, and are pairwise
disjoint. -/
structure Inv (S L : ℕ) (t : Tracked) : Prop where
  startAddress_eq : t.allocator.startAddress = S
  length_eq : t.allocator.length = L
  position_le : t.allocator.currentPosition ≤ L
  inside : ∀ b ∈ t.blocks, S ≤ b.address ∧ b.address + b.size ≤ S + t.allocator.currentPosition
  aligned : ∀ b ∈ t.blocks, b.alignment ∣ b.address
  disjoint : t.blocks.Pairwise fun b c ↦ Disjoint b.range c.range

variable {S L : ℕ} {t : Tracked}

theorem inv_new : Inv S L ⟨new S L, []⟩ where
  startAddress_eq := rfl
  length_eq := rfl
  position_le := Nat.zero_le L
  inside _ h := absurd h List.not_mem_nil
  aligned _ h := absurd h List.not_mem_nil
  disjoint := List.Pairwise.nil

theorem Inv.deallocate (h : Inv S L t) : Inv S L (t.step .deallocate).1 where
  startAddress_eq := h.startAddress_eq
  length_eq := h.length_eq
  position_le := Nat.zero_le L
  inside _ h := absurd h List.not_mem_nil
  aligned _ h := absurd h List.not_mem_nil
  disjoint := List.Pairwise.nil

/-- **Handing out an aligned block at or after the current position**, and moving the position
to its end within the region, keeps the invariant: the new block starts after every recorded one
ends. -/
theorem Inv.push (h : Inv S L t) {b : Block} {position : ℕ}
    (hstart : S + t.allocator.currentPosition ≤ b.address) (hend : b.address + b.size = S + position)
    (hposition : position ≤ L) (hdvd : b.alignment ∣ b.address) :
    Inv S L ⟨{ t.allocator with currentPosition := position }, t.blocks ++ [b]⟩ where
  startAddress_eq := h.startAddress_eq
  length_eq := h.length_eq
  position_le := hposition
  inside c hc := by
    rcases List.mem_append.1 hc with hc | hc
    · have := h.inside c hc
      exact ⟨this.1, by dsimp only; omega⟩
    · rw [List.mem_singleton.1 hc]
      exact ⟨by omega, hend.le⟩
  aligned c hc := by
    rcases List.mem_append.1 hc with hc | hc
    · exact h.aligned c hc
    · rw [List.mem_singleton.1 hc]
      exact hdvd
  disjoint := by
    refine List.pairwise_append.2 ⟨h.disjoint, List.pairwise_singleton _ b, ?_⟩
    intro c hc d hd
    rw [List.mem_singleton.1 hd]
    exact Block.disjoint_of_le (by have := (h.inside c hc).2; omega)

/-- **An allocation without overflow keeps the invariant.** A successful one pushes its block at
the rounded-up address; a failed one changes nothing. -/
theorem Inv.allocate (h : Inv S L t) {size alignment : ℕ} (hpow : alignment.isPowerOfTwo)
    (halign : alignment < 2 ^ 64)
    (hfit : t.allocator.startAddress + t.allocator.currentPosition + alignment ≤ 2 ^ 64)
    (hnext : t.allocator.nextAligned alignment - t.allocator.startAddress + size < 2 ^ 64) :
    Inv S L (t.step (.allocate size alignment)).1 := by
  rcases Nat.eq_zero_or_pos size with rfl | hsize
  · rw [step_allocate_of_error (allocate_zero _ _)]
    exact h
  have hspec := allocate_eq_of_noOverflow hpow halign hsize.ne' hfit hnext
  split_ifs at hspec with hroom
  · rw [step_allocate_of_ok hspec]
    have hle : t.allocator.startAddress + t.allocator.currentPosition ≤
        t.allocator.nextAligned alignment :=
      le_align hpow halign hfit
    refine h.push (by rw [← h.startAddress_eq]; exact hle) ?_ (by rw [← h.length_eq]; exact hroom)
      (dvd_align hpow halign hfit)
    dsimp only
    rw [← h.startAddress_eq]
    omega
  · rw [step_allocate_of_error hspec]
    exact h

/-- The requests the safety theorem is about, in a region of `L` bytes at `S`: a power-of-two
alignment, and a size and alignment that keep the region's arithmetic in `uint64_t`. -/
def Fits (S L : ℕ) : Request → Prop
  | .allocate size alignment => alignment.isPowerOfTwo ∧ S + L + alignment + size ≤ 2 ^ 64
  | .deallocate => True

/-- The invariant holds along every run of fitting requests. -/
theorem inv_step : Tracked.machine.Invariant (fun _ ↦ Fits S L) (Inv S L) := by
  intro t o h hfits
  cases o with
  | allocate size alignment =>
    obtain ⟨hpow, hroom⟩ := hfits
    rcases Nat.eq_zero_or_pos size with rfl | hsize
    · show Inv S L (t.step (.allocate 0 alignment)).1
      rw [step_allocate_of_error (allocate_zero _ _)]
      exact h
    have hlt : t.allocator.nextAligned alignment <
        t.allocator.startAddress + t.allocator.currentPosition + alignment := by
      have := h.position_le
      exact align_lt hpow (by omega) (by rw [h.startAddress_eq]; omega)
    have := h.position_le
    have hS := h.startAddress_eq
    exact h.allocate hpow (by omega) (by omega) (by omega)
  | deallocate => exact h.deallocate

/-- **Every block handed out since the last `deallocate` is aligned, inside the region, and
disjoint from the others**, on every run of requests with power-of-two alignments whose
arithmetic stays in `uint64_t`. The blocks are those the allocator's own run returned
(`run_tracked`). -/
theorem blocks_of_run (S L : ℕ) (os : List Request)
    (hos : Tracked.machine.Admits (fun _ ↦ Fits S L) ⟨new S L, []⟩ os) :
    (∀ b ∈ (Tracked.machine.run ⟨new S L, []⟩ os).1.blocks,
        b.alignment ∣ b.address ∧ S ≤ b.address ∧ b.address + b.size ≤ S + L) ∧
      (Tracked.machine.run ⟨new S L, []⟩ os).1.blocks.Pairwise
        fun b c ↦ Disjoint b.range c.range := by
  have h := inv_step.run os inv_new hos
  refine ⟨fun b hb ↦ ⟨h.aligned b hb, (h.inside b hb).1, ?_⟩, h.disjoint⟩
  have := (h.inside b hb).2
  have := h.position_le
  omega

/-- Three bytes and then eight bytes at alignment `8`, in a region of `256` bytes at `4097`. -/
theorem blocks_of_run_of_two_allocations :
    (∀ b ∈ (Tracked.machine.run ⟨new 4097 256, []⟩ [.allocate 3 1, .allocate 8 8]).1.blocks,
        b.alignment ∣ b.address ∧ 4097 ≤ b.address ∧ b.address + b.size ≤ 4097 + 256) ∧
      (Tracked.machine.run ⟨new 4097 256, []⟩ [.allocate 3 1, .allocate 8 8]).1.blocks.Pairwise
        fun b c ↦ Disjoint b.range c.range :=
  blocks_of_run 4097 256 _ ⟨⟨by decide, by decide⟩, ⟨by decide, by decide⟩, trivial⟩

end Tracked

/-- **Without room below `2 ^ 64` the end position wraps.** In 16 bytes at address 0, after 8
bytes at 0, a request for `2 ^ 64 - 4` bytes succeeds at address 8 although it ends far past the
region, and moves the position back to 4; the next 8 bytes are handed out at 4, over the first
block. Every alignment is 1, a power of two. -/
theorem allocate_wraps_past_length :
    machine.run (new 0 16) [.allocate 8 1, .allocate (2 ^ 64 - 4) 1, .allocate 8 1] =
        (⟨0, 16, 12⟩, [some (.ok 0), some (.ok 8), some (.ok 4)]) ∧
      (1 : ℕ).isPowerOfTwo ∧ 0 + 16 < 8 + (2 ^ 64 - 4) ∧
      ¬ Disjoint (Block.range ⟨0, 8, 1⟩) (Block.range ⟨4, 8, 1⟩) := by
  refine ⟨rfl, ⟨0, rfl⟩, by decide, ?_⟩
  rw [Block.range, Block.range, Set.Ico_disjoint_Ico]
  decide

end BumpAllocator

end Iox.Mepoo
