import Mathlib.Logic.Function.Basic
import Iceoryx.Memory.Align

/-!
# `ChunkSettings` and the layout of a chunk

A chunk starts with a `ChunkHeader` (`chunk_header.hpp`, 48 bytes, aligned to 8), followed by an
optional user-header, and then the user-payload at a user-chosen alignment. The header stores
the distance to the user-payload in `m_userPayloadOffset`, a `UserPayloadOffset_t = uint32_t`, and
the constructor writes the same value as a *back-offset* in the four bytes right before the
user-payload, so that `fromUserPayload` can find the header from a payload pointer.

`ChunkSettings::create` (`chunk_settings.cpp`) checks the alignments and computes
`requiredChunkSize`, a bound on the layout that holds for every chunk address; the constructor
`ChunkHeader(chunkSize, chunkSettings)` (`chunk_header.cpp`) then lays the chunk out at its actual
address, and enforces that the used size fits the chunk.

## The model

Addresses and sizes are `uint64_t` (`Iox.wrap`, `Iox.align`). Memory is modelled at the
granularity the layout code reads it: a function from addresses to the `UserPayloadOffset_t`
stored there. The constructor writes two such cells, the header's own `m_userPayloadOffset` (its
last four bytes) and the back-offset; in the simplest layout they are the same cell.
`ChunkHeaderLayout` holds the members the constructor sets; `Iox.Mepoo.ChunkHeader` holds those
the building blocks read later.

## What is proved

For settings that `create` accepts, and a chunk at an address aligned to
`MemPool::CHUNK_MEMORY_ALIGNMENT` inside the address space, the constructor lays the chunk out as
intended (`new_laidOut`): the user-payload is aligned, lies behind the header, the user-header
and the back-offset, the used size fits `requiredChunkSize`, and `fromUserPayload` and
`fromUserHeader` find the header again, **provided the header part of `requiredChunkSize` fits
in `uint32_t`**. `create` does not check this: a user-header of `2 ^ 32 - 8` bytes is accepted,
its offset `2 ^ 32 + 44` is truncated to `44`, and the user-payload then starts inside the
`ChunkHeader` (`userPayload_inside_chunkHeader`).
-/

namespace Iox.Mepoo

/-- `sizeof(ChunkHeader)`. -/
def sizeOfChunkHeader : ℕ := 48

/-- `alignof(ChunkHeader)`. -/
def alignOfChunkHeader : ℕ := 8

/-- `sizeof(ChunkHeader::UserPayloadOffset_t)`. -/
def sizeOfUserPayloadOffset : ℕ := 4

/-- `alignof(ChunkHeader::UserPayloadOffset_t)`. -/
def alignOfUserPayloadOffset : ℕ := 4

/-- `MemPool::CHUNK_MEMORY_ALIGNMENT`. -/
def chunkMemoryAlignment : ℕ := 8

/-- `ChunkHeader::NO_USER_HEADER`. -/
def noUserHeader : ℕ := 0

/-- `ChunkHeader::UNKNOWN_USER_HEADER`. -/
def unknownUserHeader : ℕ := 0xFFFF

/-- `std::numeric_limits<uint64_t>::max()`. -/
def uint64Max : ℕ := 2 ^ 64 - 1

/-- `ChunkSettings::Error`. -/
inductive ChunkSettings.Error
  | alignmentNotPowerOfTwo
  | userHeaderAlignmentExceedsChunkHeaderAlignment
  | userHeaderSizeNotMultipleOfItsAlignment
  | requiredChunkSizeExceedsMaxChunkSize
  deriving DecidableEq, Repr

/-- `ChunkSettings`. -/
structure ChunkSettings where
  /-- `m_userPayloadSize`. -/
  userPayloadSize : ℕ
  /-- `m_userPayloadAlignment`, adjusted to `1` for `0`. -/
  userPayloadAlignment : ℕ
  /-- `m_userHeaderSize`. -/
  userHeaderSize : ℕ
  /-- `m_userHeaderAlignment`, adjusted to `1` for `0`. -/
  userHeaderAlignment : ℕ
  /-- `m_requiredChunkSize`. -/
  requiredChunkSize : ℕ
  deriving DecidableEq, Repr

namespace ChunkSettings

/-- `calculateRequiredChunkSize(userPayloadSize, userPayloadAlignment, userHeaderSize)`: the
worst case of the layout over all chunk addresses, in its three cases. -/
def calculateRequiredChunkSize (userPayloadSize userPayloadAlignment userHeaderSize : ℕ) :
    Except Error ℕ :=
  if userHeaderSize = 0 then
    if userPayloadAlignment ≤ alignOfChunkHeader then
      -- the user-payload is adjacent to the `ChunkHeader`
      if userPayloadSize > uint64Max - sizeOfChunkHeader then .error .requiredChunkSizeExceedsMaxChunkSize
      else .ok (sizeOfChunkHeader + userPayloadSize)
    else
      let preUserPayloadAlignmentOverhang := sizeOfChunkHeader - alignOfChunkHeader
      if userPayloadSize > uint64Max - preUserPayloadAlignmentOverhang - userPayloadAlignment then
        .error .requiredChunkSizeExceedsMaxChunkSize
      else .ok (preUserPayloadAlignmentOverhang + userPayloadAlignment + userPayloadSize)
  else
    let headerSize := sizeOfChunkHeader + userHeaderSize
    let preUserPayloadAlignmentOverhang := align headerSize alignOfUserPayloadOffset
    let maxPadding := max sizeOfUserPayloadOffset userPayloadAlignment
    if userPayloadSize > uint64Max - preUserPayloadAlignmentOverhang - maxPadding then
      .error .requiredChunkSizeExceedsMaxChunkSize
    else .ok (preUserPayloadAlignmentOverhang + maxPadding + userPayloadSize)

/-- `ChunkSettings::create(userPayloadSize, userPayloadAlignment, userHeaderSize,
userHeaderAlignment)`. -/
def create (userPayloadSize userPayloadAlignment userHeaderSize userHeaderAlignment : ℕ) :
    Except Error ChunkSettings :=
  let adjustedUserPayloadAlignment := if userPayloadAlignment = 0 then 1 else userPayloadAlignment
  let adjustedUserHeaderAlignment := if userHeaderAlignment = 0 then 1 else userHeaderAlignment
  if !isPowerOfTwo adjustedUserPayloadAlignment || !isPowerOfTwo adjustedUserHeaderAlignment then
    .error .alignmentNotPowerOfTwo
  else if adjustedUserHeaderAlignment > alignOfChunkHeader then
    .error .userHeaderAlignmentExceedsChunkHeaderAlignment
  else if userHeaderSize % adjustedUserHeaderAlignment ≠ 0 then
    .error .userHeaderSizeNotMultipleOfItsAlignment
  else
    (calculateRequiredChunkSize userPayloadSize adjustedUserPayloadAlignment userHeaderSize).map
      fun requiredChunkSize ↦ ⟨userPayloadSize, adjustedUserPayloadAlignment, userHeaderSize,
        adjustedUserHeaderAlignment, requiredChunkSize⟩

/-- What the layout relies on from settings that `create` returned. -/
structure Valid (s : ChunkSettings) : Prop where
  userPayloadAlignment_pow : s.userPayloadAlignment.isPowerOfTwo
  calculateRequiredChunkSize_eq :
    calculateRequiredChunkSize s.userPayloadSize s.userPayloadAlignment s.userHeaderSize =
      .ok s.requiredChunkSize

/-- What a successful `create` returns: the sizes as given, a power-of-two user-payload
alignment, and the size `calculateRequiredChunkSize` computed for them. -/
theorem create_eq_ok {userPayloadSize userPayloadAlignment userHeaderSize userHeaderAlignment : ℕ}
    {s : ChunkSettings}
    (h : create userPayloadSize userPayloadAlignment userHeaderSize userHeaderAlignment = .ok s) :
    isPowerOfTwo s.userPayloadAlignment = true ∧ s.userPayloadSize = userPayloadSize ∧
      s.userHeaderSize = userHeaderSize ∧
      calculateRequiredChunkSize s.userPayloadSize s.userPayloadAlignment s.userHeaderSize =
        .ok s.requiredChunkSize := by
  unfold create at h
  dsimp only at h
  generalize (if userPayloadAlignment = 0 then 1 else userPayloadAlignment) = adjusted at h
  generalize (if userHeaderAlignment = 0 then 1 else userHeaderAlignment) = adjustedHeader at h
  -- every check passed, and the size was computed
  split_ifs at h with hpow
  cases hreq : calculateRequiredChunkSize userPayloadSize adjusted userHeaderSize with
  | error e => simp [hreq, Except.map] at h
  | ok r =>
    simp only [hreq, Except.map, Except.ok.injEq] at h
    subst h
    simp only [Bool.or_eq_true, Bool.not_eq_eq_eq_not, Bool.not_true, not_or,
      Bool.not_eq_false] at hpow
    exact ⟨hpow.1, rfl, rfl, hreq⟩

theorem create_valid {userPayloadSize userPayloadAlignment userHeaderSize userHeaderAlignment : ℕ}
    {s : ChunkSettings}
    (h : create userPayloadSize userPayloadAlignment userHeaderSize userHeaderAlignment = .ok s) :
    s.Valid :=
  ⟨isPowerOfTwo_iff.1 (create_eq_ok h).1, (create_eq_ok h).2.2.2⟩

theorem userHeaderSize_of_create
    {userPayloadSize userPayloadAlignment userHeaderSize userHeaderAlignment : ℕ} {s : ChunkSettings}
    (h : create userPayloadSize userPayloadAlignment userHeaderSize userHeaderAlignment = .ok s) :
    s.userHeaderSize = userHeaderSize :=
  (create_eq_ok h).2.2.1

/-- A size check that passed gives the size it guards. -/
theorem eq_of_ite_error_eq_ok {c : Prop} [Decidable c] {e : Error} {a b : ℕ}
    (h : (if c then Except.error e else Except.ok a) = Except.ok b) : a = b := by
  split_ifs at h
  simpa using h

/-- The three cases of `calculateRequiredChunkSize`, as one formula: the header part of the
chunk, then the user-payload. -/
theorem requiredChunkSize_eq {s : ChunkSettings} (hs : s.Valid) :
    s.requiredChunkSize =
      (if s.userHeaderSize = 0 then
        (if s.userPayloadAlignment ≤ alignOfChunkHeader then sizeOfChunkHeader
          else sizeOfChunkHeader - alignOfChunkHeader + s.userPayloadAlignment)
      else align (sizeOfChunkHeader + s.userHeaderSize) alignOfUserPayloadOffset +
        max sizeOfUserPayloadOffset s.userPayloadAlignment) + s.userPayloadSize := by
  have h := hs.calculateRequiredChunkSize_eq
  unfold calculateRequiredChunkSize at h
  by_cases h0 : s.userHeaderSize = 0
  · by_cases h8 : s.userPayloadAlignment ≤ alignOfChunkHeader
    · rw [if_pos h0, if_pos h8] at h
      simp [h0, h8, ← eq_of_ite_error_eq_ok h]
    · rw [if_pos h0, if_neg h8] at h
      simp [h0, h8, ← eq_of_ite_error_eq_ok h, Nat.add_assoc]
  · rw [if_neg h0] at h
    simp [h0, ← eq_of_ite_error_eq_ok h, Nat.add_assoc]

end ChunkSettings

/-- Memory, as the `UserPayloadOffset_t` stored at each address. -/
abbrev Memory := ℕ → ℕ

/-- The members of a `ChunkHeader` that its constructor sets. -/
structure ChunkHeaderLayout where
  /-- `m_userHeaderSize`. -/
  userHeaderSize : ℕ
  /-- `m_userHeaderId`. -/
  userHeaderId : ℕ
  /-- `m_chunkSize`. -/
  chunkSize : ℕ
  /-- `m_userPayloadSize`. -/
  userPayloadSize : ℕ
  /-- `m_userPayloadAlignment`. -/
  userPayloadAlignment : ℕ
  /-- `m_userPayloadOffset`, a `uint32_t`. -/
  userPayloadOffset : ℕ
  deriving DecidableEq, Repr

namespace ChunkHeaderLayout

/-- Where `m_userPayloadOffset` lies in the header: its last four bytes. -/
def offsetOfUserPayloadOffset : ℕ := sizeOfChunkHeader - sizeOfUserPayloadOffset

/-- `static_cast<UserPayloadOffset_t>`: the low 32 bits. -/
def toUserPayloadOffset (n : ℕ) : ℕ := n % 2 ^ 32

/-- The body of the constructor `ChunkHeader(chunkSize, chunkSettings)` for a header at
`address`: the members, and the memory after `m_userPayloadOffset` and the back-offset are
written. -/
def init (address chunkSize : ℕ) (s : ChunkSettings) (mem : Memory) : ChunkHeaderLayout × Memory :=
  let header (userHeaderId userPayloadOffset : ℕ) : ChunkHeaderLayout :=
    ⟨s.userHeaderSize, userHeaderId, chunkSize, s.userPayloadSize, s.userPayloadAlignment,
      userPayloadOffset⟩
  let withOffset (userPayloadOffset : ℕ) : Memory :=
    Function.update mem (address + offsetOfUserPayloadOffset) userPayloadOffset
  if s.userHeaderSize = 0 then
    if s.userPayloadAlignment ≤ alignOfChunkHeader then
      -- the user-payload is adjacent, and `m_userPayloadOffset` is its back-offset
      (header noUserHeader sizeOfChunkHeader, withOffset sizeOfChunkHeader)
    else
      let headerEndAddress := wrap (address + sizeOfChunkHeader)
      let alignedUserPayloadAddress := align headerEndAddress s.userPayloadAlignment
      let offsetToUserPayload := wrap (alignedUserPayloadAddress + (2 ^ 64 - address))
      let userPayloadOffset := toUserPayloadOffset offsetToUserPayload
      let addressOfBackOffset :=
        wrap (alignedUserPayloadAddress + (2 ^ 64 - sizeOfUserPayloadOffset))
      (header noUserHeader userPayloadOffset,
        Function.update (withOffset userPayloadOffset) addressOfBackOffset userPayloadOffset)
  else
    let headerEndAddress := wrap (wrap (address + sizeOfChunkHeader) + s.userHeaderSize)
    let anticipatedBackOffsetAddress := align headerEndAddress alignOfUserPayloadOffset
    let unalignedUserPayloadAddress := wrap (anticipatedBackOffsetAddress + sizeOfUserPayloadOffset)
    let alignedUserPayloadAddress := align unalignedUserPayloadAddress s.userPayloadAlignment
    let offsetToUserPayload := wrap (alignedUserPayloadAddress + (2 ^ 64 - address))
    let userPayloadOffset := toUserPayloadOffset offsetToUserPayload
    let backOffsetAddress := wrap (alignedUserPayloadAddress + (2 ^ 64 - sizeOfUserPayloadOffset))
    (header unknownUserHeader userPayloadOffset,
      Function.update (withOffset userPayloadOffset) backOffsetAddress userPayloadOffset)

/-- `overflowSafeUsedSizeOfChunk()`, in `uint64_t`. -/
def overflowSafeUsedSizeOfChunk (h : ChunkHeaderLayout) : ℕ :=
  wrap (h.userPayloadOffset + h.userPayloadSize)

/-- The constructor: its body, then `IOX_ENFORCE(overflowSafeUsedSizeOfChunk() <= chunkSize)`,
which terminates (`none`) when it fails. -/
def new (address chunkSize : ℕ) (s : ChunkSettings) (mem : Memory) :
    Option (ChunkHeaderLayout × Memory) :=
  let r := init address chunkSize s mem
  if overflowSafeUsedSizeOfChunk r.1 ≤ chunkSize then some r else none

/-- `userPayload()`. -/
def userPayload (h : ChunkHeaderLayout) (address : ℕ) : ℕ := wrap (address + h.userPayloadOffset)

/-- `userHeader()`: adjacent to the header, or `nullptr` without one. -/
def userHeader (h : ChunkHeaderLayout) (address : ℕ) : ℕ :=
  if h.userHeaderId = noUserHeader then 0 else wrap (address + sizeOfChunkHeader)

/-- `fromUserPayload(userPayload)`: back by the offset stored right before the payload. -/
def fromUserPayload (mem : Memory) (userPayload : ℕ) : ℕ :=
  if userPayload = 0 then 0
  else
    let backOffset := mem (wrap (userPayload + (2 ^ 64 - sizeOfUserPayloadOffset)))
    wrap (userPayload + (2 ^ 64 - backOffset))

/-- `fromUserHeader(userHeader)`. -/
def fromUserHeader (userHeader : ℕ) : ℕ :=
  if userHeader = 0 then 0 else wrap (userHeader + (2 ^ 64 - sizeOfChunkHeader))

/-! ### The layout at a chosen user-payload address -/

/-- The header and the memory once the user-payload address `q` is chosen: the distance to it is
stored in `m_userPayloadOffset` and as the back-offset right before `q`. Each case of `init` is
of this form. -/
def placed (address q userHeaderId chunkSize : ℕ) (s : ChunkSettings) (mem : Memory) :
    ChunkHeaderLayout × Memory :=
  let userPayloadOffset := toUserPayloadOffset (wrap (q + (2 ^ 64 - address)))
  (⟨s.userHeaderSize, userHeaderId, chunkSize, s.userPayloadSize, s.userPayloadAlignment,
      userPayloadOffset⟩,
    Function.update (Function.update mem (address + offsetOfUserPayloadOffset) userPayloadOffset)
      (wrap (q + (2 ^ 64 - sizeOfUserPayloadOffset))) userPayloadOffset)

/-- The layout a chunk header promises: the user-payload is aligned and lies behind the header,
the user-header and its back-offset, the used size fits the chunk, and the header is found
again from the user-payload and from the user-header. -/
structure LaidOut (address : ℕ) (s : ChunkSettings) (h : ChunkHeaderLayout) (mem : Memory) :
    Prop where
  dvd_userPayload : s.userPayloadAlignment ∣ userPayload h address
  le_userPayload : address + sizeOfChunkHeader +
      (if s.userHeaderSize = 0 then 0 else s.userHeaderSize + sizeOfUserPayloadOffset) ≤
    userPayload h address
  usedSize_le : overflowSafeUsedSizeOfChunk h ≤ h.chunkSize
  fromUserPayload_userPayload : fromUserPayload mem (userPayload h address) = address
  fromUserHeader_userHeader : s.userHeaderSize ≠ 0 → fromUserHeader (userHeader h address) = address

section Placed

variable {address q userHeaderId : ℕ} {s : ChunkSettings} {mem : Memory}

/-- **A user-payload address that the chunk can hold gives the promised layout**, as long as its
distance from the header fits in `uint32_t`. -/
theorem placed_laidOut (hid : s.userHeaderSize ≠ 0 → userHeaderId ≠ noUserHeader)
    (hq : address + sizeOfChunkHeader +
      (if s.userHeaderSize = 0 then 0 else s.userHeaderSize + sizeOfUserPayloadOffset) ≤ q)
    (hused : q - address + s.userPayloadSize ≤ s.requiredChunkSize)
    (hend : address + s.requiredChunkSize < 2 ^ 64)
    (hfits : s.requiredChunkSize - s.userPayloadSize < 2 ^ 32) (hdvd : s.userPayloadAlignment ∣ q) :
    LaidOut address s (placed address q userHeaderId s.requiredChunkSize s mem).1
      (placed address q userHeaderId s.requiredChunkSize s mem).2 := by
  have h48 : sizeOfChunkHeader = 48 := rfl
  have h4 : sizeOfUserPayloadOffset = 4 := rfl
  have hq' : address + 48 ≤ q := by split at hq <;> omega
  -- no truncation: the stored offset is the distance to the user-payload
  have hoff : toUserPayloadOffset (wrap (q + (2 ^ 64 - address))) = q - address := by
    rw [wrap_add_sub (by omega) (by omega), toUserPayloadOffset]
    exact Nat.mod_eq_of_lt (by omega)
  have hpayload : wrap (address + (q - address)) = q := by
    rw [Nat.add_sub_cancel' (by omega)]
    exact wrap_of_lt (by omega)
  have huser : (placed address q userHeaderId s.requiredChunkSize s mem).1.userPayload address = q := by
    simp only [placed, userPayload]
    rw [hoff, hpayload]
  refine ⟨by rw [huser]; exact hdvd, by rw [huser]; exact hq, ?_, ?_, ?_⟩
  · simp only [placed, overflowSafeUsedSizeOfChunk]
    rw [hoff, wrap_of_lt (by omega)]
    exact hused
  · -- the back-offset is read from the very cell it was written to
    rw [huser]
    simp only [placed, fromUserPayload, Function.update_self]
    rw [if_neg (by omega), hoff, wrap_add_sub (by omega) (by omega)]
    omega
  · intro hu
    have hne := hid hu
    simp only [placed, userHeader, hne, if_false, fromUserHeader]
    rw [wrap_of_lt (by omega), if_neg (by omega), h48, wrap_add_sub (by omega) (by omega)]
    omega

end Placed

/-- Without a user-header and at an alignment at most the header's, the user-payload follows
the header, and its back-offset is `m_userPayloadOffset` itself. -/
theorem init_of_adjacent {address chunkSize : ℕ} {s : ChunkSettings} {mem : Memory}
    (hu : s.userHeaderSize = 0) (ha : s.userPayloadAlignment ≤ alignOfChunkHeader)
    (hend : address + sizeOfChunkHeader < 2 ^ 64) :
    init address chunkSize s mem =
      placed address (address + sizeOfChunkHeader) noUserHeader chunkSize s mem := by
  have hoff : toUserPayloadOffset (wrap (address + sizeOfChunkHeader + (2 ^ 64 - address))) =
      sizeOfChunkHeader := by
    rw [wrap_add_sub (by omega) hend, Nat.add_sub_cancel_left]
    rfl
  have hback : wrap (address + sizeOfChunkHeader + (2 ^ 64 - sizeOfUserPayloadOffset)) =
      address + offsetOfUserPayloadOffset := by
    rw [wrap_add_sub (by simp [sizeOfChunkHeader, sizeOfUserPayloadOffset]) hend]
    simp [offsetOfUserPayloadOffset, sizeOfChunkHeader, sizeOfUserPayloadOffset]
  simp only [init, placed, hu, ha, if_true, hoff, hback, Function.update_idem]

theorem init_of_alignedPayload {address chunkSize : ℕ} {s : ChunkSettings} {mem : Memory}
    (hu : s.userHeaderSize = 0) (ha : ¬ s.userPayloadAlignment ≤ alignOfChunkHeader) :
    init address chunkSize s mem =
      placed address (align (wrap (address + sizeOfChunkHeader)) s.userPayloadAlignment)
        noUserHeader chunkSize s mem := by
  simp only [init, placed, hu, ha, if_true, if_false]

theorem init_of_userHeader {address chunkSize : ℕ} {s : ChunkSettings} {mem : Memory}
    (hu : s.userHeaderSize ≠ 0) :
    init address chunkSize s mem =
      placed address
        (align (wrap (align (wrap (wrap (address + sizeOfChunkHeader) + s.userHeaderSize))
          alignOfUserPayloadOffset + sizeOfUserPayloadOffset)) s.userPayloadAlignment)
        unknownUserHeader chunkSize s mem := by
  simp only [init, placed, hu, if_false]

@[simp] theorem init_chunkSize (address chunkSize : ℕ) (s : ChunkSettings) (mem : Memory) :
    (init address chunkSize s mem).1.chunkSize = chunkSize := by
  unfold init
  split_ifs <;> rfl

/-! ### The three layouts -/

section Layouts

variable {s : ChunkSettings} {address : ℕ}

theorem laidOut_of_adjacent (hs : s.Valid) (hu : s.userHeaderSize = 0)
    (ha : s.userPayloadAlignment ≤ alignOfChunkHeader) (haddress : chunkMemoryAlignment ∣ address)
    (hend : address + s.requiredChunkSize < 2 ^ 64)
    (hfits : s.requiredChunkSize - s.userPayloadSize < 2 ^ 32) (mem : Memory) :
    LaidOut address s (init address s.requiredChunkSize s mem).1
      (init address s.requiredChunkSize s mem).2 := by
  have hreq := ChunkSettings.requiredChunkSize_eq hs
  simp only [hu, ha, if_true] at hreq
  have h48 : sizeOfChunkHeader = 48 := rfl
  rw [init_of_adjacent hu ha (by omega)]
  -- an alignment up to the header's divides the header's, hence the address past the header
  have hdvd : s.userPayloadAlignment ∣ address + sizeOfChunkHeader :=
    Nat.dvd_add ((dvd_of_isPowerOfTwo_of_le hs.userPayloadAlignment_pow ⟨3, rfl⟩ ha).trans haddress)
      ((dvd_of_isPowerOfTwo_of_le hs.userPayloadAlignment_pow ⟨3, rfl⟩ ha).trans ⟨6, rfl⟩)
  exact placed_laidOut (fun h ↦ absurd hu h) (by simp [hu]) (by omega) hend hfits hdvd

theorem laidOut_of_alignedPayload (hs : s.Valid) (hu : s.userHeaderSize = 0)
    (ha : ¬ s.userPayloadAlignment ≤ alignOfChunkHeader) (haddress : chunkMemoryAlignment ∣ address)
    (hend : address + s.requiredChunkSize < 2 ^ 64)
    (hfits : s.requiredChunkSize - s.userPayloadSize < 2 ^ 32) (mem : Memory) :
    LaidOut address s (init address s.requiredChunkSize s mem).1
      (init address s.requiredChunkSize s mem).2 := by
  have hreq := ChunkSettings.requiredChunkSize_eq hs
  simp only [hu, ha, if_true, if_false] at hreq
  have hpow := hs.userPayloadAlignment_pow
  have h8 : 8 ∣ s.userPayloadAlignment :=
    dvd_of_isPowerOfTwo_of_le ⟨3, rfl⟩ hpow (by simp only [alignOfChunkHeader] at ha; omega)
  have haddress' : 8 ∣ address := haddress
  simp only [sizeOfChunkHeader, alignOfChunkHeader] at hreq ha
  rw [init_of_alignedPayload hu ha, show wrap (address + sizeOfChunkHeader) = address + 48 from
    wrap_of_lt (by simp only [sizeOfChunkHeader]; omega)]
  -- the rounding stays in `uint64_t`: everything up to the chunk's end is a multiple of 8
  have hal : s.userPayloadAlignment < 2 ^ 64 := by omega
  have hfit : address + 48 + s.userPayloadAlignment ≤ 2 ^ 64 := by omega
  have hpad := align_sub_le hpow hal hfit (Nat.dvd_add haddress' ⟨6, rfl⟩) h8
  have hle := le_align hpow hal hfit
  exact placed_laidOut (fun h ↦ absurd hu h) (by simp only [hu, if_true]; exact hle) (by omega)
    hend hfits (dvd_align hpow hal hfit)

theorem laidOut_of_userHeader (hs : s.Valid) (hu : s.userHeaderSize ≠ 0)
    (huhs : s.userHeaderSize < 2 ^ 32) (haddress : chunkMemoryAlignment ∣ address)
    (hend : address + s.requiredChunkSize < 2 ^ 64)
    (hfits : s.requiredChunkSize - s.userPayloadSize < 2 ^ 32) (mem : Memory) :
    LaidOut address s (init address s.requiredChunkSize s mem).1
      (init address s.requiredChunkSize s mem).2 := by
  have hreq := ChunkSettings.requiredChunkSize_eq hs
  simp only [hu, if_false] at hreq
  have hpow := hs.userPayloadAlignment_pow
  have hpow4 : (4 : ℕ).isPowerOfTwo := ⟨2, rfl⟩
  have haddress' : 2 ^ 2 ∣ address :=
    (Nat.pow_dvd_pow 2 (by omega : 2 ≤ 3)).trans (show 2 ^ 3 ∣ address from haddress)
  -- `P`: the header and the user-header, rounded up to the back-offset's alignment
  set P := align (sizeOfChunkHeader + s.userHeaderSize) alignOfUserPayloadOffset with hP
  simp only [sizeOfChunkHeader, sizeOfUserPayloadOffset, alignOfUserPayloadOffset] at hreq hP
  have hfitP : 48 + s.userHeaderSize + 4 ≤ 2 ^ 64 := by omega
  have hPle := le_align hpow4 (by omega) hfitP
  have hP4 := dvd_align hpow4 (by omega) hfitP
  rw [← hP] at hPle hP4
  -- the addresses of the constructor: `address + P`, then `address + P + 4`
  have hanticipated : align (wrap (wrap (address + sizeOfChunkHeader) + s.userHeaderSize))
      alignOfUserPayloadOffset = address + P := by
    rw [hP, show wrap (wrap (address + sizeOfChunkHeader) + s.userHeaderSize) =
      address + (48 + s.userHeaderSize) by
        simp only [sizeOfChunkHeader]
        rw [wrap_of_lt (n := address + 48) (by omega), wrap_of_lt (by omega)]
        omega]
    exact align_add_of_dvd hpow4 (by omega) hfitP haddress' (by omega)
  rw [init_of_userHeader hu, hanticipated,
    show wrap (address + P + sizeOfUserPayloadOffset) = address + P + 4 from wrap_of_lt (by
      simp only [sizeOfUserPayloadOffset]; omega)]
  have hal : s.userPayloadAlignment < 2 ^ 64 := by omega
  have h4P : 4 ∣ address + P + 4 := Nat.dvd_add (Nat.dvd_add haddress' hP4) (dvd_refl 4)
  -- a power-of-two alignment is below 4 or a multiple of it, and the chunk's end is a multiple of 4
  have h4al : s.userPayloadAlignment < 4 ∨ 4 ∣ s.userPayloadAlignment := by
    by_cases h : s.userPayloadAlignment < 4
    · exact Or.inl h
    · exact Or.inr (dvd_of_isPowerOfTwo_of_le hpow4 hpow (by omega))
  have hfit : address + P + 4 + s.userPayloadAlignment ≤ 2 ^ 64 := by omega
  have hle := le_align hpow hal hfit
  -- the padding before the user-payload: none up to alignment 4, else at most `alignment - 4`
  have hpad : align (address + P + 4) s.userPayloadAlignment - (address + P + 4) ≤
      max 4 s.userPayloadAlignment - 4 := by
    by_cases hsmall : s.userPayloadAlignment ≤ 4
    · rw [align_of_dvd hpow hal hfit ((dvd_of_isPowerOfTwo_of_le hpow hpow4 hsmall).trans h4P)]
      omega
    · have := align_sub_le hpow hal hfit h4P (dvd_of_isPowerOfTwo_of_le hpow4 hpow (by omega))
      omega
  exact placed_laidOut (fun _ ↦ by decide)
    (by simp only [hu, if_false, sizeOfChunkHeader, sizeOfUserPayloadOffset]; omega) (by omega) hend
    hfits (dvd_align hpow hal hfit)

end Layouts

/-- **A chunk header constructed for settings that `create` accepted lays the chunk out as
promised**, at every address aligned to `MemPool::CHUNK_MEMORY_ALIGNMENT` inside the address
space, as long as the header part of `requiredChunkSize` fits in `UserPayloadOffset_t`; its
`IOX_ENFORCE` never fires. -/
theorem new_laidOut
    {userPayloadSize userPayloadAlignment userHeaderSize userHeaderAlignment : ℕ} {s : ChunkSettings}
    (hcreate : ChunkSettings.create userPayloadSize userPayloadAlignment userHeaderSize
      userHeaderAlignment = .ok s) (huhs : userHeaderSize < 2 ^ 32)
    {address : ℕ} (haddress : chunkMemoryAlignment ∣ address)
    (hend : address + s.requiredChunkSize < 2 ^ 64)
    (hfits : s.requiredChunkSize - s.userPayloadSize < 2 ^ 32) (mem : Memory) :
    ∃ h mem', new address s.requiredChunkSize s mem = some (h, mem') ∧ LaidOut address s h mem' := by
  have hs := ChunkSettings.create_valid hcreate
  -- the three layouts of the constructor
  have hlaid : LaidOut address s (init address s.requiredChunkSize s mem).1
      (init address s.requiredChunkSize s mem).2 := by
    by_cases hu : s.userHeaderSize = 0
    · by_cases ha : s.userPayloadAlignment ≤ alignOfChunkHeader
      · exact laidOut_of_adjacent hs hu ha haddress hend hfits mem
      · exact laidOut_of_alignedPayload hs hu ha haddress hend hfits mem
    · exact laidOut_of_userHeader hs hu (ChunkSettings.userHeaderSize_of_create hcreate ▸ huhs) haddress hend
        hfits mem
  refine ⟨_, _, ?_, hlaid⟩
  have hused := hlaid.usedSize_le
  rw [init_chunkSize] at hused
  simp only [new, if_pos hused]

/-- Eight bytes of user-payload at alignment `8` and no user-header, at address `64`. -/
theorem new_laidOut_of_eight_bytes : ∃ s, ChunkSettings.create 8 8 0 1 = .ok s ∧
    ∃ h mem', new 64 s.requiredChunkSize s (fun _ ↦ 0) = some (h, mem') ∧ LaidOut 64 s h mem' :=
  ⟨_, rfl, @new_laidOut 8 8 0 1 _ rfl (by decide) 64 (by decide) (by decide) (by decide) _⟩

/-- `create` accepts a user-header of `2 ^ 32 - 8` bytes. At the chunk address `0x1000`, aligned
and far from the end of the address space, the constructor's `IOX_ENFORCE` passes, but the offset
`2 ^ 32 + 44` to the user-payload is stored truncated to `44`: `userPayload()` points into the
`ChunkHeader` itself, in front of the user-header it should follow. -/
theorem userPayload_inside_chunkHeader :
    ChunkSettings.create 0 1 (2 ^ 32 - 8) 8 = .ok ⟨0, 1, 2 ^ 32 - 8, 8, 2 ^ 32 + 44⟩ ∧
      chunkMemoryAlignment ∣ 0x1000 ∧ 0x1000 + (2 ^ 32 + 44) < 2 ^ 64 ∧
      (new 0x1000 (2 ^ 32 + 44) ⟨0, 1, 2 ^ 32 - 8, 8, 2 ^ 32 + 44⟩ fun _ ↦ 0).map
          (fun r ↦ (r.1.userPayloadOffset, userPayload r.1 0x1000)) = some (44, 0x1000 + 44) ∧
      0x1000 + 44 < 0x1000 + sizeOfChunkHeader + (2 ^ 32 - 8) + sizeOfUserPayloadOffset := by
  decide

end ChunkHeaderLayout

end Iox.Mepoo
