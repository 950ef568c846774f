import Iceoryx.Data.MixedRadix
import Mathlib.Algebra.Group.Int.Defs

/-!
# `iox::units::Duration`

`duration.hpp` and `duration.inl` keep a duration as `m_seconds` (`Seconds_t = uint64_t`) and
`m_nanoseconds` (`Nanoseconds_t = uint32_t`), and every constructor keeps the nanoseconds below one
second. The arithmetic is done on the two fields in `uint64_t` and `uint32_t`, with an overflow
check written differently in each operation: `operator+` infers a wrap of the seconds from
`sum < *this`, the constructor tests before carrying, the conversions `toNanoseconds`,
`toMicroseconds` and `toMilliseconds` compare with a precomputed `MAX_DURATION_BEFORE_OVERFLOW`,
and `multiplyWith` splits a large multiplier into its 32-bit halves.

The model keeps those fields as `UInt64` and `UInt32` and computes as the source does, wrapping
included, so that every `uint64_t` operation of the source is one of Lean's.

## What is proved

A duration stands for `toNat d = seconds * 10 ^ 9 + nanoseconds` nanoseconds, which determines it
(`toNat_inj`). Every operation is the exact one on these numbers, clamped to the range of a
`Duration` (`max.toNat = 2 ^ 64 * 10 ^ 9 - 1`) or of `uint64_t`:

* `toNat_createDuration`: the constructor carries, or saturates;
* `lt_iff`, `gt_iff`, `le_iff`, `ge_iff`, `beq_iff`: the comparisons are those of `toNat`;
* `toNat_add`, `toNat_sub`: saturating sum and truncated difference;
* `toNat_fromSubseconds`, `toNat_fromWholeSeconds`, `toNat_toSubseconds`: the conversions, with
  the members of each family read off them;
* `toNat_multiplyWith`: the product with an integer, through either branch.

The comparisons and the changes of unit rest on `MixedRadix`, the chain of saturating sums in
`multiplyWith` on `MixedRadix.min_add_min`.
-/

namespace Iox.Units

/-! ### Constants of `duration.hpp` -/

/-- `Duration::SECS_PER_MINUTE` -/
def secsPerMinute : UInt32 := 60

/-- `Duration::SECS_PER_HOUR` -/
def secsPerHour : UInt32 := 3600

/-- `Duration::HOURS_PER_DAY` -/
def hoursPerDay : UInt32 := 24

/-- `Duration::MILLISECS_PER_SEC` -/
def millisecsPerSec : UInt32 := 1000

/-- `Duration::MICROSECS_PER_SEC` -/
def microsecsPerSec : UInt32 := millisecsPerSec * 1000

/-- `Duration::NANOSECS_PER_MICROSEC` -/
def nanosecsPerMicrosec : UInt32 := 1000

/-- `Duration::NANOSECS_PER_MILLISEC` -/
def nanosecsPerMillisec : UInt32 := nanosecsPerMicrosec * 1000

/-- `Duration::NANOSECS_PER_SEC` -/
def nanosecsPerSec : UInt32 := nanosecsPerMillisec * 1000

/-- `std::numeric_limits<Seconds_t>::max()`, which is `std::numeric_limits<uint64_t>::max()`. -/
def secondsMax : UInt64 := 18446744073709551615

/-- `Duration`: whole seconds and the nanoseconds of the second begun, always below one second. -/
@[ext]
structure Duration where
  /-- `m_seconds` -/
  seconds : UInt64
  /-- `m_nanoseconds` -/
  nanoseconds : UInt32
  nanoseconds_lt : nanoseconds < nanosecsPerSec

namespace Duration

/-! ### Construction -/

/-- `Duration(seconds, nanoseconds)`, which `createDuration` calls: the whole seconds held in
`nanoseconds` are carried into `seconds`, unless that passes the largest `Seconds_t`, where the
result is the largest duration. -/
def createDuration (seconds : UInt64) (nanoseconds : UInt32) : Duration :=
  if hcarry : nanoseconds ≥ nanosecsPerSec then
    let additionalSeconds := nanoseconds.toUInt64 / nanosecsPerSec.toUInt64
    if secondsMax - additionalSeconds < seconds then
      ⟨secondsMax, nanosecsPerSec - 1, by decide⟩
    else
      ⟨seconds + additionalSeconds, nanoseconds % nanosecsPerSec, UInt32.mod_lt _ (by decide)⟩
  else
    ⟨seconds, nanoseconds, by simpa [UInt32.le_iff_toNat_le, UInt32.lt_iff_toNat_lt] using hcarry⟩

/-- `Duration::max()` -/
def max : Duration := createDuration secondsMax (nanosecsPerSec - 1)

/-- `Duration::zero()` -/
def zero : Duration := createDuration 0 0

/-- `positiveValueOrClampToZero(value)`: a negative value of any integer type `T` is `0`, and any
other is converted with `static_cast<uint64_t>`. -/
def positiveValueOrClampToZero (value : ℤ) : UInt64 :=
  if value < 0 then 0 else UInt64.ofInt value

/-- `fromNanoseconds(value)` -/
def fromNanoseconds (value : ℤ) : Duration :=
  let clampedValue := positiveValueOrClampToZero value
  let seconds := clampedValue / nanosecsPerSec.toUInt64
  let nanoseconds := (clampedValue % nanosecsPerSec.toUInt64).toUInt32
  createDuration seconds nanoseconds

/-- The body shared by `fromMicroseconds` and `fromMilliseconds`, for a unit of which there are
`unitsPerSec` in a second and which holds `nanosecsPerUnit` nanoseconds. -/
def fromSubseconds (unitsPerSec nanosecsPerUnit : UInt32) (value : ℤ) : Duration :=
  let clampedValue := positiveValueOrClampToZero value
  let seconds := clampedValue / unitsPerSec.toUInt64
  let nanoseconds := ((clampedValue % unitsPerSec.toUInt64) * nanosecsPerUnit.toUInt64).toUInt32
  createDuration seconds nanoseconds

/-- `fromMicroseconds(value)` -/
def fromMicroseconds (value : ℤ) : Duration :=
  fromSubseconds microsecsPerSec nanosecsPerMicrosec value

/-- `fromMilliseconds(value)` -/
def fromMilliseconds (value : ℤ) : Duration :=
  fromSubseconds millisecsPerSec nanosecsPerMillisec value

/-- `fromSeconds(value)`: its overflow test compares with the largest `Seconds_t` itself, which
a `uint64_t` never exceeds. -/
def fromSeconds (value : ℤ) : Duration :=
  let clampedValue := positiveValueOrClampToZero value
  if clampedValue > secondsMax then max
  else createDuration clampedValue 0

/-- The body shared by `fromMinutes`, `fromHours` and `fromDays`, for a unit of
`secondsPerUnit` seconds: `MAX_..._BEFORE_OVERFLOW` is `max / secondsPerUnit`. -/
def fromWholeSeconds (secondsPerUnit : UInt64) (value : ℤ) : Duration :=
  let clampedValue := positiveValueOrClampToZero value
  if clampedValue > secondsMax / secondsPerUnit then max
  else createDuration (clampedValue * secondsPerUnit) 0

/-- `fromMinutes(value)` -/
def fromMinutes (value : ℤ) : Duration :=
  fromWholeSeconds secsPerMinute.toUInt64 value

/-- `fromHours(value)` -/
def fromHours (value : ℤ) : Duration :=
  fromWholeSeconds secsPerHour.toUInt64 value

/-- `fromDays(value)`, with `SECS_PER_DAY = HOURS_PER_DAY * SECS_PER_HOUR`. -/
def fromDays (value : ℤ) : Duration :=
  fromWholeSeconds (hoursPerDay * secsPerHour).toUInt64 value

/-! ### Comparison -/

/-- `operator==` -/
def beq (lhs rhs : Duration) : Bool :=
  lhs.seconds == rhs.seconds && lhs.nanoseconds == rhs.nanoseconds

/-- `operator!=` -/
def bne (lhs rhs : Duration) : Bool :=
  !lhs.beq rhs

/-- `operator<` -/
def lt (lhs rhs : Duration) : Bool :=
  lhs.seconds < rhs.seconds || (lhs.seconds == rhs.seconds && lhs.nanoseconds < rhs.nanoseconds)

/-- `operator>` -/
def gt (lhs rhs : Duration) : Bool :=
  lhs.seconds > rhs.seconds || (lhs.seconds == rhs.seconds && lhs.nanoseconds > rhs.nanoseconds)

/-- `operator<=` -/
def le (lhs rhs : Duration) : Bool :=
  !lhs.gt rhs

/-- `operator>=` -/
def ge (lhs rhs : Duration) : Bool :=
  !lhs.lt rhs

/-! ### Conversion -/

/-- `toNanoseconds()`: the nanoseconds in a `uint64_t`, or its largest value when they do not
fit. -/
def toNanoseconds (self : Duration) : UInt64 :=
  let maxSecondsBeforeOverflow := secondsMax / nanosecsPerSec.toUInt64
  let maxNanosecondsBeforeOverflow := (secondsMax % nanosecsPerSec.toUInt64).toUInt32
  let maxDurationBeforeOverflow :=
    createDuration maxSecondsBeforeOverflow maxNanosecondsBeforeOverflow
  if self.gt maxDurationBeforeOverflow then secondsMax
  else self.seconds * nanosecsPerSec.toUInt64 + self.nanoseconds.toUInt64

/-- The body shared by `toMicroseconds` and `toMilliseconds`, for a unit of which there are
`unitsPerSec` in a second and which holds `nanosecsPerUnit` nanoseconds. -/
def toSubseconds (unitsPerSec nanosecsPerUnit : UInt32) (self : Duration) : UInt64 :=
  let maxSecondsBeforeOverflow := secondsMax / unitsPerSec.toUInt64
  let maxNanosecondsBeforeOverflow :=
    (secondsMax % unitsPerSec.toUInt64).toUInt32 * nanosecsPerUnit
  let maxDurationBeforeOverflow :=
    createDuration maxSecondsBeforeOverflow maxNanosecondsBeforeOverflow
  if self.gt maxDurationBeforeOverflow then secondsMax
  else self.seconds * unitsPerSec.toUInt64 + self.nanoseconds.toUInt64 / nanosecsPerUnit.toUInt64

/-- `toMicroseconds()` -/
def toMicroseconds (self : Duration) : UInt64 :=
  toSubseconds microsecsPerSec nanosecsPerMicrosec self

/-- `toMilliseconds()` -/
def toMilliseconds (self : Duration) : UInt64 :=
  toSubseconds millisecsPerSec nanosecsPerMillisec self

/-! ### Arithmetic -/

/-- The first half of `operator+`: the fields added in `uint64_t` and `uint32_t`, a full second of
nanoseconds carried, and `createDuration` applied. The seconds may wrap. -/
def addWithCarry (self rhs : Duration) : Duration :=
  let seconds := self.seconds + rhs.seconds
  let nanoseconds := self.nanoseconds + rhs.nanoseconds
  if nanoseconds ≥ nanosecsPerSec then
    createDuration (seconds + 1) (nanoseconds - nanosecsPerSec)
  else createDuration seconds nanoseconds

/-- `operator+`: a sum below `*this` can only come from a wrap of the seconds, and saturates. -/
def add (self rhs : Duration) : Duration :=
  let sum := self.addWithCarry rhs
  if sum.lt self then max else sum

/-- `operator-`: clamped at zero, with a borrow from the seconds when the nanoseconds of `rhs`
are larger. -/
def sub (self rhs : Duration) : Duration :=
  if self.lt rhs then zero
  else if self.nanoseconds ≥ rhs.nanoseconds then
    createDuration (self.seconds - rhs.seconds) (self.nanoseconds - rhs.nanoseconds)
  else
    createDuration (self.seconds - rhs.seconds - 1) (nanosecsPerSec - rhs.nanoseconds + self.nanoseconds)

/-- `LEAST_COMMON_MULTIPLE` of `2 ^ 32` and `NANOSECS_PER_SEC` in `multiplyWith`. -/
def leastCommonMultiple : UInt64 := 8388608000000000

/-- `NUMBER_OF_BITS_IN_UINT32` in `multiplyWith`. -/
def numberOfBitsInUint32 : UInt64 := 32

/-- `ONE_FULL_BLOCK_OF_SECONDS_ONLY`: a block of whole seconds, in units of `2 ^ 32` nanoseconds. -/
def oneFullBlockOfSecondsOnly : UInt64 := leastCommonMultiple >>> numberOfBitsInUint32

/-- `SECONDS_PER_FULL_BLOCK` -/
def secondsPerFullBlock : UInt64 := leastCommonMultiple / nanosecsPerSec.toUInt64

/-- `multiplyWith(rhs)` for an integer `rhs` of at most 64 bits. When the nanoseconds times the
multiplier may leave `uint64_t`, the multiplier is split into its low and high 32 bits; the
high part counts units of `2 ^ 32` nanoseconds, converted to seconds through blocks of
`LEAST_COMMON_MULTIPLE` nanoseconds. -/
def multiplyWith (self : Duration) (rhs : ℤ) : Duration :=
  if rhs ≤ 0 ∨ self.beq zero = true then zero
  else
    let multiplicator := UInt64.ofInt rhs
    let maxBeforeOverflow := secondsMax / multiplicator
    if self.seconds > maxBeforeOverflow then max
    else
      let durationFromSeconds := createDuration (self.seconds * multiplicator) 0
      if self.nanoseconds.toUInt64 ≤ maxBeforeOverflow then
        durationFromSeconds.add (fromNanoseconds (self.nanoseconds.toUInt64 * multiplicator).toNat)
      else
        let multiplicatorLow := multiplicator.toUInt32.toUInt64
        let durationFromNanosecondsLow :=
          fromNanoseconds (self.nanoseconds.toUInt64 * multiplicatorLow).toNat
        let multiplicatorHigh := (multiplicator >>> numberOfBitsInUint32).toUInt32.toUInt64
        let nanosecondsFromHigh := self.nanoseconds.toUInt64 * multiplicatorHigh
        let fullBlocksOfSecondsOnly := nanosecondsFromHigh / oneFullBlockOfSecondsOnly
        let remainingBlockWithFullAndFractionalSeconds :=
          nanosecondsFromHigh % oneFullBlockOfSecondsOnly
        let durationFromNanosecondsHigh :=
          (createDuration (fullBlocksOfSecondsOnly * secondsPerFullBlock) 0).add
            (fromNanoseconds
              (remainingBlockWithFullAndFractionalSeconds <<< numberOfBitsInUint32).toNat)
        (durationFromSeconds.add durationFromNanosecondsLow).add durationFromNanosecondsHigh

/-! ### The number a duration stands for -/

/-- `N(d)`: the nanoseconds a duration stands for. -/
def toNat (d : Duration) : ℕ :=
  d.seconds.toNat * 1000000000 + d.nanoseconds.toNat

@[simp] theorem nanosecsPerSec_toNat : nanosecsPerSec.toNat = 1000000000 := rfl

@[simp] theorem secondsMax_toNat : secondsMax.toNat = 2 ^ 64 - 1 := rfl

theorem nanoseconds_toNat_lt (d : Duration) : d.nanoseconds.toNat < 1000000000 :=
  UInt32.lt_iff_toNat_lt.1 d.nanoseconds_lt

@[simp] theorem toNat_max : max.toNat = 2 ^ 64 * 1000000000 - 1 := by
  decide

@[simp] theorem toNat_zero : zero.toNat = 0 := by
  decide

/-- Every duration is at most `Duration::max()`. -/
theorem toNat_le_max (d : Duration) : d.toNat ≤ max.toNat := by
  have := d.nanoseconds_toNat_lt
  have := UInt64.toNat_lt d.seconds
  rw [toNat_max]
  unfold toNat
  omega

/-- **A duration is the number it stands for.** -/
theorem toNat_inj {a b : Duration} : a.toNat = b.toNat ↔ a = b := by
  constructor
  · intro h
    obtain ⟨hs, hn⟩ := (MixedRadix.value_inj a.nanoseconds_toNat_lt b.nanoseconds_toNat_lt).1 h
    exact Duration.ext (UInt64.toNat_inj.1 hs) (UInt32.toNat_inj.1 hn)
  · rintro rfl
    rfl

/-! ### The constructor carries or saturates -/

/-- **`Duration(seconds, nanoseconds)`** stands for `seconds * 10 ^ 9 + nanoseconds`, clamped at
`Duration::max()`. -/
theorem toNat_createDuration (seconds : UInt64) (nanoseconds : UInt32) :
    (createDuration seconds nanoseconds).toNat =
      min (seconds.toNat * 1000000000 + nanoseconds.toNat) max.toNat := by
  have hs := UInt64.toNat_lt seconds
  have hn := UInt32.toNat_lt nanoseconds
  rw [toNat_max]
  unfold createDuration
  dsimp only
  split_ifs with hcarry hsat
  · -- the carried seconds pass the largest `Seconds_t`
    simp only [UInt32.le_iff_toNat_le, UInt64.lt_iff_toNat_lt, UInt64.toNat_sub,
      UInt64.toNat_div, UInt32.toNat_toUInt64, nanosecsPerSec_toNat, secondsMax_toNat] at hcarry hsat
    simp only [toNat, secondsMax_toNat]
    have : (nanosecsPerSec - 1).toNat = 999999999 := rfl
    omega
  · -- the whole seconds are carried
    simp only [UInt32.le_iff_toNat_le, UInt64.lt_iff_toNat_lt, UInt64.toNat_sub,
      UInt64.toNat_div, UInt32.toNat_toUInt64, nanosecsPerSec_toNat, secondsMax_toNat] at hcarry hsat
    simp only [toNat, UInt64.toNat_add, UInt64.toNat_div, UInt32.toNat_toUInt64,
      UInt32.toNat_mod, nanosecsPerSec_toNat]
    omega
  · -- the nanoseconds are already below a second
    simp only [UInt32.le_iff_toNat_le, nanosecsPerSec_toNat] at hcarry
    simp only [toNat]
    omega

/-! ### The comparisons are those of the numbers -/

/-- **`operator<` is lexicographic on the fields**, which is the order of the numbers. -/
theorem lt_iff {a b : Duration} : a.lt b = true ↔ a.toNat < b.toNat := by
  rw [toNat, toNat, MixedRadix.value_lt_iff a.nanoseconds_toNat_lt b.nanoseconds_toNat_lt]
  simp [lt, UInt64.lt_iff_toNat_lt, UInt32.lt_iff_toNat_lt, ← UInt64.toNat_inj]

/-- `operator>` is `operator<` with the arguments swapped. -/
theorem gt_eq_lt (a b : Duration) : a.gt b = b.lt a := by
  simp only [gt, lt, GT.gt, Bool.beq_comm]

theorem gt_iff {a b : Duration} : a.gt b = true ↔ b.toNat < a.toNat := by
  rw [gt_eq_lt, lt_iff]

theorem le_iff {a b : Duration} : a.le b = true ↔ a.toNat ≤ b.toNat := by
  rw [le, Bool.not_eq_true', ← Bool.not_eq_true, gt_iff, Nat.not_lt]

theorem ge_iff {a b : Duration} : a.ge b = true ↔ b.toNat ≤ a.toNat := by
  rw [ge, Bool.not_eq_true', ← Bool.not_eq_true, lt_iff, Nat.not_lt]

theorem beq_iff {a b : Duration} : a.beq b = true ↔ a.toNat = b.toNat := by
  rw [toNat_inj]
  simp [beq, Duration.ext_iff]

theorem bne_iff {a b : Duration} : a.bne b = true ↔ a.toNat ≠ b.toNat := by
  rw [bne, Bool.not_eq_true', ← Bool.not_eq_true, beq_iff]

/-! ### Addition and subtraction -/

/-- The fields added with a carry stand for the sum modulo the range of `Seconds_t`. -/
theorem toNat_addWithCarry (a b : Duration) :
    (a.addWithCarry b).toNat = (a.toNat + b.toNat) % (2 ^ 64 * 1000000000) := by
  have ha := a.nanoseconds_toNat_lt
  have hb := b.nanoseconds_toNat_lt
  have has := UInt64.toNat_lt a.seconds
  have hbs := UInt64.toNat_lt b.seconds
  unfold addWithCarry
  dsimp only
  split_ifs with hcarry
  all_goals
    simp only [UInt32.le_iff_toNat_le, UInt32.toNat_add, nanosecsPerSec_toNat] at hcarry
    rw [toNat_createDuration, toNat_max]
    simp only [toNat, UInt64.toNat_add, UInt32.toNat_add, UInt32.toNat_sub, nanosecsPerSec_toNat,
      UInt64.reduceToNat, Nat.reducePow]
    omega

/-- **`operator+` saturates**: a wrap of the seconds makes the sum smaller than `*this`, and
nothing else does. -/
theorem toNat_add (a b : Duration) : (a.add b).toNat = min (a.toNat + b.toNat) max.toNat := by
  have hsum := toNat_addWithCarry a b
  have ha := a.toNat_le_max
  have hb := b.toNat_le_max
  rw [toNat_max] at ha hb ⊢
  unfold add
  dsimp only
  split_ifs with hwrap
  · rw [lt_iff, hsum] at hwrap
    rw [toNat_max]
    omega
  · rw [lt_iff, hsum] at hwrap
    rw [hsum]
    omega

/-- **`operator-` is the truncated difference**: zero when `rhs` is larger, and otherwise the
fields subtracted with a borrow, which never wraps. -/
theorem toNat_sub (a b : Duration) : (a.sub b).toNat = a.toNat - b.toNat := by
  have ha := a.nanoseconds_toNat_lt
  have hb := b.nanoseconds_toNat_lt
  have has := UInt64.toNat_lt a.seconds
  have hbs := UInt64.toNat_lt b.seconds
  unfold sub
  split_ifs with hlt hns
  · rw [lt_iff] at hlt
    rw [toNat_zero]
    omega
  all_goals
    rw [lt_iff] at hlt
    simp only [UInt32.le_iff_toNat_le, ge_iff_le] at hns
    simp only [toNat] at hlt
    rw [toNat_createDuration, toNat_max]
    simp only [toNat, UInt64.toNat_sub, UInt32.toNat_sub, UInt32.toNat_add, nanosecsPerSec_toNat,
      UInt64.reduceToNat, Nat.reducePow]
    omega

/-! ### Conversions from a count of units -/

/-- A value of an integer type of at most 64 bits is clamped at zero and kept as it is. -/
theorem toNat_positiveValueOrClampToZero {value : ℤ} (hvalue : value < 2 ^ 64) :
    (positiveValueOrClampToZero value).toNat = value.toNat := by
  unfold positiveValueOrClampToZero
  split_ifs with hneg
  · rw [Int.toNat_of_nonpos (by omega)]
    rfl
  · rw [UInt64.ofInt, UInt64.toNat_ofNat', Int.emod_eq_of_lt (by omega) hvalue]
    exact Nat.mod_eq_of_lt (by omega)

/-- **A count of a unit below a second is converted exactly**: the whole seconds are split off
and the rest scaled to nanoseconds, which cannot leave the second. -/
theorem toNat_fromSubseconds {unitsPerSec nanosecsPerUnit : UInt32}
    (hunit : unitsPerSec.toNat * nanosecsPerUnit.toNat = 1000000000) {value : ℤ}
    (hvalue : value < 2 ^ 64) :
    (fromSubseconds unitsPerSec nanosecsPerUnit value).toNat =
      value.toNat * nanosecsPerUnit.toNat := by
  have hclamped := toNat_positiveValueOrClampToZero hvalue
  have hc : value.toNat < 2 ^ 64 := by omega
  have hu : 0 < unitsPerSec.toNat := Nat.pos_of_ne_zero fun h ↦ by simp [h] at hunit
  -- the scaled remainder is below a second, so neither `uint64_t` nor `uint32_t` wraps it
  have hrest : value.toNat % unitsPerSec.toNat * nanosecsPerUnit.toNat < 1000000000 :=
    hunit ▸ Nat.mul_lt_mul_of_pos_right (Nat.mod_lt _ hu) (Nat.pos_of_ne_zero fun h ↦ by
      simp [h] at hunit)
  have hk : nanosecsPerUnit.toNat ≤ 1000000000 := hunit ▸ Nat.le_mul_of_pos_left _ hu
  have hbound : value.toNat * nanosecsPerUnit.toNat ≤ (2 ^ 64 - 1) * 1000000000 :=
    Nat.mul_le_mul (by omega) hk
  unfold fromSubseconds
  dsimp only
  rw [toNat_createDuration, toNat_max]
  simp only [UInt64.toNat_div, UInt64.toNat_toUInt32, UInt64.toNat_mul, UInt64.toNat_mod,
    UInt32.toNat_toUInt64, hclamped]
  rw [Nat.mod_eq_of_lt (by omega : value.toNat % unitsPerSec.toNat * nanosecsPerUnit.toNat < 2 ^ 64),
    Nat.mod_eq_of_lt (by omega : value.toNat % unitsPerSec.toNat * nanosecsPerUnit.toNat < 2 ^ 32),
    ← hunit, MixedRadix.div_mul_add_mod_mul, hunit]
  omega

/-- `fromNanoseconds` is the member of the family for nanoseconds, with no scaling. -/
theorem fromNanoseconds_eq_fromSubseconds (value : ℤ) :
    fromNanoseconds value = fromSubseconds nanosecsPerSec 1 value := by
  simp only [fromNanoseconds, fromSubseconds]
  congr 2
  exact (UInt64.mul_one _).symm

theorem toNat_fromNanoseconds {value : ℤ} (hvalue : value < 2 ^ 64) :
    (fromNanoseconds value).toNat = value.toNat := by
  rw [fromNanoseconds_eq_fromSubseconds, toNat_fromSubseconds (by decide) hvalue, UInt32.toNat_one,
    Nat.mul_one]

theorem toNat_fromMicroseconds {value : ℤ} (hvalue : value < 2 ^ 64) :
    (fromMicroseconds value).toNat = value.toNat * 1000 :=
  toNat_fromSubseconds (by decide) hvalue

theorem toNat_fromMilliseconds {value : ℤ} (hvalue : value < 2 ^ 64) :
    (fromMilliseconds value).toNat = value.toNat * 1000000 :=
  toNat_fromSubseconds (by decide) hvalue

/-- **A count of whole seconds saturates** when the seconds leave `uint64_t`, which the source
tests before multiplying. -/
theorem toNat_fromWholeSeconds {secondsPerUnit : UInt64} (hunit : 0 < secondsPerUnit.toNat)
    {value : ℤ} (hvalue : value < 2 ^ 64) :
    (fromWholeSeconds secondsPerUnit value).toNat =
      min (value.toNat * secondsPerUnit.toNat * 1000000000) max.toNat := by
  have hclamped := toNat_positiveValueOrClampToZero hvalue
  unfold fromWholeSeconds
  dsimp only
  split_ifs with hover
  · -- the seconds would pass `2 ^ 64 - 1`
    rw [gt_iff_lt, UInt64.lt_iff_toNat_lt, UInt64.toNat_div, hclamped, secondsMax_toNat,
      Nat.div_lt_iff_lt_mul hunit] at hover
    rw [toNat_max]
    have : 2 ^ 64 * 1000000000 ≤ value.toNat * secondsPerUnit.toNat * 1000000000 :=
      Nat.mul_le_mul_right _ (by omega)
    omega
  · rw [gt_iff_lt, UInt64.lt_iff_toNat_lt, UInt64.toNat_div, hclamped, secondsMax_toNat,
      Nat.not_lt, Nat.le_div_iff_mul_le hunit] at hover
    rw [toNat_createDuration, UInt64.toNat_mul, hclamped, Nat.mod_eq_of_lt (by omega),
      UInt32.toNat_zero, Nat.add_zero]

/-- `fromSeconds` is the member of the family for one second: its own test against the largest
`Seconds_t` is the family's test with a divisor of one. -/
theorem fromSeconds_eq_fromWholeSeconds (value : ℤ) :
    fromSeconds value = fromWholeSeconds 1 value := by
  simp only [fromSeconds, fromWholeSeconds, UInt64.div_one, UInt64.mul_one]

theorem toNat_fromSeconds {value : ℤ} (hvalue : value < 2 ^ 64) :
    (fromSeconds value).toNat = min (value.toNat * 1000000000) max.toNat := by
  rw [fromSeconds_eq_fromWholeSeconds, toNat_fromWholeSeconds (by decide) hvalue, UInt64.toNat_one,
    Nat.mul_one]

theorem toNat_fromMinutes {value : ℤ} (hvalue : value < 2 ^ 64) :
    (fromMinutes value).toNat = min (value.toNat * 60000000000) max.toNat := by
  rw [fromMinutes, toNat_fromWholeSeconds (by decide) hvalue, Nat.mul_assoc]
  rfl

theorem toNat_fromHours {value : ℤ} (hvalue : value < 2 ^ 64) :
    (fromHours value).toNat = min (value.toNat * 3600000000000) max.toNat := by
  rw [fromHours, toNat_fromWholeSeconds (by decide) hvalue, Nat.mul_assoc]
  rfl

theorem toNat_fromDays {value : ℤ} (hvalue : value < 2 ^ 64) :
    (fromDays value).toNat = min (value.toNat * 86400000000000) max.toNat := by
  rw [fromDays, toNat_fromWholeSeconds (by decide) hvalue, Nat.mul_assoc]
  rfl

/-! ### Conversions to a count of units -/

/-- **A conversion to a unit below a second rounds down and saturates** at the largest
`uint64_t`; `MAX_DURATION_BEFORE_OVERFLOW` stands for `(2 ^ 64 - 1)` units. -/
theorem toNat_toSubseconds {unitsPerSec nanosecsPerUnit : UInt32}
    (hunit : unitsPerSec.toNat * nanosecsPerUnit.toNat = 1000000000) (d : Duration) :
    (toSubseconds unitsPerSec nanosecsPerUnit d).toNat =
      min (d.toNat / nanosecsPerUnit.toNat) (2 ^ 64 - 1) := by
  have hu : 0 < unitsPerSec.toNat := Nat.pos_of_ne_zero fun h ↦ by simp [h] at hunit
  have hk : 0 < nanosecsPerUnit.toNat := Nat.pos_of_ne_zero fun h ↦ by simp [h] at hunit
  have hrest : (2 ^ 64 - 1) % unitsPerSec.toNat * nanosecsPerUnit.toNat < 1000000000 :=
    hunit ▸ Nat.mul_lt_mul_of_pos_right (Nat.mod_lt _ hu) hk
  -- `MAX_DURATION_BEFORE_OVERFLOW` is normalized, and stands for `2 ^ 64 - 1` units
  have hmax : (createDuration (secondsMax / unitsPerSec.toUInt64)
      ((secondsMax % unitsPerSec.toUInt64).toUInt32 * nanosecsPerUnit)).toNat =
        (2 ^ 64 - 1) * nanosecsPerUnit.toNat := by
    have hle : (2 ^ 64 - 1) * nanosecsPerUnit.toNat ≤ 2 ^ 64 * 1000000000 - 1 := by
      have : nanosecsPerUnit.toNat ≤ 1000000000 := hunit ▸ Nat.le_mul_of_pos_left _ hu
      have := Nat.mul_le_mul_left (2 ^ 64 - 1) this
      omega
    rw [toNat_createDuration, toNat_max]
    simp only [UInt64.toNat_div, UInt32.toNat_mul, UInt64.toNat_toUInt32, UInt64.toNat_mod,
      UInt32.toNat_toUInt64, secondsMax_toNat]
    have := Nat.mod_lt (2 ^ 64 - 1) hu
    have := UInt32.toNat_lt unitsPerSec
    rw [Nat.mod_eq_of_lt (by omega : (2 ^ 64 - 1) % unitsPerSec.toNat < 2 ^ 32),
      Nat.mod_eq_of_lt (by omega), ← hunit, MixedRadix.div_mul_add_mod_mul, hunit]
    omega
  have hvalue : d.toNat / nanosecsPerUnit.toNat =
      d.seconds.toNat * unitsPerSec.toNat + d.nanoseconds.toNat / nanosecsPerUnit.toNat := by
    rw [toNat, ← hunit, MixedRadix.value_div_of_dvd _ _ hk]
  unfold toSubseconds
  dsimp only
  split_ifs with hover
  · rw [gt_iff, hmax] at hover
    have : 2 ^ 64 - 1 ≤ d.toNat / nanosecsPerUnit.toNat :=
      (Nat.le_div_iff_mul_le hk).2 (Nat.le_of_lt hover)
    rw [secondsMax_toNat]
    omega
  · rw [gt_iff, hmax, Nat.not_lt] at hover
    have hfit : d.toNat / nanosecsPerUnit.toNat ≤ 2 ^ 64 - 1 :=
      Nat.div_le_of_le_mul (by rw [Nat.mul_comm]; exact hover)
    simp only [UInt64.toNat_add, UInt64.toNat_mul, UInt64.toNat_div, UInt32.toNat_toUInt64]
    rw [hvalue] at hfit ⊢
    generalize d.seconds.toNat * unitsPerSec.toNat = q at hfit ⊢
    generalize d.nanoseconds.toNat / nanosecsPerUnit.toNat = r at hfit ⊢
    omega

/-- `toNanoseconds` is the member of the family for nanoseconds, with no division. -/
theorem toNanoseconds_eq_toSubseconds (d : Duration) :
    d.toNanoseconds = toSubseconds nanosecsPerSec 1 d := by
  simp only [toNanoseconds, toSubseconds, UInt32.mul_one]
  congr 2
  exact UInt64.div_one.symm

theorem toNat_toNanoseconds (d : Duration) :
    d.toNanoseconds.toNat = min d.toNat (2 ^ 64 - 1) := by
  rw [toNanoseconds_eq_toSubseconds, toNat_toSubseconds (by decide), UInt32.toNat_one, Nat.div_one]

theorem toNat_toMicroseconds (d : Duration) :
    d.toMicroseconds.toNat = min (d.toNat / 1000) (2 ^ 64 - 1) :=
  toNat_toSubseconds (by decide) d

theorem toNat_toMilliseconds (d : Duration) :
    d.toMilliseconds.toNat = min (d.toNat / 1000000) (2 ^ 64 - 1) :=
  toNat_toSubseconds (by decide) d

/-! ### Multiplication -/

/-- A `uint64_t` count of nanoseconds is converted exactly. -/
theorem toNat_fromNanoseconds_toNat (x : UInt64) : (fromNanoseconds (x.toNat : ℤ)).toNat = x.toNat := by
  rw [fromNanoseconds_eq_fromSubseconds, toNat_fromSubseconds (by decide)
    (by have := UInt64.toNat_lt x; omega)]
  simp

/-- Whole seconds in a `uint64_t` are converted exactly. -/
theorem toNat_createDuration_zero (x : UInt64) : (createDuration x 0).toNat = x.toNat * 1000000000 := by
  have := UInt64.toNat_lt x
  rw [toNat_createDuration, toNat_max, UInt32.toNat_zero, Nat.add_zero]
  omega

/-- The high half of the multiplier: `nanosecondsFromHigh` units of `2 ^ 32` nanoseconds, split
into blocks of `LEAST_COMMON_MULTIPLE` nanoseconds, which are whole seconds, and a rest below one
block. Below `10 ^ 9 * 2 ^ 32` units nothing wraps. -/
theorem toNat_durationFromNanosecondsHigh (nanosecondsFromHigh : UInt64)
    (hunits : nanosecondsFromHigh.toNat < 1000000000 * 2 ^ 32) :
    ((createDuration (nanosecondsFromHigh / oneFullBlockOfSecondsOnly * secondsPerFullBlock) 0).add
        (fromNanoseconds
          ((nanosecondsFromHigh % oneFullBlockOfSecondsOnly) <<< numberOfBitsInUint32).toNat)).toNat =
      nanosecondsFromHigh.toNat * 2 ^ 32 := by
  have hblock : oneFullBlockOfSecondsOnly.toNat = 1953125 := rfl
  have hseconds : secondsPerFullBlock.toNat = 8388608 := rfl
  have hbits : numberOfBitsInUint32.toNat = 32 := rfl
  rw [toNat_add, toNat_createDuration_zero, toNat_fromNanoseconds_toNat, toNat_max]
  simp only [UInt64.toNat_mul, UInt64.toNat_div, UInt64.toNat_shiftLeft, UInt64.toNat_mod, hblock,
    hseconds, hbits, Nat.shiftLeft_eq, Nat.reduceMod, Nat.reducePow]
  -- a block of `1953125` units of `2 ^ 32` nanoseconds is `8388608` seconds
  omega

/-- **`multiplyWith` is the exact product, saturated**: a multiplier at or below zero gives zero,
seconds that leave `uint64_t` give `Duration::max()`, and otherwise the nanoseconds are
multiplied at once when the product fits `uint64_t`, and through the two 32-bit halves of the
multiplier when it does not. -/
theorem toNat_multiplyWith (a : Duration) {rhs : ℤ} (hrhs : rhs < 2 ^ 64) :
    (a.multiplyWith rhs).toNat = min (a.toNat * rhs.toNat) max.toNat := by
  have hns := a.nanoseconds_toNat_lt
  have hs := UInt64.toNat_lt a.seconds
  unfold multiplyWith
  dsimp only
  split_ifs with hzero hsec hfit
  · -- a multiplier at or below zero, or a zero duration
    rw [toNat_zero]
    rcases hzero with hneg | hnull
    · rw [Int.toNat_of_nonpos hneg, Nat.mul_zero, Nat.zero_min]
    · rw [beq_iff, toNat_zero] at hnull
      rw [hnull, Nat.zero_mul, Nat.zero_min]
  all_goals
    have hpos : 0 < rhs := by omega
    have hm : (UInt64.ofInt rhs).toNat = rhs.toNat := by
      rw [← toNat_positiveValueOrClampToZero hrhs, positiveValueOrClampToZero, if_neg (by omega)]
    have hm0 : 0 < rhs.toNat := by omega
    -- `N(a) * m` is the seconds' product in seconds and the nanoseconds' product
    have hprod : a.toNat * rhs.toNat =
        a.seconds.toNat * rhs.toNat * 1000000000 + a.nanoseconds.toNat * rhs.toNat := by
      rw [toNat, Nat.add_mul, Nat.mul_right_comm]
  · -- the seconds alone leave `uint64_t`
    rw [gt_iff_lt, UInt64.lt_iff_toNat_lt, UInt64.toNat_div, hm, secondsMax_toNat,
      Nat.div_lt_iff_lt_mul hm0] at hsec
    have : 2 ^ 64 * 1000000000 ≤ a.seconds.toNat * rhs.toNat * 1000000000 :=
      Nat.mul_le_mul_right _ (by omega)
    rw [toNat_max]
    omega
  · -- the nanoseconds' product fits `uint64_t`
    rw [gt_iff_lt, UInt64.lt_iff_toNat_lt, UInt64.toNat_div, hm, secondsMax_toNat, Nat.not_lt,
      Nat.le_div_iff_mul_le hm0] at hsec
    rw [UInt64.le_iff_toNat_le, UInt64.toNat_div, hm, UInt32.toNat_toUInt64, secondsMax_toNat,
      Nat.le_div_iff_mul_le hm0] at hfit
    rw [toNat_add, toNat_createDuration_zero, toNat_fromNanoseconds_toNat, UInt64.toNat_mul,
      UInt64.toNat_mul, UInt32.toNat_toUInt64, hm, Nat.mod_eq_of_lt (by omega),
      Nat.mod_eq_of_lt (by omega), hprod]
  · -- the nanoseconds' product is taken through the halves of the multiplier
    rw [gt_iff_lt, UInt64.lt_iff_toNat_lt, UInt64.toNat_div, hm, secondsMax_toNat, Nat.not_lt,
      Nat.le_div_iff_mul_le hm0] at hsec
    have hlow : (UInt64.ofInt rhs).toUInt32.toUInt64.toNat = rhs.toNat % 2 ^ 32 := by
      rw [UInt32.toNat_toUInt64, UInt64.toNat_toUInt32, hm]
    have hhigh : (UInt64.ofInt rhs >>> numberOfBitsInUint32).toUInt32.toUInt64.toNat =
        rhs.toNat / 2 ^ 32 := by
      rw [UInt32.toNat_toUInt64, UInt64.toNat_toUInt32, UInt64.toNat_shiftRight, hm,
        show numberOfBitsInUint32.toNat % 64 = 32 from rfl, Nat.shiftRight_eq_div_pow]
      omega
    have hlowlt : a.nanoseconds.toNat * (rhs.toNat % 2 ^ 32) < 1000000000 * 2 ^ 32 :=
      Nat.mul_lt_mul'' hns (Nat.mod_lt _ (by decide))
    have hhighlt : a.nanoseconds.toNat * (rhs.toNat / 2 ^ 32) < 1000000000 * 2 ^ 32 :=
      Nat.mul_lt_mul'' hns (Nat.div_lt_of_lt_mul (by omega))
    have hunits : (a.nanoseconds.toUInt64 *
        (UInt64.ofInt rhs >>> numberOfBitsInUint32).toUInt32.toUInt64).toNat =
          a.nanoseconds.toNat * (rhs.toNat / 2 ^ 32) := by
      rw [UInt64.toNat_mul, UInt32.toNat_toUInt64, hhigh, Nat.mod_eq_of_lt (by omega)]
    -- the multiplier is its low half and `2 ^ 32` times its high half
    have hsplit : a.nanoseconds.toNat * rhs.toNat = a.nanoseconds.toNat * (rhs.toNat % 2 ^ 32) +
        a.nanoseconds.toNat * (rhs.toNat / 2 ^ 32) * 2 ^ 32 := by
      rw [Nat.mul_assoc, ← Nat.mul_add, Nat.mul_comm (rhs.toNat / 2 ^ 32), Nat.mod_add_div]
    rw [toNat_add, toNat_durationFromNanosecondsHigh _ (hunits ▸ hhighlt), hunits, toNat_add,
      toNat_createDuration_zero, toNat_fromNanoseconds_toNat, UInt64.toNat_mul, UInt64.toNat_mul,
      UInt32.toNat_toUInt64, hm, hlow, Nat.mod_eq_of_lt (by omega), Nat.mod_eq_of_lt (by omega),
      hprod, hsplit]
    exact MixedRadix.min_add_min _ _ _ _

/-- A multiplier above `2 ^ 32` with nanoseconds whose product leaves `uint64_t`, so that the
product goes through the halves of the multiplier. -/
theorem toNat_multiplyWith_above_two_pow_32 :
    (2 ^ 40 + 7 : ℤ) < 2 ^ 64 ∧
      ((createDuration 3 999999999).multiplyWith (2 ^ 40 + 7)).toNat =
        min ((createDuration 3 999999999).toNat * (2 ^ 40 + 7 : ℤ).toNat) max.toNat :=
  ⟨by decide, toNat_multiplyWith _ (by decide)⟩

/-! ### Every operation is exact or saturating -/

/-- **Duration arithmetic is exact or saturating**, for every duration (each is normalized) and
every value of an integer type of at most 64 bits. -/
theorem duration_arithmetic_exact_or_saturating :
    (∀ a b : Duration, (a.add b).toNat = min (a.toNat + b.toNat) max.toNat) ∧
    (∀ a b : Duration, (a.sub b).toNat = a.toNat - b.toNat) ∧
    (∀ (seconds : UInt64) (nanoseconds : UInt32),
      (createDuration seconds nanoseconds).nanoseconds.toNat < 1000000000 ∧
        (createDuration seconds nanoseconds).toNat =
          min (seconds.toNat * 1000000000 + nanoseconds.toNat) max.toNat) ∧
    (∀ value : ℤ, value < 2 ^ 64 →
      (fromNanoseconds value).toNat = min value.toNat max.toNat ∧
        (fromMicroseconds value).toNat = min (value.toNat * 1000) max.toNat ∧
        (fromMilliseconds value).toNat = min (value.toNat * 1000000) max.toNat ∧
        (fromSeconds value).toNat = min (value.toNat * 1000000000) max.toNat ∧
        (fromMinutes value).toNat = min (value.toNat * 60000000000) max.toNat ∧
        (fromHours value).toNat = min (value.toNat * 3600000000000) max.toNat ∧
        (fromDays value).toNat = min (value.toNat * 86400000000000) max.toNat) ∧
    (∀ a : Duration,
      a.toNanoseconds.toNat = min a.toNat (2 ^ 64 - 1) ∧
        a.toMicroseconds.toNat = min (a.toNat / 1000) (2 ^ 64 - 1) ∧
        a.toMilliseconds.toNat = min (a.toNat / 1000000) (2 ^ 64 - 1)) ∧
    (∀ a b : Duration,
      (a.lt b = true ↔ a.toNat < b.toNat) ∧ (a.gt b = true ↔ a.toNat > b.toNat) ∧
        (a.le b = true ↔ a.toNat ≤ b.toNat) ∧ (a.ge b = true ↔ a.toNat ≥ b.toNat) ∧
        (a.beq b = true ↔ a.toNat = b.toNat) ∧ (a.bne b = true ↔ a.toNat ≠ b.toNat)) := by
  refine ⟨toNat_add, toNat_sub, fun seconds nanoseconds ↦
    ⟨nanoseconds_toNat_lt _, toNat_createDuration seconds nanoseconds⟩, ?_,
    fun a ↦ ⟨toNat_toNanoseconds a, toNat_toMicroseconds a, toNat_toMilliseconds a⟩,
    fun a b ↦ ⟨lt_iff, gt_iff, le_iff, ge_iff, beq_iff, bne_iff⟩⟩
  intro value hvalue
  -- below `2 ^ 64` units of at most a second no conversion reaches `Duration::max()`
  have hsmall : ∀ unit ≤ 1000000000, min (value.toNat * unit) max.toNat = value.toNat * unit := by
    intro unit hunit
    have : value.toNat * unit ≤ (2 ^ 64 - 1) * 1000000000 := Nat.mul_le_mul (by omega) hunit
    rw [toNat_max]
    omega
  refine ⟨?_, ?_, ?_, toNat_fromSeconds hvalue, toNat_fromMinutes hvalue, toNat_fromHours hvalue,
    toNat_fromDays hvalue⟩
  · rw [toNat_fromNanoseconds hvalue, ← Nat.mul_one value.toNat, hsmall 1 (by decide)]
  · rw [toNat_fromMicroseconds hvalue, hsmall 1000 (by decide)]
  · rw [toNat_fromMilliseconds hvalue, hsmall 1000000 (by decide)]

/-- A negative count of minutes is clamped at zero. -/
theorem duration_arithmetic_at_negative_value :
    (-5 : ℤ) < 2 ^ 64 ∧ (fromMinutes (-5)).toNat = min ((-5 : ℤ).toNat * 60000000000) max.toNat :=
  ⟨by decide, (duration_arithmetic_exact_or_saturating.2.2.2.1 (-5) (by decide)).2.2.2.2.1⟩

end Duration

end Iox.Units
