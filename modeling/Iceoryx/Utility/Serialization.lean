import Iceoryx.Vocabulary.String
import Iceoryx.Data.Decimal
import Iceoryx.Data.Terminated
import Mathlib.Algebra.Group.Nat.Defs
import Mathlib.Data.List.Forall2

/-!
# `convert` and `Serialization`

`Serialization::create(args...)` (`serialization.inl`) writes each argument as
`convert::toString` writes it, preceded by the decimal length of what was written and the
separator `':'`. `extract(args...)` takes the entries off one at a time with `removeFirstEntry`
and reads each with `convert::from_string<T>` from its `c_str()`. The two directions meet in
three conversions, each translated from `convert.inl`:

* an unsigned number is written by a stream as its decimal digits and read by `strtoul` with the
  checks of `evaluate_return_value` (`fromStringUnsigned`);
* an `iox::string` is written by a stream from its `c_str()`, up to its first zero byte, and read
  with `strlen` and the constructor from a C string;
* the length before an entry is read as a `size_t`, and the bound `pos + length + 1U` that
  `removeFirstEntry` checks is a `size_t` sum, taken modulo `2 ^ 64`.

The arguments of one call are `Arg capacity`: `iox::string<capacity>` and the unsigned integer
types that the service descriptions serialize.

## What is proved

* **Reading back what was written**: `extract` of `create(args...)` gives the arguments again when
  each argument type reads back its own string (`extract_create`). A number always does; a string
  reads back up to its first zero byte (`chars_fromStringIoxString_toStringIoxString`), so an
  argument reads back exactly when no zero byte cuts its string (`Arg.fromString_getString_iff`,
  `Arg.extract_create_args`).
* **What `removeFirstEntry` accepts** (`removeFirstEntry_eq_some`): a prefix without separator that
  `from_string<size_t>` reads as some `length`, the separator, then either an entry of exactly
  `length` bytes, or, when `pos + length + 1U` wraps, a remainder that starts again at or before
  the separator.
-/

namespace Iox

open CString Decimal

namespace Convert

/-- `std::numeric_limits<unsigned long>::max()`, the maximum of `size_t` and of what `strtoul`
returns. -/
def ulongMax : ℕ := 2 ^ 64 - 1

/-- `std::numeric_limits<unsigned int>::max()` -/
def uintMax : ℕ := 2 ^ 32 - 1

/-- `std::numeric_limits<unsigned short>::max()` -/
def ushortMax : ℕ := 2 ^ 16 - 1

/-- `convert::toString(t)` of an unsigned number: a `std::stringstream` writes its decimal
digits. -/
def toStringUnsigned (n : ℕ) : List Char :=
  Nat.toDigits 10 n

/-- `convert::toString(t)` of an `iox::string`: the stream operator writes `c_str()`. -/
def toStringIoxString {capacity : ℕ} (t : IoxString capacity) : List Char :=
  read t.cStr

/-- `convert::start_with_neg_sign(v)`: a minus sign after the white space. -/
def startWithNegSign (v : List Char) : Bool :=
  (v.dropWhile isSpace).head? == some '-'

/-- `convert::is_valid_input(end_ptr, v, source_val)` -/
def isValidInput (v : List Char) (call : Conversion) : Bool :=
  -- invalid string
  if call.endOffset = 0 ∧ call.value = 0 then false
  -- `*end_ptr != '\0'`: the conversion stopped before the end
  else if call.endOffset ≠ 0 ∧ v.getD call.endOffset zero ≠ zero then false
  else true

/-- `convert::is_valid_errno(errno_cache, v)`: of the `errno` values, `strtoul` sets `ERANGE`
only. -/
def isValidErrno (call : Conversion) : Bool :=
  !call.erange

/-- `convert::from_string<T>(v)` for an unsigned `T` with maximum `maxValue`: refused on a minus
sign, then `strtoul` and the checks of `check_edge_case`, the last one `is_within_range<T>`. -/
def fromStringUnsigned (maxValue : ℕ) (v : List Char) : Option ℕ :=
  if startWithNegSign v then none
  else
    let call := strtoul ulongMax v
    if isValidInput v call && isValidErrno call && decide (call.value ≤ maxValue) then
      some call.value
    else none

/-- `convert::from_string<unsigned long>(v)`, the reading of a `size_t`. -/
def fromStringUnsignedLong (v : List Char) : Option ℕ :=
  fromStringUnsigned ulongMax v

/-- `convert::from_string<unsigned int>(v)` -/
def fromStringUnsignedInt (v : List Char) : Option UInt32 :=
  (fromStringUnsigned uintMax v).map Nat.toUInt32

/-- `convert::from_string<unsigned short>(v)` -/
def fromStringUnsignedShort (v : List Char) : Option UInt16 :=
  (fromStringUnsigned ushortMax v).map Nat.toUInt16

/-- `convert::from_string<iox::string<capacity>>(v)`: refused when `strlen(v)` exceeds the
capacity, else the string constructed from `v` as a C string. -/
def fromStringIoxString (capacity : ℕ) (v : List Char) : Option (IoxString capacity) :=
  if (read v).length > capacity then none
  else some (IoxString.truncateCString (some v))

/-- A number below `10 ^ k` is written in at most `k` digits. -/
theorem length_toStringUnsigned_le {n k : ℕ} (hk : 0 < k) (h : n < 10 ^ k) :
    (toStringUnsigned n).length ≤ k :=
  (Nat.length_toDigits_le_iff (by decide) hk).2 h

theorem le_of_fromStringUnsigned_eq_some {maxValue n : ℕ} {v : List Char}
    (h : fromStringUnsigned maxValue v = some n) : n ≤ maxValue := by
  simp only [fromStringUnsigned] at h
  split_ifs at h with hneg hok
  cases h
  simp only [Bool.and_eq_true, decide_eq_true_eq] at hok
  exact hok.2

/-! ### Reading back what was written -/

theorem startWithNegSign_cons_of_isDigit {c : Char} (h : c.isDigit = true) (cs : List Char) :
    startWithNegSign (c :: cs) = false := by
  rw [startWithNegSign, List.dropWhile_cons_of_neg (by simp [isSpace_eq_false_of_isDigit h])]
  -- a digit is not a minus sign
  simpa using fun (heq : c = '-') ↦ by simp [heq] at h

/-- **An unsigned number reads back**, through `strtoul` and every check of
`evaluate_return_value`. -/
theorem fromStringUnsigned_toStringUnsigned {maxValue n : ℕ} (h : n ≤ maxValue)
    (hmax : maxValue ≤ ulongMax) :
    fromStringUnsigned maxValue (toStringUnsigned n ++ [zero]) = some n := by
  obtain ⟨c, cs, hcs⟩ := List.exists_cons_of_ne_nil (Nat.toDigits_ne_nil (b := 10) (n := n))
  have hc : c.isDigit = true :=
    Nat.isDigit_of_mem_toDigits (by decide) (by decide) (hcs ▸ List.mem_cons_self)
  have hsign : startWithNegSign (toStringUnsigned n ++ [zero]) = false := by
    rw [toStringUnsigned, hcs, List.cons_append, startWithNegSign_cons_of_isDigit hc]
  have hcall : strtoul ulongMax (toStringUnsigned n ++ [zero]) =
      ⟨n, (toStringUnsigned n).length, false⟩ :=
    strtoul_toDigits (Nat.le_trans h hmax) (by decide)
  -- the conversion ends at the terminator
  have hend : (toStringUnsigned n ++ [zero]).getD (toStringUnsigned n).length zero = zero := by
    simp
  have hne : toStringUnsigned n ≠ [] := Nat.toDigits_ne_nil
  simp only [fromStringUnsigned, hsign, hcall, isValidInput, isValidErrno, hend, h]
  simp [hne]

theorem fromStringUnsignedInt_toStringUnsigned (n : UInt32) :
    fromStringUnsignedInt (toStringUnsigned n.toNat ++ [zero]) = some n := by
  have hn : n.toNat ≤ uintMax := by
    have := n.toNat_lt
    unfold uintMax
    omega
  rw [fromStringUnsignedInt, fromStringUnsigned_toStringUnsigned hn (by decide)]
  simp

theorem fromStringUnsignedShort_toStringUnsigned (n : UInt16) :
    fromStringUnsignedShort (toStringUnsigned n.toNat ++ [zero]) = some n := by
  have hn : n.toNat ≤ ushortMax := by
    have := n.toNat_lt
    unfold ushortMax
    omega
  rw [fromStringUnsignedShort, fromStringUnsigned_toStringUnsigned hn (by decide)]
  simp

/-- **A string reads back up to its first zero byte**: the stream writes `c_str()` and
`from_string` reads it as a C string. -/
theorem chars_fromStringIoxString_toStringIoxString {capacity : ℕ} (t : IoxString capacity) :
    (fromStringIoxString capacity (toStringIoxString t ++ [zero])).map IoxString.chars =
      some (read t.chars) := by
  have hread : read (toStringIoxString t ++ [zero]) = read t.chars := by
    rw [toStringIoxString, IoxString.cStr, read_append_zero_cons, read_append_zero_cons,
      read_eq_self (zero_not_mem_read _)]
  have hfits : (read t.chars).length ≤ capacity :=
    Nat.le_trans (read_isPrefix t.chars).length_le t.size_le
  rw [fromStringIoxString, hread, if_neg (Nat.not_lt.2 hfits), Option.map_some,
    IoxString.truncateCString_eq, hread, IoxString.truncate_chars_of_length_le hfits]

end Convert

/-- `Serialization::Error` -/
inductive SerializationError
  | deserializationFailed
  deriving DecidableEq, Repr

/-- `Serialization::SEPARATOR` -/
def separator : Char := ':'

/-- A `Serialization`: its `m_value`. -/
structure Serialization where
  value : List Char
  deriving DecidableEq, Repr

namespace Serialization

section Create

variable {α : Type} (getString : α → List Char)

/-- `Serialization::serializer(t, args...)`: each argument's string, preceded by its length and
the separator. -/
def serializer : List α → List Char
  | [] => []
  | t :: args =>
    let serializedString := getString t
    let serializedStringLength := Convert.toStringUnsigned serializedString.length
    serializedStringLength ++ separator :: serializedString ++ serializer args

/-- `Serialization::create(args...)` -/
def create (args : List α) : Serialization :=
  ⟨serializer getString args⟩

theorem serializer_cons (t : α) (args : List α) :
    serializer getString (t :: args) =
      Convert.toStringUnsigned (getString t).length ++ separator :: getString t ++
        serializer getString args :=
  rfl

/-- A serialization is at most as long as its entries with their lengths written in `k` digits. -/
theorem length_serializer_le {k m : ℕ} (hk : 0 < k) (hm : m < 10 ^ k) :
    ∀ {args : List α}, (∀ a ∈ args, (getString a).length ≤ m) →
      (serializer getString args).length ≤ args.length * (k + 1 + m)
  | [], _ => by simp [serializer]
  | t :: args, hargs => by
    have hdigits : (Convert.toStringUnsigned (getString t).length).length ≤ k :=
      Convert.length_toStringUnsigned_le hk (Nat.lt_of_le_of_lt (hargs t List.mem_cons_self) hm)
    have hrest := length_serializer_le hk hm fun a ha ↦ hargs a (List.mem_cons_of_mem t ha)
    have ht := hargs t List.mem_cons_self
    rw [serializer_cons, List.length_append, List.length_append, List.length_cons,
      List.length_cons, Nat.succ_mul]
    omega

end Create

/-- `Serialization::removeFirstEntry(firstEntry, remainder)`: the entry and the new remainder, or
`none` where it returns `false`. -/
def removeFirstEntry (remainder : List Char) : Option (List Char × List Char) :=
  match remainder.idxOf? separator with
  | none => none
  | some pos =>
    match Convert.fromStringUnsignedLong (remainder.take pos ++ [zero]) with
    | none => none
    | some length =>
      -- `pos + length + 1U` is computed in `size_t`
      if remainder.length < (pos + length + 1) % 2 ^ 64 then none
      else some ((remainder.drop (pos + 1)).take length, remainder.drop ((pos + 1 + length) % 2 ^ 64))

/-- **`removeFirstEntry` takes off an entry that `serializer` wrote**, when the whole string fits
in a `std::string`, so that `pos + length + 1U` does not wrap. -/
theorem removeFirstEntry_serialized {entry rest : List Char}
    (h : (Convert.toStringUnsigned entry.length ++ separator :: entry ++ rest).length < 2 ^ 64) :
    removeFirstEntry (Convert.toStringUnsigned entry.length ++ separator :: entry ++ rest) =
      some (entry, rest) := by
  set digits := Convert.toStringUnsigned entry.length
  have hlength : digits.length + entry.length + 1 < 2 ^ 64 := by
    simp only [List.length_append, List.length_cons] at h
    omega
  have hpos : (digits ++ separator :: entry ++ rest).idxOf? separator = some digits.length := by
    rw [List.append_assoc, List.cons_append]
    exact Terminated.idxOf?_append_cons (not_mem_toDigits (by decide) _) _
  have htake : (digits ++ separator :: entry ++ rest).take digits.length = digits := by
    simp
  have hread : Convert.fromStringUnsignedLong (digits ++ [zero]) = some entry.length :=
    Convert.fromStringUnsigned_toStringUnsigned (by unfold Convert.ulongMax; omega) le_rfl
  -- the entry and the remainder are read off after the separator
  have hafter : (digits ++ separator :: entry ++ rest).drop (digits.length + 1) = entry ++ rest := by
    rw [show digits ++ separator :: entry ++ rest = (digits ++ [separator]) ++ (entry ++ rest) by
      simp]
    exact List.drop_left' (by simp)
  have hrest : (digits ++ separator :: entry ++ rest).drop (digits.length + 1 + entry.length) =
      rest := by
    rw [← List.drop_drop, hafter, List.drop_left]
  rw [removeFirstEntry, hpos]
  simp only [htake, hread, Nat.mod_eq_of_lt hlength,
    Nat.mod_eq_of_lt (show digits.length + 1 + entry.length < 2 ^ 64 by omega)]
  rw [if_neg (by simp only [List.length_append, List.length_cons]; omega), hafter, List.take_left,
    hrest]

/-- **What `removeFirstEntry` accepts**: a prefix without separator that `from_string<size_t>`
reads as `length`, the separator, and then, when `pos + length + 1U` does not wrap, an entry of
exactly `length` bytes before the remainder. When it wraps, the entry is what follows the
separator, cut at `length`, and the remainder starts again at or before the separator. -/
theorem removeFirstEntry_eq_some {s entry rest : List Char}
    (h : removeFirstEntry s = some (entry, rest)) :
    ∃ lengthField length tail, s = lengthField ++ separator :: tail ∧
      separator ∉ lengthField ∧
      Convert.fromStringUnsignedLong (lengthField ++ [zero]) = some length ∧
      ((lengthField.length + length + 1 < 2 ^ 64 ∧ tail = entry ++ rest ∧
          entry.length = length) ∨
        (2 ^ 64 ≤ lengthField.length + length + 1 ∧ entry = tail.take length ∧
          ∃ w ≤ lengthField.length, rest = s.drop w)) := by
  unfold removeFirstEntry at h
  split at h
  · cases h
  next pos hpos =>
  split at h
  · cases h
  next length hlength =>
  split_ifs at h with hshort
  simp only [Option.some.injEq, Prod.mk.injEq] at h
  obtain ⟨rfl, rfl⟩ := h
  obtain ⟨hsplit, hsep⟩ := Terminated.idxOf?_eq_some_split hpos
  have hmax : length ≤ 2 ^ 64 - 1 := Convert.le_of_fromStringUnsigned_eq_some hlength
  have hposlt : pos < s.length := (List.idxOf?_eq_some_iff.1 hpos).1
  have htake : (s.take pos).length = pos := List.length_take_of_le hposlt.le
  refine ⟨s.take pos, length, s.drop (pos + 1), hsplit, hsep, hlength, ?_⟩
  rw [htake]
  by_cases hwrap : pos + length + 1 < 2 ^ 64
  · -- the bound is checked as written: the entry is `length` bytes long
    rw [Nat.mod_eq_of_lt hwrap] at hshort
    rw [Nat.mod_eq_of_lt (show pos + 1 + length < 2 ^ 64 by omega)]
    refine Or.inl ⟨hwrap, ?_, ?_⟩
    · rw [← List.drop_drop (i := length) (j := pos + 1), List.take_append_drop]
    · rw [List.length_take, List.length_drop]
      omega
  · -- the sum wraps below `pos + 1`: it is less than `2 ^ 64`, and less than `pos + 1` when
    -- `pos` is
    refine Or.inr ⟨by omega, rfl, (pos + 1 + length) % 2 ^ 64, ?_, rfl⟩
    rcases Nat.lt_or_ge pos (2 ^ 64) with hsmall | hlarge
    · have hwrapped : (pos + 1 + length) % 2 ^ 64 = pos + 1 + length - 2 ^ 64 := by
        rw [Nat.mod_eq_sub_mod (by omega), Nat.mod_eq_of_lt (by omega)]
      rw [hwrapped]
      omega
    · exact Nat.le_trans (Nat.mod_lt _ (by decide)).le hlarge

/-- The entry `abc` of length `3`, with nothing after it. -/
theorem removeFirstEntry_eq_some_of_abc :
    ∃ lengthField length tail, "3:abc".toList = lengthField ++ separator :: tail ∧
      separator ∉ lengthField ∧
      Convert.fromStringUnsignedLong (lengthField ++ [zero]) = some length ∧
      ((lengthField.length + length + 1 < 2 ^ 64 ∧ tail = "abc".toList ++ [] ∧
          "abc".toList.length = length) ∨
        (2 ^ 64 ≤ lengthField.length + length + 1 ∧ "abc".toList = tail.take length ∧
          ∃ w ≤ lengthField.length, [] = "3:abc".toList.drop w)) :=
  @removeFirstEntry_eq_some "3:abc".toList "abc".toList [] rfl

section Extract

variable {τ α : Type} (fromString : τ → List Char → Option α)

/-- `Serialization::deserialize(serializedString, t, args...)` for arguments of the types `τ`:
the values it writes, or `none` where it returns `false`. Each entry is read from its `c_str()`. -/
def deserialize : List Char → List τ → Option (List α)
  | serializedString, [] => if serializedString.isEmpty then some [] else none
  | serializedString, t :: args =>
    match removeFirstEntry serializedString with
    | none => none
    | some (entry, remainder) =>
      match fromString t (entry ++ [zero]) with
      | none => none
      | some value => (deserialize remainder args).map (value :: ·)

/-- `Serialization::extract(args...)` -/
def extract (s : Serialization) (args : List τ) : Option (List α) :=
  deserialize fromString s.value args

variable {getString : α → List Char}

/-- **`extract` reads back what `create` wrote**, when each argument reads back from its own
string at its type, and the serialization fits in a `std::string`. -/
theorem extract_create {types : List τ} {args : List α}
    (hread : List.Forall₂ (fun t a ↦ fromString t (getString a ++ [zero]) = some a) types args)
    (hfits : (create getString args).value.length < 2 ^ 64) :
    (create getString args).extract fromString types = some args := by
  simp only [create, extract] at hfits ⊢
  -- one entry per argument, read off the front
  induction hread with
  | nil => rfl
  | @cons t a types args hhead _ ih =>
    rw [serializer_cons] at hfits ⊢
    have hrest : (serializer getString args).length < 2 ^ 64 := by
      simp only [List.length_append] at hfits
      omega
    rw [deserialize, removeFirstEntry_serialized hfits]
    simp only [hhead, ih hrest, Option.map_some]

end Extract

end Serialization

/-- The type of an argument of `create` or `extract`, among `iox::string<capacity>`, `uint16_t`
and `uint32_t`. -/
inductive ArgType
  | ioxString
  | unsignedShort
  | unsignedInt
  deriving DecidableEq, Repr

/-- An argument of `create`, or a value `extract` writes. -/
inductive Arg (capacity : ℕ)
  | ioxString (s : IoxString capacity)
  | unsignedShort (n : UInt16)
  | unsignedInt (n : UInt32)
  deriving DecidableEq

namespace Arg

variable {capacity : ℕ}

/-- The type of an argument. -/
def type : Arg capacity → ArgType
  | ioxString _ => .ioxString
  | unsignedShort _ => .unsignedShort
  | unsignedInt _ => .unsignedInt

/-- `Serialization::getString(t)`: `convert::toString(t)`. -/
def getString : Arg capacity → List Char
  | ioxString s => Convert.toStringIoxString s
  | unsignedShort n => Convert.toStringUnsigned n.toNat
  | unsignedInt n => Convert.toStringUnsigned n.toNat

/-- `convert::from_string<T>(v)` at the argument type `T`. -/
def fromString (capacity : ℕ) : ArgType → List Char → Option (Arg capacity)
  | .ioxString, v => (Convert.fromStringIoxString capacity v).map ioxString
  | .unsignedShort, v => (Convert.fromStringUnsignedShort v).map unsignedShort
  | .unsignedInt, v => (Convert.fromStringUnsignedInt v).map unsignedInt

/-- What `getString` writes is at most `capacity` bytes for a string and ten digits for a
number. -/
theorem length_getString_le (a : Arg capacity) : a.getString.length ≤ max capacity 10 := by
  cases a with
  | ioxString s =>
    have hread : (read s.cStr).length ≤ capacity := by
      rw [IoxString.cStr, read_append_zero_cons]
      exact Nat.le_trans (read_isPrefix s.chars).length_le s.size_le
    exact Nat.le_trans hread (Nat.le_max_left _ _)
  | unsignedShort n =>
    have hdigits : (Convert.toStringUnsigned n.toNat).length ≤ 10 :=
      Convert.length_toStringUnsigned_le (by decide) (by have := n.toNat_lt; omega)
    exact Nat.le_trans hdigits (Nat.le_max_right capacity 10)
  | unsignedInt n =>
    have hdigits : (Convert.toStringUnsigned n.toNat).length ≤ 10 :=
      Convert.length_toStringUnsigned_le (by decide) (by have := n.toNat_lt; omega)
    exact Nat.le_trans hdigits (Nat.le_max_right capacity 10)

/-- An argument that its string carries whole: a string without zero bytes, or a number. -/
def HasNoZeroByte : Arg capacity → Prop
  | ioxString s => zero ∉ s.chars
  | unsignedShort _ => True
  | unsignedInt _ => True

/-- **An argument reads back from its string exactly when no zero byte cuts the string.** -/
theorem fromString_getString_iff {a : Arg capacity} :
    fromString capacity a.type (a.getString ++ [zero]) = some a ↔ a.HasNoZeroByte := by
  cases a with
  | ioxString s =>
    obtain ⟨t, ht, hchars⟩ :=
      Option.map_eq_some_iff.1 (Convert.chars_fromStringIoxString_toStringIoxString s)
    simp only [fromString, type, getString, HasNoZeroByte, ht, Option.map_some,
      Option.some.injEq, ioxString.injEq]
    -- the string read back is the part before the first zero byte
    constructor
    · intro heq hz
      rw [← heq] at hz
      exact zero_not_mem_read s.chars (hchars ▸ hz)
    · intro hz
      exact IoxString.eq_of_chars (hchars.trans (read_eq_self hz))
  | unsignedShort n =>
    simp [fromString, type, getString, HasNoZeroByte,
      Convert.fromStringUnsignedShort_toStringUnsigned]
  | unsignedInt n =>
    simp [fromString, type, getString, HasNoZeroByte,
      Convert.fromStringUnsignedInt_toStringUnsigned]

/-- **`extract` reads back the arguments of `create`** when no string among them holds a zero
byte and the serialization fits in a `std::string`. -/
theorem extract_create_args {args : List (Arg capacity)} (hzero : ∀ a ∈ args, a.HasNoZeroByte)
    (hfits : (Serialization.create getString args).value.length < 2 ^ 64) :
    (Serialization.create getString args).extract (fromString capacity) (args.map type) =
      some args :=
  Serialization.extract_create (fromString capacity)
    (List.forall₂_map_left_iff.2 (List.forall₂_same.2 fun a ha ↦
      fromString_getString_iff.2 (hzero a ha)))
    hfits

end Arg

end Iox
