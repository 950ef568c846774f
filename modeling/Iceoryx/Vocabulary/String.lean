import Iceoryx.Vocabulary.SemanticString
import Iceoryx.Data.CString
import Mathlib.Data.Char

/-!
# `iox::string<Capacity>`

`string.hpp` and `string.inl` keep a string as a buffer `m_rawstring` of `Capacity + 1` bytes and
a size `m_rawstringSize`, with the terminator `m_rawstring[size()] == '\0'`. The size is explicit,
so a string may hold zero bytes: the constructor with a count, `append` of `'\0'` and `insert`
copy them. Most operations work with sizes and `memcpy`, `memchr` and `memcmp`; `find` calls
`strstr`, which reads both operands as C strings.

A string is modelled by `IoxString`: its bytes before the terminator (`chars`, the abstract value
`size()` bytes long) and the bound `size() ≤ Capacity`; the buffer that the C functions see at
`c_str()` is `chars` followed by the terminator (`cStr`). Each operation is translated as the
source writes it, over the byte-list forms of `memcpy`, `strnlen`, `memchr`, `memcmp` and
`strstr` of `CString`.

## What is proved

Every operation that works with sizes is the operation on byte lists, truncating or refusing
without change as it documents: `chars_truncateWithCount`, `truncateCString_eq`,
`unsafeAssign_eq`, `chars_appendTruncate`, `chars_appendChar`, `unsafeAppend_eq`,
`substr_eq`, `compare_eq`, `compareChar_eq`, `findFirstOf_eq_some_iff`,
`findLastOf_eq_some_iff`; `insert`, which takes `count` bytes of its argument, is
`IoxString.insert` of `Iceoryx.Vocabulary.SemanticString` over those bytes
(`IoxString.insert_eq_some_iff`). The searches of `path_and_file_verifier.inl`, at their default
positions, are the ones of `Iceoryx.Vocabulary.PathVerifier` (`findFirstOf_zero`,
`findLastOf_capacity`).

`find` is the first occurrence when neither the searched part of the string nor the needle holds
a zero byte (`find_eq_firstOccurrence`). With a zero byte it is not: `strstr` stops at it
(`find_misses_bytes_after_zero`).
-/

namespace Iox

open CString

/-- The argument of an operation templated on `T` with `IsStringOrCharArray`: an
`iox::string<N>` or a `char[N]`. -/
inductive StringOrCharArray
  | ioxString (n : ℕ) (s : IoxString n)
  | charArray (array : List Char)

namespace StringOrCharArray

/-- `internal::GetSize<T>::call(str)`: the size of a string, `strnlen(data, N)` of an array. -/
def getSize : StringOrCharArray → ℕ
  | ioxString _ s => s.chars.length
  | charArray array => strnlen array array.length

/-- `internal::GetData<T>::call(str)`: the bytes at the pointer, with the terminator of a
string. -/
def getData : StringOrCharArray → List Char
  | ioxString _ s => s.chars ++ [zero]
  | charArray array => array

/-- The bytes of the argument: the first `getSize` bytes of its data. -/
def bytes (str : StringOrCharArray) : List Char :=
  str.getData.take str.getSize

@[simp] theorem bytes_ioxString (n : ℕ) (s : IoxString n) : (ioxString n s).bytes = s.chars := by
  simp [bytes, getData, getSize]

@[simp] theorem bytes_charArray (array : List Char) : (charArray array).bytes = read array := by
  have hlen : (read array).length ≤ array.length := (read_isPrefix array).length_le
  rw [bytes, getData, getSize, strnlen, Nat.min_eq_left hlen]
  exact (List.prefix_iff_eq_take.1 (read_isPrefix array)).symm

theorem getSize_eq_length_bytes (str : StringOrCharArray) : str.getSize = str.bytes.length := by
  cases str with
  | ioxString n s => simp [getSize]
  | charArray array =>
    rw [bytes_charArray, getSize, strnlen, Nat.min_eq_left (read_isPrefix array).length_le]

/-- The data of the argument starts with its bytes. -/
theorem bytes_isPrefix_getData (str : StringOrCharArray) : str.bytes <+: str.getData :=
  List.take_prefix _ _

/-- Without a zero among its bytes, the argument reads as a C string to its bytes. -/
theorem read_getData {str : StringOrCharArray} (h : zero ∉ str.bytes) : read str.getData = str.bytes := by
  cases str with
  | ioxString n s =>
    rw [bytes_ioxString] at h
    rw [getData, bytes_ioxString]
    exact read_append_zero h []
  | charArray array =>
    rw [bytes_charArray]
    rfl

/-- `memchr` over the argument finds exactly its bytes. -/
theorem memchr_iff {str : StringOrCharArray} {c : Char} :
    memchr str.getData c str.getSize = true ↔ c ∈ str.bytes :=
  CString.memchr_iff

end StringOrCharArray

namespace IoxString

variable {capacity : ℕ}

/-- `size()` -/
def size (s : IoxString capacity) : ℕ :=
  s.chars.length

/-- The bytes at `c_str()`: the characters and the terminator `m_rawstring[size()]`. -/
def cStr (s : IoxString capacity) : List Char :=
  s.chars ++ [zero]

/-- `unchecked_at(pos)`: the byte `m_rawstring[pos]`, the terminator at `size()`. -/
def uncheckedAt (s : IoxString capacity) (pos : ℕ) : Char :=
  s.cStr.getD pos zero

theorem uncheckedAt_zero {s : IoxString capacity} {c : Char} {cs : List Char}
    (h : s.chars = c :: cs) : s.uncheckedAt 0 = c := by
  rw [uncheckedAt, cStr, h]
  rfl

/-! ### Construction and assignment -/

/-- `string(TruncateToCapacity, other, count)`: `count` bytes of `other`, zero bytes included, and
at most `Capacity` of them; `nullptr` gives the empty string. -/
def truncateWithCount (other : Option (List Char)) (count : ℕ) : IoxString capacity :=
  match other with
  | none => ⟨[], Nat.zero_le _⟩
  | some other =>
    if h : capacity < count then ⟨other.take capacity, by rw [List.length_take]; omega⟩
    else ⟨other.take count, by rw [List.length_take]; omega⟩

/-- `string(TruncateToCapacity, other)`: the constructor with the count `strnlen(other, Capacity)`. -/
def truncateCString (other : Option (List Char)) : IoxString capacity :=
  truncateWithCount other (match other with
    | none => 0
    | some other => strnlen other capacity)

/-- `unsafe_assign(str)`: refused for `nullptr` and for a C string longer than `Capacity`. -/
def unsafeAssign (s : IoxString capacity) (str : Option (List Char)) : Bool × IoxString capacity :=
  match str with
  | none => (false, s)
  | some str =>
    let strSize := strnlen str (capacity + 1)
    if h : capacity < strSize then (false, s)
    else (true, ⟨str.take strSize, by rw [List.length_take]; omega⟩)

/-! ### Appending -/

/-- `append(TruncateToCapacity, str)`: the bytes of `str` that still fit. -/
def appendTruncate (s : IoxString capacity) (str : StringOrCharArray) : IoxString capacity :=
  let tSize := str.getSize
  let clampedTSize := min (capacity - s.size) tSize
  ⟨s.chars ++ str.getData.take clampedTSize, by
    have := s.size_le
    simp only [clampedTSize, List.length_append, List.length_take, size]
    omega⟩

/-- `append(TruncateToCapacity, cstr)` of a single character, ignored on a full string. -/
def appendChar (s : IoxString capacity) (cstr : Char) : IoxString capacity :=
  if h : s.size = capacity then s
  else ⟨s.chars ++ [cstr], by
    have := s.size_le
    simp only [List.length_append, List.length_singleton, size] at *
    omega⟩

/-- `unsafe_append(str)`: refused, without change, when the bytes of `str` do not all fit. -/
def unsafeAppend (s : IoxString capacity) (str : StringOrCharArray) : Bool × IoxString capacity :=
  let tSize := str.getSize
  let clampedTSize := min (capacity - s.size) tSize
  if tSize > clampedTSize then (false, s)
  else (true, s.appendTruncate str)

/-! ### Parts and concatenation -/

/-- `substr(pos, count)`: at most `count` bytes from `pos`; `nullopt` when `pos` is past the end. -/
def substr (s : IoxString capacity) (pos count : ℕ) : Option (IoxString capacity) :=
  if pos > s.size then none
  else
    let length := min count (s.size - pos)
    some ⟨(s.chars.drop pos).take length, by
      have := s.size_le
      simp only [length, List.length_take, List.length_drop, size]
      omega⟩

/-- `concatenate(str1, str2)` of two strings, into a string of the summed capacity. -/
def concatenate {capacity1 capacity2 : ℕ} (str1 : IoxString capacity1)
    (str2 : IoxString capacity2) : IoxString (capacity1 + capacity2) :=
  ⟨str1.chars ++ str2.chars, by
    have := str1.size_le
    have := str2.size_le
    simp only [List.length_append]
    omega⟩

/-! ### Comparison -/

/-- `compare(other)`: `memcmp` over the shorter size, then the sizes. Its result is given by its
sign. -/
def compare (s : IoxString capacity) (other : StringOrCharArray) : Ordering :=
  let otherSize := other.getSize
  let result := memcmp s.cStr other.getData (min s.size otherSize)
  if result = .eq then
    if s.size < otherSize then .lt
    else if s.size > otherSize then .gt
    else .eq
  else result

/-- `compare(other)` with a single character. -/
def compareChar (s : IoxString capacity) (other : Char) : Ordering :=
  let result := memcmp s.cStr [other] 1
  if result = .eq then
    if s.size = 0 then .lt
    else if s.size > 1 then .gt
    else .eq
  else result

/-! ### Searching -/

/-- `find(str, pos)`: `strstr` from `c_str() + pos`. -/
def find (s : IoxString capacity) (str : StringOrCharArray) (pos : ℕ) : Option ℕ :=
  if pos > s.size then none
  else (strstr (s.cStr.drop pos) str.getData).map (pos + ·)

/-- `find_first_of(str, pos)`: the loop `for (p = pos; p < size(); ++p)` with `memchr`. -/
def findFirstOf (s : IoxString capacity) (str : StringOrCharArray) (pos : ℕ) : Option ℕ :=
  if pos > s.size then none
  else (List.range' pos (s.size - pos)).find? fun p ↦ memchr str.getData (s.chars.getD p zero) str.getSize

/-- `find_last_of(str, pos)`: from `min(pos, size() - 1)` down to `0` with `memchr`. -/
def findLastOf (s : IoxString capacity) (str : StringOrCharArray) (pos : ℕ) : Option ℕ :=
  if s.size = 0 then none
  else
    let p := min pos (s.size - 1)
    (List.range (p + 1)).reverse.find? fun q ↦ memchr str.getData (s.chars.getD q zero) str.getSize

/-! ### The operations on byte lists -/

theorem eq_of_chars {s t : IoxString capacity} (h : s.chars = t.chars) : s = t := by
  cases s
  cases t
  cases h
  rfl

/-- **The constructor with a count** copies `count` bytes, zero bytes included, and keeps at most
`Capacity` of them. -/
theorem chars_truncateWithCount (other : List Char) (count : ℕ) :
    (truncateWithCount (some other) count : IoxString capacity).chars =
      (other.take count).take capacity := by
  rw [List.take_take]
  unfold truncateWithCount
  split_ifs with h
  · rw [Nat.min_eq_left h.le]
  · rw [Nat.min_eq_right (by omega)]

/-- The constructor from a C string keeps what `strnlen` reads, truncated: the `truncate` of
`SemanticString`. -/
theorem truncateCString_eq (other : List Char) :
    (truncateCString (some other) : IoxString capacity) = truncate (read other) := by
  apply eq_of_chars
  have hread : read other = other.take (read other).length :=
    List.prefix_iff_eq_take.1 (read_isPrefix other)
  rw [truncateCString, chars_truncateWithCount, truncate, strnlen]
  dsimp only
  conv_rhs => rw [hread]
  rw [List.take_take, List.take_take]
  congr 1
  omega

/-- **`unsafe_assign` takes a C string that fits**, and refuses a longer one without change. -/
theorem unsafeAssign_eq (s : IoxString capacity) (str : List Char) :
    s.unsafeAssign (some str) =
      if h : (read str).length ≤ capacity then (true, ⟨read str, h⟩) else (false, s) := by
  have hread : read str = str.take (read str).length :=
    List.prefix_iff_eq_take.1 (read_isPrefix str)
  unfold unsafeAssign strnlen
  dsimp only
  split_ifs with hlong hfit hfit
  · omega
  · rfl
  · congr
    rw [Nat.min_eq_left (by omega), ← hread]
  · omega

/-- **`append(TruncateToCapacity, str)` appends what fits** of the bytes of `str`. -/
theorem chars_appendTruncate (s : IoxString capacity) (str : StringOrCharArray) :
    (s.appendTruncate str).chars = (s.chars ++ str.bytes).take capacity := by
  rw [List.take_append, List.take_of_length_le s.size_le, StringOrCharArray.bytes,
    List.take_take]
  rfl

theorem chars_appendTruncate_of_fits {s : IoxString capacity} {str : StringOrCharArray}
    (h : s.size + str.bytes.length ≤ capacity) :
    (s.appendTruncate str).chars = s.chars ++ str.bytes := by
  rw [chars_appendTruncate, List.take_of_length_le (by rw [List.length_append]; exact h)]

/-- `append(TruncateToCapacity, cstr)` appends the character, a zero byte too, unless the string
is full. -/
theorem chars_appendChar (s : IoxString capacity) (cstr : Char) :
    (s.appendChar cstr).chars = (s.chars ++ [cstr]).take capacity := by
  have := s.size_le
  unfold appendChar size at *
  split_ifs with h
  · rw [List.take_append, List.take_of_length_le this, h, Nat.sub_self, List.take_zero,
      List.append_nil]
  · rw [List.take_of_length_le (by rw [List.length_append, List.length_singleton]; omega)]

/-- **`unsafe_append` appends all the bytes of `str` or nothing.** -/
theorem unsafeAppend_eq (s : IoxString capacity) (str : StringOrCharArray) :
    s.unsafeAppend str =
      if s.size + str.bytes.length ≤ capacity then (true, s.appendTruncate str) else (false, s) := by
  have := s.size_le
  unfold unsafeAppend
  dsimp only
  rw [StringOrCharArray.getSize_eq_length_bytes]
  unfold size at *
  split_ifs <;> first | rfl | omega

/-- **`substr(pos, count)` is the part of the bytes** from `pos`, at most `count` long. -/
theorem substr_eq (s : IoxString capacity) (pos count : ℕ) :
    (s.substr pos count).map chars =
      if pos ≤ s.size then some ((s.chars.drop pos).take count) else none := by
  unfold substr
  split_ifs with h h' h'
  · omega
  · rfl
  · simp only [Option.map_some, Option.some.injEq]
    rw [List.take_eq_take_min (i := count), List.length_drop]
    rfl
  · omega

/-- The code's order of the size tests is the order of the sizes. -/
theorem ite_lt_gt_eq_compare (a b : ℕ) :
    (if a < b then Ordering.lt else if a > b then .gt else .eq) = Ord.compare a b := by
  rcases Nat.lt_trichotomy a b with h | rfl | h
  · rw [if_pos h, compare_lt_iff_lt.2 h]
  · rw [if_neg (Nat.lt_irrefl a), if_neg (Nat.lt_irrefl a), compare_eq_iff_eq.2 rfl]
  · rw [if_neg (Nat.lt_asymm h), if_pos h, compare_gt_iff_gt.2 h]

/-- **`compare` is the lexicographic order of the bytes**: `memcmp` over the shorter size reads
only bytes of both, zero bytes included, and the sizes decide a tie. -/
theorem compare_eq (s : IoxString capacity) (other : StringOrCharArray) :
    s.compare other = Ord.compare s.chars other.bytes := by
  have hmin : min s.size other.getSize ≤ s.chars.length := Nat.min_le_left _ _
  -- `memcmp` reads no further than both sizes
  have hread : memcmp s.cStr other.getData (min s.size other.getSize) =
      memcmp s.chars other.bytes (min s.chars.length other.bytes.length) := by
    rw [← StringOrCharArray.getSize_eq_length_bytes, ← memcmp_take, ← memcmp_take s.chars]
    congr 1
    · rw [cStr, List.take_append_of_le_length hmin]
      rfl
    · rw [StringOrCharArray.bytes, List.take_take, Nat.min_eq_left (Nat.min_le_right _ _)]
      rfl
  rw [← memcmp_then_compare_length, ← hread, ← StringOrCharArray.getSize_eq_length_bytes]
  unfold compare
  dsimp only
  generalize memcmp s.cStr other.getData (min s.size other.getSize) = result
  cases result <;> simp [Ordering.then, ite_lt_gt_eq_compare, size]

/-- `compare` with a character is the order of the bytes against that one byte: the terminator
of an empty string is below every character. -/
theorem compareChar_eq (s : IoxString capacity) (other : Char) :
    s.compareChar other = Ord.compare s.chars [other] := by
  unfold compareChar cStr size
  dsimp only
  cases hchars : s.chars with
  | nil =>
    have hzero : Ord.compare zero other ≠ .gt := by
      rw [Ne, compare_gt_iff_gt, not_lt]
      exact Nat.zero_le _
    simp only [List.nil_append, memcmp, List.length_nil]
    cases h : Ord.compare zero other
    all_goals first | exact absurd h hzero | rfl
  | cons c rest =>
    simp only [List.cons_append, memcmp, List.length_cons, List.compare_cons_cons]
    cases Ord.compare c other
    all_goals cases rest <;> simp [Ordering.then]

/-- The least `i ≥ pos` at which `needle` occurs in `chars`: what `find` is to return. -/
def firstOccurrence (chars needle : List Char) (pos : ℕ) : Option ℕ :=
  (List.range' pos (chars.length + 1 - pos)).find? fun i ↦ needle.isPrefixOf (chars.drop i)

/-- **`find` is the first occurrence when no zero byte is in the way**: neither in the string from
`pos` on nor in the needle, which `strstr` both reads as C strings. -/
theorem find_eq_firstOccurrence {s : IoxString capacity} {str : StringOrCharArray} {pos : ℕ}
    (hs : zero ∉ s.chars.drop pos) (hn : zero ∉ str.bytes) :
    s.find str pos = firstOccurrence s.chars str.bytes pos := by
  unfold find firstOccurrence size
  split_ifs with hpos
  · rw [show s.chars.length + 1 - pos = 0 by omega, List.range'_zero, List.find?_nil]
  · have hhaystack : read (s.cStr.drop pos) = s.chars.drop pos := by
      rw [cStr, List.drop_append_of_le_length (by omega), read_append_zero hs]
    rw [strstr, hhaystack, StringOrCharArray.read_getData hn, List.range'_eq_map_range,
      List.find?_map, List.length_drop, show s.chars.length - pos + 1 = s.chars.length + 1 - pos by
        omega]
    simp only [List.drop_drop, Function.comp_def]

/-- `ca` in `abcabc` from index `1`. -/
theorem find_eq_firstOccurrence_of_abcabc :
    (⟨"abcabc".toList, Nat.le_of_ble_eq_true rfl⟩ : IoxString 10).find (.charArray "ca".toList) 1 =
      firstOccurrence "abcabc".toList "ca".toList 1 :=
  find_eq_firstOccurrence (by decide) (by decide)

/-- **`find` stops at a zero byte**: in `"a\0b"` it misses the `"b"` at index 2, and it finds
`"a\0"` at index 0 of `"ab"`, where those bytes do not occur. -/
theorem find_misses_bytes_after_zero :
    let s : IoxString 3 := truncateWithCount (some ['a', zero, 'b']) 3
    let str := StringOrCharArray.ioxString 1 (truncateWithCount (some ['b']) 1)
    let t : IoxString 2 := truncateWithCount (some ['a', 'b']) 2
    let str' := StringOrCharArray.ioxString 2 (truncateWithCount (some ['a', zero]) 2)
    s.find str 0 = none ∧ firstOccurrence s.chars str.bytes 0 = some 2 ∧
      t.find str' 0 = some 0 ∧ firstOccurrence t.chars str'.bytes 0 = none := by
  decide

/-- **`find_first_of` finds the first byte from `pos` on that is among the bytes of `str`.** -/
theorem findFirstOf_eq_some_iff {s : IoxString capacity} {str : StringOrCharArray} {pos p : ℕ} :
    s.findFirstOf str pos = some p ↔
      pos ≤ p ∧ p < s.size ∧ s.chars.getD p zero ∈ str.bytes ∧
        ∀ q, pos ≤ q → q < p → s.chars.getD q zero ∉ str.bytes := by
  unfold findFirstOf
  split_ifs with hpos
  · exact iff_of_false nofun fun h ↦ by omega
  · simp only [List.find?_range'_eq_some, List.mem_range'_1, Bool.not_eq_true', Bool.eq_false_iff,
      ne_eq, StringOrCharArray.memchr_iff]
    constructor
    · rintro ⟨hmem, ⟨hle, hlt⟩, hbefore⟩
      exact ⟨hle, by omega, hmem, hbefore⟩
    · rintro ⟨hle, hlt, hmem, hbefore⟩
      exact ⟨hmem, ⟨hle, by omega⟩, hbefore⟩

/-- **`find_last_of` finds the last byte up to `pos` that is among the bytes of `str`.** -/
theorem findLastOf_eq_some_iff {s : IoxString capacity} {str : StringOrCharArray} {pos p : ℕ} :
    s.findLastOf str pos = some p ↔
      p ≤ pos ∧ p < s.size ∧ s.chars.getD p zero ∈ str.bytes ∧
        ∀ q, p < q → q ≤ pos → q < s.size → s.chars.getD q zero ∉ str.bytes := by
  unfold findLastOf
  split_ifs with hempty
  · exact iff_of_false nofun fun h ↦ by omega
  · simp only [CString.find?_reverse_range_eq_some, Bool.eq_false_iff, ne_eq,
      StringOrCharArray.memchr_iff]
    constructor
    · rintro ⟨hp, hmem, habove⟩
      exact ⟨by omega, by omega, hmem, fun q hq hqpos hqs ↦ habove q hq (by omega)⟩
    · rintro ⟨hp, hps, hmem, habove⟩
      exact ⟨by omega, hmem, fun q hq hqn ↦ habove q hq (by omega) (by omega)⟩

/-! ### The searches of the path checks -/

/-- The search of `isValidPathToDirectory` for the first separator is `findFirstOf` of
`PathVerifier`. -/
theorem findFirstOf_zero (s : IoxString capacity) (str : StringOrCharArray) :
    s.findFirstOf str 0 = Iox.findFirstOf s.chars str.bytes := by
  apply Option.ext
  intro p
  rw [findFirstOf_eq_some_iff, Iox.findFirstOf, List.findIdx?_eq_some_iff_getElem]
  constructor
  · rintro ⟨-, hp, hmem, hbefore⟩
    refine ⟨hp, by simpa [List.getD_eq_getElem?_getD, List.getElem?_eq_getElem hp] using hmem, fun j hj ↦ ?_⟩
    simpa [List.getD_eq_getElem?_getD, List.getElem?_eq_getElem (Nat.lt_trans hj hp)] using hbefore j (Nat.zero_le _) hj
  · rintro ⟨hp, hmem, hbefore⟩
    refine ⟨Nat.zero_le _, hp, by simpa [List.getD_eq_getElem?_getD, List.getElem?_eq_getElem hp] using hmem,
      fun q _ hq ↦ ?_⟩
    simpa [List.getD_eq_getElem?_getD, List.getElem?_eq_getElem (Nat.lt_trans hq hp)] using hbefore q hq

/-- The search of `isValidPathToFile` for the last separator, from the default position
`Capacity`, is `findLastOf` of `PathVerifier`. -/
theorem findLastOf_capacity (s : IoxString capacity) (str : StringOrCharArray) :
    s.findLastOf str capacity = Iox.findLastOf s.chars str.bytes := by
  have hcap := s.size_le
  apply Option.ext
  intro p
  rw [findLastOf_eq_some_iff, Iox.findLastOf, CString.find?_reverse_range_eq_some]
  unfold size
  constructor
  · rintro ⟨-, hp, hmem, habove⟩
    refine ⟨hp, by simpa [List.getD_eq_getElem?_getD, List.getElem?_eq_getElem hp] using hmem, fun q hpq hq ↦ ?_⟩
    simpa [List.getD_eq_getElem?_getD, List.getElem?_eq_getElem hq] using habove q hpq (by omega) hq
  · rintro ⟨hp, hmem, habove⟩
    refine ⟨by omega, hp, by simpa [List.getD_eq_getElem?_getD, List.getElem?_eq_getElem hp] using hmem,
      fun q hpq _ hq ↦ ?_⟩
    simpa [List.getD_eq_getElem?_getD, List.getElem?_eq_getElem hq] using habove q hpq hq

end IoxString

end Iox
