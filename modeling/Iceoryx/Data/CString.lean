import Mathlib.Data.List.TakeWhile
import Mathlib.Algebra.Group.Nat.Defs

/-!
# The C string functions over byte lists

A byte buffer is a list of characters; the functions of `<cstring>` that take a bare pointer read
it as a C string, up to its first zero byte (`read`), and those that take a length read exactly
that many bytes. This module gives `strnlen`, `strstr`, `memchr` and `memcmp` over byte lists and
says what each computes:

* `read` stops at the first zero, so a buffer without zero bytes before a terminator is read to
  the terminator (`read_append_zero`), and what is read never holds a zero (`zero_not_mem_read`);
* `strstr` finds the first place where the string read at the needle starts in the string read
  at the haystack, which for strings without zero bytes is the first occurrence
  (`strstr_append_zero`);
* `memchr` finds a byte among the first `n` (`memchr_iff`), and a loop that scans indices
  downwards finds the greatest that passes (`find?_reverse_range_eq_some`);
* `memcmp` reads `n` bytes (`memcmp_take`), and over the shorter length, then the lengths, it is
  the lexicographic order of `List` (`memcmp_then_compare_length`). Only the sign of `memcmp` is fixed by C, so it is an `Ordering`
  here.

Nothing here knows which program calls these functions.
-/

namespace CString

/-- The zero byte `'\0'` that ends a C string. -/
def zero : Char := '\x00'

/-- The bytes a function of `<cstring>` reads at a pointer: those before the first zero. -/
def read (bytes : List Char) : List Char :=
  bytes.takeWhile (· != zero)

/-- `strnlen(bytes, n)` -/
def strnlen (bytes : List Char) (n : ℕ) : ℕ :=
  min (read bytes).length n

/-- `strstr(haystack, needle)`: the offset of the first occurrence of the C string `needle` in the
C string `haystack`, or `nullptr`. -/
def strstr (haystack needle : List Char) : Option ℕ :=
  (List.range ((read haystack).length + 1)).find? fun i ↦
    (read needle).isPrefixOf ((read haystack).drop i)

/-- `memchr(bytes, c, n) != nullptr` -/
def memchr (bytes : List Char) (c : Char) (n : ℕ) : Bool :=
  (bytes.take n).contains c

/-- The sign of `memcmp(lhs, rhs, n)`, comparing bytes as `unsigned char`. -/
def memcmp : List Char → List Char → ℕ → Ordering
  | _, _, 0 => .eq
  | a :: lhs, b :: rhs, n + 1 =>
    match compare a b with
    | .eq => memcmp lhs rhs n
    | o => o
  | _, _, _ + 1 => .eq

/-! ### Reading up to the zero byte -/

theorem zero_not_mem_read (bytes : List Char) : zero ∉ read bytes := by
  intro h
  simpa using List.mem_takeWhile_imp h

theorem ne_zero_of_mem {bytes : List Char} (h : zero ∉ bytes) :
    ∀ c ∈ bytes, (c != zero) = true := by
  intro c hc
  simpa using fun (heq : c = zero) ↦ h (heq ▸ hc)

theorem read_eq_self {bytes : List Char} (h : zero ∉ bytes) : read bytes = bytes :=
  List.takeWhile_eq_self_iff.2 (ne_zero_of_mem h)

/-- What follows a zero byte is never read. -/
theorem read_append_zero_cons : ∀ bytes rest : List Char, read (bytes ++ zero :: rest) = read bytes
  | [], _ => by simp [read]
  | c :: bytes, rest => by
    simp only [read, List.cons_append, List.takeWhile_cons]
    -- the reading stops at `c` in both buffers, or goes on to the same tail
    split_ifs
    · exact congrArg (c :: ·) (read_append_zero_cons bytes rest)
    · rfl

/-- A buffer with no zero before its terminator is read up to the terminator. -/
theorem read_append_zero {bytes : List Char} (h : zero ∉ bytes) (rest : List Char) :
    read (bytes ++ zero :: rest) = bytes := by
  rw [read_append_zero_cons, read_eq_self h]

theorem read_isPrefix (bytes : List Char) : read bytes <+: bytes :=
  List.takeWhile_prefix _

/-! ### Searching -/

/-- **`strstr` on zero-free strings finds the first occurrence** of the needle: both are read to
their terminators. -/
theorem strstr_append_zero {haystack needle : List Char} (hh : zero ∉ haystack)
    (hn : zero ∉ needle) (rest rest' : List Char) :
    strstr (haystack ++ zero :: rest) (needle ++ zero :: rest') =
      (List.range (haystack.length + 1)).find? fun i ↦ needle.isPrefixOf (haystack.drop i) := by
  rw [strstr, read_append_zero hh, read_append_zero hn]

theorem memchr_iff {bytes : List Char} {c : Char} {n : ℕ} :
    memchr bytes c n = true ↔ c ∈ bytes.take n := by
  simp [memchr]

/-- **Scanning indices downwards**, from `n - 1` to `0`, finds the greatest one below `n` that
passes. -/
theorem find?_reverse_range_eq_some {n p : ℕ} {f : ℕ → Bool} :
    (List.range n).reverse.find? f = some p ↔
      p < n ∧ f p = true ∧ ∀ q, p < q → q < n → f q = false := by
  rw [List.range_eq_range', List.reverse_range', List.find?_map, Option.map_eq_some_iff]
  constructor
  · rintro ⟨j, hj, rfl⟩
    obtain ⟨hf, hjn, hbefore⟩ := List.find?_range_eq_some.1 hj
    rw [List.mem_range] at hjn
    refine ⟨by omega, hf, fun q hq hqn ↦ ?_⟩
    have := hbefore (n - 1 - q) (by omega)
    simpa [show n - 1 - (n - 1 - q) = q by omega] using this
  · rintro ⟨hp, hf, habove⟩
    refine ⟨n - 1 - p, List.find?_range_eq_some.2 ⟨?_, List.mem_range.2 (by omega), fun j hj ↦ ?_⟩,
      show 0 + n - 1 - (n - 1 - p) = p by omega⟩
    · simpa [show n - 1 - (n - 1 - p) = p by omega] using hf
    · simpa using habove (0 + n - 1 - j) (by omega) (by omega)

/-! ### Comparing -/

/-- `memcmp` reads only the first `n` bytes of each buffer. -/
theorem memcmp_take : ∀ (lhs rhs : List Char) (n : ℕ),
    memcmp (lhs.take n) (rhs.take n) n = memcmp lhs rhs n
  | _, _, 0 => by simp [memcmp]
  | [], rhs, _ + 1 => by cases rhs <;> rfl
  | _ :: _, [], _ + 1 => rfl
  | a :: lhs, b :: rhs, n + 1 => by
    simp only [List.take_succ_cons, memcmp, memcmp_take lhs rhs n]

/-- **`memcmp` over the common length, then the lengths, is the order of `List`.** -/
theorem memcmp_then_compare_length : ∀ lhs rhs : List Char,
    (memcmp lhs rhs (min lhs.length rhs.length)).then (compare lhs.length rhs.length) =
      compare lhs rhs
  | [], [] => rfl
  | [], _ :: _ => rfl
  | _ :: _, [] => rfl
  | a :: lhs, b :: rhs => by
    have hlength : compare (lhs.length + 1) (rhs.length + 1) = compare lhs.length rhs.length := by
      simp [compare, compareOfLessAndEq]
    rw [List.length_cons, List.length_cons, Nat.succ_min_succ, memcmp, hlength,
      List.compare_cons_cons, ← memcmp_then_compare_length lhs rhs]
    -- the lists compare as their heads unless those are equal
    cases compare a b <;> rfl

end CString
