import Mathlib.Data.List.TakeWhile

/-!
# Decimal numerals as the C library writes and reads them

An output stream writes an unsigned number as its decimal digits, with no sign, no leading zero
and no padding: `Nat.toDigits 10`. `strtoul(v, &endPtr, 10)` reads more than that: white space, a
sign, then the longest run of digits, leading zeros included. This module gives `strtoul` over
byte lists and says what it reads:

* from a run of digits that a non-digit ends, the number the digits denote (`strtoul_digits`),
  so from the digits that were written for `n`, the number `n` again (`strtoul_toDigits`);
* the written digits hold no other character (`not_mem_toDigits`), so a separator after them
  ends them.

Reading is not injective: `"01"`, `" 1"` and `"+1"` are read as `1` as well.

Nothing here knows which program calls these functions.
-/

namespace Decimal

/-- `isspace(c)` in the `"C"` locale. -/
def isSpace (c : Char) : Bool :=
  c == ' ' || c == '\t' || c == '\n' || c == '\x0b' || c == '\x0c' || c == '\r'

/-- What `strtoul(v, &endPtr, base)` gives back: the value, the offset of `endPtr` from `v`, and
whether it set `errno` to `ERANGE`. -/
structure Conversion where
  value : ℕ
  endOffset : ℕ
  erange : Bool
  deriving DecidableEq, Repr

/-- The sign `strtoul` accepts after the white space: whether it negates, and its length. -/
def sign : List Char → Bool × ℕ
  | '-' :: _ => (true, 1)
  | '+' :: _ => (false, 1)
  | _ => (false, 0)

/-- `strtoul(v, &endPtr, 10)` for an `unsigned long` with maximum `ulongMax`: white space, a sign,
then the longest run of digits. Without digits nothing is converted and `endPtr` is `v`; a value
above `ulongMax` gives `ulongMax` and `ERANGE`; a minus sign negates modulo `ulongMax + 1`. -/
def strtoul (ulongMax : ℕ) (v : List Char) : Conversion :=
  let spaces := (v.takeWhile isSpace).length
  let (negative, signLength) := sign (v.drop spaces)
  let digits := (v.drop (spaces + signLength)).takeWhile Char.isDigit
  let endOffset := spaces + signLength + digits.length
  let value := Nat.ofDigitChars 10 digits 0
  if digits = [] then ⟨0, 0, false⟩
  else if value > ulongMax then ⟨ulongMax, endOffset, true⟩
  else if negative then ⟨(ulongMax + 1 - value) % (ulongMax + 1), endOffset, false⟩
  else ⟨value, endOffset, false⟩

/-! ### Digits are neither space nor sign -/

theorem isSpace_eq_false_of_isDigit {c : Char} (h : c.isDigit = true) : isSpace c = false := by
  rcases Bool.eq_false_or_eq_true (isSpace c) with hs | hs
  · simp only [isSpace, Bool.or_eq_true, beq_iff_eq] at hs
    -- each white space character is checked not to be a digit
    rcases hs with ((((rfl | rfl) | rfl) | rfl) | rfl) | rfl <;> simp at h
  · exact hs

theorem sign_cons_of_isDigit {c : Char} (h : c.isDigit = true) (cs : List Char) :
    sign (c :: cs) = (false, 0) := by
  unfold sign
  split
  -- a sign character is not a digit
  next _ _ heq => cases (List.cons.inj heq).1; simp at h
  next _ _ heq => cases (List.cons.inj heq).1; simp at h
  next => rfl

/-! ### Reading a run of digits -/

/-- **`strtoul` reads a run of digits as the number they denote**, when a non-digit ends the run
and the number fits. -/
theorem strtoul_digits {ulongMax : ℕ} {ds rest : List Char} (hne : ds ≠ [])
    (hds : ∀ c ∈ ds, c.isDigit = true) (hrest : rest.takeWhile Char.isDigit = [])
    (hle : Nat.ofDigitChars 10 ds 0 ≤ ulongMax) :
    strtoul ulongMax (ds ++ rest) = ⟨Nat.ofDigitChars 10 ds 0, ds.length, false⟩ := by
  obtain ⟨c, cs, rfl⟩ := List.exists_cons_of_ne_nil hne
  have hc : c.isDigit = true := hds c List.mem_cons_self
  -- no white space and no sign before the first digit
  have hspaces : (c :: (cs ++ rest)).takeWhile isSpace = [] :=
    List.takeWhile_cons_of_neg (by simp [isSpace_eq_false_of_isDigit hc])
  have hdigits : (c :: (cs ++ rest)).takeWhile Char.isDigit = c :: cs := by
    rw [← List.cons_append, List.takeWhile_append_of_pos hds, hrest, List.append_nil]
  simp only [strtoul, List.cons_append, hspaces, List.length_nil, List.drop_zero,
    sign_cons_of_isDigit hc, Nat.add_zero, hdigits]
  simp only [reduceCtorEq, if_false, Nat.not_lt.2 hle, Bool.false_eq_true, Nat.zero_add]

/-- The digits written for `n` hold only digits. -/
theorem not_mem_toDigits {c : Char} (h : c.isDigit = false) (n : ℕ) : c ∉ Nat.toDigits 10 n :=
  fun hc ↦ by simpa [h] using Nat.isDigit_of_mem_toDigits (by decide) (by decide) hc

/-- **Reading back what was written**: `strtoul` reads the digits of `n` as `n`. -/
theorem strtoul_toDigits {ulongMax n : ℕ} (h : n ≤ ulongMax) {rest : List Char}
    (hrest : rest.takeWhile Char.isDigit = []) :
    strtoul ulongMax (Nat.toDigits 10 n ++ rest) = ⟨n, (Nat.toDigits 10 n).length, false⟩ := by
  rw [strtoul_digits Nat.toDigits_ne_nil
      (fun _ hc ↦ Nat.isDigit_of_mem_toDigits (by decide) (by decide) hc) hrest
      (by rwa [Nat.ofDigitChars_ten_toDigits]),
    Nat.ofDigitChars_ten_toDigits]

end Decimal
