import Iceoryx.Vocabulary.PathVerifier

/-!
# The grammar that the path checks decide

`path_and_file_verifier.inl` checks a path by walking it: `isValidPathToDirectory` takes the entry
before each separator with `find_first_of` and `substr`, and `isValidPathToFile` cuts the path at
its last separator with `find_last_of` and hands the part before it to the directory check. This
module states what those walks accept as a grammar over the *segments* of the path (the pieces
between separators, `List.splitOnP`) and proves that each check decides it.

## Empty pieces

A leading separator, or two separators in a row, leave an empty piece; the loop of
`isValidPathToDirectory` skips it (`position ≠ 0 ∧ …`), as its comment says multiple slashes are
allowed. The maximal separator-free substrings of a path are its non-empty pieces, so the
grammar asks for a valid entry in each of those (`SegmentsValid`): `/a` has the one segment `a`
and is a valid path to a directory and to a file.

## What is proved

* `isValidFileName_iff`: a file name is a valid entry other than `.` and `..`.
* `isValidPathToDirectoryLoop_iff`, by induction along the loop, one entry per pass, from the
  split at the first separator (`segments_of_findFirstOf`); `isValidPathToDirectory_iff` from it.
* `isValidPathToFile_iff`, from the split at the last separator (`segments_of_findLastOf`): the
  part before it is a path to a directory or empty, and the last segment is a file name.
* `doesEndWithPathSeparator_iff`.
-/

namespace Iox

section Grammar

variable (pathSeparators : List Char)

/-! ### Segments and entries -/

/-- `platform::IOX_PATH_SEPARATORS` as a test on one character. -/
def isPathSeparator (c : Char) : Bool :=
  pathSeparators.contains c

/-- The segments of a path: the maximal pieces free of separators, empty ones included. -/
def segments (s : List Char) : List (List Char) :=
  s.splitOnP (isPathSeparator pathSeparators)

/-- A valid entry: `.`, `..`, or a non-empty word of path characters that does not end in `.`. -/
def IsValidEntry (e : List Char) : Prop :=
  e = ['.'] ∨ e = ['.', '.'] ∨
    (e ≠ [] ∧ (∀ c ∈ e, isPathEntryCharacter c = true) ∧ e.getLast? ≠ some '.')

instance : DecidablePred IsValidEntry := fun e ↦
  inferInstanceAs (Decidable (e = ['.'] ∨ e = ['.', '.'] ∨
    (e ≠ [] ∧ (∀ c ∈ e, isPathEntryCharacter c = true) ∧ e.getLast? ≠ some '.')))

variable {pathSeparators}

/-! ### Entries -/

/-- Accepting `.` and `..`, `isValidPathEntry` accepts the non-empty valid entries. -/
theorem isValidPathEntry_accept_iff {e : List Char} (he : e ≠ []) :
    isValidPathEntry e .accept = true ↔ IsValidEntry e := by
  unfold isValidPathEntry IsValidEntry
  by_cases hdot : e = ['.'] ∨ e = ['.', '.']
  · have hb : (e == ['.'] || e == ['.', '.']) = true := by
      rcases hdot with rfl | rfl <;> rfl
    rw [if_pos hb]
    simp only [beq_self_eq_true, true_iff]
    exact hdot.elim Or.inl (Or.inr ∘ Or.inl)
  · have hb : (e == ['.'] || e == ['.', '.']) = false := by
      simpa [not_or] using hdot
    rw [if_neg (by rw [hb]; decide), or_iff_right fun h ↦ hdot (Or.inl h),
      or_iff_right fun h ↦ hdot (Or.inr h)]
    by_cases hall : e.all isPathEntryCharacter = true
    · rw [if_neg (by simp [hall])]
      simp only [List.all_eq_true] at hall
      cases hl : e.getLast? with
      | none => exact absurd (List.getLast?_eq_none_iff.1 hl) he
      | some c => simpa [he] using fun _ ↦ hall
    · rw [if_pos (by simpa using hall)]
      simp only [List.all_eq_true] at hall
      exact ⟨fun h ↦ absurd h (by decide), fun h ↦ absurd h.2.1 hall⟩

theorem isValidPathEntry_reject_eq {e : List Char} (hdot : ¬(e = ['.'] ∨ e = ['.', '.'])) :
    isValidPathEntry e .reject = isValidPathEntry e .accept := by
  have hb : (e == ['.'] || e == ['.', '.']) = false := by simpa [not_or] using hdot
  unfold isValidPathEntry
  simp only [hb, Bool.false_eq_true, if_false]

theorem not_isValidEntry_nil : ¬IsValidEntry [] := by
  decide

theorem IsValidEntry.ne_nil {e : List Char} (h : IsValidEntry e) : e ≠ [] := by
  rintro rfl
  exact not_isValidEntry_nil h

/-- **A file name is a valid entry other than `.` and `..`.** -/
theorem isValidFileName_iff {e : List Char} :
    isValidFileName e = true ↔ IsValidEntry e ∧ e ≠ ['.'] ∧ e ≠ ['.', '.'] := by
  unfold isValidFileName
  by_cases he : e = []
  · subst he
    simp [not_isValidEntry_nil]
  · rw [if_neg (by simpa using he)]
    by_cases hdot : e = ['.'] ∨ e = ['.', '.']
    · have hb : (e == ['.'] || e == ['.', '.']) = true := by
        rcases hdot with rfl | rfl <;> rfl
      unfold isValidPathEntry
      rw [if_pos hb]
      rcases hdot with rfl | rfl <;> decide
    · rw [isValidPathEntry_reject_eq hdot, isValidPathEntry_accept_iff he]
      simp only [not_or] at hdot
      exact ⟨fun h ↦ ⟨h, hdot⟩, fun h ↦ h.1⟩

/-- The test on an entry between two separators: a file name, `.` or `..`. -/
theorem isValidFileName_or_dots_iff {e : List Char} :
    (isValidFileName e || (e == ['.'] || e == ['.', '.'])) = true ↔ IsValidEntry e := by
  by_cases hdot : e = ['.'] ∨ e = ['.', '.']
  · have hb : (e == ['.'] || e == ['.', '.']) = true := by
      rcases hdot with rfl | rfl <;> rfl
    rw [hb, Bool.or_true]
    exact iff_of_true rfl (hdot.elim Or.inl (Or.inr ∘ Or.inl))
  · have hb : (e == ['.'] || e == ['.', '.']) = false := by simpa [not_or] using hdot
    rw [hb, Bool.or_false, isValidFileName_iff]
    simp only [not_or] at hdot
    exact ⟨fun h ↦ h.1, fun h ↦ ⟨h, hdot⟩⟩

/-! ### Where the searches split a path -/

/-- The first separator splits a path into the entry before it and the rest. -/
theorem findFirstOf_split {value : List Char} {position : ℕ}
    (h : findFirstOf value pathSeparators = some position) :
    ∃ hlt : position < value.length, isPathSeparator pathSeparators value[position] = true ∧
      (∀ c ∈ value.take position, isPathSeparator pathSeparators c = false) ∧
      value = value.take position ++ value[position] :: value.drop (position + 1) := by
  obtain ⟨hlt, hsep, hbefore⟩ := List.findIdx?_eq_some_iff_getElem.1 h
  refine ⟨hlt, hsep, ?_, ?_⟩
  · intro c hc
    obtain ⟨j, hj, rfl⟩ := List.mem_take_iff_getElem.1 hc
    simpa [isPathSeparator] using hbefore j (by omega)
  · rw [← List.drop_eq_getElem_cons hlt, List.take_append_drop]

/-- The last separator splits a path into the part before it and a last entry free of
separators. -/
theorem findLastOf_split {value : List Char} {position : ℕ}
    (h : findLastOf value pathSeparators = some position) :
    ∃ hlt : position < value.length, isPathSeparator pathSeparators value[position] = true ∧
      (∀ c ∈ value.drop (position + 1), isPathSeparator pathSeparators c = false) ∧
      value = value.take position ++ value[position] :: value.drop (position + 1) := by
  obtain ⟨hsep, above, below, hrange, habove⟩ := List.find?_eq_some_iff_append.1 h
  have hlt : position < value.length :=
    List.mem_range.1 (List.mem_reverse.1 (hrange ▸ by simp))
  -- the indices are searched downwards, so every one above `position` comes before it
  have hdesc : (above ++ position :: below).Pairwise (· > ·) :=
    hrange ▸ List.pairwise_reverse.2 List.pairwise_lt_range
  refine ⟨hlt, by simpa [List.getElem?_eq_getElem hlt, isPathSeparator] using hsep, ?_, ?_⟩
  · intro c hc
    obtain ⟨j, hj, rfl⟩ := List.mem_drop_iff_getElem.1 hc
    have hj' : position + 1 + j < value.length := by omega
    have hmem : position + 1 + j ∈ above ++ position :: below :=
      hrange ▸ List.mem_reverse.2 (List.mem_range.2 hj')
    have hin : position + 1 + j ∈ above := by
      rcases List.mem_append.1 hmem with h | h
      · exact h
      · rcases List.mem_cons.1 h with h | h
        · omega
        · have := List.rel_of_pairwise_cons (List.pairwise_append.1 hdesc).2.1 h
          omega
    simpa [List.getElem?_eq_getElem hj', isPathSeparator] using habove _ hin
  · rw [← List.drop_eq_getElem_cons hlt, List.take_append_drop]

theorem findLastOf_eq_none {value : List Char}
    (h : findLastOf value pathSeparators = none) :
    ∀ c ∈ value, isPathSeparator pathSeparators c = false := by
  intro c hc
  obtain ⟨j, hj, rfl⟩ := List.getElem_of_mem hc
  have := List.find?_eq_none.1 h j (List.mem_reverse.2 (List.mem_range.2 hj))
  simpa [List.getElem?_eq_getElem hj, isPathSeparator] using this

theorem segments_nil : segments pathSeparators [] = [[]] :=
  List.splitOnP_nil

theorem segments_of_findFirstOf {value : List Char} {position : ℕ}
    (h : findFirstOf value pathSeparators = some position) :
    segments pathSeparators value =
      value.take position :: segments pathSeparators (value.drop (position + 1)) := by
  obtain ⟨_, hsep, hbefore, hsplit⟩ := findFirstOf_split h
  unfold segments
  conv_lhs => rw [hsplit]
  exact List.splitOnP_append_cons_of_forall_mem hbefore _ hsep _

theorem segments_of_findFirstOf_eq_none {value : List Char}
    (h : findFirstOf value pathSeparators = none) : segments pathSeparators value = [value] :=
  List.splitOnP_eq_singleton (List.findIdx?_eq_none_iff.1 h)

theorem segments_of_findLastOf {value : List Char} {position : ℕ}
    (h : findLastOf value pathSeparators = some position) :
    segments pathSeparators value =
      segments pathSeparators (value.take position) ++ [value.drop (position + 1)] := by
  obtain ⟨_, hsep, hafter, hsplit⟩ := findLastOf_split h
  unfold segments
  conv_lhs => rw [hsplit]
  rw [List.splitOnP_append_cons _ _ hsep, List.splitOnP_eq_singleton hafter]

theorem segments_of_findLastOf_eq_none {value : List Char}
    (h : findLastOf value pathSeparators = none) : segments pathSeparators value = [value] :=
  List.splitOnP_eq_singleton (findLastOf_eq_none h)

/-! ### The grammar of a path -/

/-- Every segment of the path is a valid entry, except the empty ones that a leading or repeated
separator leaves. -/
def SegmentsValid (pathSeparators s : List Char) : Prop :=
  ∀ e ∈ segments pathSeparators s, e ≠ [] → IsValidEntry e

instance : DecidablePred (SegmentsValid pathSeparators) := fun s ↦
  inferInstanceAs (Decidable (∀ e ∈ segments pathSeparators s, e ≠ [] → IsValidEntry e))

theorem segmentsValid_nil : SegmentsValid pathSeparators [] := by
  simp [SegmentsValid, segments_nil]

theorem segmentsValid_of_findFirstOf {value : List Char} {position : ℕ}
    (h : findFirstOf value pathSeparators = some position) :
    SegmentsValid pathSeparators value ↔
      (value.take position ≠ [] → IsValidEntry (value.take position)) ∧
      SegmentsValid pathSeparators (value.drop (position + 1)) := by
  unfold SegmentsValid
  rw [segments_of_findFirstOf h, List.forall_mem_cons]

theorem segmentsValid_of_findFirstOf_eq_none {value : List Char}
    (h : findFirstOf value pathSeparators = none) :
    SegmentsValid pathSeparators value ↔ (value ≠ [] → IsValidEntry value) := by
  simp [SegmentsValid, segments_of_findFirstOf_eq_none h]

theorem segmentsValid_of_findLastOf {value : List Char} {position : ℕ}
    (h : findLastOf value pathSeparators = some position) :
    SegmentsValid pathSeparators value ↔ SegmentsValid pathSeparators (value.take position) ∧
      (value.drop (position + 1) ≠ [] → IsValidEntry (value.drop (position + 1))) := by
  simp [SegmentsValid, segments_of_findLastOf h, or_imp, forall_and]

/-! ### The verifiers decide the grammar -/

/-- **The directory loop decides the grammar**: given enough fuel, it accepts the rest of a path
exactly when every non-empty segment of it is a valid entry. The induction follows the loop, one
entry per pass. -/
theorem isValidPathToDirectoryLoop_iff : ∀ (fuel : ℕ) (remaining : List Char),
    remaining.length ≤ fuel →
      (isValidPathToDirectoryLoop pathSeparators fuel remaining = true ↔
        SegmentsValid pathSeparators remaining)
  | 0, remaining, h => by
    rw [List.eq_nil_of_length_eq_zero (Nat.le_zero.1 h)]
    exact iff_of_true rfl segmentsValid_nil
  | fuel + 1, remaining, h => by
    by_cases hnil : remaining = []
    · subst hnil
      exact iff_of_true rfl segmentsValid_nil
    simp only [isValidPathToDirectoryLoop, List.isEmpty_eq_false_iff.2 hnil, Bool.false_eq_true,
      if_false]
    cases hpos : findFirstOf remaining pathSeparators with
    | none =>
      rw [segmentsValid_of_findFirstOf_eq_none hpos, isValidPathEntry_accept_iff hnil]
      exact ⟨fun hv _ ↦ hv, fun hv ↦ hv hnil⟩
    | some position =>
      have hlt := findFirstOf_lt hpos
      rw [segmentsValid_of_findFirstOf hpos,
        ← isValidPathToDirectoryLoop_iff fuel _ (by simp only [List.length_drop]; omega)]
      -- an entry before a separator is rejected when it is non-empty and neither a file name,
      -- `.` nor `..`
      dsimp only
      split_ifs with hbad
      · obtain ⟨hne, hinvalid⟩ := hbad
        have htake : remaining.take position ≠ [] := by
          simpa [List.take_eq_nil_iff, hnil] using hne
        simp only [Bool.not_eq_true', false_iff, not_and] at hinvalid ⊢
        intro hvalid
        exact absurd (hinvalid.symm.trans (isValidFileName_or_dots_iff.2 (hvalid htake)))
          Bool.false_ne_true
      · have hentry : remaining.take position ≠ [] → IsValidEntry (remaining.take position) := by
          intro htake
          have hne : position ≠ 0 := by
            rintro rfl
            exact htake rfl
          refine isValidFileName_or_dots_iff.1 (by_contra fun hx ↦ hbad ⟨hne, ?_⟩)
          simpa using hx
        exact ⟨fun hloop ↦ ⟨hentry, hloop⟩, fun hv ↦ hv.2⟩

/-- **The directory check decides the grammar.** -/
theorem isValidPathToDirectory_iff (s : List Char) :
    isValidPathToDirectory pathSeparators s = true ↔ s ≠ [] ∧ SegmentsValid pathSeparators s := by
  unfold isValidPathToDirectory
  by_cases hnil : s = []
  · subst hnil
    simp
  · rw [if_neg (by simpa using hnil), isValidPathToDirectoryLoop_iff _ _ (Nat.le_refl _)]
    exact ⟨fun h ↦ ⟨hnil, h⟩, fun h ↦ h.2⟩

/-- The part before the last separator of a path to a file: empty, or a path to a directory. -/
theorem isEmpty_or_isValidPathToDirectory_iff (s : List Char) :
    (s.isEmpty || isValidPathToDirectory pathSeparators s) = true ↔
      SegmentsValid pathSeparators s := by
  rw [Bool.or_eq_true, isValidPathToDirectory_iff]
  by_cases hnil : s = []
  · subst hnil
    exact iff_of_true (Or.inl rfl) segmentsValid_nil
  · simp [hnil]

/-- **The end check**: a path ends with a separator when its last character is one. -/
theorem doesEndWithPathSeparator_iff (s : List Char) :
    doesEndWithPathSeparator pathSeparators s = true ↔
      ∃ h : s ≠ [], isPathSeparator pathSeparators (s.getLast h) = true := by
  unfold doesEndWithPathSeparator
  cases hl : s.getLast? with
  | none => simp [List.getLast?_eq_none_iff.1 hl]
  | some c =>
    have hne : s ≠ [] := by
      rintro rfl
      simp at hl
    have hc : s.getLast hne = c :=
      Option.some_inj.1 ((List.getLast?_eq_some_getLast hne).symm.trans hl)
    simp [hne, hc, isPathSeparator]

/-- A path that does not end with a separator has a non-empty part after its last one. -/
theorem drop_ne_nil_of_findLastOf {s : List Char} {position : ℕ}
    (hend : doesEndWithPathSeparator pathSeparators s = false)
    (h : findLastOf s pathSeparators = some position) : s.drop (position + 1) ≠ [] := by
  obtain ⟨hlt, hsep, -, hsplit⟩ := findLastOf_split h
  intro hdrop
  rw [hdrop] at hsplit
  have hl : s.getLast? = some s[position] := by
    conv_lhs => rw [hsplit]
    exact List.getLast?_concat
  have : doesEndWithPathSeparator pathSeparators s = true := by
    unfold doesEndWithPathSeparator
    rw [hl]
    exact hsep
  exact absurd (hend.symm.trans this) Bool.false_ne_true

/-- **The file check decides the grammar**: the last segment must be a file name, so it is not
empty, `.` or `..`. -/
theorem isValidPathToFile_iff (s : List Char) :
    isValidPathToFile pathSeparators s = true ↔
      s ≠ [] ∧ doesEndWithPathSeparator pathSeparators s = false ∧
      SegmentsValid pathSeparators s ∧ (segments pathSeparators s).getLastD [] ≠ ['.'] ∧
      (segments pathSeparators s).getLastD [] ≠ ['.', '.'] := by
  unfold isValidPathToFile
  cases hend : doesEndWithPathSeparator pathSeparators s with
  | true => simp
  | false =>
    simp only [Bool.false_eq_true, if_false, true_and]
    cases hlast : findLastOf s pathSeparators with
    | none =>
      dsimp only
      rw [isValidFileName_iff]
      simp only [SegmentsValid, segments_of_findLastOf_eq_none hlast, List.mem_singleton,
        forall_eq, List.getLastD_cons, List.getLastD_nil]
      constructor
      · rintro ⟨hv, hdot⟩
        exact ⟨hv.ne_nil, fun _ ↦ hv, hdot⟩
      · rintro ⟨hne, hv, hdot⟩
        exact ⟨hv hne, hdot⟩
    | some position =>
      dsimp only
      have hlt : position < s.length := (findLastOf_split hlast).1
      have hdrop := drop_ne_nil_of_findLastOf hend hlast
      rw [Bool.and_eq_true, isEmpty_or_isValidPathToDirectory_iff, isValidFileName_iff,
        segmentsValid_of_findLastOf hlast, segments_of_findLastOf hlast]
      simp only [List.getLastD_concat]
      have hne : s ≠ [] := List.ne_nil_of_length_pos (by omega)
      constructor
      · rintro ⟨hbefore, hv, hdot⟩
        exact ⟨hne, ⟨hbefore, fun _ ↦ hv⟩, hdot⟩
      · rintro ⟨-, ⟨hbefore, hv⟩, hdot⟩
        exact ⟨hbefore, hv hdrop, hdot⟩

/-- **The checks decide the segment grammar**, with the empty segments that leading and repeated
separators leave skipped. -/
theorem verifiers_decide_segment_grammar (pathSeparators s : List Char) :
    (isValidFileName s = true ↔ IsValidEntry s ∧ s ≠ ['.'] ∧ s ≠ ['.', '.']) ∧
      (isValidPathToDirectory pathSeparators s = true ↔ s ≠ [] ∧ SegmentsValid pathSeparators s) ∧
      (isValidPathToFile pathSeparators s = true ↔
        s ≠ [] ∧ doesEndWithPathSeparator pathSeparators s = false ∧
        SegmentsValid pathSeparators s ∧ (segments pathSeparators s).getLastD [] ≠ ['.'] ∧
        (segments pathSeparators s).getLastD [] ≠ ['.', '.']) ∧
      (doesEndWithPathSeparator pathSeparators s = true ↔
        ∃ h : s ≠ [], isPathSeparator pathSeparators (s.getLast h) = true) :=
  ⟨isValidFileName_iff, isValidPathToDirectory_iff s, isValidPathToFile_iff s,
    doesEndWithPathSeparator_iff s⟩

end Grammar

end Iox
