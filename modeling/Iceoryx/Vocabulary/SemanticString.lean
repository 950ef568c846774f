import Iceoryx.Vocabulary.PathVerifier
import Iceoryx.Machine.Run

/-!
# Semantic strings

`SemanticString<Child, Capacity, DoesContainInvalidContentCall, DoesContainInvalidCharacterCall>`
(`semantic_string.inl`) wraps an `iox::string<Capacity>` whose value is meant to satisfy two
checks of its instantiation. The instantiations of the code base are `UserName`, `GroupName`,
`FileName`, `FilePath` and `Path`; each one is a `SemanticStringKind` here, with the checks of its
`.cpp` file translated over the characters of the string.

Writing `Valid k s` for "`s` has at most `capacity` characters and neither check fires", the
intended contract is that `create`, `insert` and `append` accept exactly the valid results. The
source departs from it in two places:

* `create` of a string literal checks the length through the array size `N`, which counts the
  terminating zero, so a literal of exactly `Capacity` characters is refused
  (`create_eq`);
* `insert` runs the content check on the inserted fragment `str`, not on the result. Whether the
  result is then valid depends on the kind: `ContentCheckSound` says that a fragment passing the
  check never breaks a valid value, and it holds for `UserName`, `GroupName`, `FileName` and
  `Path`, so every value those kinds reach is valid (`run_valid`).
-/

namespace Iox

/-- `SemanticStringError` -/
inductive SemanticStringError
  | exceedsMaximumLength
  | containsInvalidCharacters
  | containsInvalidContent
  deriving DecidableEq, Repr

/-! ### `iox::string<Capacity>` -/

/-- `iox::string<Capacity>`: at most `capacity` characters. -/
structure IoxString (capacity : ℕ) where
  /-- The characters before the terminating zero. -/
  chars : List Char
  size_le : chars.length ≤ capacity
  deriving DecidableEq

/-- The characters of `s` with the first `count` characters of `str` inserted at `pos`: the value
that `insert(pos, str, count)` writes. -/
def insertChars (s : List Char) (pos : ℕ) (str : List Char) (count : ℕ) : List Char :=
  s.take pos ++ str.take count ++ s.drop pos

@[simp] theorem length_insertChars {s str : List Char} {pos count : ℕ} (hpos : pos ≤ s.length)
    (hcount : count ≤ str.length) : (insertChars s pos str count).length = s.length + count := by
  simp only [insertChars, List.length_append, List.length_take, List.length_drop]
  omega

namespace IoxString

variable {capacity : ℕ}

/-- `string{TruncateToCapacity, value}`: the first `capacity` characters of `value`. -/
def truncate (value : List Char) : IoxString capacity :=
  ⟨value.take capacity, by rw [List.length_take]; exact Nat.min_le_left _ _⟩

/-- `string::insert(pos, str, count)`: refused when `str` has fewer than `count` characters, when
the result would not fit, or when `pos` is past the end. -/
def insert (s : IoxString capacity) (pos : ℕ) (str : List Char) (count : ℕ) :
    Option (IoxString capacity) :=
  if hcount : count > str.length then none
  else if hsize : s.chars.length + count > capacity then none
  else if hpos : pos > s.chars.length then none
  else some ⟨insertChars s.chars pos str count, by
    rw [length_insertChars (Nat.le_of_not_lt hpos) (Nat.le_of_not_lt hcount)]; omega⟩

theorem truncate_chars_of_length_le {value : List Char} (h : value.length ≤ capacity) :
    (truncate value : IoxString capacity).chars = value :=
  List.take_of_length_le h

/-- **`string::insert` succeeds exactly on the arguments it does not refuse**, with the inserted
characters as its value. -/
theorem insert_eq_some_iff {s t : IoxString capacity} {pos count : ℕ} {str : List Char} :
    s.insert pos str count = some t ↔
      (count ≤ str.length ∧ s.chars.length + count ≤ capacity ∧ pos ≤ s.chars.length) ∧
        t.chars = insertChars s.chars pos str count := by
  unfold insert
  split_ifs with hcount hsize hpos
  · exact iff_of_false nofun fun h ↦ absurd h.1.1 (Nat.not_le_of_lt hcount)
  · exact iff_of_false nofun fun h ↦ absurd h.1.2.1 (Nat.not_le_of_lt hsize)
  · exact iff_of_false nofun fun h ↦ absurd h.1.2.2 (Nat.not_le_of_lt hpos)
  · have hconds : count ≤ str.length ∧ s.chars.length + count ≤ capacity ∧
        pos ≤ s.chars.length := by omega
    simp only [Option.some.injEq, hconds, true_and]
    constructor
    · rintro rfl
      rfl
    · intro ht
      cases t
      cases ht
      rfl

end IoxString

/-! ### Instantiations -/

/-- The template arguments `Capacity`, `DoesContainInvalidContentCall` and
`DoesContainInvalidCharacterCall` of a `SemanticString`. -/
structure SemanticStringKind where
  capacity : ℕ
  doesContainInvalidContentCall : List Char → Bool
  doesContainInvalidCharacterCall : List Char → Bool

namespace SemanticStringKind

variable (k : SemanticStringKind)

/-- `V(s)`: `s` fits and neither check of the kind fires. -/
def Valid (s : List Char) : Prop :=
  s.length ≤ k.capacity ∧ k.doesContainInvalidCharacterCall s = false ∧
    k.doesContainInvalidContentCall s = false

instance : DecidablePred k.Valid := fun _ ↦ inferInstanceAs (Decidable (_ ∧ _ ∧ _))

/-- The error that `V(s)` fails with, in the order `create_impl` checks. -/
def firstError (s : List Char) : Option SemanticStringError :=
  if s.length > k.capacity then some .exceedsMaximumLength
  else if k.doesContainInvalidCharacterCall s then some .containsInvalidCharacters
  else if k.doesContainInvalidContentCall s then some .containsInvalidContent
  else none

theorem firstError_eq_none_iff {s : List Char} : k.firstError s = none ↔ k.Valid s := by
  unfold firstError Valid
  split_ifs with hlen hchar hcontent
  · exact iff_of_false nofun fun h ↦ absurd h.1 (Nat.not_le_of_lt hlen)
  · exact iff_of_false nofun fun h ↦ absurd h.2.1 (by simp [hchar])
  · exact iff_of_false nofun fun h ↦ absurd h.2.2 (by simp [hcontent])
  · exact iff_of_true rfl
      ⟨Nat.le_of_not_lt hlen, Bool.eq_false_iff.2 hchar, Bool.eq_false_iff.2 hcontent⟩

end SemanticStringKind

/-- A character outside `allowed`: the loop of every `*_does_contain_invalid_characters`. -/
def doesContainCharacterOutside (allowed : Char → Bool) (value : List Char) : Bool :=
  value.any fun c ↦ !allowed c

/-- The content check shared by user and group names: not empty, and no digit or dash first. -/
def posixNameDoesContainInvalidContent : List Char → Bool
  | [] => true
  | c :: _ => c == '-' || ('0' ≤ c && c ≤ '9')

/-- `platform::MAX_USER_NAME_LENGTH` -/
def maxUserNameLength : ℕ := 32

/-- `platform::MAX_GROUP_NAME_LENGTH` -/
def maxGroupNameLength : ℕ := 32

/-- `platform::IOX_MAX_FILENAME_LENGTH` -/
def ioxMaxFilenameLength : ℕ := 255

/-- `platform::IOX_MAX_PATH_LENGTH` -/
def ioxMaxPathLength : ℕ := 1023

/-- `user_name_does_contain_invalid_characters` -/
def userNameDoesContainInvalidCharacters : List Char → Bool :=
  doesContainCharacterOutside isPosixNameCharacter

/-- `user_name_does_contain_invalid_content` -/
def userNameDoesContainInvalidContent : List Char → Bool :=
  posixNameDoesContainInvalidContent

/-- `group_name_does_contain_invalid_characters` -/
def groupNameDoesContainInvalidCharacters : List Char → Bool :=
  doesContainCharacterOutside isPosixNameCharacter

/-- `group_name_does_contain_invalid_content` -/
def groupNameDoesContainInvalidContent : List Char → Bool :=
  posixNameDoesContainInvalidContent

/-- `file_name_does_contain_invalid_characters` -/
def fileNameDoesContainInvalidCharacters : List Char → Bool :=
  doesContainCharacterOutside isPathEntryCharacter

/-- `file_name_does_contain_invalid_content`: empty, `.` or `..`. -/
def fileNameDoesContainInvalidContent (value : List Char) : Bool :=
  value.isEmpty || value == ['.'] || value == ['.', '.']

/-- `file_path_does_contain_invalid_characters`: the file name characters and the platform's
separators `pathSeparators`. -/
def filePathDoesContainInvalidCharacters (pathSeparators : List Char) : List Char → Bool :=
  doesContainCharacterOutside fun c ↦ isPathEntryCharacter c || pathSeparators.contains c

/-- `file_path_does_contain_invalid_content` -/
def filePathDoesContainInvalidContent (pathSeparators value : List Char) : Bool :=
  !isValidPathToFile pathSeparators value

/-- `path_does_contain_invalid_content` -/
def pathDoesContainInvalidContent (_value : List Char) : Bool :=
  false

namespace SemanticStringKind

/-- `UserName` -/
def userName : SemanticStringKind :=
  ⟨maxUserNameLength, userNameDoesContainInvalidContent, userNameDoesContainInvalidCharacters⟩

/-- `GroupName` -/
def groupName : SemanticStringKind :=
  ⟨maxGroupNameLength, groupNameDoesContainInvalidContent, groupNameDoesContainInvalidCharacters⟩

/-- `FileName` -/
def fileName : SemanticStringKind :=
  ⟨ioxMaxFilenameLength, fileNameDoesContainInvalidContent, fileNameDoesContainInvalidCharacters⟩

/-- `FilePath`, on the platform's separators `pathSeparators`. -/
def filePath (pathSeparators : List Char) : SemanticStringKind :=
  ⟨ioxMaxPathLength, filePathDoesContainInvalidContent pathSeparators,
    filePathDoesContainInvalidCharacters pathSeparators⟩

/-- `Path`: the characters of a file path and no content check. -/
def path (pathSeparators : List Char) : SemanticStringKind :=
  ⟨ioxMaxPathLength, pathDoesContainInvalidContent,
    filePathDoesContainInvalidCharacters pathSeparators⟩

end SemanticStringKind

/-! ### `semantic_string.inl` -/

/-- `SemanticString`: its string `m_data`. The type does not say that the value is valid: that
`create` and `insert` only build valid values is a property of the code, proved below where it
holds. -/
structure SemanticString (k : SemanticStringKind) where
  data : IoxString k.capacity
  deriving DecidableEq

namespace SemanticString

variable {k : SemanticStringKind}

theorem ext_chars {v w : SemanticString k} (h : v.data.chars = w.data.chars) : v = w := by
  obtain ⟨⟨_, _⟩⟩ := v
  obtain ⟨⟨_, _⟩⟩ := w
  cases h
  rfl

variable (k) in
/-- `create_impl<N>(value)`: refused when the array size `N` exceeds the capacity, then the
checks of the kind on the value cut to the capacity. -/
def createImpl (N : ℕ) (value : List Char) : Except SemanticStringError (SemanticString k) :=
  if N > k.capacity then .error .exceedsMaximumLength
  else
    let str : IoxString k.capacity := IoxString.truncate value
    if k.doesContainInvalidCharacterCall str.chars then .error .containsInvalidCharacters
    else if k.doesContainInvalidContentCall str.chars then .error .containsInvalidContent
    else .ok ⟨str⟩

variable (k) in
/-- `create(const char (&value)[N])`: a literal of `value.length` characters is an array of
`value.length + 1`. -/
def create (value : List Char) : Except SemanticStringError (SemanticString k) :=
  createImpl k (value.length + 1) value

variable (k) in
/-- `create(const string<N>& value)`. -/
def createFromString {N : ℕ} (value : IoxString N) :
    Except SemanticStringError (SemanticString k) :=
  createImpl k N value.chars

/-- `insert(pos, str, count)`: `string::insert` on a copy, the character check on the copy, the
content check on `str`; `m_data` changes only when all three pass. -/
def insert (v : SemanticString k) (pos : ℕ) (str : List Char) (count : ℕ) :
    SemanticString k × Except SemanticStringError Unit :=
  match v.data.insert pos str count with
  | none => (v, .error .exceedsMaximumLength)
  | some temp =>
    if k.doesContainInvalidCharacterCall temp.chars then (v, .error .containsInvalidCharacters)
    else if k.doesContainInvalidContentCall str then (v, .error .containsInvalidContent)
    else (⟨temp⟩, .ok ())

/-- `append(str)`: `insert(size(), str, GetSize(str))`. -/
def append (v : SemanticString k) (str : List Char) :
    SemanticString k × Except SemanticStringError Unit :=
  v.insert v.data.chars.length str str.length

/-! ### `create` -/

/-- With a value that fits, `create_impl` answers with the first error of `V`. -/
theorem createImpl_eq {N : ℕ} {value : List Char} (hN : N ≤ k.capacity)
    (hlen : value.length ≤ k.capacity) :
    createImpl k N value =
      match k.firstError value with
      | none => .ok ⟨IoxString.truncate value⟩
      | some e => .error e := by
  have htrunc := IoxString.truncate_chars_of_length_le hlen
  unfold createImpl SemanticStringKind.firstError
  dsimp only
  rw [if_neg (Nat.not_lt_of_le hN), if_neg (Nat.not_lt_of_le hlen), htrunc]
  split_ifs <;> rfl

/-- **`create` from an `iox::string<N>` with `N ≤ Capacity`** answers with the first error of
`V`, and otherwise holds the string's value. -/
theorem createFromString_eq {N : ℕ} (hN : N ≤ k.capacity) (value : IoxString N) :
    createFromString k value =
      match k.firstError value.chars with
      | none => .ok ⟨IoxString.truncate value.chars⟩
      | some e => .error e :=
  createImpl_eq hN (Nat.le_trans value.size_le hN)

/-- **`create` from a literal** refuses a value of `Capacity` characters for its length, and
answers otherwise as `V` does. -/
theorem create_eq {value : List Char} :
    create k value =
      if value.length + 1 > k.capacity then .error .exceedsMaximumLength
      else
        match k.firstError value with
        | none => .ok ⟨IoxString.truncate value⟩
        | some e => .error e := by
  unfold create
  split_ifs with hN
  · exact if_pos hN
  · exact createImpl_eq (Nat.le_of_not_lt hN) (by omega)

theorem createImpl_valid {N : ℕ} {value : List Char} {v : SemanticString k}
    (h : createImpl k N value = .ok v) : k.Valid v.data.chars := by
  unfold createImpl at h
  dsimp only at h
  split_ifs at h with hN hchar hcontent
  cases h
  exact ⟨(IoxString.truncate value).size_le, Bool.eq_false_iff.2 hchar,
    Bool.eq_false_iff.2 hcontent⟩

/-! ### `insert` -/

/-- The arguments `insert` accepts at value `s`: `string::insert` succeeds, the result has no
invalid character and the fragment no invalid content. -/
def InsertAccepts (k : SemanticStringKind) (s : List Char) (pos : ℕ) (str : List Char)
    (count : ℕ) : Prop :=
  (count ≤ str.length ∧ s.length + count ≤ k.capacity ∧ pos ≤ s.length) ∧
    k.doesContainInvalidCharacterCall (insertChars s pos str count) = false ∧
    k.doesContainInvalidContentCall str = false

instance {s : List Char} {pos : ℕ} {str : List Char} {count : ℕ} :
    Decidable (InsertAccepts k s pos str count) :=
  inferInstanceAs (Decidable (_ ∧ _ ∧ _))

/-- **`insert` writes the inserted characters when it accepts**, and answers `ok`. -/
theorem insert_of_accepts {v : SemanticString k} {pos count : ℕ} {str : List Char}
    (h : InsertAccepts k v.data.chars pos str count) :
    (v.insert pos str count).1.data.chars = insertChars v.data.chars pos str count ∧
      (v.insert pos str count).2 = .ok () := by
  obtain ⟨hsize, hchar, hcontent⟩ := h
  unfold insert
  split
  · next hnone =>
    have hsome : ∃ t, v.data.insert pos str count = some t := by
      refine ⟨⟨insertChars v.data.chars pos str count, ?_⟩, IoxString.insert_eq_some_iff.2
        ⟨hsize, rfl⟩⟩
      rw [length_insertChars hsize.2.2 hsize.1]
      exact hsize.2.1
    obtain ⟨t, ht⟩ := hsome
    exact absurd (hnone.symm.trans ht) nofun
  · next temp htemp =>
    have hchars := (IoxString.insert_eq_some_iff.1 htemp).2
    rw [hchars, hchar, if_neg Bool.false_ne_true, hcontent, if_neg Bool.false_ne_true]
    exact ⟨hchars, rfl⟩

/-- **A refused `insert` leaves the value unchanged** and answers with an error. -/
theorem insert_of_not_accepts {v : SemanticString k} {pos count : ℕ} {str : List Char}
    (h : ¬InsertAccepts k v.data.chars pos str count) :
    (v.insert pos str count).1 = v ∧ (v.insert pos str count).2 ≠ .ok () := by
  unfold insert
  split
  · exact ⟨rfl, nofun⟩
  · next temp htemp =>
    have ⟨hsize, hchars⟩ := IoxString.insert_eq_some_iff.1 htemp
    split_ifs with hchar hcontent
    · exact ⟨rfl, nofun⟩
    · exact ⟨rfl, nofun⟩
    · refine absurd ⟨hsize, ?_, Bool.eq_false_iff.2 hcontent⟩ h
      rw [← hchars]
      exact Bool.eq_false_iff.2 hchar

/-- **`insert` answers `ok` exactly when it accepts.** -/
theorem insert_ok_iff {v : SemanticString k} {pos count : ℕ} {str : List Char} :
    (v.insert pos str count).2 = .ok () ↔ InsertAccepts k v.data.chars pos str count := by
  by_cases h : InsertAccepts k v.data.chars pos str count
  · exact iff_of_true (insert_of_accepts h).2 h
  · exact iff_of_false (insert_of_not_accepts h).2 h

/-- Whatever `insert` answers, the new value is the old one or the inserted characters. -/
theorem insert_chars (v : SemanticString k) (pos : ℕ) (str : List Char) (count : ℕ) :
    (v.insert pos str count).1.data.chars =
      if InsertAccepts k v.data.chars pos str count then insertChars v.data.chars pos str count
      else v.data.chars := by
  split_ifs with h
  · exact (insert_of_accepts h).1
  · rw [(insert_of_not_accepts h).1]

end SemanticString

/-! ### What the fragment's content check guarantees -/

namespace SemanticStringKind

variable {k : SemanticStringKind}

/-- **The fragment's content check is sound** for the kind: inserting a fragment that passes the
content check into a valid value, when the result fits and has valid characters, gives valid
content. -/
def ContentCheckSound (k : SemanticStringKind) : Prop :=
  ∀ s pos str count, k.Valid s → pos ≤ s.length → count ≤ str.length →
    k.doesContainInvalidContentCall str = false →
      k.doesContainInvalidContentCall (insertChars s pos str count) = false

end SemanticStringKind

namespace SemanticString

variable {k : SemanticStringKind}

/-- **`insert` keeps a value valid** when the kind's content check is sound. -/
theorem insert_valid (hk : k.ContentCheckSound) {v : SemanticString k}
    (hv : k.Valid v.data.chars) (pos : ℕ) (str : List Char) (count : ℕ) :
    k.Valid (v.insert pos str count).1.data.chars := by
  rw [insert_chars]
  split_ifs with h
  · obtain ⟨⟨hcount, hsize, hpos⟩, hchar, hcontent⟩ := h
    refine ⟨?_, hchar, hk _ pos str count hv hpos hcount hcontent⟩
    rw [length_insertChars hpos hcount]
    exact hsize
  · exact hv

/-! ### Runs of `insert` and `append` -/

/-- The operations that change a semantic string. -/
inductive Op
  | insert (pos : ℕ) (str : List Char) (count : ℕ)
  | append (str : List Char)

variable (k) in
/-- A semantic string under `insert` and `append`, answering their results. -/
def machine : Machine (SemanticString k) Op (Except SemanticStringError Unit) where
  step v
    | .insert pos str count => v.insert pos str count
    | .append str => v.append str

/-- **Valid values are an invariant** of every kind whose content check is sound. -/
theorem machine_invariant (hk : k.ContentCheckSound) :
    (machine k).Invariant (fun _ _ ↦ True) fun v ↦ k.Valid v.data.chars := by
  rintro v (⟨pos, str, count⟩ | str) hv -
  · exact insert_valid hk hv pos str count
  · exact insert_valid hk hv _ str str.length

/-- **Every value a run reaches from a created value is valid** when the kind's content check
is sound. -/
theorem run_valid (hk : k.ContentCheckSound) {N : ℕ} {value : List Char} {v : SemanticString k}
    (hv : createImpl k N value = .ok v) (os : List Op) :
    k.Valid ((machine k).run v os).1.data.chars :=
  (machine_invariant hk).run os (createImpl_valid hv) ((machine k).admits_true v os)

end SemanticString

/-! ### The content checks of the instantiations -/

namespace SemanticStringKind

/-- A valid user or group name starts with its own first character after any insertion: an
insertion at the front puts the fragment's first character there, which passed the same check. -/
theorem posixNameDoesContainInvalidContent_insertChars {s str : List Char} {pos count : ℕ}
    (hs : posixNameDoesContainInvalidContent s = false)
    (hstr : posixNameDoesContainInvalidContent str = false) :
    posixNameDoesContainInvalidContent (insertChars s pos str count) = false := by
  match s, pos, str, count with
  | [], _, _, _ => exact nomatch hs
  | c :: s, pos + 1, str, count => exact hs
  | c :: s, 0, str, 0 => exact hs
  | c :: s, 0, [], count + 1 => exact nomatch hstr
  | c :: s, 0, d :: str, count + 1 => exact hstr

theorem contentCheckSound_userName : userName.ContentCheckSound :=
  fun _ _ _ _ hs _ _ hstr ↦ posixNameDoesContainInvalidContent_insertChars hs.2.2 hstr

theorem contentCheckSound_groupName : groupName.ContentCheckSound :=
  fun _ _ _ _ hs _ _ hstr ↦ posixNameDoesContainInvalidContent_insertChars hs.2.2 hstr

/-- An insertion keeps every character of the value, so it cannot shorten a file name to `.`
or `..`: those would be shorter forms of the value, which is itself neither. -/
theorem fileNameDoesContainInvalidContent_insertChars {s str : List Char} {pos count : ℕ}
    (hs : fileNameDoesContainInvalidContent s = false) (hpos : pos ≤ s.length) :
    fileNameDoesContainInvalidContent (insertChars s pos str count) = false := by
  have hsub : s.Sublist (insertChars s pos str count) := by
    conv_lhs => rw [← List.take_append_drop pos s]
    exact (List.sublist_append_left _ _).append (List.Sublist.refl _)
  unfold fileNameDoesContainInvalidContent at hs ⊢
  simp only [Bool.or_eq_false_iff, List.isEmpty_eq_false_iff, beq_eq_false_iff_ne, ne_eq] at hs ⊢
  obtain ⟨⟨hne, hdot⟩, hdots⟩ := hs
  refine ⟨⟨fun h ↦ ?_, fun h ↦ ?_⟩, fun h ↦ ?_⟩ <;> rw [h] at hsub
  · exact hne (List.sublist_nil.1 hsub)
  · rcases List.sublist_singleton.1 hsub with rfl | rfl <;> contradiction
  · rcases List.sublist_cons_iff.1 hsub with h | ⟨r, rfl, hr⟩
    · rcases List.sublist_singleton.1 h with rfl | rfl <;> contradiction
    · rcases List.sublist_singleton.1 hr with rfl | rfl <;> contradiction

theorem contentCheckSound_fileName : fileName.ContentCheckSound :=
  fun _ _ _ _ hs hpos _ _ ↦ fileNameDoesContainInvalidContent_insertChars hs.2.2 hpos

/-- A path has no content check of its own: every fragment passes, and so does every result. -/
theorem contentCheckSound_path (pathSeparators : List Char) :
    (path pathSeparators).ContentCheckSound :=
  fun _ _ _ _ _ _ _ _ ↦ rfl

end SemanticStringKind

namespace SemanticString

/-- A user name created from `root`, then appended to and inserted into. -/
theorem run_valid_of_root : ∃ v, createImpl SemanticStringKind.userName 5 "root".toList = .ok v ∧
    SemanticStringKind.userName.Valid ((machine SemanticStringKind.userName).run v
      [.append "s".toList, .insert 0 "x".toList 1]).1.data.chars :=
  ⟨_, rfl, @run_valid _ SemanticStringKind.contentCheckSound_userName 5 "root".toList _ rfl _⟩

/-- **`create` and `append` miss the valid results.** A user name refuses the valid `ab-c` since
the fragment `-c` alone starts with a dash; a literal of `MAX_USER_NAME_LENGTH` characters is
refused for its length; and a file path on the POSIX separators accepts `./b` after `a`,
reaching the value `a./b`, whose directory entry `a.` ends with a dot. -/
theorem create_and_append_miss_valid_results :
    ((⟨⟨['a', 'b'], by decide⟩⟩ : SemanticString .userName).append ['-', 'c']).2 =
        .error .containsInvalidContent ∧
      SemanticStringKind.userName.Valid ['a', 'b', '-', 'c'] ∧
    create .userName (List.replicate 32 'a') = .error .exceedsMaximumLength ∧
      SemanticStringKind.userName.Valid (List.replicate 32 'a') ∧
    create (.filePath Platform.posix.pathSeparators) ['a'] = .ok ⟨⟨['a'], by decide⟩⟩ ∧
      (⟨⟨['a'], by decide⟩⟩ : SemanticString (.filePath Platform.posix.pathSeparators)).append
          ['.', '/', 'b'] = (⟨⟨['a', '.', '/', 'b'], by decide⟩⟩, .ok ()) ∧
      ¬(SemanticStringKind.filePath Platform.posix.pathSeparators).Valid ['a', '.', '/', 'b'] := by
  decide

end SemanticString

end Iox
