import Mathlib.Data.List.Basic

/-!
# Checks on file names and paths

`path_and_file_verifier.inl` decides whether a string is a valid file name, path to a directory
or path to a file; `file_name.cpp`, `file_path.cpp`, `user_name.cpp` and `group_name.cpp` build
the character and content checks of the semantic strings from them. Each check is translated here
as the source writes it, over the characters of the string. The separators
`platform::IOX_PATH_SEPARATORS` are fixed by the platform settings, `{'/'}` on the POSIX platforms
and `{'/', '\\'}` on Windows, so the checks take them as a parameter (`Platform.pathSeparators`
gives the settings' values).

The one loop, over the entries of a path in `isValidPathToDirectory`, drops at least one character
per pass, so it runs with the length of the path as fuel; `isValidPathToDirectoryLoop_fuel` says
that more fuel gives the same answer.
-/

namespace Iox

/-! ### Characters -/

/-- The characters of a user or group name: `a-z`, `0-9` and `-`. -/
def isPosixNameCharacter (c : Char) : Bool :=
  ('a' ≤ c && c ≤ 'z') || ('0' ≤ c && c ≤ '9') || c == '-'

/-- The characters of a path entry: letters, digits, `-`, `.`, `:` and `_`. -/
def isPathEntryCharacter (c : Char) : Bool :=
  (('a' ≤ c && c ≤ 'z') || ('A' ≤ c && c ≤ 'Z')) || (('0' ≤ c && c ≤ '9') ||
    ((c == '-' || c == '.') || (c == ':' || c == '_')))

/-- The platforms of `iceoryx_platform`, as far as their settings differ for paths. -/
inductive Platform
  /-- Linux, macOS, QNX, FreeRTOS, Unix and the minimal POSIX platform. -/
  | posix
  /-- Windows. -/
  | win
  deriving DecidableEq

/-- `platform::IOX_PATH_SEPARATORS` of the platform's `platform_settings.hpp`. -/
def Platform.pathSeparators : Platform → List Char
  | .posix => ['/']
  | .win => ['/', '\\']

/-! ### Searching a string -/

/-- `find_first_of(separators)`: the first index holding one of `separators`. -/
def findFirstOf (value separators : List Char) : Option ℕ :=
  value.findIdx? fun c ↦ separators.contains c

/-- `find_last_of(separators)`: the last index holding one of `separators`, searched from the
end. -/
def findLastOf (value separators : List Char) : Option ℕ :=
  (List.range value.length).reverse.find? fun p ↦ value[p]?.any separators.contains

/-! ### `path_and_file_verifier.inl` -/

section Verifier

variable (pathSeparators : List Char)

/-- `RelativePathComponents` -/
inductive RelativePathComponents
  | reject
  | accept
  deriving DecidableEq

/-- `isValidPathEntry(name, relativePathComponents)`: `.` and `..` as the argument allows, and
otherwise only path characters and no `.` at the end. -/
def isValidPathEntry (name : List Char) (relativePathComponents : RelativePathComponents) :
    Bool :=
  if name == ['.'] || name == ['.', '.'] then relativePathComponents == .accept
  else if !name.all isPathEntryCharacter then false
  else
    match name.getLast? with
    | none => true
    | some c => c != '.'

/-- `isValidFileName(name)`. -/
def isValidFileName (name : List Char) : Bool :=
  if name.isEmpty then false else isValidPathEntry name .reject

/-- `doesEndWithPathSeparator(name)`, on the separators `pathSeparators`. -/
def doesEndWithPathSeparator (name : List Char) : Bool :=
  match name.getLast? with
  | none => false
  | some c => pathSeparators.contains c

/-- At most `fuel` passes of the `while (!remaining.empty())` loop of `isValidPathToDirectory`:
each entry before a separator is a file name, `.` or `..`, and the last entry a path entry. -/
def isValidPathToDirectoryLoop : ℕ → List Char → Bool
  | 0, _ => true
  | fuel + 1, remaining =>
    if remaining.isEmpty then true
    else
      match findFirstOf remaining pathSeparators with
      | some position =>
        if position ≠ 0 ∧ !(isValidFileName (remaining.take position) ||
            (remaining.take position == ['.'] || remaining.take position == ['.', '.'])) then false
        else isValidPathToDirectoryLoop fuel (remaining.drop (position + 1))
      | none => isValidPathEntry remaining .accept

/-- `isValidPathToDirectory(name)`. -/
def isValidPathToDirectory (name : List Char) : Bool :=
  if name.isEmpty then false else isValidPathToDirectoryLoop pathSeparators name.length name

/-- `isValidPathToFile(name)`: the part after the last separator is a file name, and the part
before it is empty or a path to a directory. -/
def isValidPathToFile (name : List Char) : Bool :=
  if doesEndWithPathSeparator pathSeparators name then false
  else
    match findLastOf name pathSeparators with
    | none => isValidFileName name
    | some position =>
      ((name.take position).isEmpty || isValidPathToDirectory pathSeparators (name.take position)) &&
        isValidFileName (name.drop (position + 1))

end Verifier

/-! ### The loop has enough fuel -/

theorem findFirstOf_lt {value separators : List Char} {position : ℕ}
    (h : findFirstOf value separators = some position) : position < value.length :=
  List.findIdx?_eq_some_iff_getElem.1 h |>.1

/-- **The directory loop ends within its fuel**: with more passes than characters left, the
answer does not depend on the fuel, since each pass drops at least one character. -/
theorem isValidPathToDirectoryLoop_fuel {pathSeparators : List Char} :
    ∀ {n m : ℕ} {remaining : List Char}, remaining.length < n → remaining.length < m →
      isValidPathToDirectoryLoop pathSeparators n remaining =
        isValidPathToDirectoryLoop pathSeparators m remaining
  | 0, _, _, hn, _ => absurd hn (Nat.not_lt_zero _)
  | _ + 1, 0, _, _, hm => absurd hm (Nat.not_lt_zero _)
  | n + 1, m + 1, remaining, hn, hm => by
    simp only [isValidPathToDirectoryLoop]
    split
    · rfl
    · split
      · next position hpos =>
        have hlt := findFirstOf_lt hpos
        split
        · rfl
        · exact isValidPathToDirectoryLoop_fuel (by simp; omega) (by simp; omega)
      · rfl

end Iox
