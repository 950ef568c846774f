import Iceoryx.Vocabulary.String

/-!
# Command line options and the order of the help text

`iox::cli::Option` (`option.cpp`) names an option by a short name, a `char` that is
`NO_SHORT_OPTION = '\0'` for none, and by a long name, an `OptionName_t` that is empty for none.
`OptionDefinition::addOption` (`option_definition.cpp`) registers an option unless it has no
name, its long name starts with a dash, its short name is a dash, or one of its names is
registered already; `addSwitch`, `addOptional` and `addRequired` build the option and call it,
and the constructor registers `-h, --help` first. `CommandLineParser::printHelpAndExit` sorts the
registered options with `std::sort` under `Option::operator<`, which compares two short names;
else the first character of a long name with a short name, either way round; else two long
names.

## The model

A failed registration calls `m_onFailureCallback`, `std::abort()` by default, and is the
`error` of `addOption`, with the check that failed. The description and the type name of an
option are only printed and are left out. Characters are compared by their code points, which
for the 7-bit characters of option names is the order of `char`, signed or not; two long names
are compared by `iox::string::compare`, the lexicographic order of their bytes
(`IoxString.compare_eq`).

## What is proved

`operator<` orders the options through one character each when a short name is involved
(`lead`, `lt_iff_lead_lt_of_short_left`, `lt_iff_lead_lt_of_short_right`) and by the whole long
names otherwise (`lt_iff_compare_of_long`). From that it is irreflexive (`lt_irrefl`) and transitive
on options with a name (`lt_trans`). It is not a strict weak ordering of the options one
definition accepts: a short name `a` is incomparable both with the long name `aa` and with the
long name `ab`, which are ordered (`option_lt_incomparability_not_transitive`), so `std::sort` is
given a comparator outside its contract.
-/

namespace Iox.Cli

open CString

/-- `MAX_OPTION_NAME_LENGTH` -/
def maxOptionNameLength : ℕ := 32

/-- `MAX_OPTION_ARGUMENT_LENGTH` -/
def maxOptionArgumentLength : ℕ := 128

/-- `MAX_NUMBER_OF_ARGUMENTS`, the capacity of `m_availableOptions`. -/
def maxNumberOfArguments : ℕ := 16

/-- `OptionName_t` -/
abbrev OptionName := IoxString maxOptionNameLength

/-- `Argument_t` -/
abbrev Argument := IoxString maxOptionArgumentLength

/-- `NO_SHORT_OPTION` -/
def noShortOption : Char := zero

/-- `OptionType` -/
inductive OptionType
  | switch
  | required
  | optional
  deriving DecidableEq, Repr

/-- `iox::cli::Option`, under another name so that Lean's `Option` stays in scope. -/
structure CliOption where
  shortOption : Char
  isSwitch : Bool
  longOption : OptionName
  value : Argument
  deriving DecidableEq

namespace CliOption

/-- `isEmpty()` -/
def isEmpty (o : CliOption) : Bool :=
  o.longOption.size == 0 && o.shortOption == noShortOption

/-- `longOptionNameDoesStartWithDash()` -/
def longOptionNameDoesStartWithDash (o : CliOption) : Bool :=
  o.longOption.size != 0 && o.longOption.uncheckedAt 0 == '-'

/-- `shortOptionNameIsEqualDash()` -/
def shortOptionNameIsEqualDash (o : CliOption) : Bool :=
  o.shortOption == '-'

/-- `hasLongOptionName(value)`, where `operator==` of strings is `compare(rhs) == 0`. -/
def hasLongOptionName (o : CliOption) (value : OptionName) : Bool :=
  o.longOption.size != 0 && o.longOption.compare (.ioxString _ value) == .eq

/-- `hasShortOptionName(value)` -/
def hasShortOptionName (o : CliOption) (value : Char) : Bool :=
  o.shortOption != noShortOption && o.shortOption == value

/-- `operator<(rhs)`, where `operator<` of strings is `compare(rhs) < 0`. -/
def lt (o rhs : CliOption) : Bool :=
  if o.shortOption != noShortOption && rhs.shortOption != noShortOption then
    decide (o.shortOption < rhs.shortOption)
  else if o.longOption.size != 0 && rhs.shortOption != noShortOption then
    decide (o.longOption.uncheckedAt 0 < rhs.shortOption)
  else if o.shortOption != noShortOption && rhs.longOption.size != 0 then
    decide (o.shortOption < rhs.longOption.uncheckedAt 0)
  else o.longOption.compare (.ioxString _ rhs.longOption) == .lt

end CliOption

/-- `OptionWithDetails`: an option and its type. -/
structure OptionWithDetails extends CliOption where
  type : OptionType
  deriving DecidableEq

/-- `OptionDefinition`: `m_availableOptions`, a `vector` of capacity `MAX_NUMBER_OF_ARGUMENTS`. -/
structure OptionDefinition where
  availableOptions : List OptionWithDetails
  size_le : availableOptions.length ≤ maxNumberOfArguments
  deriving DecidableEq

/-- The check of `addOption` that called `m_onFailureCallback`. -/
inductive AddOptionError
  | emptyOption
  | longOptionStartsWithDash
  | shortOptionIsDash
  | alreadyRegistered
  deriving DecidableEq, Repr

namespace OptionDefinition

theorem size_le_append (d : OptionDefinition) (option : OptionWithDetails)
    (h : d.availableOptions.length < maxNumberOfArguments) :
    (d.availableOptions ++ [option]).length ≤ maxNumberOfArguments := by
  rw [List.length_append, List.length_singleton]
  omega

/-- `m_availableOptions.emplace_back(option)`, whose `false` on a full vector is ignored. -/
def emplaceBack (d : OptionDefinition) (option : OptionWithDetails) : OptionDefinition :=
  if h : d.availableOptions.length < maxNumberOfArguments then
    ⟨d.availableOptions ++ [option], size_le_append d option h⟩
  else d

/-- `addOption(option)`: the three checks of the option, then the loop over the registered
options, which fails at the first one holding the long or the short name. -/
def addOption (d : OptionDefinition) (option : OptionWithDetails) :
    Except AddOptionError OptionDefinition :=
  if option.isEmpty then .error .emptyOption
  else if option.longOptionNameDoesStartWithDash then .error .longOptionStartsWithDash
  else if option.shortOptionNameIsEqualDash then .error .shortOptionIsDash
  else if d.availableOptions.any fun registeredOption ↦
      registeredOption.hasLongOptionName option.longOption ||
        registeredOption.hasShortOptionName option.shortOption then
    .error .alreadyRegistered
  else .ok (d.emplaceBack option)

/-- The empty `Argument_t` and `OptionName_t`, `{""}`. -/
def emptyName {n : ℕ} : IoxString n := ⟨[], Nat.zero_le _⟩

/-- `addSwitch(shortOption, longOption, description)` -/
def addSwitch (d : OptionDefinition) (shortOption : Char) (longOption : OptionName) :
    Except AddOptionError OptionDefinition :=
  d.addOption ⟨⟨shortOption, true, longOption, emptyName⟩, .switch⟩

/-- `addOptional(shortOption, longOption, description, typeName, defaultValue)` -/
def addOptional (d : OptionDefinition) (shortOption : Char) (longOption : OptionName)
    (defaultValue : Argument) : Except AddOptionError OptionDefinition :=
  d.addOption ⟨⟨shortOption, false, longOption, defaultValue⟩, .optional⟩

/-- `addRequired(shortOption, longOption, description, typeName)` -/
def addRequired (d : OptionDefinition) (shortOption : Char) (longOption : OptionName) :
    Except AddOptionError OptionDefinition :=
  d.addOption ⟨⟨shortOption, false, longOption, emptyName⟩, .required⟩

/-- The option `-h, --help` that the constructor registers. -/
def helpOption : OptionWithDetails :=
  ⟨⟨'h', true, ⟨['h', 'e', 'l', 'p'], by decide⟩, emptyName⟩, .switch⟩

/-- The constructor `OptionDefinition(programDescription, onFailureCallback)`. -/
def new : Except AddOptionError OptionDefinition :=
  (⟨[], Nat.zero_le _⟩ : OptionDefinition).addOption helpOption

end OptionDefinition

/-! ### The order of options -/

namespace CliOption

variable {x y z : CliOption}

/-- The character that orders an option against a short name: its short name, or else the first
character of its long name. -/
def lead (o : CliOption) : Char :=
  if o.shortOption != noShortOption then o.shortOption else o.longOption.uncheckedAt 0

theorem lead_of_short (h : x.shortOption ≠ noShortOption) : x.lead = x.shortOption := by
  simp [lead, h]

/-- An option with a name and no short name has a long name. -/
theorem exists_chars_eq_cons (hx : x.isEmpty = false) (h : x.shortOption = noShortOption) :
    ∃ c cs, x.longOption.chars = c :: cs := by
  simp only [isEmpty, h, beq_self_eq_true, Bool.and_true, beq_eq_false_iff_ne] at hx
  exact List.exists_cons_of_ne_nil fun hnil ↦ hx (by simp [IoxString.size, hnil])

theorem lead_of_long (h : x.shortOption = noShortOption) {c : Char} {cs : List Char}
    (hc : x.longOption.chars = c :: cs) : x.lead = c := by
  simp [lead, h, IoxString.uncheckedAt_zero hc]

theorem size_ne_zero_of_long {c : Char} {cs : List Char} (h : x.longOption.chars = c :: cs) :
    x.longOption.size ≠ 0 := by
  simp [IoxString.size, h]

/-- **Against a short name on the right, an option is ordered by its `lead`.** -/
theorem lt_iff_lead_lt_of_short_right (hx : x.isEmpty = false)
    (hy : y.shortOption ≠ noShortOption) : x.lt y = true ↔ x.lead < y.lead := by
  rw [lead_of_short hy]
  by_cases hxs : x.shortOption = noShortOption
  · -- the first character of the long name against the short name
    obtain ⟨c, cs, hc⟩ := exists_chars_eq_cons hx hxs
    simp [lt, hxs, hy, size_ne_zero_of_long hc, lead_of_long hxs hc, IoxString.uncheckedAt_zero hc]
  · simp [lt, hxs, hy, lead_of_short hxs]

/-- **With a short name on the left, an option is ordered by its `lead`.** -/
theorem lt_iff_lead_lt_of_short_left (hx : x.shortOption ≠ noShortOption)
    (hy : y.isEmpty = false) : x.lt y = true ↔ x.lead < y.lead := by
  rw [lead_of_short hx]
  by_cases hys : y.shortOption = noShortOption
  · -- the short name against the first character of the long name
    obtain ⟨c, cs, hc⟩ := exists_chars_eq_cons hy hys
    simp [lt, hx, hys, size_ne_zero_of_long hc, lead_of_long hys hc, IoxString.uncheckedAt_zero hc]
  · simp [lt, hx, hys, lead_of_short hys]

/-- **Without short names, options are ordered by their long names.** -/
theorem lt_iff_compare_of_long (hx : x.shortOption = noShortOption)
    (hy : y.shortOption = noShortOption) :
    x.lt y = true ↔ compare x.longOption.chars y.longOption.chars = .lt := by
  simp [lt, hx, hy, IoxString.compare_eq]

/-- A long name below another starts with a character no larger. -/
theorem le_of_compare_cons {a b : Char} {as bs : List Char}
    (h : compare (a :: as) (b :: bs) = .lt) : a ≤ b := by
  rw [List.compare_cons_cons, Ordering.then_eq_lt] at h
  rcases h with h | ⟨h, -⟩
  · exact le_of_lt (compare_lt_iff_lt.1 h)
  · exact le_of_eq (compare_eq_iff_eq.1 h)

/-- An ordered pair of options has ordered `lead`s. -/
theorem lead_le_of_lt (hx : x.isEmpty = false) (hy : y.isEmpty = false) (h : x.lt y = true) :
    x.lead ≤ y.lead := by
  by_cases hys : y.shortOption = noShortOption
  · by_cases hxs : x.shortOption = noShortOption
    · -- two long names: their first characters are ordered
      obtain ⟨a, as, ha⟩ := exists_chars_eq_cons hx hxs
      obtain ⟨b, bs, hb⟩ := exists_chars_eq_cons hy hys
      rw [lt_iff_compare_of_long hxs hys, ha, hb] at h
      rw [lead_of_long hxs ha, lead_of_long hys hb]
      exact le_of_compare_cons h
    · exact le_of_lt ((lt_iff_lead_lt_of_short_left hxs hy).1 h)
  · exact le_of_lt ((lt_iff_lead_lt_of_short_right hx hys).1 h)

/-- **`operator<` is irreflexive.** -/
theorem lt_irrefl (x : CliOption) : x.lt x = false := by
  by_cases hxs : x.shortOption = noShortOption
  · simp [lt, hxs, IoxString.compare_eq]
  · simp [lt, hxs]

/-- **`operator<` is transitive on options with a name.** A short name on either end orders the
ends by their `lead`s, which the middle option does not decrease; otherwise the ends are ordered by
their long names, through the middle one's long name or its short name. -/
theorem lt_trans (hx : x.isEmpty = false) (hy : y.isEmpty = false) (hz : z.isEmpty = false)
    (hxy : x.lt y = true) (hyz : y.lt z = true) : x.lt z = true := by
  by_cases hxs : x.shortOption = noShortOption
  swap
  · rw [lt_iff_lead_lt_of_short_left hxs hz]
    exact lt_of_lt_of_le ((lt_iff_lead_lt_of_short_left hxs hy).1 hxy) (lead_le_of_lt hy hz hyz)
  by_cases hzs : z.shortOption = noShortOption
  swap
  · rw [lt_iff_lead_lt_of_short_right hx hzs]
    exact lt_of_le_of_lt (lead_le_of_lt hx hy hxy) ((lt_iff_lead_lt_of_short_right hy hzs).1 hyz)
  -- the ends are ordered by their long names
  rw [lt_iff_compare_of_long hxs hzs]
  by_cases hys : y.shortOption = noShortOption
  · rw [lt_iff_compare_of_long hxs hys] at hxy
    rw [lt_iff_compare_of_long hys hzs] at hyz
    exact Std.TransCmp.lt_trans hxy hyz
  · -- the short name of the middle option lies between the first characters of the ends
    obtain ⟨a, as, ha⟩ := exists_chars_eq_cons hx hxs
    obtain ⟨c, cs, hc⟩ := exists_chars_eq_cons hz hzs
    have hac : x.lead < z.lead := ((lt_iff_lead_lt_of_short_right hx hys).1 hxy).trans
      ((lt_iff_lead_lt_of_short_left hys hz).1 hyz)
    rw [lead_of_long hxs ha, lead_of_long hzs hc] at hac
    rw [ha, hc, List.compare_cons_cons, compare_lt_iff_lt.2 hac]
    rfl

end CliOption

/-- **`operator<` is not a strict weak ordering of the options of one definition.** The
definition with `-h, --help` accepts `-a`, `--ab` and `--aa`. Then `-a` is incomparable with
`--ab`, since `a` is neither below nor above the first character of `ab`, and with `--aa` for the
same reason; but `--aa` is below `--ab`. -/
theorem option_lt_incomparability_not_transitive :
    let a : CliOption := ⟨'a', true, OptionDefinition.emptyName, OptionDefinition.emptyName⟩
    let ab : CliOption :=
      ⟨noShortOption, true, ⟨['a', 'b'], by decide⟩, OptionDefinition.emptyName⟩
    let aa : CliOption :=
      ⟨noShortOption, true, ⟨['a', 'a'], by decide⟩, OptionDefinition.emptyName⟩
    let registered := ((OptionDefinition.new.bind
      (·.addSwitch 'a' OptionDefinition.emptyName)).bind
      (·.addSwitch noShortOption ab.longOption)).bind (·.addSwitch noShortOption aa.longOption)
    (registered.map fun d ↦ d.availableOptions.map (·.toCliOption)) =
        .ok [OptionDefinition.helpOption.toCliOption, a, ab, aa] ∧
      ab.lt a = false ∧ a.lt ab = false ∧ a.lt aa = false ∧ aa.lt a = false ∧
      aa.lt ab = true := by
  decide

end Iox.Cli
