import Iceoryx.Cli.Option
import Mathlib.Data.List.ModifyLast

/-!
# `CommandLineParser::parse`

`parse(optionSet, argc, argv, argcOffset)` (`command_line_parser.cpp`) reads the arguments after
the binary name, from `argv[max(argcOffset, 1)]` on. Each must be a lexically valid option (a dash,
a non-empty name, one letter after a single dash, no third dash, and at most
`MAX_OPTION_NAME_LENGTH` characters in all). After one or two dashes the name is looked up with
`OptionDefinition::getOption`, the first registered option that `hasOptionName`: its long name,
or its short name when the name has one character. An option may be given once; a switch takes
no value, any other option the next argument. Afterwards every unset optional option is added
with its default value, and the parse fails when `help` is set or a required option is missing.

## The model

Each argument is the memory at its pointer, read by the C functions of `CString` up to its
terminator. Every failure calls `printHelpAndExit`, which ends in `m_onFailureCallback()`; the
callback may return, and `parse` then returns the arguments read so far. So `parse` returns the
`Arguments` and whether it called the callback. The vector `m_arguments` keeps its capacity: a
full vector refuses `emplace_back`, and the following `back()` is the last element it holds.
What is only printed is left out.

## What is proved

Every option occurs at most once in the arguments (`parse_pairwise`). `addOption` keeps the names
of a definition pairwise different (`nodup_names_addOption`), and for such a definition a parse
without failure holds every required and every optional option
(`parse_holds_required_and_optional`). The name after
the dashes is looked up by `hasOptionName` whichever syntax carried it, so `--a` selects the
option with the short name `a` although no option has the long name `a`, and `-a` selects the
option with the long name `a` registered before the one with the short name `a`
(`parse_resolves_names_across_syntaxes`).
-/

namespace Iox.Cli

open CString

namespace CliOption

/-- `hasOptionName(name)`: the long name, or the short name when the name has one character. -/
def hasOptionName (o : CliOption) (name : OptionName) : Bool :=
  o.hasLongOptionName name || (name.size == 1 && o.hasShortOptionName (name.uncheckedAt 0))

/-- `isSameOption(rhs)`: the same short and the same long name. -/
def isSameOption (o rhs : CliOption) : Bool :=
  o.shortOption == rhs.shortOption && o.longOption.compare (.ioxString _ rhs.longOption) == .eq

/-- The two names of an option, which `isSameOption` compares. -/
def names (o : CliOption) : Char × List Char := (o.shortOption, o.longOption.chars)

theorem isSameOption_iff {o rhs : CliOption} : o.isSameOption rhs = true ↔ o.names = rhs.names := by
  rw [isSameOption, Bool.and_eq_true, beq_iff_eq, beq_iff_eq, IoxString.compare_eq,
    StringOrCharArray.bytes_ioxString, Std.compare_eq_iff_eq, names, names, Prod.mk.injEq]

end CliOption

namespace OptionDefinition

/-- `getOption(name)`: the first registered option with the name. -/
def getOption (d : OptionDefinition) (name : OptionName) : Option OptionWithDetails :=
  d.availableOptions.find? fun r ↦ r.hasOptionName name

theorem mem_of_getOption {d : OptionDefinition} {name : OptionName} {entry : OptionWithDetails}
    (h : d.getOption name = some entry) : entry ∈ d.availableOptions :=
  List.mem_of_find?_eq_some h

end OptionDefinition

/-- `Arguments`: `m_binaryName`, which `parse` sets to `argv[0]`, and `m_arguments`, a vector of
capacity `MAX_NUMBER_OF_ARGUMENTS`. -/
structure Arguments where
  binaryName : Option (List Char)
  arguments : List CliOption
  deriving DecidableEq

namespace Arguments

/-- `m_arguments.emplace_back(option)`, whose `false` on a full vector is ignored. -/
def emplaceBack (arguments : List CliOption) (option : CliOption) : List CliOption :=
  if arguments.length < maxNumberOfArguments then arguments ++ [option] else arguments

/-- `isSwitchSet(switchName)` -/
def isSwitchSet (a : Arguments) (switchName : OptionName) : Bool :=
  a.arguments.any fun o ↦ o.isSwitch && o.hasOptionName switchName

end Arguments

namespace CommandLineParser

open Arguments

/-- `doesOptionStartWithDash(option)` -/
def doesOptionStartWithDash (option : List Char) : Bool :=
  strnlen option 1 > 0 && option.getD 0 zero == '-'

/-- `hasNonEmptyOptionName(option)`: not a lone `-` or `--`. -/
def hasNonEmptyOptionName (option : List Char) : Bool :=
  let minArgIdentifierLength := strnlen option 3
  !(minArgIdentifierLength == 1 || (minArgIdentifierLength == 2 && option.getD 1 zero == '-'))

/-- `doesNotHaveLongOptionDash(option)`: after a single dash, one letter only. -/
def doesNotHaveLongOptionDash (option : List Char) : Bool :=
  !(strnlen option 3 > 2 && option.getD 1 zero != '-')

/-- `doesNotExceedLongOptionDash(option)`: no third dash. -/
def doesNotExceedLongOptionDash (option : List Char) : Bool :=
  !(strnlen option 3 > 2 && option.getD 2 zero == '-')

/-- `doesFitIntoString(value, maxLength)` -/
def doesFitIntoString (value : List Char) (maxLength : ℕ) : Bool :=
  strnlen value (maxLength + 1) ≤ maxLength

/-- `doesOptionNameFitIntoString(option)`, over the whole argument, dashes included. -/
def doesOptionNameFitIntoString (option : List Char) : Bool :=
  doesFitIntoString option maxOptionNameLength

/-- `doesOptionValueFitIntoString(value)` -/
def doesOptionValueFitIntoString (value : List Char) : Bool :=
  doesFitIntoString value maxOptionArgumentLength

/-- `hasLexicallyValidOption(value)` -/
def hasLexicallyValidOption (value : List Char) : Bool :=
  doesOptionStartWithDash value && hasNonEmptyOptionName value && doesNotHaveLongOptionDash value &&
    doesNotExceedLongOptionDash value && doesOptionNameFitIntoString value

/-- `isOptionSet(entry)` -/
def isOptionSet (arguments : List CliOption) (entry : CliOption) : Bool :=
  arguments.any fun option ↦ option.isSameOption entry

/-- The name the source reads after one or two dashes,
`OptionName_t(TruncateToCapacity, argv[i] + optionNameStart)`. -/
def optionName (option : List Char) : OptionName :=
  IoxString.truncateCString (some (option.drop (if option.getD 1 zero == '-' then 2 else 1)))

/-- The loop of `parse` over the arguments after the binary name: the arguments read, and
whether a check failed (and called the failure callback). -/
def parseLoop (d : OptionDefinition) : List CliOption → List (List Char) → List CliOption × Bool
  | arguments, [] => (arguments, false)
  | arguments, option :: rest =>
    if !hasLexicallyValidOption option then (arguments, true)
    else
      match d.getOption (optionName option) with
      | none => (arguments, true)
      | some optionEntry =>
        if isOptionSet arguments optionEntry.toCliOption then (arguments, true)
        else if optionEntry.type = .switch then
          parseLoop d ((emplaceBack arguments optionEntry.toCliOption).modifyLast
            fun o ↦ { o with value := OptionDefinition.emptyName, isSwitch := true }) rest
        else
          -- `doesOptionHasSucceedingValue`, then the value is the next argument
          match rest with
          | [] => (arguments, true)
          | value :: rest =>
            if !doesOptionValueFitIntoString value then (arguments, true)
            else
              parseLoop d ((emplaceBack arguments optionEntry.toCliOption).modifyLast
                fun o ↦ { o with value := (o.value.unsafeAssign (some value)).2, isSwitch := false })
                rest

/-- One pass of the loop of `setDefaultValuesToUnsetOptions`: an optional option not set yet is
added with its default value. -/
def setDefaultValue (arguments : List CliOption) (availableOption : OptionWithDetails) :
    List CliOption :=
  if availableOption.type != .optional then arguments
  else if arguments.any (·.isSameOption availableOption.toCliOption) then arguments
  else emplaceBack arguments availableOption.toCliOption

/-- `setDefaultValuesToUnsetOptions()` -/
def setDefaultValuesToUnsetOptions (d : OptionDefinition) (arguments : List CliOption) :
    List CliOption :=
  d.availableOptions.foldl setDefaultValue arguments

/-- `areAllRequiredValuesPresent()` -/
def areAllRequiredValuesPresent (d : OptionDefinition) (arguments : List CliOption) : Bool :=
  d.availableOptions.all fun availableOption ↦
    availableOption.type != .required || arguments.any (·.isSameOption availableOption.toCliOption)

/-- The name `help` of `isSwitchSet("help")`. -/
def helpName : OptionName := ⟨['h', 'e', 'l', 'p'], Nat.le_of_ble_eq_true rfl⟩

/-- `parse(optionSet, argc, argv, argcOffset)` with `argc` the length of `argv`: the arguments and
whether the failure callback was called. -/
def parse (d : OptionDefinition) (argv : List (List Char)) (argcOffset : ℕ) : Arguments × Bool :=
  match argv with
  | [] => (⟨none, []⟩, true)
  | binaryName :: _ =>
    let loop := parseLoop d [] (argv.drop (max argcOffset 1))
    if loop.2 then (⟨some binaryName, loop.1⟩, true)
    else
      let optionValue : Arguments :=
        ⟨some binaryName, setDefaultValuesToUnsetOptions d loop.1⟩
      (optionValue, optionValue.isSwitchSet helpName ||
        !areAllRequiredValuesPresent d optionValue.arguments)

/-- **A name is looked up under both syntaxes.** With the switch `-a, --alpha` registered,
`--a` is accepted and sets it, although no option has the long name `a`. With `--a` registered
before `-a, --beta`, the argument `-a` sets `--a`, not the option with the short name `a`.
Neither parse calls the failure callback. -/
theorem parse_resolves_names_across_syntaxes :
    let alpha : OptionName := ⟨['a', 'l', 'p', 'h', 'a'], by decide⟩
    let beta : OptionName := ⟨['b', 'e', 't', 'a'], by decide⟩
    let a : OptionName := ⟨['a'], by decide⟩
    let binaryName := ['p', zero]
    ((OptionDefinition.new.bind fun d ↦ d.addSwitch 'a' alpha).map fun d ↦
        (d.availableOptions.any (·.hasLongOptionName a),
          parse d [binaryName, ['-', '-', 'a', zero]] 1)) =
      .ok (false, ⟨some binaryName, [⟨'a', true, alpha, OptionDefinition.emptyName⟩]⟩, false) ∧
    ((OptionDefinition.new.bind fun d ↦ (d.addSwitch noShortOption a).bind fun d ↦
          d.addSwitch 'a' beta).map fun d ↦
        (d.availableOptions.map (·.shortOption), parse d [binaryName, ['-', 'a', zero]] 1)) =
      .ok (['h', noShortOption, 'a'],
        ⟨some binaryName, [⟨noShortOption, true, a, OptionDefinition.emptyName⟩]⟩, false) :=
  ⟨rfl, rfl⟩

/-! ### Each option at most once, and every required and optional one -/

section Names

open CliOption

variable {d : OptionDefinition}

theorem isOptionSet_eq_false_iff {arguments : List CliOption} {entry : CliOption} :
    isOptionSet arguments entry = false ↔ entry.names ∉ arguments.map names := by
  simp [isOptionSet, isSameOption_iff]

theorem map_names_modifyLast {f : CliOption → CliOption} (hf : ∀ o, (f o).names = o.names)
    (l : List CliOption) : (l.modifyLast f).map names = l.map names := by
  rcases l.eq_nil_or_concat' with rfl | ⟨l', o, rfl⟩
  · rfl
  · rw [List.modifyLast_concat, List.map_append, List.map_append, List.map_singleton,
      List.map_singleton, hf]

theorem map_names_emplaceBack (arguments : List CliOption) (o : CliOption) :
    (emplaceBack arguments o).map names =
      if arguments.length < maxNumberOfArguments then arguments.map names ++ [o.names]
      else arguments.map names := by
  unfold emplaceBack
  split_ifs <;> simp

/-- Arguments read with a definition: registered options, each at most once. -/
structure Registered (d : OptionDefinition) (arguments : List CliOption) : Prop where
  nodup : (arguments.map names).Nodup
  subset : arguments.map names ⊆ d.availableOptions.map (·.names)

theorem registered_nil : Registered d [] :=
  ⟨List.nodup_nil, List.nil_subset _⟩

/-- Changing the value of the last argument keeps its names. -/
theorem Registered.modify {arguments : List CliOption} (h : Registered d arguments)
    {f : CliOption → CliOption} (hf : ∀ o, (f o).names = o.names) :
    Registered d (arguments.modifyLast f) :=
  ⟨by rw [map_names_modifyLast hf]; exact h.nodup, by rw [map_names_modifyLast hf]; exact h.subset⟩

/-- Adding a registered option that is not set yet. -/
theorem Registered.push {arguments : List CliOption} (h : Registered d arguments) {o : CliOption}
    (hmem : o.names ∈ d.availableOptions.map (·.names)) (hnew : o.names ∉ arguments.map names) :
    Registered d (emplaceBack arguments o) := by
  constructor <;> rw [map_names_emplaceBack] <;> split_ifs
  · refine List.nodup_append.2 ⟨h.nodup, List.pairwise_singleton _ _, ?_⟩
    rintro n hn m hm rfl
    exact hnew (List.mem_singleton.1 hm ▸ hn)
  · exact h.nodup
  · exact List.append_subset.2 ⟨h.subset, fun n hn ↦ List.mem_singleton.1 hn ▸ hmem⟩
  · exact h.subset

/-- **The loop reads registered options, each at most once**: `getOption` returns a registered
option, and `isOptionSet` refuses one already read. -/
theorem registered_parseLoop {arguments : List CliOption} (h : Registered d arguments)
    (argv : List (List Char)) : Registered d (parseLoop d arguments argv).1 := by
  revert h
  fun_induction parseLoop d arguments argv with
  | case5 arguments option rest _ optionEntry hget hset _ ih =>
    intro h
    exact ih ((h.push (List.mem_map_of_mem (OptionDefinition.mem_of_getOption hget))
      (isOptionSet_eq_false_iff.1 (Bool.eq_false_iff.2 hset))).modify fun _ ↦ rfl)
  | case8 arguments option _ optionEntry hget hset _ value rest _ ih =>
    intro h
    exact ih ((h.push (List.mem_map_of_mem (OptionDefinition.mem_of_getOption hget))
      (isOptionSet_eq_false_iff.1 (Bool.eq_false_iff.2 hset))).modify fun _ ↦ rfl)
  | _ => exact id

theorem registered_setDefaultValue {arguments : List CliOption} (h : Registered d arguments)
    {o : OptionWithDetails} (ho : o ∈ d.availableOptions) :
    Registered d (setDefaultValue arguments o) := by
  unfold setDefaultValue
  split_ifs with htype hset
  · exact h
  · exact h
  · exact h.push (List.mem_map_of_mem ho) (isOptionSet_eq_false_iff.1 (Bool.eq_false_iff.2 hset))

theorem registered_foldl_setDefaultValue : ∀ {opts : List OptionWithDetails}
    {arguments : List CliOption}, (∀ o ∈ opts, o ∈ d.availableOptions) → Registered d arguments →
    Registered d (opts.foldl setDefaultValue arguments)
  | [], _, _, h => h
  | o :: _, _, hopts, h => by
    rw [List.foldl_cons]
    exact registered_foldl_setDefaultValue (fun o' ho' ↦ hopts o' (List.mem_cons_of_mem o ho'))
      (registered_setDefaultValue h (hopts o List.mem_cons_self))

theorem subset_setDefaultValue (arguments : List CliOption) (o : OptionWithDetails) :
    arguments.map names ⊆ (setDefaultValue arguments o).map names := by
  unfold setDefaultValue
  split_ifs
  · exact List.Subset.refl _
  · exact List.Subset.refl _
  · rw [map_names_emplaceBack]
    split_ifs
    · exact List.subset_append_left _ _
    · exact List.Subset.refl _

theorem subset_foldl_setDefaultValue : ∀ (opts : List OptionWithDetails)
    (arguments : List CliOption),
    arguments.map names ⊆ (opts.foldl setDefaultValue arguments).map names
  | [], _ => List.Subset.refl _
  | o :: opts, arguments =>
    List.Subset.trans (subset_setDefaultValue arguments o)
      (subset_foldl_setDefaultValue opts (setDefaultValue arguments o))

/-- **An optional option that is not set gets its default**: the vector has room for every
registered option, so the option is appended as it was defined. -/
theorem setDefaultValue_of_not_mem (hd : (d.availableOptions.map (·.names)).Nodup)
    {arguments : List CliOption} (h : Registered d arguments) {o : OptionWithDetails}
    (ho : o ∈ d.availableOptions) (hopt : o.type = .optional)
    (hnew : o.names ∉ arguments.map names) :
    setDefaultValue arguments o = arguments ++ [o.toCliOption] := by
  unfold setDefaultValue
  rw [if_neg (by simp [hopt]), if_neg (by simpa [isSameOption_iff] using hnew)]
  -- the arguments are registered options other than this one
  have hsub : arguments.map names ⊆ (d.availableOptions.map (·.names)).erase o.names := by
    intro n hn
    rw [hd.mem_erase_iff]
    exact ⟨fun heq ↦ hnew (heq ▸ hn), h.subset hn⟩
  have hle := h.nodup.length_le_of_subset hsub
  rw [List.length_erase_of_mem (List.mem_map_of_mem ho), List.length_map, List.length_map] at hle
  have hsize := d.size_le
  have hpos : 0 < d.availableOptions.length := List.length_pos_of_mem ho
  rw [emplaceBack, if_pos (by omega)]

/-- **An optional option is there after its pass**: set before, or added. -/
theorem mem_setDefaultValue (hd : (d.availableOptions.map (·.names)).Nodup)
    {arguments : List CliOption} (h : Registered d arguments) {o : OptionWithDetails}
    (ho : o ∈ d.availableOptions) (hopt : o.type = .optional) :
    o.names ∈ (setDefaultValue arguments o).map names := by
  by_cases hset : o.names ∈ arguments.map names
  · exact subset_setDefaultValue arguments o hset
  · rw [setDefaultValue_of_not_mem hd h ho hopt hset, List.map_append]
    exact List.mem_append_right _ (List.mem_singleton_self _)

/-- A pass only appends: the arguments already there stay. -/
theorem subset_foldl_setDefaultValue_arguments : ∀ (opts : List OptionWithDetails)
    (arguments : List CliOption), arguments ⊆ opts.foldl setDefaultValue arguments
  | [], _ => List.Subset.refl _
  | o :: opts, arguments => by
    refine List.Subset.trans ?_ (subset_foldl_setDefaultValue_arguments opts _)
    unfold setDefaultValue emplaceBack
    split_ifs <;> simp

/-- **The passes give every unset optional option its default**, for options of pairwise
different names: the passes before its own add options of other names. -/
theorem default_mem_foldl_setDefaultValue (hd : (d.availableOptions.map (·.names)).Nodup) :
    ∀ {opts : List OptionWithDetails} {arguments : List CliOption},
    (∀ o ∈ opts, o ∈ d.availableOptions) → (opts.map (·.names)).Nodup → Registered d arguments →
    ∀ o ∈ opts, o.type = .optional → o.names ∉ arguments.map names →
      o.toCliOption ∈ opts.foldl setDefaultValue arguments
  | [], _, _, _, _, _, ho, _, _ => absurd ho List.not_mem_nil
  | o' :: opts, arguments, hopts, hnodup, h, o, ho, hopt, hnew => by
    rw [List.foldl_cons]
    rw [List.map_cons, List.nodup_cons] at hnodup
    rcases List.mem_cons.1 ho with rfl | ho
    · -- its own pass appends it, and the later passes keep it
      refine subset_foldl_setDefaultValue_arguments opts _ ?_
      rw [setDefaultValue_of_not_mem hd h (hopts _ List.mem_cons_self) hopt hnew]
      exact List.mem_append_right _ (List.mem_singleton_self _)
    · -- the pass of `o'` adds at most `o'`, whose names differ
      have hne : o.names ≠ o'.names := fun heq ↦ hnodup.1 (heq ▸ List.mem_map_of_mem ho)
      have hnew' : o.names ∉ (setDefaultValue arguments o').map names := by
        unfold setDefaultValue
        split_ifs
        · exact hnew
        · exact hnew
        · rw [map_names_emplaceBack]
          split_ifs
          · simpa [hne] using hnew
          · exact hnew
      exact default_mem_foldl_setDefaultValue hd
        (fun o'' ho'' ↦ hopts o'' (List.mem_cons_of_mem o' ho'')) hnodup.2
        (registered_setDefaultValue h (hopts o' List.mem_cons_self)) o ho hopt hnew'

theorem mem_foldl_setDefaultValue (hd : (d.availableOptions.map (·.names)).Nodup) :
    ∀ {opts : List OptionWithDetails} {arguments : List CliOption},
    (∀ o ∈ opts, o ∈ d.availableOptions) → Registered d arguments →
    ∀ o ∈ opts, o.type = .optional → o.names ∈ (opts.foldl setDefaultValue arguments).map names
  | [], _, _, _, _, ho, _ => absurd ho List.not_mem_nil
  | o' :: opts, arguments, hopts, h, o, ho, hopt => by
    rw [List.foldl_cons]
    rcases List.mem_cons.1 ho with rfl | ho
    · exact subset_foldl_setDefaultValue opts _
        (mem_setDefaultValue hd h (hopts _ List.mem_cons_self) hopt)
    · exact mem_foldl_setDefaultValue hd (fun o'' ho'' ↦ hopts o'' (List.mem_cons_of_mem o' ho''))
        (registered_setDefaultValue h (hopts o' List.mem_cons_self)) o ho hopt

theorem mem_of_areAllRequiredValuesPresent {arguments : List CliOption}
    (h : areAllRequiredValuesPresent d arguments = true) {o : OptionWithDetails}
    (ho : o ∈ d.availableOptions) (hreq : o.type = .required) : o.names ∈ arguments.map names := by
  have := List.all_eq_true.1 h o ho
  simp only [hreq, bne_self_eq_false, Bool.false_or, List.any_eq_true, isSameOption_iff] at this
  obtain ⟨a, ha, hsame⟩ := this
  exact List.mem_map.2 ⟨a, ha, hsame⟩

/-- **`addOption` keeps the names of the registered options pairwise different**: it refuses an
option without a name, and one whose long or short name is registered. -/
theorem nodup_names_addOption {d' : OptionDefinition} {option : OptionWithDetails}
    (hd : (d.availableOptions.map (·.names)).Nodup) (h : d.addOption option = .ok d') :
    (d'.availableOptions.map (·.names)).Nodup := by
  unfold OptionDefinition.addOption at h
  split_ifs at h with hempty hdash hshort hregistered
  cases h
  unfold OptionDefinition.emplaceBack
  split_ifs with hroom
  · rw [List.map_append, List.map_singleton]
    refine List.nodup_append.2 ⟨hd, List.pairwise_singleton _ _, ?_⟩
    rintro n hn m hm rfl
    obtain ⟨r, hr, rfl⟩ := List.mem_map.1 hn
    obtain ⟨hs, hl⟩ := Prod.mk.inj (List.mem_singleton.1 hm)
    -- the registered option holds the new one's short name, or else its long name
    refine hregistered (List.any_eq_true.2 ⟨r, hr, ?_⟩)
    by_cases hno : option.shortOption = noShortOption
    · have hsize : option.longOption.chars ≠ [] := by
        intro hnil
        simp [CliOption.isEmpty, hno, IoxString.size, hnil] at hempty
      simp [CliOption.hasLongOptionName, IoxString.compare_eq, IoxString.size, hl, hsize]
    · simp [CliOption.hasShortOptionName, hs, hno]
  · exact hd

/-- **No option is set twice**, whatever the arguments and wherever the parse stops. -/
theorem parse_pairwise (d : OptionDefinition) (argv : List (List Char)) (argcOffset : ℕ) :
    ((parse d argv argcOffset).1.arguments.map names).Nodup := by
  cases argv with
  | nil => exact List.nodup_nil
  | cons binaryName rest =>
    have hloop := registered_parseLoop (registered_nil (d := d))
      ((binaryName :: rest).drop (max argcOffset 1))
    unfold parse
    dsimp only
    split_ifs
    · exact hloop.nodup
    · exact (registered_foldl_setDefaultValue (fun _ h ↦ h) hloop).nodup

/-- **A parse without failure holds every required and every optional option**, for a definition
whose options have pairwise different names; an optional option that the command line did not
set holds its default value. -/
theorem parse_holds_required_and_optional (hd : (d.availableOptions.map (·.names)).Nodup)
    {argv : List (List Char)} {argcOffset : ℕ} (h : (parse d argv argcOffset).2 = false) :
    (∀ o ∈ d.availableOptions, o.type ≠ .switch →
      o.names ∈ (parse d argv argcOffset).1.arguments.map names) ∧
    (∀ o ∈ d.availableOptions, o.type = .optional →
      o.names ∉ (parseLoop d [] (argv.drop (max argcOffset 1))).1.map names →
      o.toCliOption ∈ (parse d argv argcOffset).1.arguments) := by
  cases argv with
  | nil => cases h
  | cons binaryName rest =>
    have hloop := registered_parseLoop (registered_nil (d := d))
      ((binaryName :: rest).drop (max argcOffset 1))
    unfold parse at h ⊢
    dsimp only at h ⊢
    split_ifs at h ⊢ with hfail
    simp only [Bool.or_eq_false_iff, Bool.not_eq_false'] at h
    refine ⟨fun o ho htype ↦ ?_, fun o ho hopt hnew ↦
      default_mem_foldl_setDefaultValue hd (fun _ h ↦ h) hd hloop o ho hopt hnew⟩
    cases hkind : o.type with
    | switch => exact absurd hkind htype
    | required => exact mem_of_areAllRequiredValuesPresent h.2 ho hkind
    | optional => exact mem_foldl_setDefaultValue hd (fun _ h ↦ h) hloop o ho hkind

end Names

/-- A required option `-n`/`--name`, given as `-n x`, and an optional `-v`/`--value` with the
default `1`, not given. -/
theorem parse_holds_required_and_optional_of_name :
    let name : OptionWithDetails := ⟨⟨'n', false, ⟨"name".toList, Nat.le_of_ble_eq_true rfl⟩,
      ⟨[], Nat.le_of_ble_eq_true rfl⟩⟩, .required⟩
    let value : OptionWithDetails := ⟨⟨'v', false, ⟨"value".toList, Nat.le_of_ble_eq_true rfl⟩,
      ⟨['1'], Nat.le_of_ble_eq_true rfl⟩⟩, .optional⟩
    let d : OptionDefinition := ⟨[name, value], Nat.le_of_ble_eq_true rfl⟩
    (∀ o ∈ d.availableOptions, o.type ≠ .switch →
      o.names ∈ (parse d ["app".toList, "-n".toList, "x".toList] 1).1.arguments.map
        CliOption.names) ∧
    (∀ o ∈ d.availableOptions, o.type = .optional →
      o.names ∉ (parseLoop d [] (["app".toList, "-n".toList, "x".toList].drop (max 1 1))).1.map
        CliOption.names →
      o.toCliOption ∈ (parse d ["app".toList, "-n".toList, "x".toList] 1).1.arguments) :=
  @parse_holds_required_and_optional _ (by decide) _ 1 (by decide)

end CommandLineParser

end Iox.Cli
