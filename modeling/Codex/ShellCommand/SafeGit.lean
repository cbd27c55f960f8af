import Codex.Lib.Delimiter
import Codex.Lib.OptionWords
import Codex.ShellCommand.DangerousCommand

/-!
# Git commands that are approved without asking

`shell-command/src/command_safety/is_safe_command.rs`: `is_safe_git_command`, and what git makes of
the words of a command that it accepts.
-/

namespace Codex.ShellCommand

open Text

/-- `GitOptionPattern` (`is_safe_command.rs:418`). -/
inductive GitOptionPattern where
  | exact (option : Text)
  | shortWithInlineValue (option : Text)
  | prefixed (start : Text)
  | longWithAbbreviation (option : Text)

/-- `GitOptionPattern::matches` (`is_safe_command.rs:454`). -/
def GitOptionPattern.matches (pattern : GitOptionPattern) (arg : Text) : Bool :=
  match pattern with
  | exact option => arg = option
  | shortWithInlineValue option => option.isPrefixOf arg && utf8Len option < utf8Len arg
  | prefixed start => start.isPrefixOf arg
  | longWithAbbreviation option =>
      let name := ((splitOnce "=".toList arg).map Prod.fst).getD arg
      "--".toList.isPrefixOf name && 2 < utf8Len name && name.isPrefixOf option

/-- `UNSAFE_GIT_GLOBAL_OPTIONS` (`is_safe_command.rs:425`). -/
def UNSAFE_GIT_GLOBAL_OPTIONS : List GitOptionPattern :=
  [.exact "-C".toList, .shortWithInlineValue "-C".toList, .exact "-c".toList,
    .shortWithInlineValue "-c".toList, .exact "-p".toList, .exact "--config-env".toList,
    .prefixed "--config-env=".toList, .exact "--exec-path".toList,
    .prefixed "--exec-path=".toList, .exact "--git-dir".toList, .prefixed "--git-dir=".toList,
    .exact "--namespace".toList, .prefixed "--namespace=".toList, .exact "--paginate".toList,
    .exact "--super-prefix".toList, .prefixed "--super-prefix=".toList,
    .exact "--work-tree".toList, .prefixed "--work-tree=".toList]

/-- `UNSAFE_GIT_SUBCOMMAND_OPTIONS` (`is_safe_command.rs:446`). -/
def UNSAFE_GIT_SUBCOMMAND_OPTIONS : List GitOptionPattern :=
  [.longWithAbbreviation "--output".toList, .longWithAbbreviation "--ext-diff".toList,
    .longWithAbbreviation "--textconv".toList, .longWithAbbreviation "--exec".toList]

/-- `git_matches_option_pattern` (`is_safe_command.rs:472`). -/
def gitMatchesOptionPattern (arg : Text) (patterns : List GitOptionPattern) : Bool :=
  patterns.any fun pattern => pattern.matches arg

/-- The value of `-c` that is let through. -/
def fsmonitorFalse : Text := "core.fsmonitor=false".toList

/-- The same in one word. -/
def fsmonitorFalseWord : Text := "-ccore.fsmonitor=false".toList

/-- `git_has_unsafe_global_option` (`is_safe_command.rs:476`). -/
def gitHasUnsafeGlobalOption : List Text → Bool
  | [] => false
  | [arg] =>
      if arg = fsmonitorFalseWord then false
      else if arg = "-c".toList then true
      else gitMatchesOptionPattern arg UNSAFE_GIT_GLOBAL_OPTIONS
  | arg :: next :: args =>
      if arg = fsmonitorFalseWord then gitHasUnsafeGlobalOption (next :: args)
      else if arg = "-c".toList then
        if next ≠ fsmonitorFalse then true else gitHasUnsafeGlobalOption args
      else if gitMatchesOptionPattern arg UNSAFE_GIT_GLOBAL_OPTIONS then true
      else gitHasUnsafeGlobalOption (next :: args)

/-- `git_subcommand_args_are_read_only` (`is_safe_command.rs:494`). -/
def gitSubcommandArgsAreReadOnly (args : List Text) : Bool :=
  !args.any fun arg => gitMatchesOptionPattern arg UNSAFE_GIT_SUBCOMMAND_OPTIONS

/-- `git_status_disables_optional_locks` (`is_safe_command.rs:372`). -/
def gitStatusDisablesOptionalLocks (globalArgs : List Text) : Bool :=
  globalArgs.any fun arg => arg = "--no-optional-locks".toList

/-- `git_fsmonitor_disabled` (`is_safe_command.rs:376`). -/
def gitFsmonitorDisabled (globalArgs : List Text) : Bool :=
  (globalArgs.any fun arg => arg = fsmonitorFalseWord) ||
    (globalArgs.zip globalArgs.tail).any fun args =>
      args.1 = "-c".toList && args.2 = fsmonitorFalse

/-- The flags of `git branch` that only list. -/
def GIT_BRANCH_LISTING_FLAGS : List Text :=
  ["--list".toList, "-l".toList, "--show-current".toList, "-a".toList, "--all".toList,
    "-r".toList, "--remotes".toList, "-v".toList, "-vv".toList, "--verbose".toList]

/-- The loop of `git_branch_is_read_only` (`is_safe_command.rs:395`). -/
def gitBranchFlagsAreReadOnly : (sawReadOnlyFlag : Bool) → List Text → Bool
  | sawReadOnlyFlag, [] => sawReadOnlyFlag
  | _, arg :: args =>
      if GIT_BRANCH_LISTING_FLAGS.contains arg || "--format=".toList.isPrefixOf arg then
        gitBranchFlagsAreReadOnly true args
      else false

/-- `git_branch_is_read_only` (`is_safe_command.rs:388`). -/
def gitBranchIsReadOnly (branchArgs : List Text) : Bool :=
  if branchArgs.isEmpty then true else gitBranchFlagsAreReadOnly false branchArgs

def GIT_READ_ONLY_SUBCOMMANDS : List Text := ["diff".toList, "branch".toList, "status".toList]

/-- The checks of a subcommand (`is_safe_command.rs:315`). -/
def isSafeGitSubcommand (globalArgs : List Text) (subcommand : Text)
    (subcommandArgs : List Text) : Bool :=
  if subcommand = "diff".toList then
    let options := subcommandArgs.takeWhile fun arg => arg ≠ "--".toList
    gitSubcommandArgsAreReadOnly subcommandArgs && gitFsmonitorDisabled globalArgs &&
      (options.any fun arg => arg = "--no-ext-diff".toList) &&
      options.any fun arg => arg = "--no-textconv".toList
  else if subcommand = "branch".toList then
    gitSubcommandArgsAreReadOnly subcommandArgs && gitBranchIsReadOnly subcommandArgs
  else if subcommand = "status".toList then
    gitStatusDisablesOptionalLocks globalArgs && gitFsmonitorDisabled globalArgs
  else false

/-- `is_safe_git_command` (`is_safe_command.rs:301`). -/
def isSafeGitCommand (fileName : Text → Option Text) (command : List Text) : Bool :=
  (findGitSubcommand fileName command GIT_READ_ONLY_SUBCOMMANDS).any fun found =>
    let globalArgs := command.tail.take (found.1 - 1)
    !gitHasUnsafeGlobalOption globalArgs &&
      isSafeGitSubcommand globalArgs found.2 (command.drop (found.1 + 1))

/-- The global options of git that take the next word as their value. -/
def GIT_GLOBAL_VALUE_OPTIONS : List Text :=
  ["-C".toList, "-c".toList, "--git-dir".toList, "--work-tree".toList, "--namespace".toList,
    "--config-env".toList, "--super-prefix".toList, "--attr-source".toList,
    "--shallow-file".toList]

/-- Global options are read up to the first word that is none. -/
def gitGlobalWords : OptionWords Text where
  isOption word := "-".toList.isPrefixOf word
  takesNext word := GIT_GLOBAL_VALUE_OPTIONS.contains word

/-- The options of diff that take the next word as their value when they are written alone. -/
def isDiffValueOption (word : Text) : Bool :=
  ["-S".toList, "-G".toList, "-O".toList].contains word

def gitDiffWords : OptionWords Text where
  isOption _ := true
  takesNext := isDiffValueOption

/-- What a global option sets: an assignment, or one whose value is an environment variable. -/
inductive GitSetting where
  | value (assignment : Text)
  | fromEnvironment (assignment : Text)
  deriving DecidableEq

/-- The setting of `-c` and `--config-env`, with the value in the word or behind it. -/
def gitSettingOf (option : Text × Option Text) : Option GitSetting :=
  if option.1 = "-c".toList then option.2.map .value
  else if option.1 = "--config-env".toList then option.2.map .fromEnvironment
  else ((stripPrefix "-c".toList option.1).map .value).orElse fun _ =>
    (stripPrefix "--config-env=".toList option.1).map .fromEnvironment

/-- A word gives a long option: a prefix of its name beyond the dashes, and maybe a value. -/
def Spells (option word : Text) : Prop :=
  ∃ name rest, word = name ++ rest ∧ name <+: option ∧ 2 < name.length ∧
    (rest = [] ∨ rest.head? = some '=')

/-- An argument of `git branch` that only lists. -/
def IsListingOption (arg : Text) : Prop :=
  arg ∈ GIT_BRANCH_LISTING_FLAGS ∨ "--format=".toList <+: arg

/-- What git does with the words behind its name is the subcommand at an index, and it only
    reads. -/
structure ReadsOnly (words : List Text) (subcommand : Text) (subcommandArgs : List Text) :
    Prop where
  runs : (gitGlobalWords.read words).2 = subcommand :: subcommandArgs
  settings : ∀ setting ∈ (gitGlobalWords.read words).1.filterMap gitSettingOf,
    setting = .value fsmonitorFalse
  fsmonitor : subcommand = "diff".toList ∨ subcommand = "status".toList →
    .value fsmonitorFalse ∈ (gitGlobalWords.read words).1.filterMap gitSettingOf
  locks : subcommand = "status".toList →
    ("--no-optional-locks".toList, none) ∈ (gitGlobalWords.read words).1
  diff : subcommand = "diff".toList →
    let options := (gitDiffWords.read (subcommandArgs.takeWhile fun arg => arg ≠ "--".toList)).1
    ("--no-ext-diff".toList, none) ∈ options ∧ ("--no-textconv".toList, none) ∈ options ∧
      ∀ option ∈ options, ∀ writer ∈ ["--output".toList, "--ext-diff".toList,
        "--textconv".toList, "--exec".toList], ¬Spells writer option.1
  branch : subcommand = "branch".toList → ∀ arg ∈ subcommandArgs, IsListingOption arg

variable {arg subcommand : Text} {args words : List Text}

theorem startsWithDash_of_inlineValue (inlineValue : isGitGlobalOptionWithInlineValue arg = true) :
    "-".toList.isPrefixOf arg = true := by
  rw [List.isPrefixOf_iff_prefix]
  rw [isGitGlobalOptionWithInlineValue, Bool.or_eq_true, List.any_eq_true, Bool.and_eq_true,
    Bool.or_eq_true, List.isPrefixOf_iff_prefix, List.isPrefixOf_iff_prefix] at inlineValue
  rcases inlineValue with ⟨start, member, isStart⟩ | ⟨isStart | isStart, _⟩
  · have dashed : ∀ start ∈ ["--config-env=".toList, "--exec-path=".toList, "--git-dir=".toList,
        "--namespace=".toList, "--super-prefix=".toList, "--work-tree=".toList],
        "-".toList <+: start := by decide
    exact (dashed start member).trans (List.isPrefixOf_iff_prefix.mp isStart)
  · exact (by decide : "-".toList <+: "-C".toList).trans isStart
  · exact (by decide : "-".toList <+: "-c".toList).trans isStart

theorem gitHasUnsafeGlobalOption_setting (value : Text) (args : List Text) :
    gitHasUnsafeGlobalOption ("-c".toList :: value :: args) =
      (value ≠ fsmonitorFalse || gitHasUnsafeGlobalOption args) := by
  rw [gitHasUnsafeGlobalOption, if_neg (by decide), if_pos rfl]
  by_cases isFalse : value = fsmonitorFalse
  · rw [if_neg (not_not.mpr isFalse), isFalse]
    rfl
  · rw [if_pos isFalse, decide_eq_true isFalse, Bool.true_or]

theorem gitHasUnsafeGlobalOption_flag (flag : arg ≠ "-c".toList) (args : List Text) :
    gitHasUnsafeGlobalOption (arg :: args) =
      ((arg ≠ fsmonitorFalseWord && gitMatchesOptionPattern arg UNSAFE_GIT_GLOBAL_OPTIONS) ||
        gitHasUnsafeGlobalOption args) := by
  by_cases isFalse : arg = fsmonitorFalseWord
  · subst isFalse
    cases args with
    | nil => rfl
    | cons next args =>
      rw [gitHasUnsafeGlobalOption, if_pos rfl]
      rfl
  rw [decide_eq_true isFalse, Bool.true_and]
  cases args with
  | nil =>
    have none : gitHasUnsafeGlobalOption [] = false := rfl
    rw [none, Bool.or_false, gitHasUnsafeGlobalOption, if_neg isFalse, if_neg flag]
  | cons next args =>
    rw [gitHasUnsafeGlobalOption, if_neg isFalse, if_neg flag]
    cases gitMatchesOptionPattern arg UNSAFE_GIT_GLOBAL_OPTIONS <;> rfl

/-- Global words that are let through: `-c core.fsmonitor=false`, and flags that no pattern of
    unsafe options matches. -/
inductive LetThrough : List Text → Prop where
  | nil : LetThrough []
  | setting {args : List Text} (later : LetThrough args) :
      LetThrough ("-c".toList :: fsmonitorFalse :: args)
  | flag {arg : Text} {args : List Text} (isOption : "-".toList.isPrefixOf arg = true)
      (isFlag : arg ≠ "-c".toList)
      (harmless : arg = fsmonitorFalseWord ∨
        gitMatchesOptionPattern arg UNSAFE_GIT_GLOBAL_OPTIONS = false)
      (later : LetThrough args) : LetThrough (arg :: args)

theorem LetThrough.of_flag (isOption : "-".toList.isPrefixOf arg = true)
    (isFlag : arg ≠ "-c".toList) (harmless : gitHasUnsafeGlobalOption (arg :: args) = false)
    (later : gitHasUnsafeGlobalOption args = false → LetThrough args) :
    LetThrough (arg :: args) := by
  rw [gitHasUnsafeGlobalOption_flag isFlag, Bool.or_eq_false_iff, Bool.and_eq_false_iff,
    decide_eq_false_iff_not, not_not] at harmless
  exact .flag isOption isFlag harmless.1 (later harmless.2)

theorem matches_of_withValue (withValue : isGitGlobalOptionWithValue arg = true)
    (flag : arg ≠ "-c".toList) :
    gitMatchesOptionPattern arg UNSAFE_GIT_GLOBAL_OPTIONS = true ∧ arg ≠ fsmonitorFalseWord := by
  have all : ∀ arg ∈ ["-C".toList, "-c".toList, "--config-env".toList, "--exec-path".toList,
      "--git-dir".toList, "--namespace".toList, "--super-prefix".toList, "--work-tree".toList],
      arg ≠ "-c".toList → gitMatchesOptionPattern arg UNSAFE_GIT_GLOBAL_OPTIONS = true ∧
        arg ≠ fsmonitorFalseWord := by decide
  exact all arg (List.contains_iff_mem.mp withValue) flag

/-- What the scan makes of the words in front of a subcommand, with a value to be skipped first or
    not. -/
def Scanned : (skipNext : Bool) → List Text → Prop
  | false, front => gitHasUnsafeGlobalOption front = false → LetThrough front
  | true, front => ∃ value args, front = value :: args ∧
      (gitHasUnsafeGlobalOption args = false → LetThrough args)

theorem Scanned.withValue {front : List Text} (scanned : Scanned true front)
    (withValue : isGitGlobalOptionWithValue arg = true) : Scanned false (arg :: front) := by
  obtain ⟨value, args, rfl, letThrough⟩ := scanned
  intro harmless
  by_cases isSetting : arg = "-c".toList
  · rw [isSetting, gitHasUnsafeGlobalOption_setting, Bool.or_eq_false_iff,
      decide_eq_false_iff_not, not_not] at harmless
    rw [isSetting, harmless.1]
    exact .setting (letThrough harmless.2)
  · obtain ⟨matched, other⟩ := matches_of_withValue withValue isSetting
    rw [gitHasUnsafeGlobalOption_flag isSetting, matched, decide_eq_true other] at harmless
    cases harmless

/-- The subcommand that is found, and the words in front of it. -/
theorem findGitSubcommandFrom_eq_some {subcommands : List Text} {idx index : Nat} {skipNext : Bool}
    (found : findGitSubcommandFrom subcommands skipNext idx words = some (index, subcommand)) :
    ∃ front back, words = front ++ subcommand :: back ∧ index = idx + front.length ∧
      subcommand ∈ subcommands ∧ "-".toList.isPrefixOf subcommand = false ∧
      Scanned skipNext front := by
  induction words generalizing idx skipNext with
  | nil =>
    rw [findGitSubcommandFrom] at found
    cases found
  | cons arg words ih =>
    -- Every branch but the last two goes on behind the word.
    have further : ∀ {skip : Bool},
        findGitSubcommandFrom subcommands skip (idx + 1) words = some (index, subcommand) →
        (∀ front, Scanned skip front → Scanned skipNext (arg :: front)) →
        ∃ front back, arg :: words = front ++ subcommand :: back ∧ index = idx + front.length ∧
          subcommand ∈ subcommands ∧ "-".toList.isPrefixOf subcommand = false ∧
          Scanned skipNext front := by
      intro skip later carries
      obtain ⟨front, back, rfl, rfl, isSubcommand, noOption, scanned⟩ := ih later
      refine ⟨arg :: front, back, rfl, ?_, isSubcommand, noOption, carries front scanned⟩
      rw [List.length_cons, Nat.add_assoc, Nat.add_comm 1]
    cases skipNext with
    | true =>
      rw [findGitSubcommandFrom] at found
      exact further found fun front letThrough => ⟨arg, front, rfl, letThrough⟩
    | false =>
      rw [findGitSubcommandFrom] at found
      split at found
      · next inlineValue =>
        refine further found fun front letThrough harmless => ?_
        refine .of_flag (startsWithDash_of_inlineValue inlineValue) ?_ harmless letThrough
        rintro rfl
        exact absurd inlineValue (by decide)
      split at found
      · next withValue => exact further found fun front scanned => scanned.withValue withValue
      next noValue =>
      split at found
      · next isOption =>
        refine further found fun front letThrough harmless => ?_
        refine .of_flag ?_ ?_ harmless letThrough
        · rw [Bool.or_eq_true, decide_eq_true_eq] at isOption
          rcases isOption with rfl | isOption
          · rfl
          · exact isOption
        · rintro rfl
          exact noValue (by decide)
      next noOption =>
      rw [Bool.or_eq_true, not_or, Bool.not_eq_true] at noOption
      split at found
      · next member =>
        obtain ⟨rfl, rfl⟩ := Prod.mk.inj (Option.some.inj found)
        refine ⟨[], words, rfl, rfl, List.contains_iff_mem.mp member, ?_, fun _ => .nil⟩
        exact Bool.eq_false_iff.mpr noOption.2
      · cases found

/-- The options of git with a value that the scan takes for flags. -/
def isMissedValueOption (word : Text) : Bool :=
  ["--attr-source".toList, "--shallow-file".toList].contains word

/-- Where an even number of such options stands at the end, and in front of every `-c`, neither the
    subcommand nor a `-c` is a value. -/
structure Undisturbed (words : List Text) : Prop where
  last : Even (OptionWords.trailing isMissedValueOption words)
  setting : ∀ front back, words = front ++ "-c".toList :: back →
    Even (OptionWords.trailing isMissedValueOption front)

theorem undisturbed_nil : Undisturbed [] where
  last := Even.zero
  setting front back same :=
    absurd same.symm (List.append_ne_nil_of_right_ne_nil front (List.cons_ne_nil _ back))

theorem undisturbed_flag
    (alone : isMissedValueOption arg = false) : Undisturbed (arg :: words) ↔ Undisturbed words := by
  constructor
  · rintro ⟨last, setting⟩
    refine ⟨?_, fun front back same => ?_⟩
    · rw [OptionWords.trailing_cons_alone alone] at last
      exact last
    · rw [← OptionWords.trailing_cons_alone alone]
      exact setting (arg :: front) back (congrArg (List.cons arg) same)
  rintro ⟨last, setting⟩
  refine ⟨?_, fun front back same => ?_⟩
  · rw [OptionWords.trailing_cons_alone alone]
    exact last
  cases front with
  | nil => exact Even.zero
  | cons first front =>
    obtain ⟨rfl, rest⟩ := List.cons.inj same
    rw [OptionWords.trailing_cons_alone alone]
    exact setting front back rest

theorem undisturbed_pair {value : Text} (missed : isMissedValueOption arg = true)
    (flag : value ≠ "-c".toList) :
    Undisturbed (arg :: value :: words) ↔ Undisturbed words := by
  constructor
  · rintro ⟨last, setting⟩
    refine ⟨(OptionWords.even_trailing_pair missed value words).mp last, fun front back same => ?_⟩
    rw [← OptionWords.even_trailing_pair missed value]
    exact setting (arg :: value :: front) back (congrArg (fun rest => arg :: value :: rest) same)
  rintro ⟨last, setting⟩
  refine ⟨(OptionWords.even_trailing_pair missed value words).mpr last, fun front back same => ?_⟩
  rcases front with _ | ⟨first, _ | ⟨second, front⟩⟩
  · exact Even.zero
  · exact absurd (List.cons.inj (List.cons.inj same).2).1 flag
  · rw [List.cons_append, List.cons_append, List.cons.injEq, List.cons.injEq] at same
    obtain ⟨rfl, rfl, rest⟩ := same
    rw [OptionWords.even_trailing_pair missed]
    exact setting front back rest

/-- An option at the very end takes the subcommand. -/
theorem not_undisturbed_last (missed : isMissedValueOption arg = true) :
    ¬Undisturbed [arg] := by
  rintro ⟨last, _⟩
  rw [OptionWords.trailing_cons, missed] at last
  exact Nat.not_even_one last

/-- An option in front of `-c` takes it. -/
theorem not_undisturbed_setting
    (missed : isMissedValueOption arg = true) : ¬Undisturbed (arg :: "-c".toList :: words) := by
  rintro ⟨_, setting⟩
  have even := setting [arg] words rfl
  rw [OptionWords.trailing_cons, missed] at even
  exact Nat.not_even_one even

/-- The setting of a flag that is let through. -/
theorem gitSettingOf_flag (isFlag : arg ≠ "-c".toList) (harmless : arg = fsmonitorFalseWord ∨
      gitMatchesOptionPattern arg UNSAFE_GIT_GLOBAL_OPTIONS = false) :
    gitSettingOf (arg, none) =
      if arg = fsmonitorFalseWord then some (.value fsmonitorFalse) else none := by
  by_cases isFalse : arg = fsmonitorFalseWord
  · rw [if_pos isFalse, isFalse]
    decide
  rw [if_neg isFalse]
  have unmatched := harmless.resolve_left isFalse
  rw [gitMatchesOptionPattern, List.any_eq_false] at unmatched
  have noShort : stripPrefix "-c".toList arg = none := by
    rw [Option.eq_none_iff_forall_ne_some]
    intro rest stripped
    have whole := stripPrefix_eq_some.mp stripped
    have member : GitOptionPattern.shortWithInlineValue "-c".toList ∈
        UNSAFE_GIT_GLOBAL_OPTIONS := by
      simp [UNSAFE_GIT_GLOBAL_OPTIONS]
    refine unmatched _ member ?_
    rw [GitOptionPattern.matches, Bool.and_eq_true, List.isPrefixOf_iff_prefix,
      decide_eq_true_eq, whole, utf8Len_append]
    refine ⟨List.prefix_append _ _, Nat.lt_add_of_pos_right ?_⟩
    refine Nat.pos_of_ne_zero fun zero => isFlag ?_
    rw [whole, utf8Len_eq_zero zero, List.append_nil]
  have noConfigEnv : arg ≠ "--config-env".toList := by
    rintro rfl
    exact unmatched (.exact "--config-env".toList) (by simp [UNSAFE_GIT_GLOBAL_OPTIONS])
      (by decide)
  have noLong : stripPrefix "--config-env=".toList arg = none := by
    refine stripPrefix_of_not_prefix fun isPrefix => ?_
    exact unmatched (.prefixed "--config-env=".toList) (by simp [UNSAFE_GIT_GLOBAL_OPTIONS])
      (List.isPrefixOf_iff_prefix.mpr isPrefix)
  rw [gitSettingOf, if_neg isFlag, if_neg noConfigEnv, noShort, noLong]
  rfl

/-- Of the flags that are let through, git gives a value to those that the scan misses. -/
theorem takesNext_flag (isFlag : arg ≠ "-c".toList) (harmless : arg = fsmonitorFalseWord ∨
      gitMatchesOptionPattern arg UNSAFE_GIT_GLOBAL_OPTIONS = false) :
    gitGlobalWords.takesNext arg = isMissedValueOption arg := by
  cases isMissed : isMissedValueOption arg with
  | true =>
    have all : ∀ arg ∈ ["--attr-source".toList, "--shallow-file".toList],
        gitGlobalWords.takesNext arg = true := by decide
    exact all arg (List.contains_iff_mem.mp isMissed)
  | false =>
    have all : ∀ arg ∈ GIT_GLOBAL_VALUE_OPTIONS, arg ≠ "-c".toList →
        isMissedValueOption arg = false → arg ≠ fsmonitorFalseWord ∧
          gitMatchesOptionPattern arg UNSAFE_GIT_GLOBAL_OPTIONS = true := by decide
    rw [Bool.eq_false_iff]
    intro takes
    obtain ⟨other, matched⟩ := all arg (List.contains_iff_mem.mp takes) isFlag isMissed
    rw [harmless.resolve_left other] at matched
    cases matched

/-- What the options that git reads of words that are let through set. -/
structure Regrouped (words : List Text) (options : List (Text × Option Text)) : Prop where
  settings : ∀ setting ∈ options.filterMap gitSettingOf, setting = .value fsmonitorFalse
  fsmonitor : .value fsmonitorFalse ∈ options.filterMap gitSettingOf ↔
    OptionWords.Free isMissedValueOption fsmonitorFalseWord words ∨
      OptionWords.Free isMissedValueOption "-c".toList words
  locks : ("--no-optional-locks".toList, none) ∈ options ↔
    OptionWords.Free isMissedValueOption "--no-optional-locks".toList words

theorem regrouped_nil : Regrouped [] [] where
  settings _ member := by cases member
  fsmonitor := by
    refine iff_of_false (fun member => by cases member) ?_
    rintro (free | free)
    · exact OptionWords.not_free_nil free
    · exact OptionWords.not_free_nil free
  locks := iff_of_false (fun member => by cases member) OptionWords.not_free_nil

variable {words : List Text} {options : List (Text × Option Text)}

theorem Regrouped.cons_setting (regrouped : Regrouped words options) :
    Regrouped ("-c".toList :: fsmonitorFalse :: words)
      (("-c".toList, some fsmonitorFalse) :: options) where
  settings := by
    rw [List.filterMap_cons_some (by rfl)]
    exact List.forall_mem_cons.mpr ⟨rfl, regrouped.settings⟩
  fsmonitor := by
    rw [List.filterMap_cons_some (by rfl)]
    exact iff_of_true List.mem_cons_self (Or.inr OptionWords.free_head)
  locks := by
    rw [OptionWords.free_cons_alone (by decide), OptionWords.free_cons_alone (by decide),
      List.mem_cons, regrouped.locks]
    simp only [Prod.mk.injEq, reduceCtorEq, and_false, false_or]
    constructor
    · exact fun free => Or.inr (Or.inr free)
    · rintro (same | same | free)
      · exact absurd same (by decide)
      · exact absurd same (by decide)
      · exact free

theorem Regrouped.cons_flag (regrouped : Regrouped words options) (isFlag : arg ≠ "-c".toList)
    (harmless : arg = fsmonitorFalseWord ∨
      gitMatchesOptionPattern arg UNSAFE_GIT_GLOBAL_OPTIONS = false)
    (alone : isMissedValueOption arg = false) :
    Regrouped (arg :: words) ((arg, none) :: options) := by
  have setting := gitSettingOf_flag isFlag harmless
  refine ⟨?_, ?_, ?_⟩
  · rw [List.filterMap_cons, setting]
    by_cases isFalse : arg = fsmonitorFalseWord
    · rw [if_pos isFalse]
      exact List.forall_mem_cons.mpr ⟨rfl, regrouped.settings⟩
    · rw [if_neg isFalse]
      exact regrouped.settings
  · rw [List.filterMap_cons, setting, OptionWords.free_cons_alone alone,
      OptionWords.free_cons_alone alone]
    by_cases isFalse : arg = fsmonitorFalseWord
    · rw [if_pos isFalse]
      exact iff_of_true List.mem_cons_self (Or.inl (Or.inl isFalse.symm))
    · rw [if_neg isFalse]
      change _ ∈ options.filterMap gitSettingOf ↔ _
      rw [regrouped.fsmonitor, or_iff_right (Ne.symm isFalse), or_iff_right (Ne.symm isFlag)]
  · rw [List.mem_cons, OptionWords.free_cons_alone alone, regrouped.locks, Prod.mk.injEq,
      and_iff_left rfl]

theorem Regrouped.cons_pair (regrouped : Regrouped words options) {value : Text}
    (missed : isMissedValueOption arg = true) :
    Regrouped (arg :: value :: words) ((arg, some value) :: options) := by
  have all : ∀ arg ∈ ["--attr-source".toList, "--shallow-file".toList],
      "--no-optional-locks".toList ≠ arg ∧ fsmonitorFalseWord ≠ arg ∧ "-c".toList ≠ arg := by decide
  obtain ⟨noLocks, noWord, noSetting⟩ := all arg (List.contains_iff_mem.mp missed)
  have setting : gitSettingOf (arg, some value) = none := by
    rcases List.mem_cons.mp (List.contains_iff_mem.mp missed) with rfl | same
    · rfl
    · rw [List.mem_singleton.mp same]
      rfl
  refine ⟨?_, ?_, ?_⟩
  · rw [List.filterMap_cons_none setting]
    exact regrouped.settings
  · rw [List.filterMap_cons_none setting, OptionWords.free_cons_pair missed,
      OptionWords.free_cons_pair missed, or_iff_right noWord, or_iff_right noSetting]
    exact regrouped.fsmonitor
  · rw [List.mem_cons, OptionWords.free_cons_pair missed, or_iff_right noLocks, regrouped.locks,
      or_iff_right]
    rintro same
    cases (Prod.mk.inj same).2

/-- Git reads the words that are let through up to the subcommand iff they are undisturbed. -/
theorem LetThrough.read {front : List Text} (letThrough : LetThrough front)
    (noOption : "-".toList.isPrefixOf subcommand = false) (back : List Text) :
    ((gitGlobalWords.read (front ++ subcommand :: back)).2 = subcommand :: back ↔
      Undisturbed front) ∧
    (Undisturbed front →
      Regrouped front (gitGlobalWords.read (front ++ subcommand :: back)).1) := by
  induction size : front.length using Nat.strong_induction_on generalizing front with
  | _ size ih =>
    cases letThrough with
    | nil =>
      rw [List.nil_append, OptionWords.read_other noOption]
      exact ⟨iff_of_true rfl undisturbed_nil, fun _ => regrouped_nil⟩
    | @setting args later =>
      obtain ⟨runs, regroups⟩ :=
        ih args.length (by rw [← size, List.length_cons, List.length_cons]; omega) later rfl
      rw [List.cons_append, List.cons_append, OptionWords.read_value (by decide) (by decide),
        undisturbed_flag (by decide), undisturbed_flag (by decide)]
      exact ⟨runs, fun undisturbed => (regroups undisturbed).cons_setting⟩
    | @flag arg args isOption isFlag harmless later =>
      cases missed : isMissedValueOption arg with
      | false =>
        obtain ⟨runs, regroups⟩ :=
          ih args.length (by rw [← size, List.length_cons]; omega) later rfl
        rw [List.cons_append,
          OptionWords.read_flag isOption ((takesNext_flag isFlag harmless).trans missed),
          undisturbed_flag missed]
        exact ⟨runs, fun undisturbed => (regroups undisturbed).cons_flag isFlag harmless missed⟩
      | true =>
        have takes := (takesNext_flag isFlag harmless).trans missed
        cases later with
        | nil =>
          rw [List.singleton_append, OptionWords.read_value isOption takes]
          refine ⟨iff_of_false ?_ (not_undisturbed_last missed),
            fun undisturbed => absurd undisturbed (not_undisturbed_last missed)⟩
          intro same
          have shorter := OptionWords.length_left_le gitGlobalWords back
          rw [same, List.length_cons] at shorter
          exact Nat.not_succ_le_self _ shorter
        | @setting args later =>
          rw [List.cons_append, List.cons_append, OptionWords.read_value isOption takes,
            List.cons_append, OptionWords.read_other (by decide)]
          refine ⟨iff_of_false ?_ (not_undisturbed_setting missed),
            fun undisturbed => absurd undisturbed (not_undisturbed_setting missed)⟩
          intro same
          have lengths := congrArg List.length same
          rw [List.length_cons, List.length_append, List.length_cons] at lengths
          omega
        | @flag value args _ valueFlag _ later =>
          obtain ⟨runs, regroups⟩ :=
            ih args.length (by rw [← size, List.length_cons, List.length_cons]; omega) later rfl
          rw [List.cons_append, List.cons_append, OptionWords.read_value isOption takes,
            undisturbed_pair missed valueFlag]
          exact ⟨runs, fun undisturbed => (regroups undisturbed).cons_pair missed⟩

theorem matches_of_spells {option word : Text} (isLong : "--".toList <+: option)
    (noEquals : '=' ∉ option) (spells : Spells option word) :
    (GitOptionPattern.longWithAbbreviation option).matches word = true := by
  obtain ⟨name, rest, rfl, isPrefix, long, isRest⟩ := spells
  have noEqualsName : '=' ∉ name := fun member => noEquals (isPrefix.subset member)
  have isName :
      ((splitOnce "=".toList (name ++ rest)).map Prod.fst).getD (name ++ rest) = name := by
    rcases isRest with rfl | isEquals
    · rw [List.append_nil]
      change ((splitOnce ['='] name).map Prod.fst).getD name = name
      rw [splitOnce_eq_none noEqualsName]
      rfl
    · obtain ⟨value, rfl⟩ := List.head?_eq_some_iff.mp isEquals
      change ((splitOnce ['='] (name ++ '=' :: value)).map Prod.fst).getD _ = name
      rw [splitOnce_append noEqualsName]
      rfl
  have dashes : "--".toList <+: name :=
    List.prefix_of_prefix_length_le isLong isPrefix (Nat.le_of_lt long)
  have longer : 2 < utf8Len name := by
    obtain ⟨letters, rfl⟩ := dashes
    rw [utf8Len_append]
    refine Nat.lt_add_of_pos_right (Nat.pos_of_ne_zero fun zero => ?_)
    rw [utf8Len_eq_zero zero] at long
    exact absurd long (by decide)
  rw [GitOptionPattern.matches, isName, List.isPrefixOf_iff_prefix.mpr dashes,
    decide_eq_true longer, List.isPrefixOf_iff_prefix.mpr isPrefix]
  rfl

theorem not_spells_of_readOnly (readOnly : gitSubcommandArgsAreReadOnly args = true)
    (member : arg ∈ args) {writer : Text}
    (isWriter : writer ∈ ["--output".toList, "--ext-diff".toList,
      "--textconv".toList, "--exec".toList]) : ¬Spells writer arg := by
  intro spells
  have long : ∀ writer ∈ ["--output".toList, "--ext-diff".toList, "--textconv".toList,
      "--exec".toList], "--".toList <+: writer ∧ '=' ∉ writer := by decide
  have matched := matches_of_spells (long writer isWriter).1 (long writer isWriter).2 spells
  rw [gitSubcommandArgsAreReadOnly, Bool.not_eq_true', List.any_eq_false] at readOnly
  refine readOnly arg member (List.any_eq_true.mpr ⟨_, ?_, matched⟩)
  exact List.mem_map_of_mem (f := GitOptionPattern.longWithAbbreviation) isWriter

theorem gitBranchFlagsAreReadOnly_listing {saw : Bool}
    (readOnly : gitBranchFlagsAreReadOnly saw args = true) : ∀ arg ∈ args, IsListingOption arg := by
  induction args generalizing saw with
  | nil => exact List.forall_mem_nil _
  | cons arg args ih =>
    rw [gitBranchFlagsAreReadOnly] at readOnly
    split at readOnly
    · next listing =>
      rw [Bool.or_eq_true, List.contains_iff_mem, List.isPrefixOf_iff_prefix] at listing
      exact List.forall_mem_cons.mpr ⟨listing, ih readOnly⟩
    · cases readOnly

theorem gitBranchIsReadOnly_listing
    (readOnly : gitBranchIsReadOnly args = true) : ∀ arg ∈ args, IsListingOption arg := by
  rw [gitBranchIsReadOnly] at readOnly
  split at readOnly
  · next empty =>
    rw [List.isEmpty_iff.mp empty]
    exact List.forall_mem_nil _
  · exact gitBranchFlagsAreReadOnly_listing readOnly

/-- What the checks of a subcommand have seen. -/
theorem isSafeGitSubcommand_checked {globalArgs subcommandArgs : List Text}
    (safe : isSafeGitSubcommand globalArgs subcommand subcommandArgs = true) :
    (subcommand = "diff".toList → gitSubcommandArgsAreReadOnly subcommandArgs = true) ∧
      (subcommand = "branch".toList → gitBranchIsReadOnly subcommandArgs = true) := by
  rw [isSafeGitSubcommand] at safe
  constructor
  · rintro rfl
    rw [if_pos rfl, Bool.and_eq_true, Bool.and_eq_true, Bool.and_eq_true] at safe
    exact safe.1.1.1
  · rintro rfl
    rw [if_neg (by decide), if_pos rfl, Bool.and_eq_true] at safe
    exact safe.2

/-- Nothing that matters stands where git reads a value and the scan reads an option: behind an odd
    number of `--attr-source` and `--shallow-file` in a row among the global words, and of `-S`,
    `-G` and `-O` among those of diff. -/
structure NothingSwallowed (globalArgs : List Text) (subcommand : Text)
    (subcommandArgs : List Text) : Prop where
  undisturbed : Undisturbed globalArgs
  fsmonitor : subcommand = "diff".toList ∨ subcommand = "status".toList →
    OptionWords.Free isMissedValueOption fsmonitorFalseWord globalArgs ∨
      OptionWords.Free isMissedValueOption "-c".toList globalArgs
  locks : subcommand = "status".toList →
    OptionWords.Free isMissedValueOption "--no-optional-locks".toList globalArgs
  diff : subcommand = "diff".toList →
    let options := subcommandArgs.takeWhile fun arg => arg ≠ "--".toList
    OptionWords.Free isDiffValueOption "--no-ext-diff".toList options ∧
      OptionWords.Free isDiffValueOption "--no-textconv".toList options

/-- Git reads a command that is accepted as the scan does iff nothing is swallowed. -/
theorem isSafeGitCommand_readsOnly_iff {fileName : Text → Option Text} {command : List Text}
    (accepted : isSafeGitCommand fileName command = true) :
    ∃ globalArgs subcommand subcommandArgs,
      findGitSubcommand fileName command GIT_READ_ONLY_SUBCOMMANDS =
        some (globalArgs.length + 1, subcommand) ∧
      subcommand ∈ GIT_READ_ONLY_SUBCOMMANDS ∧
      command.tail = globalArgs ++ subcommand :: subcommandArgs ∧
      (ReadsOnly command.tail subcommand subcommandArgs ↔
        NothingSwallowed globalArgs subcommand subcommandArgs) := by
  rw [isSafeGitCommand, Option.any_eq_true] at accepted
  obtain ⟨⟨index, subcommand⟩, found, safe⟩ := accepted
  have scanned := found
  rw [findGitSubcommand] at scanned
  obtain ⟨cmd0, isCommand, scanned⟩ := Option.bind_eq_some_iff.mp scanned
  rw [Option.ite_none_left_eq_some] at scanned
  obtain ⟨globalArgs, subcommandArgs, isWords, isIndex, isSubcommand, noOption, letThrough⟩ :=
    findGitSubcommandFrom_eq_some scanned.2
  subst isIndex
  have isRest : command.drop (1 + globalArgs.length + 1) = subcommandArgs := by
    obtain ⟨words, rfl⟩ := List.head?_eq_some_iff.mp isCommand
    rw [List.tail_cons] at isWords
    rw [isWords, Nat.add_comm 1, List.drop_succ_cons, ← List.drop_drop, List.drop_left]
    rfl
  have isGlobal : command.tail.take (1 + globalArgs.length - 1) = globalArgs := by
    rw [Nat.add_sub_cancel_left, isWords, List.take_left]
  dsimp only at safe
  rw [isRest, isGlobal, Bool.and_eq_true, Bool.not_eq_true'] at safe
  refine ⟨globalArgs, subcommand, subcommandArgs, Nat.add_comm 1 _ ▸ found, isSubcommand, isWords,
    ?_⟩
  obtain ⟨runs, regroups⟩ := (letThrough safe.1).read noOption subcommandArgs
  obtain ⟨checkedDiff, checkedBranch⟩ := isSafeGitSubcommand_checked safe.2
  have everyWord : ∀ words : List Text, ∀ each ∈ words, gitDiffWords.isOption each = true :=
    fun _ _ _ => rfl
  rw [isWords]
  constructor
  · rintro ⟨isRun, settings, fsmonitor, locks, diff, branch⟩
    have undisturbed := runs.mp isRun
    have regrouped := regroups undisturbed
    refine ⟨undisturbed, fun needs => regrouped.fsmonitor.mp (fsmonitor needs),
      fun isStatus => regrouped.locks.mp (locks isStatus), fun isDiff => ?_⟩
    obtain ⟨noExtDiff, noTextconv, _⟩ := diff isDiff
    exact ⟨(OptionWords.mem_read_iff (everyWord _) (by decide)).mp noExtDiff,
      (OptionWords.mem_read_iff (everyWord _) (by decide)).mp noTextconv⟩
  rintro ⟨undisturbed, fsmonitor, locks, diff⟩
  have regrouped := regroups undisturbed
  refine ⟨runs.mpr undisturbed, regrouped.settings,
    fun needs => regrouped.fsmonitor.mpr (fsmonitor needs),
    fun isStatus => regrouped.locks.mpr (locks isStatus), fun isDiff => ?_, fun isBranch => ?_⟩
  · obtain ⟨noExtDiff, noTextconv⟩ := diff isDiff
    refine ⟨(OptionWords.mem_read_iff (everyWord _) (by decide)).mpr noExtDiff,
      (OptionWords.mem_read_iff (everyWord _) (by decide)).mpr noTextconv, ?_⟩
    rintro ⟨word, value⟩ member writer isWriter
    have free := (OptionWords.exists_mem_read_iff (everyWord _)).mp ⟨value, member⟩
    have inArgs := (List.takeWhile_prefix _).subset free.mem
    exact not_spells_of_readOnly (checkedDiff isDiff) inArgs isWriter
  · exact gitBranchIsReadOnly_listing (checkedBranch isBranch)

/-- A status query that nothing disturbs. -/
theorem isSafeGitCommand_readsOnly_iff_status :
    ∃ globalArgs subcommand subcommandArgs,
      findGitSubcommand some ["git".toList, fsmonitorFalseWord, "--no-optional-locks".toList,
        "status".toList] GIT_READ_ONLY_SUBCOMMANDS = some (globalArgs.length + 1, subcommand) ∧
      subcommand ∈ GIT_READ_ONLY_SUBCOMMANDS ∧
      [fsmonitorFalseWord, "--no-optional-locks".toList, "status".toList] =
        globalArgs ++ subcommand :: subcommandArgs ∧
      (ReadsOnly [fsmonitorFalseWord, "--no-optional-locks".toList, "status".toList] subcommand
        subcommandArgs ↔ NothingSwallowed globalArgs subcommand subcommandArgs) :=
  isSafeGitCommand_readsOnly_iff (by decide)

/-- A push behind `--attr-source status` is accepted as a status query, and a diff whose
    `--no-ext-diff` is what `-S` searches for as one without external commands. -/
theorem isSafeGitCommand_swallows :
    (isSafeGitCommand some ["git".toList, "-c".toList, fsmonitorFalse,
        "--no-optional-locks".toList, "--attr-source".toList, "status".toList, "push".toList] =
          true ∧
      (gitGlobalWords.read ["-c".toList, fsmonitorFalse, "--no-optional-locks".toList,
        "--attr-source".toList, "status".toList, "push".toList]).2 = ["push".toList] ∧
      ¬ReadsOnly ["-c".toList, fsmonitorFalse, "--no-optional-locks".toList,
        "--attr-source".toList, "status".toList, "push".toList] "status".toList
        ["push".toList]) ∧
    isSafeGitCommand some ["git".toList, "-c".toList, fsmonitorFalse, "diff".toList, "-S".toList,
        "--no-ext-diff".toList, "--no-textconv".toList] = true ∧
      ¬ReadsOnly ["-c".toList, fsmonitorFalse, "diff".toList, "-S".toList,
        "--no-ext-diff".toList, "--no-textconv".toList] "diff".toList
        ["-S".toList, "--no-ext-diff".toList, "--no-textconv".toList] := by
  refine ⟨⟨by decide, by decide, fun readsOnly => ?_⟩, by decide, fun readsOnly => ?_⟩
  · exact absurd readsOnly.runs (by decide)
  · exact absurd (readsOnly.diff rfl).1 (by decide)

end Codex.ShellCommand
