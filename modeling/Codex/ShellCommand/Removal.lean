import Codex.Lib.Delimiter
import Codex.ShellCommand.DangerousCommand

/-!
# Forced removal behind sudo

The words of sudo and of rm by the conventions of `getopt_long`, and what
`is_dangerous_to_call_with_exec` of `shell-command/src/command_safety/is_dangerous_command.rs`
makes of them.
-/

namespace Codex.ShellCommand

open Text

/-- A name gives one of the long options: in full, or by a beginning that no other one has. -/
def Resolves (options : List Text) (name option : Text) : Prop :=
  option ∈ options ∧ (name = option ∨
    name ∉ options ∧ name <+: option ∧ ∀ other ∈ options, name <+: other → other = option)

/-- The long options of sudo that take a value. -/
def SUDO_VALUE_OPTIONS : List Text :=
  ["auth-type".toList, "close-from".toList, "login-class".toList, "chdir".toList,
    "group".toList, "host".toList, "prompt".toList, "chroot".toList, "role".toList,
    "type".toList, "command-timeout".toList, "user".toList]

/-- Those that take none, or only one in the same word, and with which sudo runs a command. -/
def SUDO_PLAIN_OPTIONS : List Text :=
  ["askpass".toList, "background".toList, "bell".toList, "preserve-env".toList,
    "set-home".toList, "login".toList, "reset-timestamp".toList, "non-interactive".toList,
    "no-update".toList, "preserve-groups".toList, "stdin".toList, "shell".toList]

/-- Those with which sudo runs no command. -/
def SUDO_OTHER_OPTIONS : List Text :=
  ["edit".toList, "help".toList, "remove-timestamp".toList, "list".toList,
    "other-user".toList, "version".toList, "validate".toList]

def SUDO_OPTIONS : List Text := SUDO_VALUE_OPTIONS ++ SUDO_PLAIN_OPTIONS ++ SUDO_OTHER_OPTIONS

/-- The letters of sudo that take a value. -/
def SUDO_VALUE_LETTERS : List Char := "acCDghpRrTtu".toList

/-- Those that take none and with which sudo runs a command. -/
def SUDO_PLAIN_LETTERS : List Char := "ABbEHiknNPSs".toList

/-- A word `VAR=value`. -/
structure Assignment where
  first : Char
  letters : Text
  value : Text
  begins : (first = '_' || first.isAlpha) = true
  goesOn : (letters.all fun c => c = '_' || c.isAlpha || c.isDigit) = true

def Assignment.text (assignment : Assignment) : Text :=
  assignment.first :: assignment.letters ++ '=' :: assignment.value

/-- A word of sudo in front of its command, with its value. -/
inductive SudoWord where
  | assignment (word : Assignment)
  | flags (letters : List Char) (nonempty : letters ≠ [])
      (plain : ∀ letter ∈ letters, letter ∈ SUDO_PLAIN_LETTERS)
  | attached (letters : List Char) (letter : Char) (value : Text) (nonempty : value ≠ [])
      (plain : ∀ letter ∈ letters, letter ∈ SUDO_PLAIN_LETTERS)
      (takes : letter ∈ SUDO_VALUE_LETTERS)
  | separate (letters : List Char) (letter : Char) (value : Text)
      (plain : ∀ letter ∈ letters, letter ∈ SUDO_PLAIN_LETTERS)
      (takes : letter ∈ SUDO_VALUE_LETTERS)
  | long (name option : Text) (resolves : Resolves SUDO_OPTIONS name option)
      (plain : option ∈ SUDO_PLAIN_OPTIONS)
  | longAttached (name option value : Text) (resolves : Resolves SUDO_OPTIONS name option)
      (takes : option ∈ "preserve-env".toList :: SUDO_VALUE_OPTIONS)
  | longSeparate (name option value : Text) (resolves : Resolves SUDO_OPTIONS name option)
      (takes : option ∈ SUDO_VALUE_OPTIONS)

def SudoWord.words : SudoWord → List Text
  | assignment word => [word.text]
  | flags letters _ _ => ['-' :: letters]
  | attached letters letter value _ _ _ => ['-' :: (letters ++ letter :: value)]
  | separate letters letter value _ _ => ['-' :: (letters ++ [letter]), value]
  | long name _ _ _ => ["--".toList ++ name]
  | longAttached name _ value _ _ => ["--".toList ++ name ++ '=' :: value]
  | longSeparate name _ value _ _ => ["--".toList ++ name, value]

/-- A sudo with the words in front of its command. -/
structure SudoCall where
  program : Text
  front : List SudoWord
  /-- The assignments behind `--`, where that ends the options. -/
  late : Option (List Assignment)

def SudoCall.words (call : SudoCall) : List Text :=
  call.front.flatMap SudoWord.words ++
    (call.late.map fun late => "--".toList :: late.map Assignment.text).getD []

/-- A word that is the command, with options in front of it or not. -/
def IsCommandWord (options : Bool) (word : Text) : Prop :=
  isAssignment word = false ∧
    (options = true → word = "-".toList ∨ "-".toList.isPrefixOf word = false)

/-- A command behind any number of sudos. -/
def argv (program : Text) (args : List Text) : List SudoCall → List Text
  | [] => program :: args
  | call :: calls => call.program :: (call.words ++ argv program args calls)

/-- The program that a sudo runs. -/
def runs (program : Text) (calls : List SudoCall) : Text :=
  (calls.head?.map SudoCall.program).getD program

/-- Every program but the last is sudo, and stands where sudo looks for its command. -/
def Stacked (fileName : Text → Option Text) (program : Text) : List SudoCall → Prop
  | [] => executableNameLookupKey fileName program ≠ some "sudo".toList
  | call :: calls =>
      executableNameLookupKey fileName call.program = some "sudo".toList ∧
        IsCommandWord call.late.isNone (runs program calls) ∧ Stacked fileName program calls

/-- The long options of rm. -/
def RM_OPTIONS : List Text :=
  ["force".toList, "interactive".toList, "one-file-system".toList, "no-preserve-root".toList,
    "preserve-root".toList, "-presume-input-tty".toList, "recursive".toList, "dir".toList,
    "verbose".toList, "help".toList, "version".toList]

/-- A bundle of letters with `f`. None of rm's letters takes a value. -/
def IsForceBundle (word : Text) : Prop :=
  ∃ letters, word = '-' :: letters ∧ letters.head? ≠ some '-' ∧ 'f' ∈ letters

/-- A word gives rm its force option, which takes no value. -/
def GivesForce (word : Text) : Prop :=
  IsForceBundle word ∨ ∃ name, word = "--".toList ++ name ∧ Resolves RM_OPTIONS name "force".toList

/-- A word for which a predicate holds stands in front of `--`. -/
def BeforeEnd (holds : Text → Prop) (args : List Text) : Prop :=
  ∃ front word back, args = front ++ word :: back ∧ "--".toList ∉ front ∧ holds word

/-- The command is a forced removal. -/
def IsForcedRemoval (fileName : Text → Option Text) (program : Text) (args : List Text) : Prop :=
  executableNameLookupKey fileName program = some "rm".toList ∧ BeforeEnd GivesForce args

theorem isAssignment_dash (rest : Text) : isAssignment ('-' :: rest) = false := by
  rw [isAssignment, splitOnce, if_neg (by simp)]
  cases splitOnce "=".toList rest with
  | none => rfl
  | some split => rfl

theorem isAssignment_text (assignment : Assignment) : isAssignment assignment.text = true := by
  have letter : ∀ c : Char, (c = '_' || c.isAlpha || c.isDigit) = true → c ≠ '=' := by
    rintro c isLetter rfl
    exact absurd isLetter (by decide)
  have noEquals : '=' ∉ assignment.first :: assignment.letters := by
    rw [List.mem_cons, not_or]
    refine ⟨fun same => ?_, fun member => ?_⟩
    · refine letter assignment.first ?_ same.symm
      rw [assignment.begins, Bool.true_or]
    · exact letter '=' (List.all_eq_true.mp assignment.goesOn '=' member) rfl
  have split : splitOnce "=".toList assignment.text =
      some (assignment.first :: assignment.letters, assignment.value) :=
    splitOnce_append noEquals assignment.value
  rw [isAssignment, split, Option.any_some, List.zipIdx_cons, List.all_cons, Bool.and_eq_true,
    Bool.and_eq_true]
  refine ⟨rfl, ?_, ?_⟩
  · rw [assignment.begins, Bool.true_or]
  rw [List.all_eq_true]
  rintro ⟨c, index⟩ member
  have isLetter := List.all_eq_true.mp assignment.goesOn c (List.fst_mem_of_mem_zipIdx member)
  have behind : 0 < index := (List.le_snd_of_mem_zipIdx member)
  rw [decide_eq_true behind, Bool.true_and]
  exact isLetter

theorem sudoSubcommandFrom_assignment {arg : Text} (assigns : isAssignment arg = true)
    (options : Bool) (args : List Text) :
    sudoSubcommandFrom options (arg :: args) = sudoSubcommandFrom options args := by
  have noEnd : ¬(options && decide (arg = "--".toList)) = true := by
    rw [Bool.and_eq_true, decide_eq_true_eq]
    rintro ⟨_, rfl⟩
    exact absurd assigns (by decide)
  rw [sudoSubcommandFrom_cons, if_neg noEnd, if_pos assigns]

/-- An option takes the next word by the tables of the scan. -/
def takesSeparateValue (arg : Text) : Bool :=
  sudoShortOptionConsumesNext arg || sudoLongOptionsWithValue.contains arg

/-- A word is an option that is not the end of options. -/
def IsOptionWord (arg : Text) : Prop := ∃ rest, arg = '-' :: rest ∧ rest ≠ [] ∧ rest ≠ ['-']

theorem sudoSubcommandFrom_option {arg : Text} (isOption : IsOptionWord arg) (args : List Text) :
    sudoSubcommandFrom true (arg :: args) =
      sudoSubcommandFrom true (if takesSeparateValue arg then args.tail else args) := by
  obtain ⟨rest, rfl, some, noEnd⟩ := isOption
  have noEndWord : ¬(true && decide ('-' :: rest = "--".toList)) = true := by
    rw [Bool.true_and, decide_eq_true_eq]
    exact fun same => noEnd (List.cons.inj same).2
  have noCommand : ¬(!true || decide ('-' :: rest = "-".toList) ||
      !"-".toList.isPrefixOf ('-' :: rest)) = true := by
    rw [Bool.not_true, Bool.false_or, Bool.or_eq_true, decide_eq_true_eq]
    rintro (same | noDash)
    · exact some (List.cons.inj same).2
    · exact absurd noDash (by simp)
  rw [sudoSubcommandFrom_cons, if_neg noEndWord, isAssignment_dash, if_neg Bool.false_ne_true,
    if_neg noCommand, takesSeparateValue]
  split <;> rfl

theorem sudoSubcommandFrom_command {options : Bool} {program : Text}
    (isCommand : IsCommandWord options program) (args : List Text) :
    sudoSubcommandFrom options (program :: args) = some (program :: args) := by
  obtain ⟨noAssignment, noOption⟩ := isCommand
  rw [sudoSubcommandFrom_cons, noAssignment, if_neg Bool.false_ne_true]
  cases options with
  | false => rfl
  | true =>
    have noEnd : ¬(true && decide (program = "--".toList)) = true := by
      rw [Bool.true_and, decide_eq_true_eq]
      rintro rfl
      exact absurd (noOption rfl) (by decide)
    have found : (!true || decide (program = "-".toList) || !"-".toList.isPrefixOf program) =
        true := by
      rcases noOption rfl with rfl | noDash
      · rfl
      · rw [noDash, Bool.not_false, Bool.or_true]
    rw [if_neg noEnd, if_pos found]

theorem plain_not_takes {letters : List Char}
    (plain : ∀ letter ∈ letters, letter ∈ SUDO_PLAIN_LETTERS) :
    (letters.findIdx? fun flag => "acCDghpRrTtu".toList.contains flag) = none := by
  rw [List.findIdx?_eq_none_iff]
  intro letter member
  have apart : SUDO_PLAIN_LETTERS.all (fun letter => !"acCDghpRrTtu".toList.contains letter) =
      true := by decide
  exact Bool.not_eq_true' _ ▸ List.all_eq_true.mp apart letter (plain letter member)

theorem not_long_of_head {flags : List Char} (noDash : flags.head? ≠ some '-') :
    "--".toList.isPrefixOf ('-' :: flags) = false ∧
      sudoLongOptionsWithValue.contains ('-' :: flags) = false := by
  have apart : ¬"--".toList <+: '-' :: flags := by
    rintro ⟨rest, same⟩
    rw [← (List.cons.inj same).2] at noDash
    exact noDash rfl
  refine ⟨Bool.eq_false_iff.mpr fun isPrefix => apart (List.isPrefixOf_iff_prefix.mp isPrefix),
    Bool.eq_false_iff.mpr fun member => apart ?_⟩
  have long : ∀ option ∈ sudoLongOptionsWithValue, "--".toList <+: option := by decide
  exact long _ (List.contains_iff_mem.mp member)

theorem isOptionWord_bundle {flags : List Char} (nonempty : flags ≠ [])
    (noDash : flags.head? ≠ some '-') : IsOptionWord ('-' :: flags) :=
  ⟨flags, rfl, nonempty, fun same => noDash (congrArg List.head? same)⟩

theorem takesSeparateValue_bundle {flags : List Char} (noDash : flags.head? ≠ some '-') :
    takesSeparateValue ('-' :: flags) =
      (flags.findIdx? fun flag => "acCDghpRrTtu".toList.contains flag).any fun index =>
        index + 1 = flags.length := by
  obtain ⟨noPrefix, noLong⟩ := not_long_of_head noDash
  rw [takesSeparateValue, noLong, Bool.or_false, sudoShortOptionConsumesNext, noPrefix]
  rfl

theorem head_of_plain {letters : List Char}
    (plain : ∀ letter ∈ letters, letter ∈ SUDO_PLAIN_LETTERS) {rest : List Char}
    (noDash : rest.head? ≠ some '-') : (letters ++ rest).head? ≠ some '-' := by
  cases letters with
  | nil => exact noDash
  | cons letter letters =>
    intro same
    have isDash : letter = '-' := Option.some.inj same
    have isPlain := plain letter List.mem_cons_self
    rw [isDash] at isPlain
    exact absurd isPlain (by decide)

theorem head_of_plain_alone {letters : List Char}
    (plain : ∀ letter ∈ letters, letter ∈ SUDO_PLAIN_LETTERS) : letters.head? ≠ some '-' := by
  have noDash : (letters ++ []).head? ≠ some '-' := head_of_plain plain (by simp)
  rw [List.append_nil] at noDash
  exact noDash

theorem head_of_takes {letters : List Char} {letter : Char}
    (plain : ∀ letter ∈ letters, letter ∈ SUDO_PLAIN_LETTERS)
    (takes : letter ∈ SUDO_VALUE_LETTERS) (value : Text) :
    (letters ++ letter :: value).head? ≠ some '-' := by
  refine head_of_plain plain fun same => ?_
  rw [Option.some.inj same] at takes
  exact absurd takes (by decide)

theorem takesSeparateValue_flags {letters : List Char}
    (plain : ∀ letter ∈ letters, letter ∈ SUDO_PLAIN_LETTERS) :
    takesSeparateValue ('-' :: letters) = false := by
  rw [takesSeparateValue_bundle (head_of_plain_alone plain), plain_not_takes plain]
  rfl

theorem takesSeparateValue_letter {letters : List Char} {letter : Char}
    (plain : ∀ letter ∈ letters, letter ∈ SUDO_PLAIN_LETTERS)
    (takes : letter ∈ SUDO_VALUE_LETTERS) (value : Text) :
    takesSeparateValue ('-' :: (letters ++ letter :: value)) = value.isEmpty := by
  have found : ((letters ++ letter :: value).findIdx? fun flag =>
      "acCDghpRrTtu".toList.contains flag) = some letters.length := by
    have here : "acCDghpRrTtu".toList.contains letter = true := List.contains_iff_mem.mpr takes
    rw [List.findIdx?_append, plain_not_takes plain, List.findIdx?_cons, if_pos here]
    simp
  rw [takesSeparateValue_bundle (head_of_takes plain takes value), found, Option.any_some,
    List.length_append, List.length_cons]
  cases value with
  | nil => simp
  | cons c value => simp

theorem name_ne_nil {name option : Text} (resolves : Resolves SUDO_OPTIONS name option) :
    name ≠ [] := by
  rintro rfl
  obtain ⟨member, rfl | ⟨_, _, only⟩⟩ := resolves
  · exact absurd member (by decide)
  · have first := only "askpass".toList (by decide) (List.nil_prefix)
    have second := only "bell".toList (by decide) (List.nil_prefix)
    exact absurd (first.trans second.symm) (by decide)

theorem isOptionWord_long {name option : Text} (resolves : Resolves SUDO_OPTIONS name option)
    (rest : Text) : IsOptionWord ("--".toList ++ name ++ rest) := by
  refine ⟨'-' :: (name ++ rest), rfl, List.cons_ne_nil _ _, fun same => ?_⟩
  exact name_ne_nil resolves (List.append_eq_nil_iff.mp (List.cons.inj same).2).1

theorem sudoShortOptionConsumesNext_long (name : Text) :
    sudoShortOptionConsumesNext ("--".toList ++ name) = false := by
  have isLong : "--".toList.isPrefixOf ("--".toList ++ name) = true :=
    List.isPrefixOf_iff_prefix.mpr (List.prefix_append _ _)
  rw [sudoShortOptionConsumesNext, isLong, Bool.or_true]
  rfl

theorem takesSeparateValue_long (name : Text) :
    takesSeparateValue ("--".toList ++ name) = SUDO_VALUE_OPTIONS.contains name := by
  rw [takesSeparateValue, sudoShortOptionConsumesNext_long, Bool.false_or, Bool.eq_iff_iff,
    List.contains_iff_mem, List.contains_iff_mem]
  constructor
  · intro member
    have known : ∀ arg ∈ sudoLongOptionsWithValue, arg.drop 2 ∈ SUDO_VALUE_OPTIONS := by decide
    exact known _ member
  · intro member
    have known : ∀ option ∈ SUDO_VALUE_OPTIONS,
        "--".toList ++ option ∈ sudoLongOptionsWithValue := by decide
    exact known name member

/-- The name of an option that resolves is that of no other one. -/
theorem not_mem_of_resolves {name option : Text} (resolves : Resolves SUDO_OPTIONS name option)
    (differs : name ≠ option) : SUDO_VALUE_OPTIONS.contains name = false := by
  obtain ⟨_, same | ⟨unknown, _⟩⟩ := resolves
  · exact absurd same differs
  · refine Bool.eq_false_iff.mpr fun member => unknown ?_
    exact List.mem_append_left _ (List.mem_append_left _ (List.contains_iff_mem.mp member))

/-- A word that the scan passes over alone: an assignment, or an option without separate value. -/
def PassedAlone (word : Text) : Prop :=
  isAssignment word = true ∨ IsOptionWord word ∧ takesSeparateValue word = false

theorem PassedAlone.scan {word : Text} (passed : PassedAlone word) (args : List Text) :
    sudoSubcommandFrom true (word :: args) = sudoSubcommandFrom true args := by
  rcases passed with assigns | ⟨isOption, alone⟩
  · exact sudoSubcommandFrom_assignment assigns true args
  · rw [sudoSubcommandFrom_option isOption, alone, if_neg Bool.false_ne_true]

/-- A long option with a separate value is written in full, or its value is passed over alone. -/
def SudoWord.InStep : SudoWord → Prop
  | longSeparate name option value _ _ => name = option ∨ PassedAlone value
  | assignment _ | flags _ _ _ | attached _ _ _ _ _ _ | separate _ _ _ _ _ | long _ _ _ _
  | longAttached _ _ _ _ _ => True

/-- The scan goes on behind a word that is in step. -/
theorem SudoWord.InStep.scan {word : SudoWord} (inStep : word.InStep) (args : List Text) :
    sudoSubcommandFrom true (word.words ++ args) = sudoSubcommandFrom true args := by
  cases word with
  | assignment word => exact sudoSubcommandFrom_assignment (isAssignment_text word) true args
  | flags letters nonempty plain =>
    exact PassedAlone.scan (Or.inr ⟨isOptionWord_bundle nonempty (head_of_plain_alone plain),
      takesSeparateValue_flags plain⟩) args
  | attached letters letter value nonempty plain takes =>
    have some := List.append_ne_nil_of_right_ne_nil letters (List.cons_ne_nil letter value)
    refine PassedAlone.scan (Or.inr ⟨isOptionWord_bundle some (head_of_takes plain takes value),
      ?_⟩) args
    rw [takesSeparateValue_letter plain takes, List.isEmpty_eq_false_iff]
    exact nonempty
  | separate letters letter value plain takes =>
    have some := List.append_ne_nil_of_right_ne_nil letters (List.cons_ne_nil letter [])
    rw [words, List.cons_append, sudoSubcommandFrom_option
      (isOptionWord_bundle some (head_of_takes plain takes [])),
      takesSeparateValue_letter plain takes]
    rfl
  | long name option resolves plain =>
    have isOption := isOptionWord_long resolves []
    rw [List.append_nil] at isOption
    refine PassedAlone.scan (Or.inr ⟨isOption, ?_⟩) args
    rw [takesSeparateValue_long]
    by_cases same : name = option
    · have apart : ∀ option ∈ SUDO_PLAIN_OPTIONS, SUDO_VALUE_OPTIONS.contains option = false := by
        decide
      rw [same]
      exact apart option plain
    · exact not_mem_of_resolves resolves same
  | longAttached name option value resolves takes =>
    refine PassedAlone.scan (Or.inr ⟨isOptionWord_long resolves _, ?_⟩) args
    rw [List.append_assoc, takesSeparateValue_long]
    refine Bool.eq_false_iff.mpr fun member => ?_
    have noEquals : ∀ option ∈ SUDO_VALUE_OPTIONS, '=' ∉ option := by decide
    exact noEquals _ (List.contains_iff_mem.mp member)
      (List.mem_append_right name List.mem_cons_self)
  | longSeparate name option value resolves takes =>
    have isOption := isOptionWord_long resolves []
    rw [List.append_nil] at isOption
    rw [words, List.cons_append, sudoSubcommandFrom_option isOption, takesSeparateValue_long]
    by_cases same : name = option
    · rw [same, List.contains_iff_mem.mpr takes]
      rfl
    · rw [not_mem_of_resolves resolves same, if_neg Bool.false_ne_true]
      exact (inStep.resolve_left same).scan args

theorem inStep_scan {front : List SudoWord} (inStep : ∀ word ∈ front, word.InStep)
    (args : List Text) :
    sudoSubcommandFrom true (front.flatMap SudoWord.words ++ args) =
      sudoSubcommandFrom true args := by
  induction front with
  | nil => rfl
  | cons word front ih =>
    rw [List.forall_mem_cons] at inStep
    rw [List.flatMap_cons, List.append_assoc, inStep.1.scan, ih inStep.2]

theorem late_scan (late : List Assignment) (args : List Text) :
    sudoSubcommandFrom false (late.map Assignment.text ++ args) =
      sudoSubcommandFrom false args := by
  induction late with
  | nil => rfl
  | cons assignment late ih =>
    rw [List.map_cons, List.cons_append,
      sudoSubcommandFrom_assignment (isAssignment_text assignment), ih]

/-- The scan of a sudo whose words are in step finds the command. -/
theorem SudoCall.scan {call : SudoCall} (inStep : ∀ word ∈ call.front, word.InStep)
    {program : Text} (isCommand : IsCommandWord call.late.isNone program) (args : List Text) :
    sudoSubcommandFrom true (call.words ++ program :: args) = some (program :: args) := by
  rw [words, List.append_assoc, inStep_scan inStep]
  cases isLate : call.late with
  | none =>
    rw [isLate] at isCommand
    exact sudoSubcommandFrom_command isCommand args
  | some late =>
    rw [isLate] at isCommand
    change sudoSubcommandFrom true
      ("--".toList :: (late.map Assignment.text ++ program :: args)) = _
    rw [sudoSubcommandFrom_cons, if_pos (by decide), late_scan]
    exact sudoSubcommandFrom_command isCommand args

variable {fileName : Text → Option Text} {program : Text} {args : List Text}

theorem isDangerous_sudo
    (isSudo : executableNameLookupKey fileName program = some "sudo".toList) :
    isDangerousToCallWithExec fileName (program :: args) =
      (sudoSubcommandFrom true args).any (isDangerousToCallWithExec fileName) := by
  have key : (program :: args).head?.bind (executableNameLookupKey fileName) =
      some "sudo".toList := isSudo
  rw [isDangerousToCallWithExec, if_neg (by rw [key]; decide), if_pos key]
  split
  · next none =>
    change sudoSubcommandFrom true args = _ at none
    rw [none]
    rfl
  · next subcommand found =>
    change sudoSubcommandFrom true args = _ at found
    rw [found]
    rfl

theorem isDangerous_rm (isRm : executableNameLookupKey fileName program = some "rm".toList) :
    isDangerousToCallWithExec fileName (program :: args) = rmHasForceOption args := by
  have key : (program :: args).head?.bind (executableNameLookupKey fileName) =
      some "rm".toList := isRm
  rw [isDangerousToCallWithExec, if_pos key]
  rfl

theorem isDangerous_other (noRm : executableNameLookupKey fileName program ≠ some "rm".toList)
    (noSudo : executableNameLookupKey fileName program ≠ some "sudo".toList) :
    isDangerousToCallWithExec fileName (program :: args) = false := by
  rw [isDangerousToCallWithExec]
  exact (if_neg noRm).trans (if_neg noSudo)

/-- A word gives force as the check looks for it: in a bundle, or as `--force` in full. -/
def GivesForceInFull (word : Text) : Prop := IsForceBundle word ∨ word = "--force".toList

theorem isForceBundle_iff {word : Text} :
    IsForceBundle word ↔ ("-".toList.isPrefixOf word && !"--".toList.isPrefixOf word &&
      word.tail.contains 'f') = true := by
  rw [Bool.and_eq_true, Bool.and_eq_true, Bool.not_eq_true', List.contains_iff_mem]
  constructor
  · rintro ⟨letters, rfl, noDash, member⟩
    exact ⟨⟨by simp, (not_long_of_head noDash).1⟩, member⟩
  · rintro ⟨⟨isPrefix, noLong⟩, member⟩
    obtain ⟨letters, rfl⟩ := List.isPrefixOf_iff_prefix.mp isPrefix
    refine ⟨letters, rfl, fun isDash => ?_, member⟩
    obtain ⟨rest, rfl⟩ := List.head?_eq_some_iff.mp isDash
    exact absurd noLong (by simp)

theorem beforeEnd_cons {holds : Text → Prop} {word : Text} :
    BeforeEnd holds (word :: args) ↔ holds word ∨ word ≠ "--".toList ∧ BeforeEnd holds args := by
  constructor
  · rintro ⟨front, found, back, same, noEnd, isFound⟩
    cases front with
    | nil =>
      obtain ⟨rfl, _⟩ := List.cons.inj same
      exact Or.inl isFound
    | cons first front =>
      obtain ⟨rfl, rest⟩ := List.cons.inj same
      rw [List.mem_cons, not_or] at noEnd
      exact Or.inr ⟨Ne.symm noEnd.1, front, found, back, rest, noEnd.2, isFound⟩
  · rintro (isFound | ⟨noEnd, front, found, back, rfl, noEndFront, isFound⟩)
    · exact ⟨[], word, args, rfl, List.not_mem_nil, isFound⟩
    · refine ⟨word :: front, found, back, rfl, ?_, isFound⟩
      rw [List.mem_cons, not_or]
      exact ⟨Ne.symm noEnd, noEndFront⟩

theorem rmHasForceOption_iff :
    rmHasForceOption args = true ↔ BeforeEnd GivesForceInFull args := by
  induction args with
  | nil =>
    refine iff_of_false (by decide) ?_
    rintro ⟨front, word, back, same, _⟩
    exact List.append_ne_nil_of_right_ne_nil front (List.cons_ne_nil word back) same.symm
  | cons word args ih =>
    rw [beforeEnd_cons, rmHasForceOption, ← ih]
    by_cases isEnd : word = "--".toList
    · rw [if_pos isEnd]
      refine iff_of_false Bool.false_ne_true ?_
      rintro ((isBundle | isForce) | ⟨noEnd, _⟩)
      · rw [isEnd] at isBundle
        exact absurd (isForceBundle_iff.mp isBundle) (by decide)
      · exact absurd (isEnd.symm.trans isForce) (by decide)
      · exact noEnd isEnd
    rw [if_neg isEnd, and_iff_right isEnd]
    by_cases isForce : word = "--force".toList
    · rw [if_pos isForce]
      exact iff_of_true rfl (Or.inl (Or.inr isForce))
    rw [if_neg isForce]
    by_cases isBundle : IsForceBundle word
    · rw [if_pos (isForceBundle_iff.mp isBundle)]
      exact iff_of_true rfl (Or.inl (Or.inl isBundle))
    · rw [if_neg (mt isForceBundle_iff.mpr isBundle), or_iff_right]
      exact fun gives => gives.elim isBundle isForce

theorem givesForce_of_inFull {word : Text} (inFull : GivesForceInFull word) : GivesForce word := by
  rcases inFull with isBundle | rfl
  · exact Or.inl isBundle
  · exact Or.inr ⟨"force".toList, rfl, by decide, Or.inl rfl⟩

theorem BeforeEnd.mono {holds weaker : Text → Prop} (implies : ∀ word, holds word → weaker word)
    (before : BeforeEnd holds args) : BeforeEnd weaker args := by
  obtain ⟨front, word, back, same, noEnd, isWord⟩ := before
  exact ⟨front, word, back, same, noEnd, implies word isWord⟩

/-- All words of all sudos are in step. -/
def AllInStep (calls : List SudoCall) : Prop := ∀ call ∈ calls, ∀ word ∈ call.front, word.InStep

theorem exists_argv (program : Text) (args : List Text) (calls : List SudoCall) :
    ∃ rest, argv program args calls = runs program calls :: rest := by
  cases calls with
  | nil => exact ⟨args, rfl⟩
  | cons call calls => exact ⟨_, rfl⟩

/-- Where all words are in step, the check sees the last command. -/
theorem isDangerous_inStep {calls : List SudoCall} (stacked : Stacked fileName program calls)
    (inStep : AllInStep calls) :
    isDangerousToCallWithExec fileName (argv program args calls) =
      isDangerousToCallWithExec fileName (program :: args) := by
  induction calls with
  | nil => rfl
  | cons call calls ih =>
    obtain ⟨isSudo, isCommand, stackedLater⟩ := stacked
    rw [AllInStep, List.forall_mem_cons] at inStep
    obtain ⟨rest, isArgv⟩ := exists_argv program args calls
    rw [argv, isDangerous_sudo isSudo, isArgv, call.scan inStep.1 isCommand, Option.any_some,
      ← isArgv]
    exact ih stackedLater inStep.2

/-- A word at which the scan stops, and which is neither `rm` nor `sudo`. -/
def IsOrdinary (fileName : Text → Option Text) (word : Text) : Prop :=
  IsCommandWord true word ∧ executableNameLookupKey fileName word ≠ some "rm".toList ∧
    executableNameLookupKey fileName word ≠ some "sudo".toList

/-- A long option with a separate value is in step, or its value is an ordinary word. -/
def SudoWord.Readable (fileName : Text → Option Text) : SudoWord → Prop
  | longSeparate name option value _ _ =>
      name = option ∨ PassedAlone value ∨ IsOrdinary fileName value
  | assignment _ | flags _ _ _ | attached _ _ _ _ _ _ | separate _ _ _ _ _ | long _ _ _ _
  | longAttached _ _ _ _ _ => True

/-- The scan takes the value of a word that is not in step for the command. -/
theorem SudoWord.Readable.stops {word : SudoWord} (readable : word.Readable fileName)
    (outOfStep : ¬word.InStep) (args : List Text) :
    ∃ value, IsOrdinary fileName value ∧
      sudoSubcommandFrom true (word.words ++ args) = some (value :: args) := by
  cases word with
  | longSeparate name option value resolves takes =>
    rw [SudoWord.InStep, not_or] at outOfStep
    have ordinary := (readable.resolve_left outOfStep.1).resolve_left outOfStep.2
    have isOption := isOptionWord_long resolves []
    rw [List.append_nil] at isOption
    refine ⟨value, ordinary, ?_⟩
    rw [words, List.cons_append, sudoSubcommandFrom_option isOption, takesSeparateValue_long,
      not_mem_of_resolves resolves outOfStep.1, if_neg Bool.false_ne_true]
    exact sudoSubcommandFrom_command ordinary.1 args
  | assignment _ | flags _ _ _ | attached _ _ _ _ _ _ | separate _ _ _ _ _ | long _ _ _ _
  | longAttached _ _ _ _ _ => exact absurd trivial outOfStep

theorem front_stops {front : List SudoWord} (readable : ∀ word ∈ front, word.Readable fileName)
    (outOfStep : ¬∀ word ∈ front, word.InStep) (args : List Text) :
    ∃ value rest, IsOrdinary fileName value ∧
      sudoSubcommandFrom true (front.flatMap SudoWord.words ++ args) = some (value :: rest) := by
  induction front with
  | nil => exact absurd (List.forall_mem_nil _) outOfStep
  | cons word front ih =>
    rw [List.forall_mem_cons] at readable outOfStep
    rw [List.flatMap_cons, List.append_assoc]
    by_cases inStep : word.InStep
    · rw [inStep.scan]
      exact ih readable.2 fun later => outOfStep ⟨inStep, later⟩
    · obtain ⟨value, ordinary, stops⟩ :=
        readable.1.stops inStep (front.flatMap SudoWord.words ++ args)
      exact ⟨value, _, ordinary, stops⟩

/-- Where a word is not in step, and its value is an ordinary one, the check sees nothing. -/
theorem isDangerous_outOfStep {calls : List SudoCall} (stacked : Stacked fileName program calls)
    (readable : ∀ call ∈ calls, ∀ word ∈ call.front, word.Readable fileName)
    (outOfStep : ¬AllInStep calls) :
    isDangerousToCallWithExec fileName (argv program args calls) = false := by
  induction calls with
  | nil => exact absurd (List.forall_mem_nil _) outOfStep
  | cons call calls ih =>
    obtain ⟨isSudo, isCommand, stackedLater⟩ := stacked
    rw [List.forall_mem_cons] at readable
    rw [AllInStep, List.forall_mem_cons] at outOfStep
    rw [argv, isDangerous_sudo isSudo]
    by_cases inStep : ∀ word ∈ call.front, word.InStep
    · obtain ⟨rest, isArgv⟩ := exists_argv program args calls
      rw [isArgv, call.scan inStep isCommand, Option.any_some, ← isArgv]
      exact ih stackedLater readable.2 fun later => outOfStep ⟨inStep, later⟩
    rw [SudoCall.words, List.append_assoc]
    obtain ⟨value, rest, ordinary, stops⟩ := front_stops readable.1 inStep
      ((call.late.map fun late => "--".toList :: late.map Assignment.text).getD [] ++
        argv program args calls)
    rw [stops, Option.any_some]
    exact isDangerous_other ordinary.2.1 ordinary.2.2

/-- The last command is dangerous iff it is `rm` with force as the check looks for it. -/
theorem isDangerous_command
    (noSudo : executableNameLookupKey fileName program ≠ some "sudo".toList) :
    isDangerousToCallWithExec fileName (program :: args) = true ↔
      executableNameLookupKey fileName program = some "rm".toList ∧
        BeforeEnd GivesForceInFull args := by
  by_cases isRm : executableNameLookupKey fileName program = some "rm".toList
  · rw [isDangerous_rm isRm, rmHasForceOption_iff, and_iff_right isRm]
  · rw [isDangerous_other isRm noSudo]
    exact iff_of_false Bool.false_ne_true fun both => isRm both.1

theorem Stacked.noSudo {calls : List SudoCall} (stacked : Stacked fileName program calls) :
    executableNameLookupKey fileName program ≠ some "sudo".toList := by
  induction calls with
  | nil => exact stacked
  | cons call calls ih => exact ih stacked.2.2

/-- The check is right about a command behind any number of sudos where no abbreviated long option
    of sudo hides a value from it, and force is given in a bundle or in full. Where the hidden
    values are ordinary words, it is right iff so, or the command is no forced removal. -/
theorem isDangerousToCallWithExec_right_iff {calls : List SudoCall}
    (stacked : Stacked fileName program calls) :
    (AllInStep calls →
      ((isDangerousToCallWithExec fileName (argv program args calls) = true ↔
          IsForcedRemoval fileName program args) ↔
        (IsForcedRemoval fileName program args → BeforeEnd GivesForceInFull args))) ∧
    ((∀ call ∈ calls, ∀ word ∈ call.front, word.Readable fileName) → ¬AllInStep calls →
      ((isDangerousToCallWithExec fileName (argv program args calls) = true ↔
          IsForcedRemoval fileName program args) ↔
        ¬IsForcedRemoval fileName program args)) := by
  constructor
  · intro inStep
    rw [isDangerous_inStep stacked inStep, isDangerous_command stacked.noSudo]
    constructor
    · intro right forced
      exact (right.mpr forced).2
    · intro inFull
      refine ⟨fun seen => ⟨seen.1, seen.2.mono fun _ => givesForce_of_inFull⟩, fun forced => ?_⟩
      exact ⟨forced.1, inFull forced⟩
  · intro readable outOfStep
    rw [isDangerous_outOfStep stacked readable outOfStep]
    constructor
    · exact fun right forced => Bool.false_ne_true (right.mpr forced)
    · exact fun unforced => iff_of_false Bool.false_ne_true unforced

/-- `sudo -u root rm -rf x`. -/
theorem isDangerousToCallWithExec_right_iff_user :
    ((isDangerousToCallWithExec some (argv "rm".toList ["-rf".toList, "x".toList]
        [⟨"sudo".toList, [.separate [] 'u' "root".toList (List.forall_mem_nil _) (by decide)],
          none⟩]) = true ↔
        IsForcedRemoval some "rm".toList ["-rf".toList, "x".toList]) ↔
      (IsForcedRemoval some "rm".toList ["-rf".toList, "x".toList] →
        BeforeEnd GivesForceInFull ["-rf".toList, "x".toList])) := by
  have stacked : Stacked some "rm".toList [⟨"sudo".toList,
      [.separate [] 'u' "root".toList (List.forall_mem_nil _) (by decide)], none⟩] :=
    And.intro (by decide) (And.intro ⟨by decide, fun _ => Or.inr (by decide)⟩
      (show executableNameLookupKey some "rm".toList ≠ some "sudo".toList by decide))
  refine (isDangerousToCallWithExec_right_iff stacked).1 ?_
  exact List.forall_mem_singleton.mpr (List.forall_mem_singleton.mpr trivial)

theorem resolves_us : Resolves SUDO_OPTIONS "us".toList "user".toList :=
  ⟨by decide, Or.inr ⟨by decide, by decide, by decide⟩⟩

/-- Neither `sudo --us root rm -f x` nor `rm --forc x` is seen. -/
theorem isDangerousToCallWithExec_misses :
    (Stacked some "rm".toList [⟨"sudo".toList,
        [.longSeparate "us".toList "user".toList "root".toList resolves_us (by decide)], none⟩] ∧
      isDangerousToCallWithExec some (argv "rm".toList ["-f".toList, "x".toList] [⟨"sudo".toList,
        [.longSeparate "us".toList "user".toList "root".toList resolves_us (by decide)], none⟩]) =
          false ∧
      IsForcedRemoval some "rm".toList ["-f".toList, "x".toList]) ∧
    isDangerousToCallWithExec some ["rm".toList, "--forc".toList, "x".toList] = false ∧
      IsForcedRemoval some "rm".toList ["--forc".toList, "x".toList] := by
  have isRm : executableNameLookupKey some "rm".toList = some "rm".toList := by decide
  refine ⟨⟨?_, ?_, isRm, ?_⟩, ?_, isRm, ?_⟩
  · exact And.intro (by decide) (And.intro ⟨by decide, fun _ => Or.inr (by decide)⟩
      (show executableNameLookupKey some "rm".toList ≠ some "sudo".toList by decide))
  · rw [argv, isDangerous_sudo (by decide)]
    have stops : sudoSubcommandFrom true ["--us".toList, "root".toList, "rm".toList, "-f".toList,
        "x".toList] = some ["root".toList, "rm".toList, "-f".toList, "x".toList] := by decide
    change (sudoSubcommandFrom true ["--us".toList, "root".toList, "rm".toList, "-f".toList,
      "x".toList]).any _ = _
    rw [stops, Option.any_some]
    exact isDangerous_other (by decide) (by decide)
  · exact ⟨[], "-f".toList, ["x".toList], rfl, List.not_mem_nil, Or.inl ⟨['f'], rfl, by decide,
      List.mem_singleton_self _⟩⟩
  · rw [isDangerous_rm isRm]
    decide
  · refine ⟨[], "--forc".toList, ["x".toList], rfl, List.not_mem_nil, Or.inr ⟨"forc".toList, rfl,
      by decide, Or.inr ⟨by decide, by decide, by decide⟩⟩⟩

end Codex.ShellCommand
