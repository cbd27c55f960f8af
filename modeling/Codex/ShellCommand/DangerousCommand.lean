import Codex.Lib.Text

/-!
# Dangerous commands

`shell-command/src/command_safety/is_dangerous_command.rs`: the scan for a git subcommand and the
check for forced removal. `Path::file_name` is a parameter.
-/

namespace Codex.ShellCommand

open Text

variable (fileName : Text → Option Text)

/-- `executable_name_lookup_key` (`is_dangerous_command.rs:71`). -/
def executableNameLookupKey (raw : Text) : Option Text :=
  (fileName raw).map fun name =>
    let name := name.map Char.toLower
    ([".exe".toList, ".cmd".toList, ".bat".toList, ".com".toList].findSome? fun suffix =>
      stripSuffix suffix name).getD name

/-- `is_git_global_option_with_value` (`is_dangerous_command.rs:43`). -/
def isGitGlobalOptionWithValue (arg : Text) : Bool :=
  ["-C".toList, "-c".toList, "--config-env".toList, "--exec-path".toList, "--git-dir".toList,
    "--namespace".toList, "--super-prefix".toList, "--work-tree".toList].contains arg

/-- `is_git_global_option_with_inline_value` (`is_dangerous_command.rs:57`). -/
def isGitGlobalOptionWithInlineValue (arg : Text) : Bool :=
  (["--config-env=".toList, "--exec-path=".toList, "--git-dir=".toList, "--namespace=".toList,
    "--super-prefix=".toList, "--work-tree=".toList].any fun start => start.isPrefixOf arg) ||
  (("-C".toList.isPrefixOf arg || "-c".toList.isPrefixOf arg) && 2 < utf8Len arg)

/-- The loop of `find_git_subcommand` (`is_dangerous_command.rs:99`). -/
def findGitSubcommandFrom (subcommands : List Text) :
    (skipNext : Bool) → (idx : Nat) → List Text → Option (Nat × Text)
  | _, _, [] => none
  | true, idx, _ :: args => findGitSubcommandFrom subcommands false (idx + 1) args
  | false, idx, arg :: args =>
      if isGitGlobalOptionWithInlineValue arg then
        findGitSubcommandFrom subcommands false (idx + 1) args
      else if isGitGlobalOptionWithValue arg then
        findGitSubcommandFrom subcommands true (idx + 1) args
      else if arg = "--".toList || "-".toList.isPrefixOf arg then
        findGitSubcommandFrom subcommands false (idx + 1) args
      else if subcommands.contains arg then some (idx, arg)
      else none

/-- `find_git_subcommand` (`is_dangerous_command.rs:89`). -/
def findGitSubcommand (command : List Text) (subcommands : List Text) : Option (Nat × Text) :=
  command.head?.bind fun cmd0 =>
    if executableNameLookupKey fileName cmd0 ≠ some "git".toList then none
    else findGitSubcommandFrom subcommands false 1 command.tail

/-- `rm_has_force_option` (`is_dangerous_command.rs:153`). -/
def rmHasForceOption : List Text → Bool
  | [] => false
  | arg :: args =>
      if arg = "--".toList then false
      else if arg = "--force".toList then true
      else if "-".toList.isPrefixOf arg && !"--".toList.isPrefixOf arg && arg.tail.contains 'f' then
        true
      else rmHasForceOption args

/-- `sudo_short_option_consumes_next` (`is_dangerous_command.rs:211`). -/
def sudoShortOptionConsumesNext (arg : Text) : Bool :=
  if !"-".toList.isPrefixOf arg || "--".toList.isPrefixOf arg then false
  else
    let flags := arg.tail
    (flags.findIdx? fun flag => "acCDghpRrTtu".toList.contains flag).any fun index =>
      index + 1 = flags.length

/-- A word `VAR=value` (`is_dangerous_command.rs:180`). -/
def isAssignment (arg : Text) : Bool :=
  (splitOnce "=".toList arg).any fun split =>
    !split.1.isEmpty && split.1.zipIdx.all fun ch =>
      ch.1 = '_' || ch.1.isAlpha || (0 < ch.2 && ch.1.isDigit)

/-- The long options of sudo that the scan knows to take a separate value
    (`is_dangerous_command.rs:193`). -/
def sudoLongOptionsWithValue : List Text :=
  ["--auth-type".toList, "--chdir".toList, "--chroot".toList, "--close-from".toList,
    "--command-timeout".toList, "--group".toList, "--host".toList, "--login-class".toList,
    "--prompt".toList, "--role".toList, "--type".toList, "--user".toList]

/-- The loop of `sudo_subcommand` (`is_dangerous_command.rs:172`). -/
def sudoSubcommandFrom : (options : Bool) → List Text → Option (List Text)
  | _, [] => none
  | options, arg :: args =>
      if options && arg = "--".toList then sudoSubcommandFrom false args
      else if isAssignment arg then sudoSubcommandFrom options args
      else if !options || arg = "-".toList || !"-".toList.isPrefixOf arg then some (arg :: args)
      else if sudoShortOptionConsumesNext arg || sudoLongOptionsWithValue.contains arg then
        match args with
        | [] => none
        | _ :: args => sudoSubcommandFrom options args
      else sudoSubcommandFrom options args

/-- `sudo_subcommand` (`is_dangerous_command.rs:169`). -/
def sudoSubcommand (command : List Text) : Option (List Text) :=
  sudoSubcommandFrom true command.tail

theorem sudoSubcommandFrom_cons (options : Bool) (arg : Text) (args : List Text) :
    sudoSubcommandFrom options (arg :: args) =
      if options && arg = "--".toList then sudoSubcommandFrom false args
      else if isAssignment arg then sudoSubcommandFrom options args
      else if !options || arg = "-".toList || !"-".toList.isPrefixOf arg then some (arg :: args)
      else if sudoShortOptionConsumesNext arg || sudoLongOptionsWithValue.contains arg then
        sudoSubcommandFrom options args.tail
      else sudoSubcommandFrom options args := by
  cases args <;> rfl

theorem length_sudoSubcommandFrom_le {options : Bool} {args subcommand : List Text}
    (found : sudoSubcommandFrom options args = some subcommand) :
    subcommand.length ≤ args.length := by
  induction size : args.length using Nat.strong_induction_on generalizing options args with
  | _ bound ih =>
    cases args with
    | nil => cases found
    | cons arg args =>
      rw [List.length_cons] at size
      have later : ∀ {options : Bool} {rest : List Text}, rest.length ≤ args.length →
          sudoSubcommandFrom options rest = some subcommand → subcommand.length ≤ bound :=
        fun {options rest} shorter isRest =>
          (ih rest.length (by omega) isRest rfl).trans (by omega)
      rw [sudoSubcommandFrom_cons] at found
      split at found
      · exact later (Nat.le_refl _) found
      split at found
      · exact later (Nat.le_refl _) found
      split at found
      · obtain rfl := Option.some.inj found
        exact Nat.le_of_eq size
      · split at found
        · exact later (by rw [List.length_tail]; omega) found
        · exact later (Nat.le_refl _) found

/-- The command behind a `sudo` is shorter. -/
theorem length_sudoSubcommand_lt {command subcommand : List Text}
    (found : sudoSubcommand command = some subcommand) : subcommand.length < command.length := by
  cases command with
  | nil => cases found
  | cons program args => exact Nat.lt_succ_of_le (length_sudoSubcommandFrom_le found)

/-- `is_dangerous_to_call_with_exec` (`is_dangerous_command.rs:131`). -/
def isDangerousToCallWithExec (command : List Text) : Bool :=
  let key := command.head?.bind (executableNameLookupKey fileName)
  if key = some "rm".toList then rmHasForceOption command.tail
  else if key = some "sudo".toList then
    match _found : sudoSubcommand command with
    | none => false
    | some subcommand => isDangerousToCallWithExec subcommand
  else false
termination_by command.length
decreasing_by exact length_sudoSubcommand_lt _found

end Codex.ShellCommand
