import Mathlib.Order.Basic
import Codex.Lib.Text

/-!
# Rules of the execution policy

`execpolicy/src/decision.rs`, `rule.rs` and `executable_name.rs`: decisions, prefix patterns
and the match that a rule reports. Absolute paths are an arbitrary type, and what the host
makes of a path text is a parameter.
-/

namespace Codex.ExecPolicy

/-- `Decision` (`decision.rs:7`), ordered from the most to the least permissive. -/
inductive Decision where
  | allow
  | prompt
  | forbidden
  deriving DecidableEq, Repr

namespace Decision

def rank : Decision → Nat
  | allow => 0
  | prompt => 1
  | forbidden => 2

theorem rank_injective : Function.Injective rank := by
  intro first second same
  cases first <;> cases second <;> first | rfl | cases same

instance : LinearOrder Decision := LinearOrder.lift' rank rank_injective

end Decision

/-- `Error` (`error.rs`), the variant of a bad pattern. -/
inductive Error where
  | invalidPattern (message : String)
  deriving DecidableEq, Repr

/-- `PatternToken` (`rule.rs:15`). -/
inductive PatternToken where
  | single (expected : Text)
  | alts (alternatives : List Text)
  deriving DecidableEq, Repr

namespace PatternToken

def alternatives : PatternToken → List Text
  | single expected => [expected]
  | alts alternatives => alternatives

/-- `validate_program` (`rule.rs:40`). -/
def validateProgram (token : PatternToken) : Except Error Unit :=
  if token.alternatives.any (fun value => (Text.trim value).isEmpty) then
    .error (.invalidPattern "token cannot be empty")
  else .ok ()

def accepts : PatternToken → Text → Bool
  | single expected, token => expected == token
  | alts alternatives, token => alternatives.any (· == token)

end PatternToken

/-- `PrefixPattern` (`rule.rs:66`). -/
structure PrefixPattern where
  first : Text
  rest : List PatternToken
  deriving DecidableEq, Repr

/-- `matches_args` (`rule.rs:73`). -/
def PrefixPattern.matchesArgs (pattern : PrefixPattern) (args : List Text) : Bool :=
  decide (pattern.rest.length ≤ args.length) &&
    (pattern.rest.zip args).all (fun (token, arg) => token.accepts arg)

/-- The arguments start with tokens that the pattern accepts, one for each of its tokens. -/
def PrefixPattern.AcceptsPrefix (pattern : PrefixPattern) (args : List Text) : Prop :=
  ∃ given rest, args = given ++ rest ∧
    List.Forall₂ (fun token arg => token.accepts arg = true) pattern.rest given

theorem matchesArgs_iff (pattern : PrefixPattern) (args : List Text) :
    pattern.matchesArgs args = true ↔ pattern.AcceptsPrefix args := by
  obtain ⟨first, tokens⟩ := pattern
  unfold PrefixPattern.matchesArgs PrefixPattern.AcceptsPrefix
  induction tokens generalizing args with
  | nil =>
    refine ⟨fun _ => ⟨[], args, rfl, .nil⟩, fun _ => by simp⟩
  | cons token tokens ih =>
    cases args with
    | nil =>
      refine ⟨fun accepted => by simp at accepted, ?_⟩
      rintro ⟨given, rest, split, accepted⟩
      obtain ⟨rfl, -⟩ := List.append_eq_nil_iff.mp split.symm
      cases accepted
    | cons arg args =>
      have step := ih args
      simp only [Bool.and_eq_true, decide_eq_true_eq, List.zip_cons_cons, List.all_cons,
        List.length_cons, Nat.add_le_add_iff_right] at step ⊢
      constructor
      · rintro ⟨fits, accepted, more⟩
        obtain ⟨given, rest, rfl, all⟩ := step.mp ⟨fits, more⟩
        exact ⟨arg :: given, rest, rfl, .cons accepted all⟩
      rintro ⟨given, rest, split, all⟩
      cases all with
      | cons accepted all =>
        obtain ⟨rfl, others⟩ := List.cons.inj split
        obtain ⟨fits, more⟩ := step.mpr ⟨_, rest, others, all⟩
        exact ⟨fits, accepted, more⟩

/-- `PrefixRule` (`rule.rs:144`). -/
structure PrefixRule where
  pattern : PrefixPattern
  decision : Decision
  justification : Option Text := none
  deriving DecidableEq, Repr

def PrefixRule.program (rule : PrefixRule) : Text := rule.pattern.first

/-- `RuleMatch` (`rule.rs:97`). -/
inductive RuleMatch (AbsolutePathBuf : Type) where
  | prefixRuleMatch (matchedPrefix : List Text) (decision : Decision)
      (resolvedProgram : Option AbsolutePathBuf) (justification : Option Text)
  | heuristicsRuleMatch (command : List Text) (decision : Decision)
  deriving DecidableEq, Repr

def RuleMatch.decision {AbsolutePathBuf : Type} : RuleMatch AbsolutePathBuf → Decision
  | prefixRuleMatch _ decision _ _ => decision
  | heuristicsRuleMatch _ decision => decision

/-- `materialize_match` (`rule.rs:155`), for a command that the pattern matches. -/
def PrefixRule.materializeMatch {AbsolutePathBuf : Type} (rule : PrefixRule) (cmd : List Text)
    (resolved : Option AbsolutePathBuf) : RuleMatch AbsolutePathBuf :=
  .prefixRuleMatch (rule.program :: (cmd.drop 1).take rule.pattern.rest.length) rule.decision
    resolved rule.justification

/-- What a host makes of path texts: `Path::file_name`, `AbsolutePathBuf::try_from` (which
    reads the working and the home directory) and the file name of an absolute path. -/
structure Host (AbsolutePathBuf : Type) where
  windows : Bool
  fileName : Text → Option Text
  tryFrom : Text → Option AbsolutePathBuf
  absoluteFileName : AbsolutePathBuf → Option Text

/-- `u8::to_ascii_lowercase` on a character. -/
def toAsciiLowercase (text : Text) : Text :=
  text.map (fun c => if 'A' ≤ c ∧ c ≤ 'Z' then Char.ofNat (c.toNat + 32) else c)

def eqIgnoreAsciiCase (first second : Text) : Bool :=
  toAsciiLowercase first == toAsciiLowercase second

def WINDOWS_EXECUTABLE_SUFFIXES : List Text :=
  [".exe".toList, ".cmd".toList, ".bat".toList, ".com".toList]

/-- `executable_lookup_key` (`executable_name.rs:6`). -/
def executableLookupKey (windows : Bool) (raw : Text) : Text :=
  if windows then
    let raw := toAsciiLowercase raw
    (WINDOWS_EXECUTABLE_SUFFIXES.findSome? (fun suffix => Text.stripSuffix suffix raw)).getD raw
  else raw

/-- `program.contains(['/', '\\'])`. -/
def hasSeparator (program : Text) : Bool := program.any (fun c => c == '/' || c == '\\')

end Codex.ExecPolicy
