import Codex.ExecPolicy.Policy
import Codex.Lib.Fallible

/-!
# What a policy check decides

The written definition of the rules that apply to a command, and the proof that
`check_with_options` (`execpolicy/src/policy.rs:213`) reports each of them once and takes the
strictest decision, for every policy that the constructors build.
-/

namespace Codex.ExecPolicy

open List (Perm)

variable {AbsolutePathBuf : Type}

/-- The first token stands for a file name: a bare name for itself, an explicit path for the
    file name of the absolute path that it denotes. -/
inductive StandsFor (host : Host AbsolutePathBuf) (first : Text) :
    Option AbsolutePathBuf → Text → Prop
  | bare (isName : host.fileName first = some first) : StandsFor host first none first
  | path (isPath : host.fileName first ≠ some first) (program : AbsolutePathBuf) (filename : Text)
      (denotes : host.tryFrom first = some program)
      (ends : host.absoluteFileName program = some filename) :
      StandsFor host first (some program) filename

/-- The rule program and the file name are the same executable name. -/
def SameName (windows : Bool) (program filename : Text) : Prop :=
  if windows then
    executableLookupKey windows program = executableLookupKey windows filename ∧
      (toAsciiLowercase program = toAsciiLowercase filename ∨
        toAsciiLowercase program = toAsciiLowercase (executableLookupKey windows filename))
  else program = filename

/-- An explicit path is one of the host executables of its key, if there is a list of them. -/
def HostAdmits (policy : Policy AbsolutePathBuf) (key : Text) (program : Option AbsolutePathBuf) :
    Prop :=
  ∀ path ∈ program, ∀ paths ∈ policy.hostExecutablesByName.lookup key, path ∈ paths

/-- The rule applies to the resolved file name of the first token. -/
def AppliesByName (host : Host AbsolutePathBuf) (policy : Policy AbsolutePathBuf)
    (options : MatchOptions) (first : Text) (rule : PrefixRule) : Prop :=
  options.resolveHostExecutables = true ∧ hasSeparator rule.program = false ∧
    ∃ program filename, StandsFor host first program filename ∧
      SameName host.windows rule.program filename ∧
      HostAdmits policy (executableLookupKey host.windows filename) program

/-- The rule applies to a command. -/
def Applies (host : Host AbsolutePathBuf) (policy : Policy AbsolutePathBuf)
    (options : MatchOptions) (first : Text) (args : List Text) (rule : PrefixRule) : Prop :=
  (rule.program = first ∨ AppliesByName host policy options first rule) ∧
    rule.pattern.AcceptsPrefix args

/-- The program that a match of the rule names: the explicit path, unless the rule has the
    exact spelling. -/
def resolvedFor (host : Host AbsolutePathBuf) (first : Text) (rule : PrefixRule) :
    Option AbsolutePathBuf :=
  if rule.program = first ∨ host.fileName first = some first then none else host.tryFrom first

open Classical in
/-- The rules of a policy that apply to a command. -/
noncomputable def applicable (host : Host AbsolutePathBuf) (policy : Policy AbsolutePathBuf)
    (options : MatchOptions) (first : Text) (args : List Text) : List PrefixRule :=
  policy.rules.filter (fun rule => decide (Applies host policy options first args rule))

/-- An evaluation of a command: every rule that applies is matched once, the heuristics answer
    when none does, and the decision is the strictest one. -/
structure Decides (host : Host AbsolutePathBuf) (policy : Policy AbsolutePathBuf)
    (options : MatchOptions) (heuristicsFallback : List Text → Decision) (first : Text)
    (args : List Text) (evaluation : Evaluation AbsolutePathBuf) : Prop where
  reported : applicable host policy options first args ≠ [] → evaluation.matchedRules.Perm
    ((applicable host policy options first args).map (fun rule =>
      rule.materializeMatch (first :: args) (resolvedFor host first rule)))
  fallback : applicable host policy options first args = [] → evaluation.matchedRules =
    [.heuristicsRuleMatch (first :: args) (heuristicsFallback (first :: args))]
  strictest : applicable host policy options first args ≠ [] →
    (∃ rule ∈ applicable host policy options first args, rule.decision = evaluation.decision) ∧
      ∀ rule ∈ applicable host policy options first args, rule.decision ≤ evaluation.decision
  heuristic : applicable host policy options first args = [] →
    evaluation.decision = heuristicsFallback (first :: args)

namespace Policy

/-- The matches that a loop adds. -/
theorem visitRules_collect (cmd : List Text) (resolved : Option AbsolutePathBuf)
    (test : PrefixRule → Bool) (rules : List PrefixRule)
    (progress : Visit (List (RuleMatch AbsolutePathBuf))) (running : progress.stopped = false) :
    (visitRules (fun found rule resolved => (found ++ [rule.materializeMatch cmd resolved], false))
        resolved test rules progress).state =
      progress.state ++ (rules.filter test).map (·.materializeMatch cmd resolved) ∧
    (visitRules (fun found rule resolved => (found ++ [rule.materializeMatch cmd resolved], false))
        resolved test rules progress).stopped = false := by
  induction rules generalizing progress with
  | nil => exact ⟨(List.append_nil _).symm, running⟩
  | cons rule rules ih =>
    rw [visitRules]
    by_cases applies : test rule = true
    · rw [if_pos applies]
      obtain ⟨state, stopped⟩ := ih
        ⟨progress.state ++ [rule.materializeMatch cmd resolved], true, false⟩ rfl
      refine ⟨state.trans ?_, stopped⟩
      rw [List.filter_cons_of_pos applies, List.map_cons, List.append_assoc, List.singleton_append]
    · rw [if_neg applies, List.filter_cons_of_neg applies]
      exact ih progress running

variable [DecidableEq AbsolutePathBuf]

/-- The rules that the second loop finds under a file name. -/
def namedRules (host : Host AbsolutePathBuf) (policy : Policy AbsolutePathBuf)
    (options : MatchOptions) (first : Text) (args : List Text) : List PrefixRule :=
  if !options.resolveHostExecutables then []
  else
    match resolveProgram host first with
    | none => []
    | some program =>
        match resolvedFilename host first program with
        | none => []
        | some filename =>
            if policy.gated (executableLookupKey host.windows filename) program then []
            else (policy.basenameRules.valuesAt (executableLookupKey host.windows filename)).filter
              (fun rule => rule.program != first &&
                nameApplies host.windows rule.program filename
                  (executableLookupKey host.windows filename) &&
                rule.pattern.matchesArgs args)

/-- The matches of a command: those of the exact spelling, then those found by name. -/
theorem visitMatches_collect (host : Host AbsolutePathBuf) (policy : Policy AbsolutePathBuf)
    (options : MatchOptions) (first : Text) (args : List Text) :
    (policy.visitMatches host (first :: args) options (fun found rule resolved =>
        (found ++ [rule.materializeMatch (first :: args) resolved], false)) []).1 =
      ((policy.rulesByProgram.valuesAt first).filter (·.pattern.matchesArgs args)).map
          (·.materializeMatch (first :: args) none) ++
        (policy.namedRules host options first args).map
          (·.materializeMatch (first :: args) ((resolveProgram host first).getD none)) := by
  obtain ⟨state, running⟩ := @visitRules_collect AbsolutePathBuf (first :: args) none
    (fun rule => rule.pattern.matchesArgs args) (policy.rulesByProgram.valuesAt first)
    ⟨[], false, false⟩ rfl
  unfold visitMatches namedRules
  simp only
  rw [← MultiMap.valuesAt]
  generalize visitRules _ none _ _ _ = exact at state running
  rw [List.nil_append] at state
  rw [running, if_neg Bool.false_ne_true, ← state]
  cases options.resolveHostExecutables with
  | false => simp
  | true =>
    cases resolves : resolveProgram host first with
    | none => simp
    | some program =>
      cases names : resolvedFilename host first program with
      | none => simp [names]
      | some filename =>
        simp only [names, Bool.not_true, Bool.false_eq_true, if_false, Option.getD_some]
        cases policy.gated (executableLookupKey host.windows filename) program with
        | true => simp
        | false =>
          rw [MultiMap.valuesAt]
          cases policy.basenameRules.getVec (executableLookupKey host.windows filename) with
          | none => simp
          | some rules => exact (visitRules_collect (first :: args) program _ rules _ running).1

omit [DecidableEq AbsolutePathBuf] in
theorem standsFor_iff (host : Host AbsolutePathBuf) (first : Text)
    (program : Option AbsolutePathBuf) (filename : Text) :
    StandsFor host first program filename ↔
      resolveProgram host first = some program ∧
        resolvedFilename host first program = some filename := by
  unfold resolveProgram
  constructor
  · intro stands
    cases stands with
    | bare isName => exact ⟨if_pos isName, rfl⟩
    | path isPath program filename denotes ends =>
      rw [if_neg isPath, denotes]
      exact ⟨rfl, ends⟩
  rintro ⟨resolves, names⟩
  split at resolves
  · next isName =>
    cases resolves
    cases names
    exact .bare isName
  · next isPath =>
    obtain ⟨path, denotes, rfl⟩ := Option.map_eq_some_iff.mp resolves
    exact .path isPath path filename denotes names

theorem gated_eq_false_iff (policy : Policy AbsolutePathBuf) (key : Text)
    (program : Option AbsolutePathBuf) :
    policy.gated key program = false ↔ HostAdmits policy key program := by
  unfold gated HostAdmits
  cases program with
  | none => simp
  | some path =>
    cases policy.hostExecutablesByName.lookup key with
    | none => simp
    | some paths => simp

/-- The name test on an indexed rule is the written definition. -/
theorem nameApplies_iff (windows : Bool) (rule : PrefixRule) (filename : Text) :
    (named windows (executableLookupKey windows filename) rule &&
        nameApplies windows rule.program filename (executableLookupKey windows filename)) = true ↔
      hasSeparator rule.program = false ∧ SameName windows rule.program filename := by
  unfold named nameApplies SameName eqIgnoreAsciiCase
  cases windows with
  | true =>
    simp only [Bool.and_eq_true, Bool.not_eq_true', decide_eq_true_eq, if_true, Bool.or_eq_true,
      beq_iff_eq, and_assoc]
    rw [eq_comm (b := executableLookupKey true rule.program)]
  | false =>
    simp only [executableLookupKey, Bool.false_eq_true, if_false, Bool.and_eq_true,
      Bool.not_eq_true', decide_eq_true_eq, beq_iff_eq, and_assoc]
    constructor
    · rintro ⟨noSeparator, -, same⟩
      exact ⟨noSeparator, same⟩
    · rintro ⟨noSeparator, same⟩
      exact ⟨noSeparator, same.symm, same⟩

variable {policy : Policy AbsolutePathBuf}

open Classical in
theorem namedRules_perm {host : Host AbsolutePathBuf} (indexed : WellIndexed host.windows policy)
    (options : MatchOptions) (first : Text) (args : List Text) :
    (policy.namedRules host options first args).Perm (policy.rules.filter (fun rule =>
      decide (rule.program ≠ first ∧ AppliesByName host policy options first rule ∧
        rule.pattern.AcceptsPrefix args))) := by
  have nothing (none : ∀ rule, ¬ AppliesByName host policy options first rule) :
      policy.rules.filter (fun rule => decide (rule.program ≠ first ∧
        AppliesByName host policy options first rule ∧ rule.pattern.AcceptsPrefix args)) = [] := by
    rw [List.filter_eq_nil_iff]
    intro rule _ applies
    exact none rule (of_decide_eq_true applies).2.1
  unfold namedRules
  split
  · next disabled =>
    rw [nothing]
    rintro rule ⟨enabled, -⟩
    rw [enabled] at disabled
    exact absurd disabled (by decide)
  next enabled =>
  split
  · next unresolved =>
    rw [nothing]
    rintro rule ⟨-, -, program, filename, stands, -⟩
    rw [standsFor_iff, unresolved] at stands
    cases stands.1
  next program resolves =>
  split
  · next unnamed =>
    rw [nothing]
    rintro rule ⟨-, -, program', filename, stands, -⟩
    rw [standsFor_iff, resolves] at stands
    obtain ⟨same, names⟩ := stands
    obtain rfl := Option.some.inj same
    rw [unnamed] at names
    cases names
  next filename names =>
  -- from here on the first token stands for this file name only
  have unique {program' filename'} (stands : StandsFor host first program' filename') :
      program' = program ∧ filename' = filename := by
    rw [standsFor_iff, resolves] at stands
    obtain ⟨same, names'⟩ := stands
    obtain rfl := Option.some.inj same
    rw [names] at names'
    exact ⟨rfl, (Option.some.inj names').symm⟩
  split
  · next refused =>
    rw [nothing]
    rintro rule ⟨-, -, program', filename', stands, -, admits⟩
    obtain ⟨rfl, rfl⟩ := unique stands
    rw [← gated_eq_false_iff, refused] at admits
    cases admits
  next admitted =>
  refine ((indexed.index _).filter _).trans ?_
  rw [List.filter_filter]
  refine List.Perm.of_eq (List.filter_congr (fun rule _ => ?_))
  rw [Bool.eq_iff_iff, decide_eq_true_eq]
  have byName : AppliesByName host policy options first rule ↔
      hasSeparator rule.program = false ∧ SameName host.windows rule.program filename := by
    constructor
    · rintro ⟨-, noSeparator, program', filename', stands, same, -⟩
      obtain ⟨rfl, rfl⟩ := unique stands
      exact ⟨noSeparator, same⟩
    · rintro ⟨noSeparator, same⟩
      refine ⟨by simpa using enabled, noSeparator, program, filename, ?_, same, ?_⟩
      · exact (standsFor_iff _ _ _ _).mpr ⟨resolves, names⟩
      · exact (gated_eq_false_iff _ _ _).mp (by simpa using admitted)
  rw [byName, ← nameApplies_iff, ← matchesArgs_iff]
  simp only [Bool.and_eq_true, bne_iff_ne]
  constructor
  · rintro ⟨⟨⟨other, name⟩, accepts⟩, indexed⟩
    exact ⟨other, ⟨indexed, name⟩, accepts⟩
  · rintro ⟨other, ⟨indexed, name⟩, accepts⟩
    exact ⟨⟨⟨other, name⟩, accepts⟩, indexed⟩

omit [DecidableEq AbsolutePathBuf] in
open Classical in
theorem exactRules_perm {windows : Bool} (indexed : WellIndexed windows policy) (first : Text)
    (args : List Text) :
    ((policy.rulesByProgram.valuesAt first).filter (·.pattern.matchesArgs args)).Perm
      (policy.rules.filter (fun rule =>
        decide (rule.program = first ∧ rule.pattern.AcceptsPrefix args))) := by
  refine ((MultiMap.valuesAt_perm_filter indexed.own first).filter _).trans ?_
  rw [List.filter_filter]
  refine List.Perm.of_eq (List.filter_congr (fun rule _ => ?_))
  rw [Bool.eq_iff_iff, decide_eq_true_eq, ← matchesArgs_iff, Bool.and_eq_true, decide_eq_true_eq,
    and_comm]

omit [DecidableEq AbsolutePathBuf] in
open Classical in
/-- The rules that apply are those of the exact spelling and those found by name. -/
theorem applicable_perm {host : Host AbsolutePathBuf} (options : MatchOptions) (first : Text)
    (args : List Text) :
    (applicable host policy options first args).Perm
      (policy.rules.filter (fun rule =>
          decide (rule.program = first ∧ rule.pattern.AcceptsPrefix args)) ++
        policy.rules.filter (fun rule => decide (rule.program ≠ first ∧
          AppliesByName host policy options first rule ∧ rule.pattern.AcceptsPrefix args))) := by
  have split := (List.filter_append_perm (fun rule : PrefixRule => decide (rule.program = first))
    (applicable host policy options first args)).symm
  refine split.trans (List.Perm.of_eq ?_)
  rw [applicable, List.filter_filter, List.filter_filter]
  congr 1
  · refine List.filter_congr (fun rule _ => ?_)
    rw [Bool.eq_iff_iff]
    simp only [Bool.and_eq_true, decide_eq_true_eq]
    constructor
    · rintro ⟨same, -, accepts⟩
      exact ⟨same, accepts⟩
    · rintro ⟨same, accepts⟩
      exact ⟨same, .inl same, accepts⟩
  refine List.filter_congr (fun rule _ => ?_)
  rw [Bool.eq_iff_iff]
  simp only [Bool.and_eq_true, Bool.not_eq_true', decide_eq_true_eq, decide_eq_false_iff_not]
  constructor
  · rintro ⟨other, same | byName, accepts⟩
    · exact absurd same other
    · exact ⟨other, byName, accepts⟩
  · rintro ⟨other, byName, accepts⟩
    exact ⟨other, .inr byName, accepts⟩

omit [DecidableEq AbsolutePathBuf] in
theorem resolvedFor_eq {host : Host AbsolutePathBuf} {first : Text} {rule : PrefixRule}
    (other : rule.program ≠ first) :
    resolvedFor host first rule = (resolveProgram host first).getD none := by
  unfold resolvedFor resolveProgram
  by_cases isName : host.fileName first = some first
  · rw [if_pos (.inr isName), if_pos isName]
    rfl
  · rw [if_neg (by rintro (same | named); exacts [other same, isName named]), if_neg isName]
    cases host.tryFrom first <;> rfl

/-- The matches are those of the rules that apply, each once. -/
theorem visitMatches_perm {host : Host AbsolutePathBuf} (indexed : WellIndexed host.windows policy)
    (options : MatchOptions) (first : Text) (args : List Text) :
    (policy.visitMatches host (first :: args) options (fun found rule resolved =>
        (found ++ [rule.materializeMatch (first :: args) resolved], false)) []).1.Perm
      ((applicable host policy options first args).map (fun rule =>
        rule.materializeMatch (first :: args) (resolvedFor host first rule))) := by
  classical
  rw [visitMatches_collect]
  refine .trans ?_ ((applicable_perm options first args).map _).symm
  rw [List.map_append]
  refine .append ?_ ?_
  · refine ((exactRules_perm indexed first args).map _).trans (.of_eq (List.map_congr_left ?_))
    intro rule member
    have same := (of_decide_eq_true (List.mem_filter.mp member).2).1
    rw [resolvedFor, if_pos (.inl same)]
  · refine ((namedRules_perm indexed options first args).map _).trans
      (.of_eq (List.map_congr_left ?_))
    intro rule member
    have other := (of_decide_eq_true (List.mem_filter.mp member).2).1
    rw [resolvedFor_eq other]

omit [DecidableEq AbsolutePathBuf] in
theorem fromMatches_decision {matchedRules : List (RuleMatch AbsolutePathBuf)}
    {evaluation : Evaluation AbsolutePathBuf}
    (evaluated : Evaluation.fromMatches matchedRules = some evaluation) :
    evaluation.matchedRules = matchedRules ∧
      evaluation.decision ∈ matchedRules.map RuleMatch.decision ∧
      ∀ decision ∈ matchedRules.map RuleMatch.decision, decision ≤ evaluation.decision := by
  obtain ⟨decision, strictest, rfl⟩ := Option.map_eq_some_iff.mp evaluated
  exact ⟨rfl, List.max?_eq_some_iff.mp strictest⟩

omit [DecidableEq AbsolutePathBuf] in
theorem fromMatches_isSome {matchedRules : List (RuleMatch AbsolutePathBuf)}
    (nonempty : matchedRules ≠ []) : ∃ evaluation,
      Evaluation.fromMatches matchedRules = some evaluation := by
  have decisions : matchedRules.map RuleMatch.decision ≠ [] := mt List.map_eq_nil_iff.mp nonempty
  obtain ⟨decision, strictest⟩ :=
    Option.isSome_iff_exists.mp (List.isSome_max?_of_ne_nil decisions)
  exact ⟨_, Option.map_eq_some_iff.mpr ⟨decision, strictest, rfl⟩⟩

/-- For every policy that the constructors build, on either platform: the index of a lookup
    key holds exactly the rules without a path separator that have this key, and a check of a
    command reports each rule that applies once, or the heuristics when there is none, and
    decides with the strictest of them. -/
theorem check_decides (host : Host AbsolutePathBuf) {policy : Policy AbsolutePathBuf}
    (reachable : Reachable host.windows policy) :
    (∀ key, (policy.basenameRules.valuesAt key).Perm (policy.rules.filter (named host.windows key))) ∧
      ∀ (heuristicsFallback : List Text → Decision) (options : MatchOptions) (first : Text)
        (args : List Text), ∃ evaluation,
        policy.checkWithOptions host (first :: args) heuristicsFallback options = some evaluation ∧
          Decides host policy options heuristicsFallback first args evaluation := by
  refine ⟨reachable.wellIndexed.index, ?_⟩
  intro heuristicsFallback options first args
  have reported := visitMatches_perm reachable.wellIndexed options first args
  unfold checkWithOptions matchesForCommandWithOptions
  generalize (policy.visitMatches host (first :: args) options _ []) = visited at reported
  obtain ⟨matchedRules, matched⟩ := visited
  cases matchedRules with
  | nil =>
    have none : applicable host policy options first args = [] :=
      List.map_eq_nil_iff.mp reported.nil_eq.symm
    refine ⟨_, rfl, fun some => absurd none some, fun _ => rfl, fun some => absurd none some,
      fun _ => rfl⟩
  | cons found more =>
    have some : applicable host policy options first args ≠ [] := by
      intro none
      rw [none] at reported
      exact nomatch reported.eq_nil
    obtain ⟨evaluation, evaluated⟩ := fromMatches_isSome (List.cons_ne_nil found more)
    obtain ⟨isMatched, member, strictest⟩ := fromMatches_decision evaluated
    have decisions := reported.map RuleMatch.decision
    rw [List.map_map] at decisions
    refine ⟨evaluation, evaluated, fun _ => ?_, fun none => absurd none some, fun _ => ⟨?_, ?_⟩,
      fun none => absurd none some⟩
    · rw [isMatched]
      exact reported
    · obtain ⟨rule, applies, same⟩ := List.mem_map.mp (decisions.subset member)
      exact ⟨rule, applies, same⟩
    · intro rule applies
      exact strictest _ (decisions.symm.subset (List.mem_map.mpr ⟨rule, applies, rfl⟩))

end Policy

namespace Unix

/-- The components of a path text; empty and current-directory ones do not count. -/
def components (path : Text) : List Text :=
  (path.splitOn '/').filter (fun name => name ≠ [] ∧ name ≠ ['.'])

/-- `Path::file_name`. -/
def fileName (path : Text) : Option Text :=
  (components path).getLast?.filter (· ≠ ['.', '.'])

/-- `normalize_path` (`absolutize.rs:27`) on components. -/
def normalizePath (names : List Text) : List Text :=
  names.foldl (fun done name => if name = ['.', '.'] then done.dropLast else done ++ [name]) []

/-- `maybe_expand_home_directory` (`absolute-path/src/lib.rs:35`): the components of the
    expanded path, and whether it is absolute. -/
def expandHome (home : Option (List Text)) (path : Text) : List Text × Bool :=
  match path, home with
  | ['~'], some home => (home, true)
  | '~' :: separator :: rest, some home =>
      if separator = '/' ∨ separator = '\\' then
        (home ++ components (rest.dropWhile (fun c => c == separator || c == '/')), true)
      else (components path, false)
  | path, _ => (components path, path.head? = some '/')

/-- `AbsolutePathBuf::try_from` of a text: relative paths are made absolute in the working
    directory. -/
def tryFrom (cwd home : Option (List Text)) (path : Text) : Option (List Text) :=
  match expandHome home path with
  | (names, true) => some (normalizePath names)
  | (names, false) => cwd.map (fun cwd => normalizePath (cwd ++ names))

def host (cwd home : Option (List Text)) : Host (List Text) where
  windows := false
  fileName := fileName
  tryFrom := tryFrom cwd home
  absoluteFileName path := path.getLast?

end Unix

/-- The reading in which only an absolute first token is looked up among the host
    executables, and a relative path counts by its own file name. -/
def AppliesWithAbsoluteGate (host : Host AbsolutePathBuf) (isAbsolute : Text → Bool)
    (policy : Policy AbsolutePathBuf) (options : MatchOptions) (first : Text) (args : List Text)
    (rule : PrefixRule) : Prop :=
  (rule.program = first ∨ options.resolveHostExecutables = true ∧
      hasSeparator rule.program = false ∧ ∃ filename, host.fileName first = some filename ∧
        SameName host.windows rule.program filename ∧
        (isAbsolute first = true → ∀ paths ∈ policy.hostExecutablesByName.lookup
          (executableLookupKey host.windows filename), ∃ path ∈ paths, host.tryFrom first = some path)) ∧
    rule.pattern.AcceptsPrefix args

/-- `git` is forbidden. -/
def forbidGit : PrefixRule := { pattern := { first := ['g', 'i', 't'], rest := [] }, decision := .forbidden }

/-- The policy with this rule on a host that knows one `git`. -/
def gitPolicy : Policy (List Text) :=
  .setHostExecutablePaths false
    (.fromSharedParts false (MultiMap.push ∅ ['g', 'i', 't'] forbidGit) ⟨_, .refl _⟩ [] ∅)
    ['g', 'i', 't'] [["usr".toList, "bin".toList, "git".toList]]

theorem gitPolicy_reachable : Policy.Reachable false gitPolicy :=
  .setHostExecutablePaths
    (.fromSharedParts _ _ _ _ (@Policy.own_push ∅ nofun forbidGit)) _ _

/-- The working directory of the sample commands. -/
def work : Option (List Text) := some ["work".toList]

/-- In the working directory, `./git` is not one of the host's `git` executables: the check
    does not forbid it, although it is no absolute path. -/
theorem relative_path_gated :
    Policy.Reachable false gitPolicy ∧ forbidGit ∈ gitPolicy.rules ∧
      AppliesWithAbsoluteGate (Unix.host work none) (fun first => first.head? == some '/')
        gitPolicy ⟨true⟩ ['.', '/', 'g', 'i', 't'] [] forbidGit ∧
      ∃ evaluation, gitPolicy.checkWithOptions (Unix.host work none) [['.', '/', 'g', 'i', 't']]
          (fun _ => .allow) ⟨true⟩ = some evaluation ∧
        ¬ forbidGit.decision ≤ evaluation.decision := by
  refine ⟨gitPolicy_reachable, by decide, ⟨.inr ⟨rfl, by decide, ['g', 'i', 't'], by decide, rfl,
    nofun⟩, [], [], rfl, .nil⟩, ⟨.allow, [.heuristicsRuleMatch [['.', '/', 'g', 'i', 't']] .allow]⟩,
    by decide, by decide⟩

namespace Policy

/-- The host's own `git` is forbidden by any spelling of its path. -/
theorem check_decides_git : ∃ evaluation,
    gitPolicy.checkWithOptions (Unix.host work none) ["/usr/bin/../bin/git".toList]
        (fun _ => .allow) ⟨true⟩ = some evaluation ∧
      Decides (Unix.host work none) gitPolicy ⟨true⟩ (fun _ => .allow)
        "/usr/bin/../bin/git".toList [] evaluation ∧
      evaluation.decision = .forbidden := by
  obtain ⟨evaluation, evaluated, decides⟩ :=
    (check_decides (Unix.host work none) gitPolicy_reachable).2 (fun _ => .allow) ⟨true⟩
      "/usr/bin/../bin/git".toList []
  refine ⟨evaluation, evaluated, decides, ?_⟩
  have forbidden : (gitPolicy.checkWithOptions (Unix.host work none) ["/usr/bin/../bin/git".toList]
      (fun _ => .allow) ⟨true⟩).map (·.decision) = some .forbidden := by decide +kernel
  rw [evaluated] at forbidden
  exact Option.some.inj forbidden

/-- A rule of a policy that can be built applies to a command. -/
def Binds (host : Host AbsolutePathBuf) (options : MatchOptions) (first : Text) (args : List Text)
    (rule : PrefixRule) (policy : Policy AbsolutePathBuf) : Prop :=
  Reachable host.windows policy ∧ rule ∈ policy.rules ∧ Applies host policy options first args rule

/-- Amendments lift no rule: whatever rules are added to a policy, one that applied to a command
    still bounds the decision from below. -/
theorem amended_decision [DecidableEq AbsolutePathBuf] {policy next : Policy AbsolutePathBuf}
    {host : Host AbsolutePathBuf} {options : MatchOptions} {first : Text} {args : List Text}
    {rule : PrefixRule} (binds : Binds host options first args rule policy)
    {amendments : List (List Text × Decision)}
    (amended : amendments.foldlM (fun policy amendment =>
      policy.addPrefixRule host.windows amendment.1 amendment.2) policy = .ok next)
    {fallback : List Text → Decision} {evaluation : Evaluation AbsolutePathBuf}
    (checked : next.checkWithOptions host (first :: args) fallback options = some evaluation) :
    rule.decision ≤ evaluation.decision := by
  classical
  have kept : Binds host options first args rule next := by
    refine Hoare.foldlM_invariant ?_ amended binds
    rintro ⟨_ | ⟨token, rest⟩, decision⟩ - before after added ⟨reachable, member, applies⟩
    · cases added
    · refine ⟨reachable.addPrefixRule _ _ added, ?_⟩
      obtain ⟨_, -, same⟩ := Hoare.bind_ok.mp added
      cases same
      exact ⟨(MultiMap.values_push _ _ _).symm.subset (List.mem_append_left _ member), applies⟩
  obtain ⟨reachable, member, applies⟩ := kept
  have found := (visitMatches_perm reachable.wellIndexed options first args).symm.subset
    (List.mem_map_of_mem (List.mem_filter.mpr ⟨member, decide_eq_true applies⟩))
  unfold checkWithOptions matchesForCommandWithOptions at checked
  generalize next.visitMatches host (first :: args) options _ [] = visited at found checked
  obtain ⟨_ | ⟨head, tail⟩, matched⟩ := visited
  · cases found
  · exact (fromMatches_decision checked).2.2 _ (List.mem_map_of_mem found)

/-- Allowing `git` leaves it forbidden. -/
theorem amended_decision_git : ∃ next evaluation,
    gitPolicy.addPrefixRule false [['g', 'i', 't']] .allow = .ok next ∧
      next.checkWithOptions (Unix.host work none) [['g', 'i', 't']] (fun _ => .allow) {} =
        some evaluation ∧ forbidGit.decision ≤ evaluation.decision :=
  have binds : Binds (Unix.host work none) {} ['g', 'i', 't'] [] forbidGit gitPolicy :=
    ⟨gitPolicy_reachable, by decide, .inl rfl, [], [], rfl, .nil⟩
  ⟨_, _, rfl, rfl, @amended_decision _ _ _ _ _ _ _ _ _ binds [([['g', 'i', 't']], .allow)] rfl
    (fun _ => .allow) _ rfl⟩

end Policy

end Codex.ExecPolicy
