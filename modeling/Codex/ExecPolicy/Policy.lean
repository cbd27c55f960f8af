import Mathlib.Data.List.MinMax
import Codex.Lib.MultiMap
import Codex.ExecPolicy.Rule

/-!
# The execution policy

`execpolicy/src/policy.rs`. A policy stores its rules under their program and, for programs
without a path separator, also under the lookup key of their name. A check visits the rules of
the exact spelling, then those of the resolved file name, and takes the strictest decision.
-/

namespace Codex.ExecPolicy

open List (Perm)

variable {AbsolutePathBuf : Type}

structure MatchOptions where
  resolveHostExecutables : Bool := false
  deriving DecidableEq, Repr

inductive NetworkRuleProtocol where
  | http
  | https
  | socks5Tcp
  | socks5Udp
  deriving DecidableEq, Repr

structure NetworkRule where
  host : Text
  protocol : NetworkRuleProtocol
  decision : Decision
  justification : Option Text
  deriving DecidableEq, Repr

/-- `Policy` (`policy.rs:27`). -/
structure Policy (AbsolutePathBuf : Type) where
  rulesByProgram : MultiMap Text PrefixRule
  networkRules : List NetworkRule
  basenameRules : MultiMap Text PrefixRule
  hostExecutablesByName : AList (fun _ : Text => List AbsolutePathBuf)

/-- `Evaluation` (`policy.rs:387`). -/
structure Evaluation (AbsolutePathBuf : Type) where
  decision : Decision
  matchedRules : List (RuleMatch AbsolutePathBuf)
  deriving DecidableEq, Repr

/-- `Evaluation::from_matches`; `none` is its panic on an empty list. -/
def Evaluation.fromMatches (matchedRules : List (RuleMatch AbsolutePathBuf)) :
    Option (Evaluation AbsolutePathBuf) :=
  (matchedRules.map RuleMatch.decision).max?.map (fun decision => { decision, matchedRules })

namespace Policy

/-- All rules of a policy. -/
def rules (policy : Policy AbsolutePathBuf) : List PrefixRule := policy.rulesByProgram.values

/-- The index entries of one program (`policy.rs:60`). -/
def indexProgram (windows : Bool) (index : MultiMap Text PrefixRule)
    (entry : Sigma fun _ : Text => List PrefixRule) : MultiMap Text PrefixRule :=
  if hasSeparator entry.1 then index
  else entry.2.foldl (fun index rule => index.push (executableLookupKey windows entry.1) rule) index

/-- `from_shared_parts` (`policy.rs:54`), which iterates the rules in some order. -/
def fromSharedParts (windows : Bool) (rulesByProgram : MultiMap Text PrefixRule)
    (iteration : rulesByProgram.Iteration) (networkRules : List NetworkRule)
    (hostExecutablesByName : AList (fun _ : Text => List AbsolutePathBuf)) :
    Policy AbsolutePathBuf where
  rulesByProgram
  networkRules
  basenameRules := iteration.val.foldl (indexProgram windows) ∅
  hostExecutablesByName

/-- `add_prefix_rule` (`policy.rs:108`). -/
def addPrefixRule (windows : Bool) (policy : Policy AbsolutePathBuf) :
    List Text → Decision → Except Error (Policy AbsolutePathBuf)
  | [], _ => .error (.invalidPattern "prefix cannot be empty")
  | firstToken :: rest, decision => do
      PatternToken.validateProgram (.single firstToken)
      let rule : PrefixRule :=
        { pattern := { first := firstToken, rest := rest.map PatternToken.single }, decision }
      return { policy with
        basenameRules :=
          if hasSeparator firstToken then policy.basenameRules
          else policy.basenameRules.push (executableLookupKey windows firstToken) rule
        rulesByProgram := policy.rulesByProgram.push firstToken rule }

/-- `set_host_executable_paths` (`policy.rs:139`). -/
def setHostExecutablePaths (windows : Bool) (policy : Policy AbsolutePathBuf) (name : Text)
    (paths : List AbsolutePathBuf) : Policy AbsolutePathBuf :=
  { policy with hostExecutablesByName :=
      policy.hostExecutablesByName.insert (executableLookupKey windows name) paths }

/-- The rules of an overlay are added to those of the base (`policy.rs:145`). -/
def combinedRules (base overlay : Policy AbsolutePathBuf)
    (iteration : overlay.rulesByProgram.Iteration) : MultiMap Text PrefixRule :=
  iteration.val.foldl (fun rules entry =>
    entry.2.foldl (fun rules rule => rules.push entry.1 rule) rules) base.rulesByProgram

/-- `merge_overlay` (`policy.rs:144`). -/
def mergeOverlay (windows : Bool) (base overlay : Policy AbsolutePathBuf)
    (iteration : overlay.rulesByProgram.Iteration)
    (combinedIteration : (combinedRules base overlay iteration).Iteration) :
    Policy AbsolutePathBuf :=
  fromSharedParts windows (combinedRules base overlay iteration) combinedIteration
    (base.networkRules ++ overlay.networkRules)
    (overlay.hostExecutablesByName.entries.foldl (fun map entry => map.insert entry.1 entry.2)
      base.hostExecutablesByName)

/-- The rule can be found under this lookup key. -/
def named (windows : Bool) (key : Text) (rule : PrefixRule) : Bool :=
  !hasSeparator rule.program && decide (key = executableLookupKey windows rule.program)

/-- Every rule is stored under its own program. -/
def Own (rules : MultiMap Text PrefixRule) : Prop :=
  ∀ entry ∈ rules.entries, ∀ rule ∈ entry.2, rule.program = entry.1

/-- Rules are stored under their own program, and the index of a key holds exactly the rules
    that can be found under it. -/
structure WellIndexed (windows : Bool) (policy : Policy AbsolutePathBuf) : Prop where
  own : Own policy.rulesByProgram
  index : ∀ key, (policy.basenameRules.valuesAt key).Perm (policy.rules.filter (named windows key))

theorem own_push {rules : MultiMap Text PrefixRule} (own : Own rules) (rule : PrefixRule) :
    Own (rules.push rule.program rule) := by
  intro entry member stored inside
  rw [MultiMap.push, AList.entries_insert, List.mem_cons] at member
  rcases member with rfl | member
  · rw [List.mem_append, List.mem_singleton] at inside
    rcases inside with inside | rfl
    · cases found : rules.getVec rule.program with
      | none =>
        rw [MultiMap.valuesAt, found] at inside
        cases inside
      | some values =>
        rw [MultiMap.valuesAt, found] at inside
        exact own ⟨_, values⟩ (AList.mem_lookup_iff.mp found) stored inside
    · rfl
  · exact own entry ((List.kerase_sublist _ _).subset member) stored inside

theorem valuesAt_foldl_push (key other : Text) (rules : List PrefixRule)
    (index : MultiMap Text PrefixRule) :
    (rules.foldl (fun index rule => index.push key rule) index).valuesAt other =
      index.valuesAt other ++ if other = key then rules else [] := by
  induction rules generalizing index with
  | nil => simp
  | cons rule rules ih =>
    rw [List.foldl_cons, ih, MultiMap.valuesAt_push]
    split
    · next same => rw [same, List.append_assoc, List.singleton_append]
    · rfl

/-- Indexing one program adds its rules to the key of its name. -/
theorem valuesAt_indexProgram (windows : Bool) (index : MultiMap Text PrefixRule)
    (entry : Sigma fun _ : Text => List PrefixRule)
    (own : ∀ rule ∈ entry.2, rule.program = entry.1) (key : Text) :
    (indexProgram windows index entry).valuesAt key =
      index.valuesAt key ++ entry.2.filter (named windows key) := by
  have same : entry.2.filter (named windows key) = entry.2.filter (fun _ =>
      !hasSeparator entry.1 && decide (key = executableLookupKey windows entry.1)) := by
    refine List.filter_congr (fun rule member => ?_)
    rw [named, own rule member]
  rw [same, indexProgram]
  cases separated : hasSeparator entry.1 with
  | true => simp
  | false =>
    rw [if_neg (by decide), valuesAt_foldl_push]
    by_cases here : key = executableLookupKey windows entry.1
    · simp [here]
    · simp [here]

theorem valuesAt_indexed (windows : Bool) (visited : List (Sigma fun _ : Text => List PrefixRule))
    (index : MultiMap Text PrefixRule)
    (own : ∀ entry ∈ visited, ∀ rule ∈ entry.2, rule.program = entry.1) (key : Text) :
    (visited.foldl (indexProgram windows) index).valuesAt key =
      index.valuesAt key ++ (visited.flatMap (·.2)).filter (named windows key) := by
  induction visited generalizing index with
  | nil => simp
  | cons entry visited ih =>
    rw [List.foldl_cons, ih _ (fun other member => own other (List.mem_cons_of_mem _ member)),
      valuesAt_indexProgram windows index entry (own entry List.mem_cons_self), List.append_assoc,
      List.flatMap_cons, List.filter_append]

theorem fromSharedParts_wellIndexed (windows : Bool) {rules : MultiMap Text PrefixRule}
    (own : Own rules) (iteration : rules.Iteration) (networkRules : List NetworkRule)
    (hosts : AList (fun _ : Text => List AbsolutePathBuf)) :
    WellIndexed windows (fromSharedParts windows rules iteration networkRules hosts) := by
  refine ⟨own, fun key => ?_⟩
  have visitedOwn : ∀ entry ∈ iteration.val, ∀ rule ∈ entry.2, rule.program = entry.1 :=
    fun entry member => own entry (iteration.property.subset member)
  rw [fromSharedParts, valuesAt_indexed windows iteration.val ∅ visitedOwn]
  exact (iteration.property.flatMap_right _).filter _

theorem addPrefixRule_wellIndexed {windows : Bool} {policy next : Policy AbsolutePathBuf}
    (indexed : WellIndexed windows policy) {tokens : List Text} {decision : Decision}
    (added : policy.addPrefixRule windows tokens decision = .ok next) : WellIndexed windows next := by
  cases tokens with
  | nil => cases added
  | cons firstToken rest =>
    rw [addPrefixRule] at added
    cases validated : PatternToken.validateProgram (.single firstToken) with
    | error error =>
      rw [validated] at added
      cases added
    | ok =>
      rw [validated] at added
      cases added
      refine ⟨own_push indexed.own ⟨⟨firstToken, rest.map .single⟩, decision, none⟩,
        fun key => ?_⟩
      refine .trans ?_ ((MultiMap.values_push _ _ _).filter _).symm
      rw [List.filter_append]
      cases separated : hasSeparator firstToken with
      | true =>
        have hidden : named windows key ⟨⟨firstToken, rest.map .single⟩, decision, none⟩ = false := by
          simp [named, PrefixRule.program, separated]
        rw [if_pos rfl, List.filter_singleton, hidden, cond_false, List.append_nil]
        exact indexed.index key
      | false =>
        have shown : named windows key ⟨⟨firstToken, rest.map .single⟩, decision, none⟩ =
            decide (key = executableLookupKey windows firstToken) := by
          show (!hasSeparator firstToken && _) = _
          rw [separated]
          rfl
        rw [if_neg (by decide), MultiMap.valuesAt_push, List.filter_singleton, shown]
        by_cases here : key = executableLookupKey windows firstToken
        · rw [if_pos here, ← here, decide_eq_true rfl, cond_true]
          exact (indexed.index key).append_right _
        · rw [if_neg here, decide_eq_false here, cond_false, List.append_nil]
          exact indexed.index key

theorem own_foldl_push {map : MultiMap Text PrefixRule} (own : Own map) {key : Text}
    {rules : List PrefixRule} (same : ∀ rule ∈ rules, rule.program = key) :
    Own (rules.foldl (fun map rule => map.push key rule) map) := by
  induction rules generalizing map with
  | nil => exact own
  | cons rule rules ih =>
    refine ih ?_ (fun other member => same other (List.mem_cons_of_mem _ member))
    rw [← same rule List.mem_cons_self]
    exact own_push own rule

theorem combined_own {base overlay : Policy AbsolutePathBuf} (baseOwn : Own base.rulesByProgram)
    (overlayOwn : Own overlay.rulesByProgram) (iteration : overlay.rulesByProgram.Iteration) :
    Own (combinedRules base overlay iteration) := by
  have visited : ∀ entry ∈ iteration.val, ∀ rule ∈ entry.2, rule.program = entry.1 :=
    fun entry member => overlayOwn entry (iteration.property.subset member)
  rw [combinedRules]
  generalize base.rulesByProgram = map at baseOwn
  generalize iteration.val = entries at visited
  induction entries generalizing map with
  | nil => exact baseOwn
  | cons entry entries ih =>
    exact ih _ (own_foldl_push baseOwn (visited entry List.mem_cons_self))
      (fun other member => visited other (List.mem_cons_of_mem _ member))

/-- The policies that the constructors build. -/
inductive Reachable (windows : Bool) : Policy AbsolutePathBuf → Prop
  | fromSharedParts (rules : MultiMap Text PrefixRule) (iteration : rules.Iteration)
      (networkRules : List NetworkRule) (hosts : AList (fun _ : Text => List AbsolutePathBuf))
      (own : Own rules) :
      Reachable windows (fromSharedParts windows rules iteration networkRules hosts)
  | addPrefixRule {policy : Policy AbsolutePathBuf} (reachable : Reachable windows policy)
      (tokens : List Text) (decision : Decision) {next : Policy AbsolutePathBuf}
      (added : policy.addPrefixRule windows tokens decision = .ok next) : Reachable windows next
  | setHostExecutablePaths {policy : Policy AbsolutePathBuf} (reachable : Reachable windows policy)
      (name : Text) (paths : List AbsolutePathBuf) :
      Reachable windows (policy.setHostExecutablePaths windows name paths)
  | mergeOverlay {base overlay : Policy AbsolutePathBuf} (reachable : Reachable windows base)
      (overlayReachable : Reachable windows overlay) (iteration : overlay.rulesByProgram.Iteration)
      (combinedIteration : (combinedRules base overlay iteration).Iteration) :
      Reachable windows (base.mergeOverlay windows overlay iteration combinedIteration)

theorem Reachable.wellIndexed {windows : Bool} {policy : Policy AbsolutePathBuf}
    (reachable : Reachable windows policy) : WellIndexed windows policy := by
  induction reachable with
  | fromSharedParts rules iteration networkRules hosts own =>
    exact fromSharedParts_wellIndexed windows own iteration networkRules hosts
  | addPrefixRule _ tokens decision added ih => exact addPrefixRule_wellIndexed ih added
  | setHostExecutablePaths _ name paths ih => exact ⟨ih.own, ih.index⟩
  | mergeOverlay _ _ iteration combinedIteration ihBase ihOverlay =>
    exact fromSharedParts_wellIndexed windows (combined_own ihBase.own ihOverlay.own iteration)
      combinedIteration _ _

section Checking

variable [DecidableEq AbsolutePathBuf]

/-- The progress of a visit: what the visitor made of the rules so far, whether one matched
    and whether the visitor asked to stop. -/
structure Visit (σ : Type) where
  state : σ
  matched : Bool
  stopped : Bool

/-- A loop of `visit_matches` over rules. -/
def visitRules {σ : Type} (visit : σ → PrefixRule → Option AbsolutePathBuf → σ × Bool)
    (resolved : Option AbsolutePathBuf) (applicable : PrefixRule → Bool) :
    List PrefixRule → Visit σ → Visit σ
  | [], progress => progress
  | rule :: rules, progress =>
      if applicable rule then
        let (state, stop) := visit progress.state rule resolved
        if stop then ⟨state, true, true⟩
        else visitRules visit resolved applicable rules ⟨state, true, false⟩
      else visitRules visit resolved applicable rules progress

/-- The program that an explicit path names: `none` for a bare name, and no result where the
    path cannot be made absolute (`policy.rs:330`). -/
def resolveProgram (host : Host AbsolutePathBuf) (first : Text) :
    Option (Option AbsolutePathBuf) :=
  if host.fileName first = some first then some none
  else (host.tryFrom first).map some

/-- The file name under which a resolved program is looked up (`policy.rs:341`). -/
def resolvedFilename (host : Host AbsolutePathBuf) (first : Text) :
    Option AbsolutePathBuf → Option Text
  | none => some first
  | some program => host.absoluteFileName program

/-- The gate of explicit paths by the host executables (`policy.rs:347`). -/
def gated (policy : Policy AbsolutePathBuf) (basename : Text) : Option AbsolutePathBuf → Bool
  | none => false
  | some program =>
      match policy.hostExecutablesByName.lookup basename with
      | none => false
      | some paths => !paths.any (· == program)

/-- The name test of the basename loop (`policy.rs:364`). -/
def nameApplies (windows : Bool) (name filename basename : Text) : Bool :=
  if windows then eqIgnoreAsciiCase name filename || eqIgnoreAsciiCase name basename
  else name == filename

/-- `visit_matches` (`policy.rs:303`). -/
def visitMatches {σ : Type} (host : Host AbsolutePathBuf) (policy : Policy AbsolutePathBuf)
    (cmd : List Text) (options : MatchOptions)
    (visit : σ → PrefixRule → Option AbsolutePathBuf → σ × Bool) (state : σ) : σ × Bool :=
  match cmd with
  | [] => (state, false)
  | first :: args =>
      let exact := visitRules visit none (fun rule => rule.pattern.matchesArgs args)
        ((policy.rulesByProgram.getVec first).getD []) ⟨state, false, false⟩
      if exact.stopped then (exact.state, true)
      else if !options.resolveHostExecutables then (exact.state, exact.matched)
      else
        match resolveProgram host first with
        | none => (exact.state, exact.matched)
        | some program =>
            match resolvedFilename host first program with
            | none => (exact.state, exact.matched)
            | some filename =>
                let basename := executableLookupKey host.windows filename
                if policy.gated basename program then (exact.state, exact.matched)
                else
                  match policy.basenameRules.getVec basename with
                  | none => (exact.state, exact.matched)
                  | some rules =>
                      -- rules of the exact spelling were visited above
                      let named := visitRules visit program (fun rule =>
                        rule.program != first &&
                          nameApplies host.windows rule.program filename basename &&
                          rule.pattern.matchesArgs args) rules exact
                      (named.state, named.matched)

/-- `matches_for_command_with_options` (`policy.rs:281`) with a fallback. -/
def matchesForCommandWithOptions (host : Host AbsolutePathBuf) (policy : Policy AbsolutePathBuf)
    (cmd : List Text) (heuristicsFallback : Option (List Text → Decision))
    (options : MatchOptions) : List (RuleMatch AbsolutePathBuf) :=
  let (matchedRules, _) := policy.visitMatches host cmd options
    (fun found rule resolved => (found ++ [rule.materializeMatch cmd resolved], false)) []
  match matchedRules, heuristicsFallback with
  | [], some fallback => [.heuristicsRuleMatch cmd (fallback cmd)]
  | matchedRules, _ => matchedRules

/-- `check_with_options` (`policy.rs:213`). -/
def checkWithOptions (host : Host AbsolutePathBuf) (policy : Policy AbsolutePathBuf)
    (cmd : List Text) (heuristicsFallback : List Text → Decision) (options : MatchOptions) :
    Option (Evaluation AbsolutePathBuf) :=
  Evaluation.fromMatches
    (policy.matchesForCommandWithOptions host cmd (some heuristicsFallback) options)

end Checking

end Policy

end Codex.ExecPolicy
