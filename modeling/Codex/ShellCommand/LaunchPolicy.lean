import Codex.Lib.Grouping
import Codex.Lib.Json

/-!
# Launch policy of compound commands

`shell-command/src/validation.rs`: `combine_policy_classifications` and `policy_kda_request`.
-/

namespace Codex.ShellCommand

/-- `ValidationPolicyClassification` (`validation.rs:270`). -/
inductive PolicyClassification where
  | unrelated
  | readOnly
  | targetedCompilation
  | benchmark
  | tooling
  | tests
  | checks
  | restricted
  | opaqueWork
  deriving DecidableEq, Repr

namespace PolicyClassification

/-- Work that is launched under the benchmark or the tooling permission. -/
def isPermitted (policy : PolicyClassification) : Bool := policy = benchmark || policy = tooling

/-- Work that no rule has recognized. -/
def isUnclassified (policy : PolicyClassification) : Bool :=
  policy = opaqueWork || policy = unrelated

/-- Work that is never launched under the benchmark or the tooling permission. -/
def isForbidden (policy : PolicyClassification) : Bool :=
  policy = tests || policy = checks || policy = restricted

/-- Work that needs no permission of its own. -/
def isHarmless (policy : PolicyClassification) : Bool :=
  policy = readOnly || policy = targetedCompilation

end PolicyClassification

open PolicyClassification

/-- The step of the fold (`validation.rs:296`). -/
def combinePair (left right : PolicyClassification) : PolicyClassification :=
  ([tests, checks].find? fun prohibited => left = prohibited || right = prohibited).getD <|
    if (left.isPermitted && right.isUnclassified) || (right.isPermitted && left.isUnclassified) then
      restricted
    else
      ([restricted, benchmark, tooling, targetedCompilation, opaqueWork, readOnly].find?
        fun candidate => left = candidate || right = candidate).getD unrelated

/-- `combine_policy_classifications` (`validation.rs:292`). -/
def combinePolicyClassifications : List PolicyClassification → PolicyClassification
  | [] => unrelated
  | first :: rest => rest.foldl combinePair first

/-! ## KDA requests -/

def MAX_WRAPPER_DEPTH : Nat := 4

/-- `Value::as_array`, empty where the value is none. -/
def elements : Json → List Json
  | .array values => values
  | .null | .bool _ | .number _ | .string _ | .object _ => []

def isTrue : Json → Bool
  | .bool value => value
  | .null | .number _ | .string _ | .array _ | .object _ => false

/-- The classification of an operation itself (`validation.rs:2539`). -/
def kdaOwn (op : String) : PolicyClassification :=
  if op ∈ ["status", "catalog"] then readOnly
  else if op ∈ ["test", "tests", "suite"] then tests
  else if op ∈ ["gate", "check", "lint", "validate"] then checks
  else tooling

/-- The requests that an operation executes (`validation.rs:2545`). -/
def kdaNested (op : String) (request : Json) : List Json :=
  if op = "batch" then
    -- A plan-only batch lists its steps without running them.
    if (request.get "plan_only").any isTrue then []
    else ((request.get "steps").map elements).getD []
  else if op = "run" then (request.get "request").toList
  else []

/-- `policy_kda_request` (`validation.rs:2537`), with the depth that is left. -/
def policyKdaRequest : Nat → Json → Option PolicyClassification
  | 0, request => ((request.get "op").bind Json.asStr).map fun op =>
      combinePolicyClassifications <| kdaOwn op :: (kdaNested op request).map fun _ => restricted
  | left + 1, request => ((request.get "op").bind Json.asStr).map fun op =>
      combinePolicyClassifications <| kdaOwn op ::
        (kdaNested op request).map fun step => (policyKdaRequest left step).getD restricted

/-- The operations of a request in the groups in which it nests them. -/
def kdaGrouping : Nat → Json → Option (Grouping PolicyClassification)
  | 0, request => ((request.get "op").bind Json.asStr).map fun op =>
      .group (.single (kdaOwn op)) <| (kdaNested op request).map fun _ => .single restricted
  | left + 1, request => ((request.get "op").bind Json.asStr).map fun op =>
      .group (.single (kdaOwn op)) <|
        (kdaNested op request).map fun step => (kdaGrouping left step).getD (.single restricted)

/-- `combine_policy_classifications` of every group. -/
abbrev policyOf (grouping : Grouping PolicyClassification) : PolicyClassification :=
  Grouping.value combinePair grouping

theorem policyOf_group (first : Grouping PolicyClassification)
    (rest : List (Grouping PolicyClassification)) :
    policyOf (.group first rest) =
      combinePolicyClassifications (policyOf first :: rest.map policyOf) := by
  rw [policyOf, Grouping.value, Grouping.values_eq_map]
  rfl

variable {classifications commands longer : List PolicyClassification}
   {left right policy : PolicyClassification} {grouping : Grouping PolicyClassification}

/-- A nonempty list is a grouping without groups. -/
theorem exists_flat (some : classifications ≠ []) :
    ∃ grouping : Grouping PolicyClassification, grouping.leaves = classifications ∧
      policyOf grouping = combinePolicyClassifications classifications := by
  obtain ⟨first, rest, rfl⟩ := List.exists_cons_of_ne_nil some
  exact ⟨Grouping.flat first rest, Grouping.leaves_flat first rest,
    Grouping.value_flat combinePair first rest⟩

/-- A request is classified as the groups of its operations are. -/
theorem policyKdaRequest_grouping (left : Nat) (request : Json) :
    policyKdaRequest left request = (kdaGrouping left request).map policyOf := by
  induction left generalizing request with
  | zero =>
    rw [policyKdaRequest, kdaGrouping, Option.map_map]
    congr 1
    funext op
    rw [Function.comp_apply, policyOf_group, List.map_map]
    rfl
  | succ left ih =>
    rw [policyKdaRequest, kdaGrouping, Option.map_map]
    congr 1
    funext op
    rw [Function.comp_apply, policyOf_group, List.map_map]
    congr 3
    funext step
    rw [ih, Function.comp_apply]
    cases kdaGrouping left step <;> rfl

/-! ## The step -/

theorem combinePair_isForbidden_left (forbidden : left.isForbidden)
    (right : PolicyClassification) : (combinePair left right).isForbidden := by
  cases left <;> cases right <;> revert forbidden <;> decide

/-- Benchmarks and tooling are kept or forbidden. -/
theorem combinePair_isPermitted_right (permitted : right.isPermitted)
    (left : PolicyClassification) :
    (combinePair left right).isPermitted ∨ (combinePair left right).isForbidden := by
  cases left <;> cases right <;> revert permitted <;> decide

theorem combinePair_isPermitted_left (permitted : left.isPermitted) (right : PolicyClassification) :
    (combinePair left right).isPermitted ∨ (combinePair left right).isForbidden := by
  cases left <;> cases right <;> revert permitted <;> decide

theorem combinePair_isUnclassified (permitted : left.isPermitted)
    (unclassified : right.isUnclassified) :
    (combinePair left right).isForbidden := by
  cases left <;> cases right <;> revert permitted unclassified <;> decide

theorem combinePair_not_permitted (leftNot : left.isPermitted = false)
    (rightNot : right.isPermitted = false) :
    (combinePair left right).isPermitted = false := by
  cases left <;> cases right <;> revert leftNot rightNot <;> decide

theorem combinePair_eq_tests (left right : PolicyClassification) :
    combinePair left right = tests ↔ left = tests ∨ right = tests := by
  cases left <;> cases right <;> decide

theorem combinePair_eq_checks (leftNot : left ≠ tests) (rightNot : right ≠ tests) :
    combinePair left right = checks ↔ left = checks ∨ right = checks := by
  cases left <;> cases right <;> revert leftNot rightNot <;> decide

theorem combinePair_restricted (leftNot : left ≠ tests ∧ left ≠ checks)
    (rightNot : right ≠ tests ∧ right ≠ checks)
    (either : left = restricted ∨ right = restricted) : combinePair left right = restricted := by
  cases left <;> cases right <;> revert leftNot rightNot either <;> decide

/-! ## Prohibited work -/

theorem policyOf_eq_tests (grouping : Grouping PolicyClassification) :
    policyOf grouping = tests ↔ tests ∈ grouping.leaves := by
  refine Grouping.value_induction
    (motive := fun found policy => policy = tests ↔ tests ∈ found) ?_ ?_ grouping
  · intro policy
    rw [List.mem_singleton, eq_comm]
  · intro left right a b leftHolds rightHolds
    rw [combinePair_eq_tests, leftHolds, rightHolds, List.mem_append]

theorem policyOf_eq_checks (noTests : tests ∉ grouping.leaves) :
    policyOf grouping = checks ↔ checks ∈ grouping.leaves := by
  refine (Grouping.value_induction (motive := fun found policy => tests ∉ found →
    policy ≠ tests ∧ (policy = checks ↔ checks ∈ found)) ?_ ?_ grouping noTests).2
  · intro policy absent
    rw [List.mem_singleton, eq_comm] at absent ⊢
    exact ⟨absent, Iff.rfl⟩
  intro left right a b leftHolds rightHolds absent
  rw [List.mem_append, not_or] at absent
  obtain ⟨leftNot, leftIff⟩ := leftHolds absent.1
  obtain ⟨rightNot, rightIff⟩ := rightHolds absent.2
  refine ⟨?_, ?_⟩
  · rw [ne_eq, combinePair_eq_tests, not_or]
    exact ⟨leftNot, rightNot⟩
  · rw [combinePair_eq_checks leftNot rightNot, leftIff, rightIff, List.mem_append]

theorem policyOf_restricted (noTests : tests ∉ grouping.leaves)
    (noChecks : checks ∉ grouping.leaves)
    (found : restricted ∈ grouping.leaves) : policyOf grouping = restricted := by
  refine (Grouping.value_induction (motive := fun found policy => tests ∉ found → checks ∉ found →
    (policy ≠ tests ∧ policy ≠ checks) ∧ (restricted ∈ found → policy = restricted))
    ?_ ?_ grouping noTests noChecks).2 found
  · intro policy absent absentChecks
    rw [List.mem_singleton, eq_comm] at absent absentChecks
    rw [List.mem_singleton]
    exact ⟨⟨absent, absentChecks⟩, Eq.symm⟩
  intro left right a b leftHolds rightHolds absent absentChecks
  rw [List.mem_append, not_or] at absent absentChecks
  obtain ⟨leftNot, leftIff⟩ := leftHolds absent.1 absentChecks.1
  obtain ⟨rightNot, rightIff⟩ := rightHolds absent.2 absentChecks.2
  refine ⟨⟨?_, ?_⟩, ?_⟩
  · rw [ne_eq, combinePair_eq_tests, not_or]
    exact ⟨leftNot.1, rightNot.1⟩
  · rw [ne_eq, combinePair_eq_checks leftNot.1 rightNot.1, not_or]
    exact ⟨leftNot.2, rightNot.2⟩
  · intro member
    apply combinePair_restricted leftNot rightNot
    exact (List.mem_append.mp member).imp leftIff rightIff

/-- Forbidden work decides the classification, whatever the order and the groups. -/
theorem policyOf_forbidden {other : Grouping PolicyClassification}
    (permuted : other.leaves.Perm grouping.leaves)
    (forbidden : ∃ policy ∈ grouping.leaves, policy.isForbidden) :
    policyOf other = policyOf grouping ∧ (policyOf grouping).isForbidden := by
  by_cases hasTests : tests ∈ grouping.leaves
  · rw [(policyOf_eq_tests grouping).mpr hasTests]
    exact ⟨(policyOf_eq_tests other).mpr (permuted.mem_iff.mpr hasTests), rfl⟩
  have noTests : tests ∉ other.leaves := mt permuted.mem_iff.mp hasTests
  by_cases hasChecks : checks ∈ grouping.leaves
  · rw [(policyOf_eq_checks hasTests).mpr hasChecks]
    exact ⟨(policyOf_eq_checks noTests).mpr (permuted.mem_iff.mpr hasChecks), rfl⟩
  have noChecks : checks ∉ other.leaves := mt permuted.mem_iff.mp hasChecks
  have found : restricted ∈ grouping.leaves := by
    obtain ⟨policy, member, isForbidden⟩ := forbidden
    cases policy <;> first | exact member | exact absurd member ‹_› | cases isForbidden
  rw [policyOf_restricted hasTests hasChecks found]
  exact ⟨policyOf_restricted noTests noChecks (permuted.mem_iff.mpr found), rfl⟩

/-! ## One kind of work -/

/-- The order of the candidates. -/
def rank : PolicyClassification → Nat
  | unrelated => 0
  | readOnly => 1
  | opaqueWork => 2
  | targetedCompilation => 3
  | tooling => 4
  | benchmark => 5
  | restricted => 6
  | checks => 7
  | tests => 8

theorem rank_injective {a b : PolicyClassification} (same : rank a = rank b) : a = b := by
  cases a <;> cases b <;> first | rfl | cases same

/-- Without benchmarks and tooling the combination is a maximum. -/
theorem chooses_withoutPermitted :
    Grouping.Chooses combinePair (fun policy => policy.isPermitted = false) rank where
  choice := by
    intro a b
    cases a <;> cases b <;> decide
  left := by
    intro a b
    cases a <;> cases b <;> decide
  right := by
    intro a b
    cases a <;> cases b <;> decide

/-- Without unclassified work the combination is a maximum. -/
theorem chooses_withoutUnclassified :
    Grouping.Chooses combinePair (fun policy => policy.isUnclassified = false) rank where
  choice := by
    intro a b
    cases a <;> cases b <;> decide
  left := by
    intro a b
    cases a <;> cases b <;> decide
  right := by
    intro a b
    cases a <;> cases b <;> decide

/-! ## Work of both kinds -/

/-- What a group combines to, by whether it has opaque work and whether it has benchmarks or
    tooling, where nothing is forbidden or a targeted compilation. -/
def KeepsOpaque (hasOpaque hasPermitted : Bool) (policy : PolicyClassification) : Bool :=
  if hasOpaque then policy = if hasPermitted then restricted else opaqueWork
  else if hasPermitted then policy.isPermitted || policy = restricted
  else policy = readOnly || policy = unrelated

theorem combinePair_keepsOpaque (a b : PolicyClassification) : ∀ leftOpaque leftPermitted
    rightOpaque rightPermitted, KeepsOpaque leftOpaque leftPermitted a →
      KeepsOpaque rightOpaque rightPermitted b →
      KeepsOpaque (leftOpaque || rightOpaque) (leftPermitted || rightPermitted)
        (combinePair a b) := by
  cases a <;> cases b <;> decide

/-- What a group of unrelated work, benchmarks and tooling combines to. -/
def KeepsUnrelated (hasUnrelated hasPermitted : Bool) (policy : PolicyClassification) : Bool :=
  if hasUnrelated then policy = if hasPermitted then restricted else unrelated
  else hasPermitted && policy.isPermitted

theorem combinePair_keepsUnrelated (a b : PolicyClassification) : ∀ leftUnrelated leftPermitted
    rightUnrelated rightPermitted, KeepsUnrelated leftUnrelated leftPermitted a →
      KeepsUnrelated rightUnrelated rightPermitted b →
      KeepsUnrelated (leftUnrelated || rightUnrelated) (leftPermitted || rightPermitted)
        (combinePair a b) := by
  cases a <;> cases b <;> decide

/-- Opaque work is not lost where no targeted compilation hides it. -/
theorem policyOf_keepsOpaque (inside : ∀ policy ∈ grouping.leaves, policy.isForbidden = false ∧
      policy ≠ targetedCompilation) :
    KeepsOpaque (grouping.leaves.contains opaqueWork) (grouping.leaves.any isPermitted)
      (policyOf grouping) := by
  refine Grouping.value_induction (motive := fun found policy =>
    (∀ policy ∈ found, policy.isForbidden = false ∧ policy ≠ targetedCompilation) →
      KeepsOpaque (found.contains opaqueWork) (found.any isPermitted) policy)
    ?_ ?_ grouping inside
  · intro policy inside
    have insidePolicy := inside policy (List.mem_singleton_self policy)
    cases policy <;> revert insidePolicy <;> decide
  · intro left right a b leftHolds rightHolds inside
    obtain ⟨leftInside, rightInside⟩ := List.forall_mem_append.mp inside
    rw [List.contains_append, List.any_append]
    exact combinePair_keepsOpaque a b _ _ _ _ (leftHolds leftInside) (rightHolds rightInside)

/-- Unrelated work is not lost where nothing hides it. -/
theorem policyOf_keepsUnrelated
    (inside : ∀ policy ∈ grouping.leaves, policy.isPermitted ∨ policy = unrelated) :
    KeepsUnrelated (grouping.leaves.contains unrelated) (grouping.leaves.any isPermitted)
      (policyOf grouping) := by
  refine Grouping.value_induction (motive := fun found policy =>
    (∀ policy ∈ found, policy.isPermitted ∨ policy = unrelated) →
      KeepsUnrelated (found.contains unrelated) (found.any isPermitted) policy)
    ?_ ?_ grouping inside
  · intro policy inside
    have insidePolicy := inside policy (List.mem_singleton_self policy)
    cases policy <;> revert insidePolicy <;> decide
  · intro left right a b leftHolds rightHolds inside
    obtain ⟨leftInside, rightInside⟩ := List.forall_mem_append.mp inside
    rw [List.contains_append, List.any_append]
    exact combinePair_keepsUnrelated a b _ _ _ _ (leftHolds leftInside) (rightHolds rightInside)

/-! ## Added reads and compilations -/

/-- A fold that has met a benchmark and then unclassified work stays forbidden. -/
theorem foldl_isForbidden {acc : PolicyClassification} (forbidden : acc.isForbidden)
    (rest : List PolicyClassification) : (rest.foldl combinePair acc).isForbidden := by
  induction rest generalizing acc with
  | nil => exact forbidden
  | cons policy rest ih => exact ih (combinePair_isForbidden_left forbidden policy)

theorem foldl_isPermitted {acc : PolicyClassification}
    (permitted : acc.isPermitted ∨ acc.isForbidden) (rest : List PolicyClassification) :
    (rest.foldl combinePair acc).isPermitted ∨ (rest.foldl combinePair acc).isForbidden := by
  induction rest generalizing acc with
  | nil => exact permitted
  | cons policy rest ih =>
    rcases permitted with permitted | forbidden
    · exact ih (combinePair_isPermitted_left permitted policy)
    · exact ih (.inr (combinePair_isForbidden_left forbidden policy))

/-- Unclassified work behind a benchmark or tooling is never covered by its permission. -/
theorem combine_isForbidden {before between after : List PolicyClassification}
    {permitted unclassified : PolicyClassification} (isPermitted : permitted.isPermitted)
    (isUnclassified : unclassified.isUnclassified) :
    (combinePolicyClassifications
      (before ++ permitted :: (between ++ unclassified :: after))).isForbidden := by
  have reached : ∀ {acc : PolicyClassification}, acc.isPermitted ∨ acc.isForbidden →
      ((between ++ unclassified :: after).foldl combinePair acc).isForbidden := by
    intro acc start
    rw [List.foldl_append, List.foldl_cons]
    apply foldl_isForbidden
    rcases foldl_isPermitted start between with kept | forbidden
    · exact combinePair_isUnclassified kept isUnclassified
    · exact combinePair_isForbidden_left forbidden unclassified
  cases before with
  | nil => exact reached (.inl isPermitted)
  | cons first before =>
    rw [List.cons_append, combinePolicyClassifications, List.foldl_append, List.foldl_cons]
    exact reached (combinePair_isPermitted_right isPermitted _)

/-- The second list is the first with reads and targeted compilations added to it. -/
inductive HarmlessAdded : List PolicyClassification → List PolicyClassification → Prop where
  | nil : HarmlessAdded [] []
  | keep {commands longer : List PolicyClassification} (policy : PolicyClassification) :
      HarmlessAdded commands longer → HarmlessAdded (policy :: commands) (policy :: longer)
  | add {commands longer : List PolicyClassification} {policy : PolicyClassification} :
      policy.isHarmless → HarmlessAdded commands longer → HarmlessAdded commands (policy :: longer)

theorem HarmlessAdded.refl (commands : List PolicyClassification) :
    HarmlessAdded commands commands := by
  induction commands with
  | nil => exact .nil
  | cons policy commands ih => exact .keep policy ih

theorem HarmlessAdded.append_left (front : List PolicyClassification)
    (added : HarmlessAdded commands longer) :
    HarmlessAdded (front ++ commands) (front ++ longer) := by
  induction front with
  | nil => exact added
  | cons policy front ih => exact .keep policy ih

theorem HarmlessAdded.sublist
    (added : HarmlessAdded commands longer) : commands.Sublist longer := by
  induction added with
  | nil => exact List.Sublist.slnil
  | keep policy _ ih => exact ih.cons_cons policy
  | add _ _ ih => exact ih.cons _

theorem HarmlessAdded.mem (added : HarmlessAdded commands longer)
    (member : policy ∈ longer) : policy ∈ commands ∨ policy.isHarmless := by
  induction added with
  | nil => exact .inl member
  | keep other _ ih =>
    rcases List.mem_cons.mp member with same | later
    · exact .inl (same ▸ List.mem_cons_self)
    · exact (ih later).imp_left (List.mem_cons_of_mem _)
  | add harmless _ ih =>
    rcases List.mem_cons.mp member with same | later
    · exact .inr (same ▸ harmless)
    · exact ih later

/-! ## Order and groups -/

/-- Some of the work needs the benchmark or the tooling permission. -/
def HasPermitted (classifications : List PolicyClassification) : Prop :=
  ∃ policy ∈ classifications, policy.isPermitted

def HasUnclassified (classifications : List PolicyClassification) : Prop :=
  ∃ policy ∈ classifications, policy.isUnclassified

def HasForbidden (classifications : List PolicyClassification) : Prop :=
  ∃ policy ∈ classifications, policy.isForbidden

/-- Launch policy does not depend on the order or the grouping of the commands: neither changes
    the classification, prohibited work is never lost, the benchmark and the tooling permission
    cover no unclassified work, and added reads and compilations give neither of the two. -/
structure OrderFree (classifications : List PolicyClassification) : Prop where
  permuted : ∀ other : List PolicyClassification, other.Perm classifications →
    combinePolicyClassifications other = combinePolicyClassifications classifications
  grouped : ∀ grouping : Grouping PolicyClassification, grouping.leaves.Perm classifications →
    policyOf grouping = combinePolicyClassifications classifications
  prohibited : tests ∈ classifications ∨ checks ∈ classifications →
    combinePolicyClassifications classifications = tests ∨
      combinePolicyClassifications classifications = checks
  covered : HasPermitted classifications → HasUnclassified classifications →
    (combinePolicyClassifications classifications).isPermitted = false
  narrowed : ∀ longer, HarmlessAdded classifications longer →
    (combinePolicyClassifications longer).isPermitted →
    (combinePolicyClassifications classifications).isPermitted

/-- No harmless command of the list can hide its unclassified work from its benchmarks and its
    tooling. -/
def NothingHidden (classifications : List PolicyClassification) : Prop :=
  HasForbidden classifications ∨ ¬HasPermitted classifications ∨
    ¬HasUnclassified classifications ∨
    (targetedCompilation ∉ classifications ∧
      (readOnly ∈ classifications → unrelated ∈ classifications → opaqueWork ∈ classifications) ∧
      ∃ before after policy, classifications = before ++ policy :: after ∧ policy.isPermitted ∧
        HasUnclassified after)

/-- It is enough that every grouping gives one classification. -/
theorem orderFree_of_policyOf
    (all : ∀ grouping : Grouping PolicyClassification, grouping.leaves.Perm classifications →
      policyOf grouping = policy)
    (covered : HasPermitted classifications → HasUnclassified classifications →
      policy.isPermitted = false) (narrowed : ∀ longer, HarmlessAdded classifications longer →
      (combinePolicyClassifications longer).isPermitted → policy.isPermitted)
    (some : classifications ≠ []) : OrderFree classifications := by
  have flat : ∀ {other : List PolicyClassification}, other.Perm classifications →
      combinePolicyClassifications other = policy := by
    intro other permuted
    have otherSome : other ≠ [] := by
      rintro rfl
      exact some permuted.nil_eq.symm
    obtain ⟨grouping, leaves, value⟩ := exists_flat otherSome
    rw [← value]
    exact all grouping (leaves ▸ permuted)
  have same := flat (List.Perm.refl classifications)
  refine ⟨?_, ?_, ?_, ?_, ?_⟩
  · intro other permuted
    rw [same]
    exact flat permuted
  · intro grouping permuted
    rw [same]
    exact all grouping permuted
  · intro found
    obtain ⟨grouping, leaves, value⟩ := exists_flat some
    rw [← value, policyOf_eq_tests, leaves]
    by_cases hasTests : tests ∈ classifications
    · exact .inl hasTests
    · refine .inr ((policyOf_eq_checks (leaves ▸ hasTests)).mpr (leaves ▸ ?_))
      exact found.resolve_left hasTests
  · intro hasPermitted hasUnclassified
    rw [same]
    exact covered hasPermitted hasUnclassified
  · intro longer added permitted
    rw [same]
    exact narrowed longer added permitted

theorem policyOf_not_permitted
    (none : ¬HasPermitted grouping.leaves) : (policyOf grouping).isPermitted = false := by
  refine Grouping.value_induction (motive := fun found policy =>
    ¬HasPermitted found → policy.isPermitted = false) ?_ ?_ grouping none
  · intro policy none
    rw [Bool.eq_false_iff]
    exact fun permitted => none ⟨policy, List.mem_singleton_self policy, permitted⟩
  intro left right a b leftHolds rightHolds none
  apply combinePair_not_permitted
  · apply leftHolds
    rintro ⟨policy, member, permitted⟩
    exact none ⟨policy, List.mem_append_left _ member, permitted⟩
  · apply rightHolds
    rintro ⟨policy, member, permitted⟩
    exact none ⟨policy, List.mem_append_right _ member, permitted⟩

theorem combine_not_permitted (none : ¬HasPermitted classifications) :
    (combinePolicyClassifications classifications).isPermitted = false := by
  by_cases empty : classifications = []
  · rw [empty]
    rfl
  · obtain ⟨grouping, leaves, value⟩ := exists_flat empty
    rw [← value]
    exact policyOf_not_permitted (leaves ▸ none)

theorem combine_forbidden (forbidden : HasForbidden classifications) :
    (combinePolicyClassifications classifications).isForbidden := by
  have some : classifications ≠ [] := by
    rintro rfl
    obtain ⟨_, member, _⟩ := forbidden
    cases member
  obtain ⟨grouping, leaves, value⟩ := exists_flat some
  rw [← value]
  exact (policyOf_forbidden (List.Perm.refl _) (leaves ▸ forbidden)).2

theorem not_permitted_of_forbidden
    (forbidden : policy.isForbidden) : policy.isPermitted = false := by
  cases policy <;> revert forbidden <;> decide

theorem not_permitted_of_harmless (harmless : policy.isHarmless) :
    policy.isPermitted = false := by
  cases policy <;> revert harmless <;> decide

/-- The classification without unclassified and forbidden work. -/
theorem policyOf_isPermitted (noForbidden : ¬HasForbidden grouping.leaves)
    (noUnclassified : ¬HasUnclassified grouping.leaves)
    (permitted : HasPermitted grouping.leaves) : (policyOf grouping).isPermitted := by
  have inside : ∀ policy ∈ grouping.leaves, policy.isUnclassified = false := by
    intro policy member
    rw [Bool.eq_false_iff]
    exact fun unclassified => noUnclassified ⟨policy, member, unclassified⟩
  obtain ⟨member, bound⟩ := chooses_withoutUnclassified.value_greatest grouping inside
  obtain ⟨policy, policyMember, isPermitted⟩ := permitted
  have greater := bound policy policyMember
  have notForbidden : (policyOf grouping).isForbidden = false := by
    rw [Bool.eq_false_iff]
    exact fun forbidden => noForbidden ⟨_, member, forbidden⟩
  change rank policy ≤ rank (policyOf grouping) at greater
  generalize policyOf grouping = chosen at greater notForbidden
  cases policy <;> cases chosen <;> revert isPermitted notForbidden greater <;> decide

/-- Harmless work in front of the benchmarks hides the unclassified work in front of it. -/
theorem combine_hidden {front rest : List PolicyClassification}
    (frontNone : ¬HasPermitted front) (frontForbidden : ¬HasForbidden front)
    (hides : targetedCompilation ∈ front ∨ readOnly ∈ front ∧ opaqueWork ∉ front)
    (restForbidden : ¬HasForbidden rest) (restUnclassified : ¬HasUnclassified rest)
    (permitted : HasPermitted rest) :
    (combinePolicyClassifications (front ++ rest)).isPermitted := by
  have some : front ≠ [] := by
    rintro rfl
    rcases hides with member | ⟨member, _⟩ <;> cases member
  obtain ⟨grouping, leaves, value⟩ := exists_flat some
  have inside : ∀ policy ∈ grouping.leaves, policy.isPermitted = false := by
    intro policy member
    rw [Bool.eq_false_iff]
    exact fun isPermitted => frontNone ⟨policy, leaves ▸ member, isPermitted⟩
  obtain ⟨member, bound⟩ := chooses_withoutPermitted.value_greatest grouping inside
  change policyOf grouping ∈ grouping.leaves at member
  change ∀ policy ∈ grouping.leaves, rank policy ≤ rank (policyOf grouping) at bound
  rw [value, leaves] at member bound
  have hidden : (combinePolicyClassifications front).isHarmless := by
    have notPermitted : (combinePolicyClassifications front).isPermitted = false :=
      combine_not_permitted frontNone
    have notForbidden : (combinePolicyClassifications front).isForbidden = false := by
      rw [Bool.eq_false_iff]
      exact fun forbidden => frontForbidden ⟨_, member, forbidden⟩
    rcases hides with compilation | ⟨reads, noOpaque⟩
    · have greater := bound _ compilation
      generalize combinePolicyClassifications front = chosen at *
      cases chosen <;> revert notPermitted notForbidden greater <;> decide
    · have greater := bound _ reads
      have notOpaque : combinePolicyClassifications front ≠ opaqueWork :=
        fun same => noOpaque (same ▸ member)
      generalize combinePolicyClassifications front = chosen at *
      cases chosen <;> revert notPermitted notForbidden greater notOpaque <;> decide
  have joined : combinePolicyClassifications (front ++ rest) =
      policyOf (Grouping.flat (combinePolicyClassifications front) rest) := by
    obtain ⟨first, more, rfl⟩ := List.exists_cons_of_ne_nil some
    rw [policyOf, Grouping.value_flat, List.cons_append, combinePolicyClassifications,
      combinePolicyClassifications, List.foldl_append]
  rw [joined]
  generalize combinePolicyClassifications front = harmless at hidden
  apply policyOf_isPermitted <;> rw [Grouping.leaves_flat]
  · rintro ⟨policy, member, forbidden⟩
    rcases List.mem_cons.mp member with same | later
    · subst same
      cases policy <;> revert hidden forbidden <;> decide
    · exact restForbidden ⟨policy, later, forbidden⟩
  · rintro ⟨policy, member, unclassified⟩
    rcases List.mem_cons.mp member with same | later
    · subst same
      cases policy <;> revert hidden unclassified <;> decide
    · exact restUnclassified ⟨policy, later, unclassified⟩
  · obtain ⟨policy, member, isPermitted⟩ := permitted
    exact ⟨policy, List.mem_cons_of_mem _ member, isPermitted⟩

/-! ## When nothing is hidden -/

theorem orderFree_nil : OrderFree [] where
  permuted := by
    intro other permuted
    rw [permuted.eq_nil]
  grouped := by
    intro grouping permuted
    exact absurd permuted.eq_nil (Grouping.leaves_ne_nil grouping)
  prohibited := by
    rintro (member | member) <;> cases member
  covered := fun _ _ => rfl
  narrowed := by
    intro longer added permitted
    rw [combine_not_permitted] at permitted
    · cases permitted
    · rintro ⟨policy, member, isPermitted⟩
      rcases added.mem member with found | harmless
      · cases found
      · rw [not_permitted_of_harmless harmless] at isPermitted
        cases isPermitted

theorem HarmlessAdded.hasPermitted (added : HarmlessAdded commands longer)
    (permitted : HasPermitted longer) :
    HasPermitted commands := by
  obtain ⟨policy, member, isPermitted⟩ := permitted
  rcases added.mem member with found | harmless
  · exact ⟨policy, found, isPermitted⟩
  · rw [not_permitted_of_harmless harmless] at isPermitted
    cases isPermitted

/-- Benchmarks and tooling in front of unclassified work stay in front of it. -/
theorem HarmlessAdded.isForbidden {before after : List PolicyClassification}
    (added : HarmlessAdded (before ++ policy :: after) longer) (permitted : policy.isPermitted)
    (unclassified : HasUnclassified after) :
    (combinePolicyClassifications longer).isForbidden := by
  obtain ⟨other, member, isUnclassified⟩ := unclassified
  obtain ⟨between, rest, rfl⟩ := List.append_of_mem member
  obtain ⟨front, back, rfl, _, inBack⟩ := List.append_sublist_iff.mp added.sublist
  obtain ⟨start, later, rfl, atStart, inLater⟩ := List.cons_sublist_iff.mp inBack
  obtain ⟨middle, last, rfl, _, inLast⟩ := List.append_sublist_iff.mp inLater
  obtain ⟨s, t, rfl⟩ := List.append_of_mem atStart
  obtain ⟨v, w, rfl⟩ := List.append_of_mem (List.singleton_sublist.mp
    ((List.singleton_sublist.mpr List.mem_cons_self).trans inLast))
  have split : front ++ ((s ++ policy :: t) ++ (middle ++ (v ++ other :: w))) =
      (front ++ s) ++ policy :: ((t ++ middle ++ v) ++ other :: w) := by
    simp only [List.append_assoc, List.cons_append]
  rw [split]
  exact combine_isForbidden permitted isUnclassified

/-- Benchmarks or tooling beside unclassified work, when nothing hides it. -/
theorem policyOf_mixed (noForbidden : ¬HasForbidden grouping.leaves)
    (permitted : HasPermitted grouping.leaves) (unclassified : HasUnclassified grouping.leaves)
    (noCompilation : targetedCompilation ∉ grouping.leaves)
    (reads : readOnly ∈ grouping.leaves → unrelated ∈ grouping.leaves →
      opaqueWork ∈ grouping.leaves) : policyOf grouping = restricted := by
  have notForbidden : ∀ policy ∈ grouping.leaves, policy.isForbidden = false := by
    intro policy member
    rw [Bool.eq_false_iff]
    exact fun forbidden => noForbidden ⟨policy, member, forbidden⟩
  have anyPermitted : grouping.leaves.any isPermitted = true := List.any_eq_true.mpr permitted
  by_cases opaqueFound : opaqueWork ∈ grouping.leaves
  · have keeps := policyOf_keepsOpaque fun policy member =>
      ⟨notForbidden policy member, fun same => noCompilation (same ▸ member)⟩
    rw [anyPermitted, List.contains_iff_mem.mpr opaqueFound] at keeps
    exact of_decide_eq_true keeps
  have unrelatedFound : unrelated ∈ grouping.leaves := by
    obtain ⟨policy, member, isUnclassified⟩ := unclassified
    cases policy <;> first | exact member | exact absurd member opaqueFound | cases isUnclassified
  have keeps := policyOf_keepsUnrelated fun policy member => by
    have notPolicy := notForbidden policy member
    cases policy with
    | unrelated => exact .inr rfl
    | readOnly => exact absurd (reads member unrelatedFound) opaqueFound
    | targetedCompilation => exact absurd member noCompilation
    | benchmark => exact .inl rfl
    | tooling => exact .inl rfl
    | tests => cases notPolicy
    | checks => cases notPolicy
    | restricted => cases notPolicy
    | opaqueWork => exact absurd member opaqueFound
  rw [anyPermitted, List.contains_iff_mem.mpr unrelatedFound] at keeps
  exact of_decide_eq_true keeps

theorem NothingHidden.orderFree
    (nothing : NothingHidden classifications) : OrderFree classifications := by
  by_cases empty : classifications = []
  · rw [empty]
    exact orderFree_nil
  obtain ⟨flat, leaves, _⟩ := exists_flat empty
  have notForbiddenOf : ∀ {longer}, HasForbidden longer →
      ¬(combinePolicyClassifications longer).isPermitted := by
    intro longer forbidden permitted
    rw [not_permitted_of_forbidden (combine_forbidden forbidden)] at permitted
    cases permitted
  have permittedOf : ∀ {longer}, HarmlessAdded classifications longer →
      (combinePolicyClassifications longer).isPermitted → HasPermitted classifications := by
    intro longer added permitted
    apply added.hasPermitted
    by_contra none
    rw [combine_not_permitted none] at permitted
    cases permitted
  by_cases forbidden : HasForbidden classifications
  · obtain ⟨policy, member, isForbidden⟩ := forbidden
    have result := fun grouping (permuted : Grouping.leaves grouping |>.Perm classifications) =>
      @policyOf_forbidden flat grouping (leaves ▸ permuted)
        (leaves ▸ ⟨policy, member, isForbidden⟩)
    have flatForbidden := (result flat (leaves ▸ List.Perm.refl _)).2
    refine orderFree_of_policyOf (fun grouping permuted => (result grouping permuted).1)
      (fun _ _ => not_permitted_of_forbidden flatForbidden) ?_ empty
    intro longer added permitted
    exact absurd permitted
      (notForbiddenOf ⟨policy, added.sublist.subset member, isForbidden⟩)
  rcases nothing with found | none | none | ⟨noCompilation, reads, before, after, policy, rfl,
    isPermitted, unclassified⟩
  · exact absurd found forbidden
  · -- Without benchmarks and tooling.
    have inside : ∀ policy ∈ flat.leaves, policy.isPermitted = false := by
      intro policy member
      rw [Bool.eq_false_iff]
      exact fun permitted => none ⟨policy, leaves ▸ member, permitted⟩
    refine orderFree_of_policyOf (fun grouping permuted =>
      chooses_withoutPermitted.value_perm (fun _ _ => rank_injective) inside (leaves ▸ permuted))
      (fun permitted => absurd permitted none) ?_ empty
    intro longer added permitted
    exact absurd (permittedOf added permitted) none
  · -- Without unclassified work.
    have inside : ∀ policy ∈ flat.leaves, policy.isUnclassified = false := by
      intro policy member
      rw [Bool.eq_false_iff]
      exact fun unclassified => none ⟨policy, leaves ▸ member, unclassified⟩
    refine orderFree_of_policyOf (fun grouping permuted =>
      chooses_withoutUnclassified.value_perm (fun _ _ => rank_injective) inside
        (leaves ▸ permuted)) (fun _ unclassified => absurd unclassified none) ?_ empty
    intro longer added permitted
    exact policyOf_isPermitted (leaves ▸ forbidden) (leaves ▸ none)
      (leaves ▸ permittedOf added permitted)
  · -- Work of both kinds.
    refine @orderFree_of_policyOf _ restricted ?_ (fun _ _ => rfl) ?_ empty
    · intro grouping permuted
      obtain ⟨other, member, isUnclassified⟩ := unclassified
      apply policyOf_mixed
      · rintro ⟨found, inside, isForbidden⟩
        exact forbidden ⟨found, permuted.mem_iff.mp inside, isForbidden⟩
      · exact ⟨policy, permuted.mem_iff.mpr (List.mem_append_right _ List.mem_cons_self),
          isPermitted⟩
      · exact ⟨other, permuted.mem_iff.mpr (List.mem_append_right _
          (List.mem_cons_of_mem _ member)), isUnclassified⟩
      · exact mt permuted.mem_iff.mp noCompilation
      · exact fun read unrelatedFound => permuted.mem_iff.mpr
          (reads (permuted.mem_iff.mp read) (permuted.mem_iff.mp unrelatedFound))
    · intro longer added permitted
      rw [not_permitted_of_forbidden (added.isForbidden isPermitted unclassified)] at permitted
      cases permitted

/-- A list that may be launched in any order and grouping is one in which nothing is hidden. -/
theorem orderFree_iff (classifications : List PolicyClassification) :
    OrderFree classifications ↔ NothingHidden classifications := by
  refine ⟨?_, NothingHidden.orderFree⟩
  intro free
  by_contra something
  obtain ⟨noForbidden, permitted, unclassified, hides⟩ : ¬HasForbidden classifications ∧
      HasPermitted classifications ∧ HasUnclassified classifications ∧ _ := by
    simpa only [NothingHidden, not_or, not_not] using something
  have covered := free.covered permitted unclassified
  have coveredNot : ¬(combinePolicyClassifications classifications).isPermitted := by
    rw [covered]
    exact Bool.false_ne_true
  -- The commands without a permission, in front of the benchmarks and the tooling.
  have uncovered : ¬(targetedCompilation ∈ classifications ∨
      readOnly ∈ classifications ∧ opaqueWork ∉ classifications) := by
    intro hidden
    have front : ∀ policy, policy ∈ classifications.filter (fun policy => !policy.isPermitted) ↔
        policy ∈ classifications ∧ policy.isPermitted = false := by
      simp only [List.mem_filter, Bool.not_eq_true', implies_true]
    have permutedList : (classifications.filter (fun policy => !policy.isPermitted) ++
        classifications.filter isPermitted).Perm classifications :=
      List.perm_append_comm.trans (List.filter_append_perm isPermitted classifications)
    apply coveredNot
    rw [← free.permuted _ permutedList]
    apply combine_hidden
    · rintro ⟨policy, member, isPermitted⟩
      rw [((front policy).mp member).2] at isPermitted
      cases isPermitted
    · rintro ⟨policy, member, isForbidden⟩
      exact noForbidden ⟨policy, ((front policy).mp member).1, isForbidden⟩
    · rcases hidden with compilation | ⟨reads, noOpaque⟩
      · exact .inl ((front _).mpr ⟨compilation, rfl⟩)
      · exact .inr ⟨(front _).mpr ⟨reads, rfl⟩, fun member => noOpaque ((front _).mp member).1⟩
    · rintro ⟨policy, member, isForbidden⟩
      exact noForbidden ⟨policy, (List.mem_filter.mp member).1, isForbidden⟩
    · rintro ⟨policy, member, isUnclassified⟩
      have isPermitted := (List.mem_filter.mp member).2
      cases policy <;> revert isPermitted isUnclassified <;> decide
    · obtain ⟨policy, member, isPermitted⟩ := permitted
      exact ⟨policy, List.mem_filter.mpr ⟨member, isPermitted⟩, isPermitted⟩
  rw [not_or, not_and, not_not] at uncovered
  -- The first of the benchmarks and the tooling.
  obtain ⟨policy, front, back, isPermitted, split, before⟩ :
      ∃ policy front back, policy.isPermitted ∧ classifications = front ++ policy :: back ∧
        ¬HasPermitted front := by
    obtain ⟨policy, member, isPermitted⟩ := permitted
    obtain ⟨first, front, back, before, isFirst, split, _⟩ :=
      List.exists_of_eraseP member isPermitted
    refine ⟨first, front, back, isFirst, split, ?_⟩
    rintro ⟨other, inFront, otherPermitted⟩
    exact before other inFront otherPermitted
  have noneAfter : ¬HasUnclassified back := fun after =>
    hides ⟨uncovered.1, fun reads _ => uncovered.2 reads, front, back, policy, split, isPermitted,
      after⟩
  apply coveredNot
  apply free.narrowed ((front ++ [targetedCompilation]) ++ policy :: back)
  · rw [split, List.append_assoc]
    exact HarmlessAdded.append_left front (.add rfl (.refl _))
  apply combine_hidden
  · rintro ⟨other, member, otherPermitted⟩
    rcases List.mem_append.mp member with inFront | added
    · exact before ⟨other, inFront, otherPermitted⟩
    · rw [List.mem_singleton.mp added] at otherPermitted
      cases otherPermitted
  · rintro ⟨other, member, otherForbidden⟩
    rcases List.mem_append.mp member with inFront | added
    · exact noForbidden ⟨other, split ▸ List.mem_append_left _ inFront, otherForbidden⟩
    · rw [List.mem_singleton.mp added] at otherForbidden
      cases otherForbidden
  · exact .inl (List.mem_append_right _ List.mem_cons_self)
  · rintro ⟨other, member, otherForbidden⟩
    exact noForbidden ⟨other, split ▸ List.mem_append_right _ member, otherForbidden⟩
  · rintro ⟨other, member, otherUnclassified⟩
    rcases List.mem_cons.mp member with same | later
    · subst same
      cases other <;> revert isPermitted otherUnclassified <;> decide
    · exact noneAfter ⟨other, later, otherUnclassified⟩
  · exact ⟨policy, List.mem_cons_self, isPermitted⟩

/-- A compilation hides opaque work from the benchmark behind it. -/
theorem combinePolicyClassifications_hides :
    ¬OrderFree [opaqueWork, targetedCompilation, benchmark] := by
  intro free
  have covered := free.covered ⟨benchmark, by decide, rfl⟩ ⟨opaqueWork, by decide, rfl⟩
  revert covered
  decide

/-! ## Requests -/

theorem leavesAll_of_forall {motive : PolicyClassification → Prop}
    {rest : List (Grouping PolicyClassification)}
    (all : ∀ grouping ∈ rest, ∀ policy ∈ grouping.leaves, motive policy) :
    ∀ policy ∈ Grouping.leavesAll rest, motive policy := by
  induction rest with
  | nil => exact List.forall_mem_nil _
  | cons grouping rest ih =>
    obtain ⟨first, later⟩ := List.forall_mem_cons.mp all
    rw [Grouping.leavesAll]
    exact List.forall_mem_append.mpr ⟨first, ih later⟩

theorem kdaOwn_classified (op : String) : (kdaOwn op).isUnclassified = false := by
  unfold kdaOwn
  split
  · rfl
  · split
    · rfl
    · split <;> rfl

/-- No operation of a request is unclassified. -/
theorem kdaGrouping_classified (left : Nat) (request : Json)
    (found : kdaGrouping left request = some grouping) :
    ∀ policy ∈ grouping.leaves, policy.isUnclassified = false := by
  induction left generalizing request grouping with
  | zero =>
    rw [kdaGrouping, Option.map_eq_some_iff] at found
    obtain ⟨op, _, rfl⟩ := found
    rw [Grouping.leaves, Grouping.leaves]
    refine List.forall_mem_append.mpr ⟨?_, leavesAll_of_forall ?_⟩
    · exact List.forall_mem_singleton.mpr (kdaOwn_classified op)
    · intro step member
      obtain ⟨_, _, rfl⟩ := List.mem_map.mp member
      rw [Grouping.leaves]
      exact List.forall_mem_singleton.mpr rfl
  | succ left ih =>
    rw [kdaGrouping, Option.map_eq_some_iff] at found
    obtain ⟨op, _, rfl⟩ := found
    rw [Grouping.leaves, Grouping.leaves]
    refine List.forall_mem_append.mpr ⟨?_, leavesAll_of_forall ?_⟩
    · exact List.forall_mem_singleton.mpr (kdaOwn_classified op)
    intro nested member
    obtain ⟨step, _, rfl⟩ := List.mem_map.mp member
    cases stepFound : kdaGrouping left step with
    | none =>
      rw [Option.getD_none, Grouping.leaves]
      exact List.forall_mem_singleton.mpr rfl
    | some inner =>
      rw [Option.getD_some]
      exact ih step stepFound

/-- The order in which a request nests its operations does not matter. -/
theorem policyKdaRequest_orderFree (left : Nat) (request : Json)
    (found : kdaGrouping left request = some grouping) :
    policyKdaRequest left request = some (combinePolicyClassifications grouping.leaves) ∧
      OrderFree grouping.leaves := by
  have free : OrderFree grouping.leaves := by
    refine NothingHidden.orderFree (.inr (.inr (.inl ?_)))
    rintro ⟨policy, member, unclassified⟩
    rw [kdaGrouping_classified left request found policy member] at unclassified
    cases unclassified
  refine ⟨?_, free⟩
  rw [policyKdaRequest_grouping, found, Option.map_some,
    free.grouped grouping (List.Perm.refl _)]

/-- A test inside a batch is a test. -/
theorem policyKdaRequest_orderFree_batch : policyKdaRequest MAX_WRAPPER_DEPTH (.object
    [("op", .string "batch"), ("steps", .array [.object [("op", .string "test")]])]) =
      some (combinePolicyClassifications [tooling, tests]) :=
  (@policyKdaRequest_orderFree (.group (.single tooling) [.group (.single tests) []]) _ _ rfl).1

end Codex.ShellCommand
