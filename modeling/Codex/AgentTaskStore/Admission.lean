import Codex.AgentTaskStore.Scope
import Codex.AgentTaskStore.WakeStreams
import Codex.Lib.Fallible

/-!
# Selective admission

`agent-task-store/src/local.rs`: `selective_admission_tx`, which compares an assignment with the
active assignments of its root and repository and decides who integrates its changes. Columns of
JSON and of identifiers are what they decode to. `str::to_lowercase` is a parameter, as
`char::to_uppercase` is.
-/

namespace Codex.AgentTaskStore

/-- `AdmissionRejectionReason` (`model.rs:313`). -/
inductive AdmissionRejectionReason where
  | duplicateExplorerInvestigation
  | reusableSealedInvestigation
  | isolatedIntegratorUnavailable
  deriving DecidableEq, Repr

/-- The errors of an admission (`error.rs:17`): a rejection, or a column that does not decode. -/
inductive StoreError where
  | admissionRejected (reason : AdmissionRejectionReason)
      (reusableAssignmentId : Option AssignmentId)
  | decode (message : String)
  deriving DecidableEq, Repr

/-- `AttemptState` (`model.rs:704`). -/
inductive AttemptState where
  | active
  | completed
  | needsMain
  | violated
  | abandoned
  deriving DecidableEq, Repr

/-- `RelationKind` (`model.rs:188`). -/
inductive RelationKind where
  | review
  | verification
  | integration
  deriving DecidableEq, Repr

/-- `AssignmentAdmissionOrigin` (`model.rs:52`). -/
inductive AssignmentAdmissionOrigin where
  | typed
  | legacyMessage (parentAssignmentId : Option AssignmentId)
  deriving DecidableEq, Repr

/-- `WorkspaceStrategy` (`model.rs:241`). -/
inductive WorkspaceStrategy where
  | auto
  | shared
  | isolated
  deriving DecidableEq, Repr

/-- `IntegrationPlan` (`model.rs:335`). -/
inductive IntegrationPlan where
  | singleWriter
  | rootOwned
  | typedIntegratorRequired
  deriving DecidableEq, Repr

/-- `Assignment` (`model.rs:468`), what an admission reads of it. -/
structure Assignment where
  assignmentId : AssignmentId
  rootSessionId : String
  independentVerification : Bool
  admissionOrigin : AssignmentAdmissionOrigin
  repositoryId : String
  workspaceId : String
  objective : String
  /-- The `text` of each criterion. -/
  acceptanceCriteria : List String
  readScope : List RepoScope
  writeScope : List RepoScope
  requiredEvidence : List String
  contractClaims : List String
  workspaceStrategy : WorkspaceStrategy
  /-- The `kind` of the relation. -/
  relation : Option RelationKind

/-- `AttemptAmendment` (`model.rs:613`). -/
structure AttemptAmendment where
  objective : Option String
  acceptanceCriteria : Option (List String)

/-- `EffectiveTaskContract` (`model.rs:626`). -/
structure EffectiveTaskContract where
  objective : String
  acceptanceCriteria : List String

/-- `Assignment::effective_contract` (`model.rs:642`). -/
def Assignment.effectiveContract (assignment : Assignment) (amendment : Option AttemptAmendment) :
    EffectiveTaskContract where
  objective := (amendment.bind AttemptAmendment.objective).getD assignment.objective
  acceptanceCriteria :=
    (amendment.bind AttemptAmendment.acceptanceCriteria).getD assignment.acceptanceCriteria

/-- `TaskOverlapKind` (`model.rs:305`). -/
inductive TaskOverlapKind where
  | potentialDuplicate
  | independentVerification
  | relatedWork
  deriving DecidableEq, Repr

/-- `TaskOverlapWarning` (`model.rs:290`). -/
structure TaskOverlapWarning where
  assignmentId : AssignmentId
  attemptId : AttemptId
  taskName : Option String
  agentPath : Option String
  threadId : Option String
  kind : TaskOverlapKind
  objectiveMatches : Bool
  deliverableOverlap : Bool
  contractOverlap : Bool
  scopeOverlap : Bool
  deriving DecidableEq, Repr

/-- `AdmissionOverlapSummary` (`model.rs:284`). -/
structure AdmissionOverlapSummary where
  benignReadOverlapCount : Nat
  warnings : List TaskOverlapWarning
  deriving DecidableEq, Repr

/-- `CandidateScopeCase` (`scope.rs:354`). -/
structure CandidateScopeCase where
  read : List (List ScopeCaseSemantics)
  write : List (List ScopeCaseSemantics)

structure AssignmentRow where
  assignmentId : AssignmentId
  rootSessionId : String
  bodyJson : Except StoreError Assignment

structure RepositoryRow where
  assignmentId : AssignmentId
  repositoryId : String
  workspaceId : String

structure AttemptRow where
  attemptId : Except StoreError AttemptId
  assignmentId : AssignmentId
  ordinal : Int
  state : AttemptState
  sealedAt : Option String
  amendmentJson : Option (Except StoreError (Option AttemptAmendment))

structure BindingRow where
  assignmentId : AssignmentId
  taskName : String
  agentPath : String
  threadId : Option String

structure Tables where
  assignments : List AssignmentRow
  assignmentRepositories : List RepositoryRow
  attempts : List AttemptRow
  bindings : List BindingRow

/-- The row of a join. -/
structure AdmissionRow where
  assignmentId : AssignmentId
  bodyJson : Except StoreError Assignment
  workspaceId : String
  attemptId : Except StoreError AttemptId
  amendmentJson : Option (Except StoreError (Option AttemptAmendment))
  binding : Option BindingRow

/-- An attempt is active, and the last one of its assignment. -/
def AttemptRow.isCurrent (attempt : AttemptRow) (attempts : List AttemptRow) : Bool :=
  attempt.state = .active && attempt.sealedAt.isNone &&
    attempts.all fun other => other.assignmentId ≠ attempt.assignmentId ||
      other.ordinal ≤ attempt.ordinal

/-- A `LEFT JOIN`: the rows that match, or none. -/
def leftJoin {α : Type} (rows : List α) : List (Option α) :=
  if rows.isEmpty then [none] else rows.map some

/-- The query of `selective_admission_tx`. -/
def Tables.admissionRows (tables : Tables) (repositoryId rootSessionId : String) :
    List AdmissionRow :=
  let joined := tables.assignments.flatMap fun assignment =>
    (tables.assignmentRepositories.filter fun repository =>
      repository.assignmentId = assignment.assignmentId).flatMap fun repository =>
    (tables.attempts.filter fun attempt =>
      attempt.assignmentId = assignment.assignmentId).flatMap fun attempt =>
    (leftJoin (tables.bindings.filter fun binding =>
      binding.assignmentId = assignment.assignmentId)).flatMap fun binding =>
    if repository.repositoryId = repositoryId && assignment.rootSessionId = rootSessionId &&
        attempt.isCurrent tables.attempts then
      [{ assignmentId := assignment.assignmentId
         bodyJson := assignment.bodyJson
         workspaceId := repository.workspaceId
         attemptId := attempt.attemptId
         amendmentJson := attempt.amendmentJson
         binding }]
    else []
  joined.mergeSort fun first second =>
    first.assignmentId.uuid.toNat ≤ second.assignmentId.uuid.toNat

/-- `u32::saturating_add` of one. -/
def saturatingSucc (count : Nat) : Nat := min (count + 1) (2 ^ 32 - 1)

/-- What the loop over the rows accumulates. -/
structure AdmissionScan where
  overlaps : AdmissionOverlapSummary
  conflictingWriterCount : Nat
  conflictingWriterInAnotherWorkspace : Bool

def AdmissionScan.start : AdmissionScan := ⟨⟨0, []⟩, 0, false⟩

section Admission

variable (toUppercase : Char → List Char) (toLowercase : String → String)

/-- `normalized`: words apart by one space, in lower case. -/
def normalized (text : String) : String :=
  toLowercase (" ".intercalate
    (((text.toList.splitOnP Text.isWhitespace).filter (· ≠ [])).map String.ofList))

/-- Whether a scope overlaps one of the candidate's, each with its own observations. -/
def overlapsCandidate (existing : RepoScope) (candidate : List RepoScope)
    (observed : List (List ScopeCaseSemantics)) : Bool :=
  candidate.zipIdx.any fun entry =>
    scopesOverlapObserved toUppercase existing entry.1 (observed[entry.2]?.getD [])

/-- The warning for an active assignment, if it has anything in common with the candidate. -/
def overlapWarning (assignment existing : Assignment) (row : AdmissionRow)
    (amendment : Option AttemptAmendment) (scopeOverlap : Bool) :
    Except StoreError (List TaskOverlapWarning) :=
  let contract := existing.effectiveContract amendment
  let candidate := assignment.effectiveContract none
  let objectiveMatches :=
    normalized toLowercase contract.objective == normalized toLowercase candidate.objective
  let deliverableOverlap :=
    (contract.acceptanceCriteria.any fun left => candidate.acceptanceCriteria.any fun right =>
      normalized toLowercase left == normalized toLowercase right) ||
    existing.requiredEvidence.any fun left => assignment.requiredEvidence.any fun right =>
      normalized toLowercase left == normalized toLowercase right
  let contractOverlap :=
    existing.contractClaims.any fun claim => assignment.contractClaims.contains claim
  if objectiveMatches || deliverableOverlap || contractOverlap || scopeOverlap then
    let independent := assignment.independentVerification || existing.independentVerification ||
      [assignment.relation, existing.relation].reduceOption.any fun kind =>
        kind = .review || kind = .verification
    row.attemptId.map fun attemptId =>
      [{ assignmentId := existing.assignmentId
         attemptId
         taskName := row.binding.map BindingRow.taskName
         agentPath := row.binding.map BindingRow.agentPath
         threadId := row.binding.bind BindingRow.threadId
         kind := if independent then .independentVerification
           else if objectiveMatches && deliverableOverlap || contractOverlap then
             .potentialDuplicate
           else .relatedWork
         objectiveMatches, deliverableOverlap, contractOverlap, scopeOverlap }]
  else .ok []

/-- One round of the loop over the rows (`local.rs:5326`). -/
def admitRow (assignment : Assignment) (scopeCase : CandidateScopeCase) (scan : AdmissionScan)
    (row : AdmissionRow) : Except StoreError AdmissionScan :=
  row.bodyJson.bind fun existing =>
  let readOverlaps := existing.readScope.any fun scope =>
    overlapsCandidate toUppercase scope assignment.readScope scopeCase.read
  let benignReadOverlapCount :=
    if readOverlaps then saturatingSucc scan.overlaps.benignReadOverlapCount
    else scan.overlaps.benignReadOverlapCount
  let scopeOverlap := (existing.readScope ++ existing.writeScope).any fun scope =>
    overlapsCandidate toUppercase scope assignment.readScope scopeCase.read ||
      overlapsCandidate toUppercase scope assignment.writeScope scopeCase.write
  (row.amendmentJson.getD (.ok none)).bind fun amendment =>
  (overlapWarning toLowercase assignment existing row amendment scopeOverlap).map fun warnings =>
  let overlaps := ⟨benignReadOverlapCount, scan.overlaps.warnings ++ warnings⟩
  -- Only a candidate that writes can conflict with a writer.
  if existing.writeScope.isEmpty || assignment.writeScope.isEmpty then { scan with overlaps }
  else
    let writeScopeOverlaps := existing.writeScope.any fun scope =>
      overlapsCandidate toUppercase scope assignment.writeScope scopeCase.write
    let contractOverlaps :=
      existing.contractClaims.any fun claim => assignment.contractClaims.any (· == claim)
    if writeScopeOverlaps || contractOverlaps then
      { overlaps
        conflictingWriterCount := saturatingSucc scan.conflictingWriterCount
        conflictingWriterInAnotherWorkspace :=
          scan.conflictingWriterInAnotherWorkspace || row.workspaceId != assignment.workspaceId }
    else { scan with overlaps }

/-- The plan for the changes of a candidate (`local.rs:5395`). -/
def integrationPlan (assignment : Assignment) (scan : AdmissionScan)
    (isolatedIntegratorAvailable : Bool) : Except StoreError IntegrationPlan :=
  let typedIntegrator :=
    if isolatedIntegratorAvailable then .ok .typedIntegratorRequired
    else .error (.admissionRejected .isolatedIntegratorUnavailable none)
  if assignment.writeScope.isEmpty then .ok .singleWriter
  else if assignment.workspaceStrategy = .isolated then
    match assignment.admissionOrigin with
    | .legacyMessage _ => .ok .rootOwned
    | .typed => typedIntegrator
  else if scan.conflictingWriterCount = 0 then .ok .singleWriter
  else if scan.conflictingWriterInAnotherWorkspace then typedIntegrator
  else .ok .rootOwned

/-- `selective_admission_tx` (`local.rs:5278`). -/
def selectiveAdmissionTx (tables : Tables) (assignment : Assignment)
    (scopeCase : CandidateScopeCase) (isolatedIntegratorAvailable : Bool) :
    Except StoreError (AdmissionOverlapSummary × IntegrationPlan) :=
  ((tables.admissionRows assignment.repositoryId assignment.rootSessionId).foldlM
    (admitRow toUppercase toLowercase assignment scopeCase) .start).bind fun scan =>
  (integrationPlan assignment scan isolatedIntegratorAvailable).map fun plan =>
    (scan.overlaps, plan)

end Admission

/-- An active assignment of a root and a repository. -/
def ActiveWriter (tables : Tables) (repositoryId rootSessionId : String) (existing : Assignment) :
    Prop :=
  ∃ assignment ∈ tables.assignments, ∃ repository ∈ tables.assignmentRepositories,
    ∃ attempt ∈ tables.attempts, assignment.rootSessionId = rootSessionId ∧
      assignment.bodyJson = .ok existing ∧
      repository.assignmentId = assignment.assignmentId ∧
      repository.repositoryId = repositoryId ∧
      attempt.assignmentId = assignment.assignmentId ∧
      attempt.isCurrent tables.attempts = true

theorem leftJoin_ne_nil {α : Type} (rows : List α) : leftJoin rows ≠ [] := by
  cases rows with
  | nil => exact List.cons_ne_nil _ _
  | cons row rows => exact List.cons_ne_nil _ _

/-- The query finds every active assignment. -/
theorem ActiveWriter.row {tables : Tables} {repositoryId rootSessionId : String}
    {existing : Assignment} (active : ActiveWriter tables repositoryId rootSessionId existing) :
    ∃ row ∈ tables.admissionRows repositoryId rootSessionId, row.bodyJson = .ok existing := by
  obtain ⟨assignment, atAssignment, repository, atRepository, attempt, atAttempt, root, body,
    sameRepository, inRepository, sameAttempt, current⟩ := active
  obtain ⟨binding, bound⟩ := List.exists_mem_of_ne_nil _ (leftJoin_ne_nil
    (tables.bindings.filter fun binding => binding.assignmentId = assignment.assignmentId))
  refine ⟨⟨assignment.assignmentId, assignment.bodyJson, repository.workspaceId,
    attempt.attemptId, attempt.amendmentJson, binding⟩, ?_, body⟩
  rw [Tables.admissionRows, List.mem_mergeSort]
  simp only [List.mem_flatMap, List.mem_filter, decide_eq_true_eq]
  refine ⟨assignment, atAssignment, repository, ⟨atRepository, sameRepository⟩, attempt,
    ⟨atAttempt, sameAttempt⟩, binding, bound, ?_⟩
  rw [if_pos (by simp [inRepository, root, current])]
  exact List.mem_singleton_self _

section Conflicts

variable {toUppercase : Char → List Char} {toLowercase : String → String}
  {assignment : Assignment} {scopeCase : CandidateScopeCase}

theorem saturatingSucc_pos (count : Nat) : 0 < saturatingSucc count := by
  rw [saturatingSucc]
  omega

/-- A round leaves the count of conflicts, or adds one: it does so for a writer with a scope that
    overlaps one of the candidate's. -/
theorem admitRow_count {scan next : AdmissionScan} {row : AdmissionRow}
    (admits : admitRow toUppercase toLowercase assignment scopeCase scan row = .ok next) :
    (next.conflictingWriterCount = scan.conflictingWriterCount ∨
      next.conflictingWriterCount = saturatingSucc scan.conflictingWriterCount) ∧
    ∀ existing, row.bodyJson = .ok existing → assignment.writeScope ≠ [] →
      (∃ scope ∈ existing.writeScope,
        overlapsCandidate toUppercase scope assignment.writeScope scopeCase.write = true) →
      next.conflictingWriterCount = saturatingSucc scan.conflictingWriterCount := by
  obtain ⟨existing, body, admits⟩ := Hoare.bind_ok.mp admits
  obtain ⟨amendment, -, admits⟩ := Hoare.bind_ok.mp admits
  obtain ⟨warnings, -, rfl⟩ := Hoare.map_ok.mp admits
  simp only
  constructor
  · by_cases skipped : (existing.writeScope.isEmpty || assignment.writeScope.isEmpty) = true
    · rw [if_pos skipped]
      exact .inl rfl
    rw [if_neg skipped]
    by_cases conflict : ((existing.writeScope.any fun scope =>
        overlapsCandidate toUppercase scope assignment.writeScope scopeCase.write) ||
        existing.contractClaims.any fun claim =>
          assignment.contractClaims.any (· == claim)) = true
    · rw [if_pos conflict]
      exact .inr rfl
    · rw [if_neg conflict]
      exact .inl rfl
  · rintro other otherBody writes ⟨scope, member, overlap⟩
    rw [body] at otherBody
    cases otherBody
    have conflict : (existing.writeScope.any fun scope =>
        overlapsCandidate toUppercase scope assignment.writeScope scopeCase.write) = true :=
      List.any_eq_true.mpr ⟨scope, member, overlap⟩
    rw [if_neg (by simp [List.ne_nil_of_mem member, writes]), if_pos (by rw [conflict]; rfl)]

/-- Only a candidate without conflicts writes alone. -/
theorem integrationPlan_singleWriter {scan : AdmissionScan} {available : Bool}
    (writes : assignment.writeScope ≠ [])
    (plan : integrationPlan assignment scan available = .ok .singleWriter) :
    scan.conflictingWriterCount = 0 := by
  unfold integrationPlan at plan
  rw [if_neg (by simpa using writes)] at plan
  cases available <;> grind

/-- **A writer that is admitted alone conflicts with no active writer.** -/
theorem selectiveAdmissionTx_singleWriter {tables : Tables} {available : Bool}
    {overlaps : AdmissionOverlapSummary} (writes : assignment.writeScope ≠ [])
    (admitted : selectiveAdmissionTx toUppercase toLowercase tables assignment scopeCase available =
      .ok (overlaps, .singleWriter)) {existing : Assignment}
    (active : ActiveWriter tables assignment.repositoryId assignment.rootSessionId existing)
    {scope : RepoScope} (member : scope ∈ existing.writeScope) :
    overlapsCandidate toUppercase scope assignment.writeScope scopeCase.write = false := by
  obtain ⟨scan, ran, admitted⟩ := Hoare.bind_ok.mp admitted
  obtain ⟨plan, isPlan, same⟩ := Hoare.map_ok.mp admitted
  cases same
  have none := integrationPlan_singleWriter writes isPlan
  obtain ⟨row, atRow, body⟩ := active.row
  rw [← Bool.not_eq_true]
  intro overlap
  have some_ : 0 < scan.conflictingWriterCount := by
    apply Hoare.foldlM_established _ atRow _ ran
    · intro other _ before after admits positive
      rcases (admitRow_count admits).1 with same | more
      · rw [same]
        exact positive
      · rw [more]
        exact saturatingSucc_pos _
    · intro before after admits
      rw [(admitRow_count admits).2 existing body writes ⟨scope, member, overlap⟩]
      exact saturatingSucc_pos _
  omega

end Conflicts

/-- **Scope overlap misses no collision.** -/
theorem scopeOverlap_complete {toUppercase : Char → List Char}
    (slash : SlashHasNoLowercase toUppercase) (toLowercase : String → String) :
    (∀ scope other : RepoScope, NormalPath scope.path → NormalPath other.path →
      (scope.overlaps other = true ↔ ∃ path, NormalPath path ∧ scope.coversPath path = true ∧
        other.coversPath path = true)) ∧
    (∀ (existing candidate : RepoScope) (semantics : List ScopeCaseSemantics)
      (path candidatePath : Text), existing.coversPath path = true →
      candidate.coversPath candidatePath = true →
      componentComparisonKey toUppercase path semantics =
        componentComparisonKey toUppercase candidatePath semantics →
      scopesOverlapObserved toUppercase existing candidate semantics = true) ∧
    ∀ (tables : Tables) (assignment : Assignment) (scopeCase : CandidateScopeCase)
      (available : Bool) (overlaps : AdmissionOverlapSummary), assignment.writeScope ≠ [] →
      selectiveAdmissionTx toUppercase toLowercase tables assignment scopeCase available =
        .ok (overlaps, .singleWriter) →
      ∀ existing, ActiveWriter tables assignment.repositoryId assignment.rootSessionId existing →
      ∀ scope ∈ existing.writeScope, ∀ (index : Nat) (candidate : RepoScope),
        assignment.writeScope[index]? = some candidate →
      ∀ path candidatePath, scope.coversPath path = true →
        candidate.coversPath candidatePath = true →
        componentComparisonKey toUppercase path (scopeCase.write[index]?.getD []) ≠
          componentComparisonKey toUppercase candidatePath (scopeCase.write[index]?.getD []) := by
  refine ⟨fun _ _ => overlaps_iff_exists_covered,
    fun _ _ _ _ _ => scopesOverlapObserved_of_covered slash, ?_⟩
  intro tables assignment scopeCase available overlaps writes admitted existing active scope member
    index candidate found path candidatePath covers candidateCovers keys
  have apart := selectiveAdmissionTx_singleWriter writes admitted active member
  rw [overlapsCandidate, List.any_eq_false] at apart
  exact apart (candidate, index) (List.mem_zipIdx_iff_getElem?.mpr found)
    (scopesOverlapObserved_of_covered slash covers candidateCovers keys)

/-- The uppercase of an ASCII character. -/
def asciiUppercase (c : Char) : List Char := [c.toUpper]

theorem asciiUppercase_slash : SlashHasNoLowercase asciiUppercase := by
  intro c upper
  have same : c.toUpper = '/' := by simpa [asciiUppercase] using upper
  unfold Char.toUpper at same
  split at same
  next lower =>
    have value : c.val = '/'.val - ('A'.val - 'a'.val) := by
      rw [← same, UInt32.add_sub_cancel]
    rw [value] at lower
    exact absurd lower (by decide)
  next => exact same

/-- A writer of the tables, and a candidate that spells its path another way. -/
def writer (number : Nat) (path : String) : Assignment where
  assignmentId := ⟨BitVec.ofNat 128 number⟩
  rootSessionId := "root"
  independentVerification := false
  admissionOrigin := .typed
  repositoryId := "repository"
  workspaceId := "workspace"
  objective := path
  acceptanceCriteria := []
  readScope := []
  writeScope := [⟨path.toList, false⟩]
  requiredEvidence := []
  contractClaims := []
  workspaceStrategy := .shared
  relation := none

def oneWriter : Tables where
  assignments := [⟨⟨1⟩, "root", .ok (writer 1 "src/a")⟩]
  assignmentRepositories := [⟨⟨1⟩, "repository", "workspace"⟩]
  attempts := [⟨.ok ⟨1⟩, ⟨1⟩, 0, .active, none, none⟩]
  bindings := []

/-- Where case is ignored, the two spellings have one key, and no admission lets both write
    alone. -/
theorem oneWriter_collides :
    scopesOverlapObserved asciiUppercase ⟨"src/a".toList, false⟩ ⟨"SRC".toList, true⟩ [] = true ∧
      ∀ available overlaps, selectiveAdmissionTx asciiUppercase id oneWriter (writer 2 "SRC/a")
        ⟨[], []⟩ available ≠ .ok (overlaps, .singleWriter) := by
  have complete := scopeOverlap_complete asciiUppercase_slash id
  constructor
  · exact complete.2.1 ⟨"src/a".toList, false⟩ ⟨"SRC".toList, true⟩ [] "src/a".toList
      "SRC/a".toList (by decide) (by decide) (by decide)
  intro available overlaps admitted
  refine complete.2.2 oneWriter (writer 2 "SRC/a") ⟨[], []⟩ available overlaps
    (by decide) admitted (writer 1 "src/a") ?_ ⟨"src/a".toList, false⟩ (by decide) 0
    ⟨"SRC/a".toList, false⟩ (by decide) "src/a".toList "SRC/a".toList (by decide) (by decide)
    (by decide)
  exact ⟨_, List.mem_singleton_self _, _, List.mem_singleton_self _, _,
    List.mem_singleton_self _, rfl, rfl, rfl, rfl, rfl, by decide⟩

end Codex.AgentTaskStore
