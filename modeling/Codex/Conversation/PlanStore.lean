import Codex.Conversation.ResponseItem
import Codex.Lib.OrderedMap
import Codex.Lib.Text

/-!
# The plan store

`conversation/src/plan_store.rs`: the checklist of a session, and the requirements that its steps
carry. A lineage maps the identifiers of steps to those of requirements. SHA-256, the bytes that
serde_json writes, fresh UUIDs and the debug form of a text are parameters. The texts of errors are
left out; an error says which check failed.
-/

namespace Codex.PlanStore

open Codex.Text

inductive StepStatus where
  | pending
  | inProgress
  | completed
  deriving DecidableEq, Repr

/-- `PlanItemArg` (`plan_tool.rs:22`). -/
structure PlanItemArg where
  step : Text
  status : StepStatus
  deriving DecidableEq, Repr

/-- `UpdatePlanArgs` (`plan_tool.rs:29`). -/
structure UpdatePlanArgs where
  explanation : Option Text
  plan : List PlanItemArg
  deriving DecidableEq, Repr

/-- `PlanInputReference` (`plan_store.rs:580`). -/
structure PlanInputReference where
  inputId : Text
  sha256 : Text
  deriving DecidableEq, Repr

/-- `PlanRequirement` (`plan_store.rs:86`). -/
structure PlanRequirement where
  text : Text
  status : StepStatus
  source : Option PlanInputReference
  supersededReason : Option Text
  deriving DecidableEq, Repr

/-- `PlanLineage` (`plan_store.rs:58`). The values of retired fields are JSON texts, and an accepted
    supersession is the reference that its value is written from. -/
structure PlanLineage where
  requirements : OrderedMap Text PlanRequirement
  stepRequirements : OrderedMap Text (List Text)
  stepIdentities : OrderedMap Text Text
  workflow : OrderedMap Text Text
  resolvedRequirements : OrderedMap Text Unit
  stepRevisions : OrderedMap Text Nat
  acceptedSupersessions : OrderedMap Text PlanInputReference
  legacyMetadata : OrderedMap Text Text
  deriving DecidableEq

/-- `PlanLineage::default`. -/
def PlanLineage.empty : PlanLineage := ⟨.empty, .empty, .empty, .empty, .empty, .empty, .empty, .empty⟩

/-- What the store uses of other code. -/
structure Host where
  sha256 : Text → Text
  /-- The JSON of the text of a pin and its source. -/
  pinJson : Text → PlanInputReference → Text
  planJson : Option UpdatePlanArgs → Text
  lineageJson : Option UpdatePlanArgs → PlanLineage → Text
  /-- The JSON of a lineage in the wire form of `plan_store_legacy.rs`, when it has one. -/
  historicalJson : UpdatePlanArgs → PlanLineage → Option Text
  uuid : Nat → Text
  debug : Text → Text

/-- `plan_step_id` (`plan_store.rs:814`). -/
def planStepId (host : Host) (step : Text) : Text := (host.sha256 step).take 16

/-- The identifier of a pinned requirement. -/
def pinId (host : Host) (text : Text) (source : PlanInputReference) : Text :=
  "pin-".toList ++ host.sha256 (host.pinJson text source)

/-- `PlanStatusUpdate` (`plan_store.rs:524`). -/
structure PlanStatusUpdate where
  index : Option Nat
  stepId : Option Text
  status : StepStatus

/-- `SupersededStep` (`plan_store.rs:574`). -/
structure SupersededStep where
  stepId : Text
  reason : Text

/-- `PinnedRequirementArg` (`plan_store.rs:587`). -/
structure PinnedRequirementArg where
  text : Text
  source : Option PlanInputReference

/-- `PlanStepArg` (`plan_store.rs:720`). -/
structure PlanStepArg where
  step : Text
  status : StepStatus
  continues : List Text

/-- `PlanScopeInputs` (`plan_store.rs:597`). -/
structure PlanScopeInputs where
  latest : Option Text
  references : List PlanInputReference
  revision : Text
  compacted : Bool
  initialPins : List PinnedRequirementArg

/-- `PlanScopeInputs::permits` (`plan_store.rs:685`). -/
def PlanScopeInputs.permits (inputs : PlanScopeInputs) (reference : PlanInputReference)
    (reviewed : Option Text) : Bool :=
  inputs.references.contains reference &&
    ((inputs.latest == some reference.inputId &&
        !(inputs.compacted && ("msg_user_decision_".toList).isPrefixOf reference.inputId)) ||
      reviewed == some inputs.revision)

/-- `PlanToolArgs` (`plan_store.rs:533`). A sampling revision is the identity of derived views. -/
structure PlanToolArgs where
  explanation : Option Text := none
  expectedRevision : Option Text := none
  samplingRevision : Option Nat := none
  plan : Option (List PlanStepArg) := none
  set : Option (List PlanStatusUpdate) := none
  pin : List PinnedRequirementArg := []
  expectedStepRevisions : Option (OrderedMap Text Nat) := none
  superseded : List SupersededStep := []
  scopeChangeInstructions : OrderedMap Text Text := .empty
  scopeChangeRefs : OrderedMap Text PlanInputReference := .empty
  scopeChangeReviewedRevision : Option Text := none
  resolve : List Text := []
  scopeInputs : Option PlanScopeInputs := none

inductive PlanError where
  | notExactlyOne
  | scopeWithoutPlan
  | staleRevision
  | noPlan
  | noUpdates
  | indexWithoutRevision
  | stepAddress
  | unknownStep (id : Text)
  | duplicateIndex (index : Nat)
  | indexOutOfRange (index : Nat)
  | staleStepRevision (id : Text)
  | severalInProgress
  | pinWithoutInputs
  | emptyPin
  | pinSource
  | emptyStep
  | repeatedStep
  | unknownContinuation (id : Text)
  | orphanAccount (id : Text)
  | unknownSuperseded (id : Text)
  | supersededKept (id : Text)
  | supersededReason (id : Text)
  | unaccounted
  | scopeWithoutInputs
  | scopeInstruction (id : Text)
  | conflictingReferences (id : Text)
  | scopeReference (id : Text)
  | missingReference (id : Text)
  | unknownScope (id : Text)
  | resolve (id : Text)
  | stepRevisionExhausted
  deriving DecidableEq, Repr

/-- Whether a step carries a requirement. -/
def isMappedBy (stepRequirements : OrderedMap Text (List Text)) (id : Text) : Bool :=
  stepRequirements.values.any (·.contains id)

namespace PlanLineage

/-- `step_id` (`plan_store.rs:163`). -/
def stepId (host : Host) (lineage : PlanLineage) (text : Text) : Text :=
  let key := planStepId host text
  let legacy := host.sha256 text
  match (lineage.stepIdentities.get key).or (lineage.stepIdentities.get legacy) with
  | some id => id
  | none => if (lineage.stepRequirements.get legacy).isSome then legacy else key

/-- The requirements of a step. -/
def carried (lineage : PlanLineage) (stepId : Text) : List Text :=
  (lineage.stepRequirements.get stepId).getD []

def isMapped (lineage : PlanLineage) (id : Text) : Bool := isMappedBy lineage.stepRequirements id

/-- `orphan` (`plan_store.rs:269`). -/
def orphan (lineage : PlanLineage) (id : Text) : Option PlanRequirement :=
  (lineage.requirements.get id).filter fun requirement =>
    (requirement.status != .completed || requirement.supersededReason.isSome) &&
      !lineage.isMapped id

/-- `is_empty` (`plan_store.rs:209`). -/
def isEmpty (lineage : PlanLineage) : Bool := decide (lineage = empty)

end PlanLineage

/-- `sort` and `dedup`. -/
def sortDedup (ids : List Text) : List Text := ids.dedup.insertionSort (· ≤ ·)

/-- What the loop of `revise` changes. -/
structure Revision where
  requirements : OrderedMap Text PlanRequirement
  stepRequirements : OrderedMap Text (List Text)
  stepIdentities : OrderedMap Text Text
  uuids : Nat

/-- What the loop of `revise` reads. -/
structure Previous where
  plan : Option UpdatePlanArgs
  lineage : PlanLineage
  steps : List PlanStepArg

namespace Previous

variable (host : Host) (previous : Previous)

/-- `previous_ids`. -/
def id (text : Text) : Option Text :=
  match previous.plan with
  | none => none
  | some plan =>
      if plan.plan.any (·.step == text) then some (previous.lineage.stepId host text) else none

/-- `references`: how many steps come from one. -/
def references (id : Text) : Nat :=
  previous.steps.countP fun step =>
    step.continues.contains id || previous.id host step.step == some id

/-- The step that a step renames. -/
def continuedId (step : PlanStepArg) : Option Text :=
  match step.continues with
  | [id] => if previous.references host id = 1 then some id else none
  | _ => none

/-- Whether a step gets an identifier of its own. -/
def isFresh (step : PlanStepArg) : Bool :=
  (previous.id host step.step).isNone &&
    !((previous.continuedId host step).any fun id =>
      (previous.lineage.stepRequirements.get id).isSome) && previous.plan.isSome

/-- The identifier of a step of the new plan. -/
def stepId (uuids : Nat) (step : PlanStepArg) : Text :=
  if previous.isFresh host step then host.uuid uuids
  else ((previous.id host step.step).or (previous.continuedId host step)).getD
    (planStepId host step.step)

/-- What a step inherits from the one with its identifier and from those that it continues. -/
def inherited (requirements : OrderedMap Text PlanRequirement) (stepId : Text)
    (continues : List Text) : List Text :=
  previous.lineage.carried stepId ++ continues.flatMap fun source =>
    previous.lineage.carried source ++
      if (previous.lineage.stepRequirements.get source).isNone &&
        (requirements.get source).isSome then [source] else []

end Previous

/-- One step of the loop of `revise` (`plan_store.rs:295`). -/
def reviseStep (host : Host) (previous : Previous) (revision : Revision) (step : PlanStepArg) :
    Revision :=
  let textId := planStepId host step.step
  let isFresh := previous.isFresh host step
  let stepId := previous.stepId host revision.uuids step
  let uuids := if isFresh then revision.uuids + 1 else revision.uuids
  let stepIdentities :=
    if stepId = textId then revision.stepIdentities else revision.stepIdentities.insert textId stepId
  let ids := sortDedup (previous.inherited revision.requirements stepId step.continues)
  if ids.any fun id => (revision.requirements.get id).any (·.text == step.step) then
    { requirements := revision.requirements
      stepRequirements := revision.stepRequirements.insert stepId ids
      stepIdentities, uuids }
  else
    let isTaken := (revision.requirements.get textId).isSome
    let id := if isTaken then host.uuid uuids else textId
    { requirements := revision.requirements.insert id ⟨step.step, step.status, none, none⟩
      stepRequirements := revision.stepRequirements.insert stepId (sortDedup (ids ++ [id]))
      stepIdentities
      uuids := if isTaken then uuids + 1 else uuids }

/-- The requirement after the steps that carry it. -/
def PlanRequirement.updateStatus (requirement : PlanRequirement) (steps : List PlanItemArg)
    (isResolved : Bool) : PlanRequirement :=
  if steps = [] then requirement
  else if steps.all (·.status == .completed) &&
      ((steps.all (·.step == requirement.text) && requirement.source.isNone) || isResolved) then
    { requirement with status := .completed, supersededReason := none }
  else if steps.any (·.status == .inProgress) ||
      steps.any (fun step => step.status == .completed && step.step != requirement.text) then
    { requirement with status := .inProgress }
  else { requirement with status := .pending }

namespace PlanLineage

/-- The requirements of the superseded steps that no step carries are retired. -/
def supersede (previous : OrderedMap Text (List Text)) (superseded : List SupersededStep)
    (lineage : PlanLineage) : PlanLineage :=
  superseded.foldl (fun lineage dropped =>
    let ids := (previous.get dropped.stepId).getD [dropped.stepId]
    { lineage with requirements := lineage.requirements.mapValues fun id requirement =>
        if ids.contains id && !lineage.isMapped id then
          { requirement with supersededReason := some (trim dropped.reason) }
        else requirement }) lineage

/-- `revise` (`plan_store.rs:276`), with the count of UUIDs. -/
def revise (host : Host) (uuids : Nat) (lineage : PlanLineage) (previousPlan : Option UpdatePlanArgs)
    (steps : List PlanStepArg) (superseded : List SupersededStep) : PlanLineage × Nat :=
  let previous : Previous := ⟨previousPlan, lineage, steps⟩
  let revision := steps.foldl (reviseStep host previous)
    ⟨lineage.requirements, .empty, .empty, uuids⟩
  let mapped : PlanLineage :=
    { lineage with
      requirements := revision.requirements
      stepRequirements := revision.stepRequirements
      stepIdentities := revision.stepIdentities }
  (supersede lineage.stepRequirements superseded
    { mapped with
      workflow := .empty
      stepRevisions := lineage.stepRevisions.retain fun id =>
        (revision.stepRequirements.get id).isSome
      requirements := revision.requirements.mapValues fun id requirement =>
        if mapped.isMapped id then { requirement with supersededReason := none } else requirement
      acceptedSupersessions := lineage.acceptedSupersessions.retain fun id =>
        !mapped.isMapped id }, revision.uuids)

/-- The steps of a plan that carry a requirement. -/
def carriers (host : Host) (lineage : PlanLineage) (plan : UpdatePlanArgs) (id : Text) :
    List PlanItemArg :=
  plan.plan.filter fun step => (lineage.carried (lineage.stepId host step.step)).contains id

/-- `update_statuses` (`plan_store.rs:382`), one requirement at a time. -/
def updateStatuses (host : Host) (lineage : PlanLineage) (plan : UpdatePlanArgs) : PlanLineage :=
  let resolved := lineage.resolvedRequirements.retain fun id =>
    (lineage.requirements.get id).isNone ||
      (lineage.carriers host plan id).all (·.status == .completed)
  { lineage with
    workflow := .empty
    resolvedRequirements := resolved
    requirements := lineage.requirements.mapValues fun id requirement =>
      PlanRequirement.updateStatus requirement (lineage.carriers host plan id)
        (resolved.get id).isSome }

def stepArgs (plan : UpdatePlanArgs) : List PlanStepArg :=
  plan.plan.map fun step => ⟨step.step, step.status, []⟩

/-- `from_plan` (`plan_store.rs:427`). -/
def fromPlan (host : Host) : Option UpdatePlanArgs → PlanLineage
  | none => empty
  | some plan => (revise host 0 empty none (stepArgs plan) []).1

/-- `reconcile_restored` (`plan_store.rs:450`). -/
def reconcileRestored (host : Host) (uuids : Nat) (lineage : PlanLineage) :
    Option UpdatePlanArgs → PlanLineage
  | none => { lineage with legacyMetadata := .empty }
  | some plan =>
      let retained :=
        { lineage with
          legacyMetadata := .empty
          stepRequirements := lineage.stepRequirements.mapValues fun _ ids =>
            ids.filter fun id => (lineage.requirements.get id).isSome }
      (revise host uuids retained (some plan) (stepArgs plan) []).1.updateStatuses host plan

/-- Whether replay rebuilds the row of a step. -/
def isReconstructible (host : Host) (lineage : PlanLineage) (step : PlanItemArg) : Bool :=
  let id := lineage.stepId host step.step
  id == planStepId host step.step &&
    lineage.stepRequirements.get id == some [id] &&
    (lineage.stepRequirements.values.flatten.count id == 1) &&
    (lineage.acceptedSupersessions.get id).isNone &&
    (lineage.requirements.get id).any fun requirement =>
      requirement.text == step.step && requirement.status == step.status &&
        requirement.supersededReason.isNone && requirement.source.isNone

/-- `compact_for_plan` (`plan_store.rs:223`). -/
def compactForPlan (host : Host) (lineage : PlanLineage) (plan : UpdatePlanArgs) : PlanLineage :=
  let compact := plan.plan.foldl (fun compact step =>
    let id := lineage.stepId host step.step
    if lineage.isReconstructible host step then
      { compact with
        requirements := compact.requirements.remove id
        stepRequirements := compact.stepRequirements.remove id
        resolvedRequirements := compact.resolvedRequirements.remove id }
    else compact) lineage
  { compact with workflow := .empty }

/-- `PlanObligationSummary` (`plan_store.rs:103`). -/
structure ObligationSummary where
  completed : Nat
  superseded : Nat
  unresolved : List Text
  deriving DecidableEq, Repr

def isSuperseded (lineage : PlanLineage) (id : Text) : Bool :=
  (lineage.requirements.get id).any (·.supersededReason.isSome) &&
    (lineage.acceptedSupersessions.get id).isSome

/-- The counts over the requirements. -/
def summarize (lineage : PlanLineage) : ObligationSummary :=
  let isCompleted (entry : Text × PlanRequirement) : Bool :=
    entry.2.status == .completed && entry.2.supersededReason.isNone
  { completed := lineage.requirements.entries.countP fun entry =>
      !lineage.isSuperseded entry.1 && isCompleted entry
    superseded := lineage.requirements.entries.countP fun entry => lineage.isSuperseded entry.1
    unresolved := (lineage.requirements.entries.filter fun entry =>
      !lineage.isSuperseded entry.1 && !isCompleted entry).map Prod.fst }

/-- `obligation_summary` (`plan_store.rs:145`). -/
def obligationSummary (host : Host) (lineage : PlanLineage) (plan : UpdatePlanArgs) :
    ObligationSummary :=
  if lineage.requirements.entries.isEmpty && !plan.plan.isEmpty then
    (fromPlan host (some plan)).summarize
  else lineage.summarize

end PlanLineage

/-- `plan_revision_with_lineage` (`plan_store.rs:796`). -/
def planRevisionWithLineage (host : Host) (plan : Option UpdatePlanArgs) (lineage : PlanLineage) :
    Text :=
  if lineage.isEmpty || lineage == PlanLineage.fromPlan host plan then
    host.sha256 (host.planJson plan)
  else host.sha256 (host.lineageJson plan lineage)

end Codex.PlanStore
