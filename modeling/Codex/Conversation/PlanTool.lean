import Codex.Conversation.PlanStore

/-!
# Calls of the plan tool

`stage_tool` of `conversation/src/plan_store.rs` and what it calls: a call replaces the plan, sets
statuses or pins requirements, and is staged before it is committed.
-/

namespace Codex.PlanStore

open Codex.Text

inductive PlanUpdateEffect where
  | initial
  | structuralRevision
  | statusOnly
  | noOp
  deriving DecidableEq, Repr

/-- `PlanState` (`plan_store.rs:477`). The derived views are counted. -/
structure PlanState where
  plan : Option UpdatePlanArgs
  lineage : PlanLineage
  durablyPublished : Bool
  derived : Nat
  deriving DecidableEq

/-- `PlanState::default`. -/
def PlanState.empty : PlanState := ⟨none, .empty, false, 0⟩

def PlanState.revision (host : Host) (state : PlanState) : Text :=
  planRevisionWithLineage host state.plan state.lineage

/-- `PlanStoreUpdate` (`plan_store.rs:43`). -/
structure PlanStoreUpdate where
  current : UpdatePlanArgs
  effect : PlanUpdateEffect
  lineage : PlanLineage

/-- `StagedPlanUpdate` (`plan_store.rs:883`), with the count of UUIDs after it. -/
structure StagedPlanUpdate where
  next : Option PlanState
  update : PlanStoreUpdate
  uuids : Nat

/-- `commit_published` (`plan_store.rs:894`). -/
def StagedPlanUpdate.commitPublished (staged : StagedPlanUpdate) (current : PlanState) :
    PlanState :=
  match staged.next with
  | some next => { next with durablyPublished := true }
  | none => { current with durablyPublished := true }

/-- The step that a status update names. -/
def statusIndex (host : Host) (lineage : PlanLineage) (plan : List PlanItemArg)
    (update : PlanStatusUpdate) : Except PlanError Nat :=
  match update.index, update.stepId with
  | some index, none => .ok index
  | none, some id =>
      let isNamed (item : PlanItemArg) : Bool :=
        let current := lineage.stepId host item.step
        current == id || (8 ≤ utf8Len id && id.isPrefixOf current)
      match plan.findIdxs isNamed with
      | [index] => .ok index
      | _ => .error (.unknownStep id)
  | _, _ => .error .stepAddress

/-- The loop over the updates of `status_plan` (`plan_store.rs:1352`). -/
def setStatuses (host : Host) (lineage : PlanLineage) (revisionChecked : Bool)
    (expectedStepRevisions : Option (OrderedMap Text Nat)) :
    List Nat → List PlanItemArg → List PlanStatusUpdate → Except PlanError (List PlanItemArg)
  | _, plan, [] => .ok plan
  | seen, plan, update :: rest =>
      match statusIndex host lineage plan update with
      | .error error => .error error
      | .ok index =>
          if index ∈ seen then .error (.duplicateIndex index)
          else
            match plan[index]? with
            | none => .error (.indexOutOfRange index)
            | some item =>
                let id := lineage.stepId host item.step
                let version := (lineage.stepRevisions.get id).getD 0
                let expected := expectedStepRevisions.bind (·.get id)
                if (expected.any (· != version)) || (!revisionChecked && version != 0 &&
                    expected.isNone && item.status != update.status) then
                  .error (.staleStepRevision id)
                else
                  setStatuses host lineage revisionChecked expectedStepRevisions (index :: seen)
                    (plan.set index { item with status := update.status }) rest

/-- `status_plan` (`plan_store.rs:1337`). -/
def statusPlan (host : Host) (current : Option UpdatePlanArgs) (lineage : PlanLineage)
    (updates : List PlanStatusUpdate) (explanation : Option Text) (revisionChecked : Bool)
    (expectedStepRevisions : Option (OrderedMap Text Nat)) : Except PlanError UpdatePlanArgs :=
  match current with
  | none => .error .noPlan
  | some next =>
      if updates.isEmpty then .error .noUpdates
      else if !revisionChecked && updates.any (·.index.isSome) then .error .indexWithoutRevision
      else
        match setStatuses host lineage revisionChecked expectedStepRevisions [] next.plan updates with
        | .error error => .error error
        | .ok plan =>
            if 1 < plan.countP (·.status == .inProgress) then .error .severalInProgress
            else .ok ⟨explanation.or next.explanation, plan⟩

/-- The source of a pin: without one, the latest accepted text. -/
def pinSource (inputs : PlanScopeInputs) (reviewed : Option Text)
    (automaticSources : List PlanInputReference) (pinned : PinnedRequirementArg) :
    Option PlanInputReference :=
  (pinned.source.or (inputs.references.reverse.find? fun reference =>
    some reference.inputId == inputs.latest)).filter fun reference =>
      inputs.permits reference reviewed || automaticSources.contains reference

/-- The loop over the pins (`plan_store.rs:1128`). A pin that is there stays as it is. -/
def pinAll (host : Host) (inputs : PlanScopeInputs) (reviewed : Option Text)
    (automaticSources : List PlanInputReference) :
    PlanLineage → List PinnedRequirementArg → Except PlanError PlanLineage
  | lineage, [] => .ok lineage
  | lineage, pinned :: rest =>
      if trim pinned.text = [] then .error .emptyPin
      else
        match pinSource inputs reviewed automaticSources pinned with
        | none => .error .pinSource
        | some source =>
            let id := pinId host pinned.text source
            pinAll host inputs reviewed automaticSources
              (if (lineage.requirements.get id).isSome then lineage
              else { lineage with requirements :=
                lineage.requirements.insert id ⟨pinned.text, .pending, some source, none⟩ }) rest

/-- The lineage with the pins of a call. The first plan has those of its inputs also. -/
def pinned (host : Host) (current : PlanState) (args : PlanToolArgs) :
    Except PlanError PlanLineage :=
  let isFirst := current.plan.isNone
  let initialPins := (args.scopeInputs.map (·.initialPins)).getD []
  let automaticSources := if isFirst then initialPins.filterMap (·.source) else []
  let pin := if isFirst then args.pin ++ initialPins else args.pin
  if pin.isEmpty then .ok current.lineage
  else
    match args.scopeInputs with
    | none => .error .pinWithoutInputs
    | some inputs =>
        pinAll host inputs args.scopeChangeReviewedRevision automaticSources current.lineage pin

/-- `quoted_step` (`plan_store.rs:1587`). -/
def quotedStep (host : Host) (step : Text) : Text :=
  host.debug (if 80 < step.length then step.take 80 ++ "...".toList else step)

/-- The steps of the previous plan by their identifiers. -/
def previousSteps (host : Host) (previous : Option UpdatePlanArgs) (lineage : PlanLineage) :
    List (Text × PlanItemArg) :=
  ((previous.map (·.plan)).getD []).map fun item => (lineage.stepId host item.step, item)

/-- The last entry under a key, as in a map that is built of the entries. -/
def lookupLast {α : Type} (entries : List (Text × α)) (key : Text) : Option α :=
  (entries.reverse.find? fun entry => entry.1 == key).map Prod.snd

/-- The record of one superseded entry, with the entries that are dropped before it. -/
def accountSuperseded (host : Host) (lineage : PlanLineage) (steps : List (Text × PlanItemArg))
    (next : List PlanStepArg) (dropped : List Text) (entry : SupersededStep) :
    Except PlanError Text :=
  let reason := trim entry.reason
  let isContinued := next.any fun item => item.continues.contains entry.stepId
  let record (text : Text) : Text :=
    "Proposed supersession (unverified) ".toList ++ quotedStep host text ++ ": ".toList ++ reason
  match lineage.orphan entry.stepId with
  | some orphan =>
      if reason = [] ∨ entry.stepId ∈ dropped ∨ isContinued then
        .error (.orphanAccount entry.stepId)
      else .ok (record orphan.text)
  | none =>
      match lookupLast steps entry.stepId with
      | none => .error (.unknownSuperseded entry.stepId)
      | some original =>
          if original.status = .completed ∨ next.any (·.step == original.step) then
            .error (.supersededKept entry.stepId)
          else if reason = [] ∨ entry.stepId ∈ dropped then
            .error (.supersededReason entry.stepId)
          else .ok (record original.step)

def accountAll (host : Host) (lineage : PlanLineage) (steps : List (Text × PlanItemArg))
    (next : List PlanStepArg) : List Text → List SupersededStep → Except PlanError (List Text)
  | _, [] => .ok []
  | dropped, entry :: rest =>
      match accountSuperseded host lineage steps next dropped entry with
      | .error error => .error error
      | .ok record =>
          (accountAll host lineage steps next (entry.stepId :: dropped) rest).map (record :: ·)

/-- `account_for_removed_steps` (`plan_store.rs:1483`). -/
def accountForRemovedSteps (host : Host) (previous : Option UpdatePlanArgs) (lineage : PlanLineage)
    (next : List PlanStepArg) (superseded : List SupersededStep) (explanation : Option Text) :
    Except PlanError (Option Text) :=
  let steps := previousSteps host previous lineage
  let isKnown (id : Text) : Bool := (lookupLast steps id).isSome || (lineage.orphan id).isSome
  match (next.flatMap (·.continues)).find? (!isKnown ·) with
  | some id => .error (.unknownContinuation id)
  | none =>
      match accountAll host lineage steps next [] superseded with
      | .error error => .error error
      | .ok records =>
          if steps.any fun entry => entry.2.status != .completed &&
              !(next.any (·.step == entry.2.step)) &&
              !(next.any (·.continues.contains entry.1)) &&
              !(superseded.any (·.stepId == entry.1)) then
            .error .unaccounted
          else if records.isEmpty then .ok explanation
          else
            let kept := (explanation.filter fun text => trim text != []).toList
            .ok (some (['\n'].intercalate (kept ++ records)))

/-- The references of a call with those of its instructions (`plan_store.rs:1301`). -/
def citeInstructions (host : Host) (inputs : PlanScopeInputs) (reviewed : Option Text) :
    List (Text × Text) → OrderedMap Text PlanInputReference →
      Except PlanError (OrderedMap Text PlanInputReference)
  | [], references => .ok references
  | (id, text) :: rest, references =>
      match inputs.references.reverse.find? fun reference =>
        reference.sha256 == host.sha256 text && inputs.permits reference reviewed with
      | none => .error (.scopeInstruction id)
      | some reference =>
          if (references.get id).any (· != reference) then .error (.conflictingReferences id)
          else citeInstructions host inputs reviewed rest (references.insert id reference)

/-- `authorize_scope_changes` (`plan_store.rs:1289`): the references after it. -/
def authorizeScopeChanges (host : Host) (lineage : PlanLineage) (args : PlanToolArgs) :
    Except PlanError (OrderedMap Text PlanInputReference) :=
  if args.superseded.isEmpty && args.scopeChangeInstructions.entries.isEmpty &&
      args.scopeChangeRefs.entries.isEmpty then .ok args.scopeChangeRefs
  else
    match args.scopeInputs with
    | none => .error .scopeWithoutInputs
    | some inputs =>
        match citeInstructions host inputs args.scopeChangeReviewedRevision
            args.scopeChangeInstructions.entries args.scopeChangeRefs with
        | .error error => .error error
        | .ok references =>
            match references.entries.find? fun entry =>
              !(args.superseded.any (·.stepId == entry.1)) ||
                !(inputs.permits entry.2 args.scopeChangeReviewedRevision) with
            | some entry => .error (.scopeReference entry.1)
            | none =>
                match args.superseded.find? fun entry => (references.get entry.stepId).isNone ||
                  ((lineage.stepRequirements.get entry.stepId).isNone &&
                    (lineage.orphan entry.stepId).isNone) with
                | some entry => .error (if (references.get entry.stepId).isNone
                    then .missingReference entry.stepId else .unknownScope entry.stepId)
                | none => .ok references

/-- The references of the requirements that are superseded (`plan_store.rs:1176`). -/
def PlanLineage.acceptAll (previous : OrderedMap Text (List Text)) (lineage : PlanLineage)
    (references : OrderedMap Text PlanInputReference) : PlanLineage :=
  references.entries.foldl (fun lineage entry =>
    ((previous.get entry.1).getD [entry.1]).foldl (fun lineage id =>
      if lineage.isMapped id then lineage
      else { lineage with
        acceptedSupersessions := lineage.acceptedSupersessions.insert id entry.2 }) lineage) lineage

def itemsOf (plan : List PlanStepArg) : List PlanItemArg :=
  plan.map fun item => ⟨item.step, item.status⟩

/-- Whether a replacement changes the steps or the scope. -/
def isStructural (previous : Option UpdatePlanArgs) (plan : List PlanStepArg)
    (superseded : List SupersededStep) : Bool :=
  previous.all (fun previous => previous.plan.map (·.step) != plan.map (·.step)) ||
    plan.any (!·.continues.isEmpty) || !superseded.isEmpty

/-- The replacement of the plan (`plan_store.rs:1153`), with the count of UUIDs. -/
def replacePlan (host : Host) (uuids : Nat) (current : PlanState) (lineage : PlanLineage)
    (args : PlanToolArgs) (plan : List PlanStepArg) :
    Except PlanError (UpdatePlanArgs × PlanLineage × Nat) :=
  if plan.any fun item => trim item.step == [] then .error .emptyStep
  else if ¬ (plan.map (·.step)).Nodup then .error .repeatedStep
  else if isStructural current.plan plan args.superseded then
    match accountForRemovedSteps host current.plan lineage plan args.superseded args.explanation with
    | .error error => .error error
    | .ok explanation =>
        match authorizeScopeChanges host lineage args with
        | .error error => .error error
        | .ok references =>
            let revised := lineage.revise host uuids current.plan plan args.superseded
            .ok (⟨explanation, itemsOf plan⟩,
              revised.1.acceptAll lineage.stepRequirements references, revised.2)
  else if !args.superseded.isEmpty || !args.scopeChangeInstructions.entries.isEmpty ||
      !args.scopeChangeRefs.entries.isEmpty || args.scopeChangeReviewedRevision.isSome then
    .error .scopeWithoutPlan
  else .ok (⟨args.explanation, itemsOf plan⟩, lineage, uuids)

/-- The loop over the resolved requirements (`plan_store.rs:1216`). -/
def resolveAll (host : Host) (next : UpdatePlanArgs) :
    PlanLineage → List Text → Except PlanError PlanLineage
  | lineage, [] => .ok lineage
  | lineage, id :: rest =>
      let carriers := lineage.carriers host next id
      let isPinned := (lineage.requirements.get id).any (·.source.isSome)
      if (lineage.requirements.get id).isNone || (carriers.isEmpty && !isPinned) ||
          carriers.any (·.status != .completed) then
        .error (.resolve id)
      else
        resolveAll host next
          { lineage with
            resolvedRequirements := lineage.resolvedRequirements.insert id ()
            requirements := lineage.requirements.mapValues fun other requirement =>
              if other = id then { requirement with status := .completed, supersededReason := none }
              else requirement
            acceptedSupersessions := lineage.acceptedSupersessions.remove id } rest

/-- The revisions of the steps that change (`plan_store.rs:1237`). -/
def bumpRevisions (host : Host) (current : PlanState) (previous : UpdatePlanArgs) :
    PlanLineage → List PlanItemArg → Except PlanError PlanLineage
  | lineage, [] => .ok lineage
  | lineage, step :: rest =>
      let id := lineage.stepId host step.step
      if (lookupLast (previousSteps host (some previous) current.lineage) id).any (fun old =>
          old != step || current.lineage.stepRequirements.get id !=
            lineage.stepRequirements.get id) then
        let version := (current.lineage.stepRevisions.get id).getD 0
        if version + 1 < 2 ^ 64 then
          bumpRevisions host current previous
            { lineage with stepRevisions := lineage.stepRevisions.insert id (version + 1) } rest
        else .error .stepRevisionExhausted
      else bumpRevisions host current previous lineage rest

def bumpAll (host : Host) (current : PlanState) (lineage : PlanLineage) (next : UpdatePlanArgs) :
    Except PlanError PlanLineage :=
  match current.plan with
  | none => .ok lineage
  | some previous => bumpRevisions host current previous lineage next.plan

/-- `commit` (`plan_store.rs:1442`). -/
def PlanState.commit (host : Host) (current : PlanState) (next : UpdatePlanArgs) :
    PlanState × PlanUpdateEffect :=
  let effect : PlanUpdateEffect :=
    match current.plan with
    | none => .initial
    | some previous =>
        if previous = next then .noOp
        else if previous.plan.map (·.step) = next.plan.map (·.step) then .statusOnly
        else .structuralRevision
  if effect = .noOp then (current, effect)
  else
    ({ plan := some next
       lineage := current.lineage.updateStatuses host next
       durablyPublished := false
       derived := current.derived + 1 }, effect)

/-- What a call makes the plan: a replacement, the statuses that are set, or what it was. -/
def nextPlan (host : Host) (uuids : Nat) (current : PlanState) (lineage : PlanLineage)
    (args : PlanToolArgs) (statusNext : Option UpdatePlanArgs) :
    Except PlanError (UpdatePlanArgs × PlanLineage × Nat) :=
  match args.plan, statusNext with
  | some plan, _ => replacePlan host uuids current lineage args plan
  | none, some next => .ok (next, lineage, uuids)
  | none, none =>
      let next := current.plan.getD ⟨none, []⟩
      .ok (⟨args.explanation.or next.explanation, next.plan⟩, lineage, uuids)

/-- The statuses, when a call sets them. -/
def stagedStatuses (host : Host) (current : PlanState) (args : PlanToolArgs)
    (revisionChecked : Bool) : Except PlanError (Option UpdatePlanArgs) :=
  match args.set with
  | none => .ok none
  | some statuses =>
      (statusPlan host current.plan current.lineage statuses args.explanation revisionChecked
        args.expectedStepRevisions).map some

/-- The state after the plan and the lineage of a call, before it is committed. -/
def settle (host : Host) (current : PlanState) (next : UpdatePlanArgs) (lineage : PlanLineage) :
    PlanState × PlanUpdateEffect :=
  let lineage :=
    if current.plan = some next ∧ current.lineage ≠ lineage then lineage.updateStatuses host next
    else lineage
  let isChanged := decide (current.lineage ≠ lineage)
  let committed := PlanState.commit host { current with
    lineage
    derived := if isChanged then current.derived + 1 else current.derived } next
  (committed.1, if isChanged && committed.2 == .noOp then .structuralRevision else committed.2)

/-- The part of `stage_tool` that changes a copy of the state (`plan_store.rs:1109`). -/
def stageChange (host : Host) (uuids : Nat) (current : PlanState) (args : PlanToolArgs)
    (statusNext : Option UpdatePlanArgs) : Except PlanError StagedPlanUpdate :=
  match pinned host current args with
  | .error error => .error error
  | .ok lineage =>
      match nextPlan host uuids current lineage args statusNext with
      | .error error => .error error
      | .ok (next, lineage, uuids) =>
          match resolveAll host next lineage args.resolve with
          | .error error => .error error
          | .ok lineage =>
              match bumpAll host current lineage next with
              | .error error => .error error
              | .ok lineage =>
                  let (state, effect) := settle host current next lineage
                  .ok ⟨some state, ⟨next, effect, state.lineage⟩, uuids⟩

/-- `stage_tool` (`plan_store.rs:1016`), with the count of UUIDs. -/
def stageTool (host : Host) (uuids : Nat) (current : PlanState) (args : PlanToolArgs) :
    Except PlanError StagedPlanUpdate :=
  if args.plan.isSome.toNat + args.set.isSome.toNat + (!args.pin.isEmpty).toNat ≠ 1 then
    .error .notExactlyOne
  else if args.plan.isNone && (!args.superseded.isEmpty ||
      !args.scopeChangeInstructions.entries.isEmpty || !args.scopeChangeRefs.entries.isEmpty ||
      (args.scopeChangeReviewedRevision.isSome && args.pin.isEmpty)) then
    .error .scopeWithoutPlan
  else
    let revision := current.revision host
    let unchangedSinceSampling := args.samplingRevision == some current.derived
    if (args.plan.isSome && current.plan.isSome && args.expectedRevision.isNone &&
          !unchangedSinceSampling) ||
        (!args.resolve.isEmpty && args.expectedRevision.isNone && !unchangedSinceSampling) ||
        args.expectedRevision.any (· != revision) then
      .error .staleRevision
    else
      match stagedStatuses host current args
          (args.expectedRevision.isSome || unchangedSinceSampling) with
      | .error error => .error error
      | .ok statusNext =>
          if args.plan.isNone && args.resolve.isEmpty && statusNext.isSome &&
              current.plan == statusNext then
            .ok ⟨none, ⟨statusNext.getD ⟨none, []⟩, .noOp, current.lineage⟩, uuids⟩
          else stageChange host uuids current args statusNext

/-- The store, and the count of the UUIDs that are generated. -/
structure World where
  state : PlanState
  uuids : Nat

def World.empty : World := ⟨.empty, 0⟩

/-- A committed call. The texts of the steps of a replacement are among some texts. -/
structure World.Committed (host : Host) (texts : Text → Prop) (args : PlanToolArgs)
    (world next : World) : Prop where
  texts : ∀ plan, args.plan = some plan → ∀ step ∈ plan, texts step.step
  staged : ∃ staged, stageTool host world.uuids world.state args = .ok staged ∧
    next = ⟨staged.commitPublished world.state, staged.uuids⟩

/-- The runs of the store. UUIDs may be generated for other purposes, and for calls that fail. -/
inductive World.Reachable (host : Host) (texts : Text → Prop) : World → Prop where
  | empty : Reachable host texts World.empty
  | call (args : PlanToolArgs) (world next : World) (earlier : Reachable host texts world)
      (committed : World.Committed host texts args world next) : Reachable host texts next
  | generate (world : World) (uuids : Nat) (earlier : Reachable host texts world)
      (later : world.uuids ≤ uuids) : Reachable host texts ⟨world.state, uuids⟩

/-- No identifiers collide: those of the steps with some texts, of pins, and fresh ones. -/
structure Host.Separates (host : Host) (texts : Text → Prop) : Prop where
  steps : ∀ first second, texts first → texts second →
    planStepId host first = planStepId host second → first = second
  uuids : Function.Injective host.uuid
  uuid_step : ∀ n text, texts text → host.uuid n ≠ planStepId host text
  uuid_legacy : ∀ n text, texts text → host.uuid n ≠ host.sha256 text
  pin_step : ∀ text source step, texts step → pinId host text source ≠ planStepId host step
  pin_legacy : ∀ text source step, texts step → pinId host text source ≠ host.sha256 step
  uuid_pin : ∀ n text source, host.uuid n ≠ pinId host text source
  step_legacy : ∀ first second, texts first → texts second →
    planStepId host first ≠ host.sha256 second

end Codex.PlanStore
