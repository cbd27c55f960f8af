import Codex.Conversation.PlanHistory

/-!
# Snapshots of a plan

`plan_snapshot_item`, `plan_snapshot_from_item` and `full_lineage_for` of
`conversation/src/plan_store.rs`, with the durable response of
`core/src/tools/handlers/plan.rs`. A snapshot leaves out the rows that replay rebuilds.
serde_json's reading and printing of a response are parameters.
-/

namespace Codex.PlanStore

open Codex.Text

/-! ## Responses -/

/-- `PlanToolResponse` (`plan_store.rs:735`). -/
structure PlanToolResponse where
  currentPlan : UpdatePlanArgs
  obligations : PlanLineage.ObligationSummary
  completionAuthority : Text
  lineage : PlanLineage
  lineageComplete : Bool
  revision : Text
  stepIds : List Text
  message : Text
  effect : Text
  noProgress : Bool
  deriving DecidableEq

/-- serde_json for a response, before the plan is validated. -/
structure ResponseCodec where
  print : PlanToolResponse → Text
  read : Text → Option PlanToolResponse

/-- `PlanUpdateEffect::as_str` (`plan_store.rs:32`). -/
def PlanUpdateEffect.asStr : PlanUpdateEffect → Text
  | .initial => "initial".toList
  | .structuralRevision => "structural_revision".toList
  | .statusOnly => "status_only".toList
  | .noOp => "no_op".toList

/-- `PlanToolOutput::message` (`plan.rs:79`). -/
def PlanUpdateEffect.message : PlanUpdateEffect → Text
  | .noOp => "Plan unchanged".toList
  | .initial | .structuralRevision | .statusOnly => "Plan updated".toList

/-- `durable_response` (`plan.rs:48`). -/
def durableResponse (host : Host) (plan : UpdatePlanArgs) (effect : PlanUpdateEffect)
    (lineage : PlanLineage) : PlanToolResponse where
  obligations := lineage.obligationSummary host plan
  completionAuthority := "checklist_only".toList
  lineage := lineage.compactForPlan host plan
  lineageComplete := true
  revision := planRevisionWithLineage host (some plan) lineage
  stepIds := plan.plan.map fun item => lineage.stepId host item.step
  message := effect.message
  effect := effect.asStr
  noProgress := effect == .noOp
  currentPlan := plan

/-- What `UpdatePlanArgs` accepts when it is read (`plan_tool.rs:35`). -/
def UpdatePlanArgs.isValid (plan : UpdatePlanArgs) : Bool :=
  plan.plan.all (fun item => trim item.step != []) &&
    decide (plan.plan.countP (·.status == .inProgress) ≤ 1)

def planSnapshotPrefix : Text := "<codex_plan_state_v1>\n".toList

def planSnapshotSuffix : Text := "\n</codex_plan_state_v1>".toList

/-- `plan_snapshot_item` (`plan_store.rs:840`). -/
def planSnapshotItem (codec : ResponseCodec) (response : PlanToolResponse) :
    Conversation.ResponseItem :=
  .message none "developer"
    [.inputText (String.ofList (planSnapshotPrefix ++ codec.print response ++ planSnapshotSuffix))]
    none none

/-- `plan_snapshot_from_item` (`plan_store.rs:853`). -/
def planSnapshotFromItem (codec : ResponseCodec) (item : Conversation.ResponseItem) :
    Option PlanToolResponse :=
  match item with
  | .message _ role [.inputText text] _ _ =>
      if role ≠ "developer" then none
      else
        ((stripPrefix planSnapshotPrefix text.toList).bind (stripSuffix planSnapshotSuffix)).bind
          fun json => (codec.read json).filter fun response => response.currentPlan.isValid
  | _ => none

/-- `legacy::revision` (`plan_store_legacy.rs:86`). -/
def legacyRevision (host : Host) (plan : UpdatePlanArgs) (lineage : PlanLineage) : Option Text :=
  (host.historicalJson plan lineage).map host.sha256

/-- `full_lineage_for` (`plan_store.rs:761`). -/
def PlanToolResponse.fullLineageFor (host : Host) (uuids : Nat) (response : PlanToolResponse)
    (plan : UpdatePlanArgs) (revision : Option Text) : Option PlanLineage :=
  if !response.lineageComplete || response.currentPlan != plan then none
  else
    let lineage := response.lineage.reconcileRestored host uuids (some plan)
    let historical :=
      { lineage with
        workflow := response.lineage.workflow
        legacyMetadata := response.lineage.legacyMetadata }
    if revision.any fun revision => response.revision != revision ||
        (planRevisionWithLineage host (some plan) lineage != revision &&
          planRevisionWithLineage host (some plan) response.lineage != revision &&
          planRevisionWithLineage host (some plan) historical != revision &&
          legacyRevision host plan response.lineage != some revision &&
          legacyRevision host plan historical != some revision) then none
    else some lineage

/-- The lineage that a snapshot restores. -/
def restoredLineage (host : Host) (codec : ResponseCodec) (uuids : Nat) (plan : UpdatePlanArgs)
    (effect : PlanUpdateEffect) (lineage : PlanLineage) : Option PlanLineage :=
  (planSnapshotFromItem codec
    (planSnapshotItem codec (durableResponse host plan effect lineage))).bind fun response =>
      response.fullLineageFor host uuids plan
        (some (planRevisionWithLineage host (some plan) lineage))

/-! ## Compact lineages -/

/-- A lineage without the rows of some steps. -/
def PlanLineage.without (lineage : PlanLineage) (ids : List Text) : PlanLineage :=
  { lineage with
    requirements := lineage.requirements.retain fun id => !ids.contains id
    stepRequirements := lineage.stepRequirements.retain fun id => !ids.contains id
    resolvedRequirements := lineage.resolvedRequirements.retain fun id => !ids.contains id }

/-- The steps that replay rebuilds. -/
def PlanLineage.rebuilt (host : Host) (lineage : PlanLineage) (plan : UpdatePlanArgs) : List Text :=
  (plan.plan.filter fun step => lineage.isReconstructible host step).map fun step =>
    lineage.stepId host step.step

section Compact

variable {host : Host} {texts : Text → Prop} {uuids : Nat} {lineage : PlanLineage}
variable {plan : UpdatePlanArgs}

theorem retain_remove {β : Type} (map : OrderedMap Text β) (ids : List Text) (id : Text) :
    (map.retain fun other => !ids.contains other).remove id =
      map.retain fun other => !(id :: ids).contains other := by
  apply OrderedMap.ext_get
  intro other
  rw [OrderedMap.get_remove, OrderedMap.get_retain, OrderedMap.get_retain]
  by_cases same : other = id
  · simp [same]
  · simp [same]

theorem PlanLineage.without_congr {ids others : List Text}
    (same : ∀ id, id ∈ ids ↔ id ∈ others) : lineage.without ids = lineage.without others := by
  have keep : (fun id => !ids.contains id) = fun id => !others.contains id := by
    funext id
    simp [same id]
  rw [without, without, keep]

theorem PlanLineage.without_nil : lineage.without [] = lineage := by
  have all : ∀ {β : Type} (map : OrderedMap Text β), map.retain (fun id => !([] : List Text).contains
      id) = map := by
    intro β map
    apply OrderedMap.ext_get
    intro id
    rw [OrderedMap.get_retain]
    rfl
  rw [without, all, all, all]

/-- A compact lineage leaves out the steps that replay rebuilds. -/
theorem PlanLineage.compactForPlan_eq (workflow : lineage.workflow = .empty) :
    lineage.compactForPlan host plan = lineage.without (lineage.rebuilt host plan) := by
  have run : ∀ (steps : List PlanItemArg) (ids : List Text),
      steps.foldl (fun compact step =>
        let id := lineage.stepId host step.step
        if lineage.isReconstructible host step then
          { compact with
            requirements := compact.requirements.remove id
            stepRequirements := compact.stepRequirements.remove id
            resolvedRequirements := compact.resolvedRequirements.remove id }
        else compact) (lineage.without ids) =
      lineage.without (((steps.filter fun step => lineage.isReconstructible host step).map
        fun step => lineage.stepId host step.step).reverse ++ ids) := by
    intro steps
    induction steps with
    | nil =>
      intro ids
      rfl
    | cons step rest ih =>
      intro ids
      rw [List.foldl_cons]
      by_cases isRebuilt : lineage.isReconstructible host step = true
      · simp only [isRebuilt, ↓reduceIte, List.filter_cons_of_pos, List.map_cons,
          List.reverse_cons, List.append_assoc, List.cons_append, List.nil_append]
        rw [← ih]
        congr 1
        rw [without, without]
        simp only [retain_remove]
      · rw [if_neg isRebuilt, ih, List.filter_cons_of_neg isRebuilt]
  have folded := run plan.plan []
  rw [without_nil, List.append_nil] at folded
  rw [compactForPlan, folded]
  have same : lineage.without (((plan.plan.filter fun step =>
      lineage.isReconstructible host step).map fun step =>
        lineage.stepId host step.step).reverse) = lineage.without (lineage.rebuilt host plan) :=
    without_congr fun id => List.mem_reverse
  rw [same, without, workflow]

/-! ## Rows that replay rebuilds -/

/-- What holds of a row that replay rebuilds: its requirement is its own, and no other row has
    it. -/
structure Rebuilds (host : Host) (lineage : PlanLineage) (step : PlanItemArg) : Prop where
  key : lineage.stepId host step.step = planStepId host step.step
  row : lineage.stepRequirements.get (planStepId host step.step) =
    some [planStepId host step.step]
  once : ∀ key ids, lineage.stepRequirements.get key = some ids →
    planStepId host step.step ∈ ids → key = planStepId host step.step
  requirement : lineage.requirements.get (planStepId host step.step) =
    some ⟨step.step, step.status, none, none⟩

theorem count_other {entries : List (Text × List Text)} {first second : Text × List Text} {id : Text}
    (firstIn : first ∈ entries) (secondIn : second ∈ entries) (different : first ≠ second)
    (firstHas : id ∈ first.2) (secondHas : id ∈ second.2) :
    1 < (entries.map Prod.snd).flatten.count id := by
  obtain ⟨before, after, rfl⟩ := List.append_of_mem firstIn
  rw [List.map_append, List.map_cons, List.flatten_append, List.flatten_cons, List.count_append,
    List.count_append]
  have own : 0 < first.2.count id := List.count_pos_iff.mpr firstHas
  rw [List.mem_append, List.mem_cons] at secondIn
  have found : ∀ {others : List (Text × List Text)}, second ∈ others →
      0 < (others.map Prod.snd).flatten.count id := fun member =>
    List.count_pos_iff.mpr (List.mem_flatten.mpr ⟨_, List.mem_map_of_mem member, secondHas⟩)
  rcases secondIn with earlier | same | later
  · have other := found earlier
    omega
  · exact absurd same.symm different
  · have other := found later
    omega

theorem PlanLineage.rebuilds {step : PlanItemArg}
    (isRebuilt : lineage.isReconstructible host step = true) : Rebuilds host lineage step := by
  unfold isReconstructible at isRebuilt
  simp only [Bool.and_eq_true, beq_iff_eq] at isRebuilt
  obtain ⟨⟨⟨⟨key, row⟩, once⟩, _⟩, own⟩ := isRebuilt
  rw [key] at row once own
  refine ⟨key, row, ?_, ?_⟩
  · intro other ids found member
    by_contra different
    have twice := count_other (OrderedMap.get_eq_some_iff.mp row)
      (OrderedMap.get_eq_some_iff.mp found)
      (fun same => different (congrArg Prod.fst same).symm) (List.mem_singleton_self _) member
    rw [OrderedMap.values] at once
    omega
  cases found : lineage.requirements.get (planStepId host step.step) with
  | none =>
    rw [found] at own
    cases own
  | some requirement =>
    rw [found, Option.any_some] at own
    simp only [Bool.and_eq_true, beq_iff_eq, Option.isNone_iff_eq_none] at own
    obtain ⟨⟨⟨text, status⟩, reason⟩, source⟩ := own
    obtain ⟨text_, status_, source_, reason_⟩ := requirement
    simp only at text status reason source
    rw [text, status, reason, source]

end Compact

/-! ## Replay -/

/-- What the loop of a replay has rebuilt after some rows. -/
structure Replayed (host : Host) (lineage : PlanLineage) (ids : List Text) (start : Nat)
    (done : List PlanItemArg) (revision : Revision) : Prop where
  uuids : revision.uuids = start
  requirements : ∀ id, revision.requirements.get id =
    if ids.contains id && !done.any (fun step => lineage.stepId host step.step == id) then none
    else lineage.requirements.get id
  stepRequirements : ∀ key, revision.stepRequirements.get key =
    if done.any fun step => lineage.stepId host step.step == key then
      lineage.stepRequirements.get key
    else none
  stepIdentities : ∀ key, revision.stepIdentities.get key =
    if done.any fun step => planStepId host step.step == key then lineage.stepIdentities.get key
    else none

section Replay

variable {host : Host} {texts : Text → Prop} {uuids start : Nat} {lineage : PlanLineage}
variable {plan : UpdatePlanArgs} {ids : List Text}

theorem PlanLineage.Kept.stepId_without (separates : host.Separates texts)
    (kept : lineage.Kept host texts uuids (plan.plan.map (·.step))) {text : Text}
    (given : texts text) : (lineage.without ids).stepId host text = lineage.stepId host text := by
  rw [kept.stepId_eq separates given]
  refine @PlanLineage.stepId_eq _ _ uuids separates _ _ given ?_ ?_
  · intro key id found
    obtain ⟨step, member, same, _⟩ := kept.identities key id found
    exact ⟨step, kept.given step member, same⟩
  intro key held found
  have isKept : (lineage.stepRequirements.retain fun id => !ids.contains id).get key =
    some held := found
  rw [OrderedMap.get_retain] at isKept
  split at isKept
  · exact kept.knownKeys key held isKept
  · cases isKept

theorem PlanLineage.Kept.identity_of_stepId (separates : host.Separates texts)
    (kept : lineage.Kept host texts uuids (plan.plan.map (·.step))) {text : Text}
    (given : texts text) : lineage.stepIdentities.get (planStepId host text) =
      if lineage.stepId host text = planStepId host text then none
      else some (lineage.stepId host text) := by
  rw [kept.stepId_eq separates given]
  cases found : lineage.stepIdentities.get (planStepId host text) with
  | none => rw [Option.getD_none, if_pos rfl]
  | some id =>
    obtain ⟨_, _, _, different⟩ := kept.identities _ _ found
    rw [Option.getD_some, if_neg different]

/-- One more row of a replay. -/
theorem Replayed.next (separates : host.Separates texts)
    (kept : lineage.Kept host texts uuids (plan.plan.map (·.step)))
    (rebuilt : ∀ id ∈ ids, ∃ step ∈ plan.plan, Rebuilds host lineage step ∧
      lineage.stepId host step.step = id)
    {done : List PlanItemArg} {revision : Revision}
    (replayed : Replayed host lineage ids start done revision) {step : PlanItemArg}
    (member : step ∈ plan.plan) (listed : ∀ other ∈ done, other ∈ plan.plan)
    (isNew : ∀ other ∈ done, other.step ≠ step.step) :
    Replayed host lineage ids start (done ++ [step])
      (reviseStep host ⟨some plan, lineage.without ids, PlanLineage.stepArgs plan⟩ revision
        ⟨step.step, step.status, []⟩) := by
  have textIn : step.step ∈ plan.plan.map (·.step) := List.mem_map_of_mem member
  have given := kept.given _ textIn
  -- the step keeps its identifier
  have isId : Previous.id host ⟨some plan, lineage.without ids, PlanLineage.stepArgs plan⟩
      step.step = some (lineage.stepId host step.step) := by
    rw [Previous.id_of_mem rfl textIn]
    simp only
    rw [kept.stepId_without separates given]
  have notFresh : Previous.isFresh host
      ⟨some plan, lineage.without ids, PlanLineage.stepArgs plan⟩
        ⟨step.step, step.status, []⟩ = false := by
    rw [Previous.isFresh, isId]
    rfl
  have isKey : Previous.stepId host ⟨some plan, lineage.without ids, PlanLineage.stepArgs plan⟩
      revision.uuids ⟨step.step, step.status, []⟩ = lineage.stepId host step.step := by
    rw [Previous.stepId, notFresh, isId]
    rfl
  have inherits : Previous.inherited
      ⟨some plan, lineage.without ids, PlanLineage.stepArgs plan⟩ revision.requirements
        (lineage.stepId host step.step) [] =
      (lineage.without ids).carried (lineage.stepId host step.step) := by
    rw [Previous.inherited, List.flatMap_nil, List.append_nil]
  have notDone : done.any (fun other => lineage.stepId host other.step ==
      lineage.stepId host step.step) = false := by
    rw [List.any_eq_false]
    intro other earlier same
    exact isNew other earlier (kept.distinct _ (List.mem_map_of_mem (listed other earlier)) _ textIn
      (beq_iff_eq.mp same))
  obtain ⟨row, isRow, isCarried⟩ := kept.get_stepId textIn
  have identities : ∀ key, (if lineage.stepId host step.step = planStepId host step.step then
        revision.stepIdentities
      else revision.stepIdentities.insert (planStepId host step.step)
        (lineage.stepId host step.step)).get key =
      if (done ++ [step]).any fun other => planStepId host other.step == key then
        lineage.stepIdentities.get key
      else none := by
    intro key
    have own := kept.identity_of_stepId separates given
    rw [List.any_append, List.any_cons, List.any_nil, Bool.or_false]
    by_cases same : lineage.stepId host step.step = planStepId host step.step
    · rw [if_pos same] at own
      rw [if_pos same, replayed.stepIdentities key]
      by_cases isText : planStepId host step.step = key
      · subst isText
        rw [own]
        simp
      · rw [beq_eq_false_iff_ne.mpr isText, Bool.or_false]
    rw [if_neg same] at own
    rw [if_neg same, OrderedMap.get_insert]
    by_cases isText : key = planStepId host step.step
    · subst isText
      rw [own, beq_self_eq_true, Bool.or_true]
      simp
    · rw [if_neg isText, replayed.stepIdentities key,
        beq_eq_false_iff_ne.mpr (Ne.symm isText), Bool.or_false]
  have rows : ∀ key, (revision.stepRequirements.insert (lineage.stepId host step.step) row).get key =
      if (done ++ [step]).any fun other => lineage.stepId host other.step == key then
        lineage.stepRequirements.get key
      else none := by
    intro key
    rw [List.any_append, List.any_cons, List.any_nil, Bool.or_false, OrderedMap.get_insert]
    by_cases same : key = lineage.stepId host step.step
    · subst same
      rw [beq_self_eq_true, Bool.or_true, isRow]
      simp
    · rw [if_neg same, replayed.stepRequirements key, beq_eq_false_iff_ne.mpr (Ne.symm same),
        Bool.or_false]
  rw [reviseStep]
  simp only
  rw [isKey, notFresh, inherits]
  simp only [Bool.false_eq_true, ↓reduceIte]
  by_cases isOmitted : lineage.stepId host step.step ∈ ids
  · -- the row is rebuilt from the step
    obtain ⟨other, otherIn, rebuilds, sameKey⟩ := rebuilt _ isOmitted
    have sameText := kept.distinct _ (List.mem_map_of_mem otherIn) _ textIn sameKey
    obtain rfl : other = step :=
      List.inj_on_of_nodup_map kept.nodup otherIn member sameText
    have empty : (lineage.without ids).carried (lineage.stepId host other.step) = [] := by
      have none_ : (lineage.without ids).stepRequirements.get (lineage.stepId host other.step) =
          none := by
        have retained : (lineage.without ids).stepRequirements.get
            (lineage.stepId host other.step) = _ := OrderedMap.get_retain _ _ _
        rw [retained, if_neg (by simpa using isOmitted)]
      rw [PlanLineage.carried, none_, Option.getD_none]
    have isRow_ : row = [planStepId host other.step] := by
      rw [rebuilds.key, rebuilds.row] at isRow
      exact (Option.some_inj.mp isRow).symm
    have free : revision.requirements.get (planStepId host other.step) = none := by
      rw [replayed.requirements, ← rebuilds.key, notDone]
      simp [isOmitted]
    rw [empty, sortDedup_of_sorted List.Pairwise.nil]
    simp only [List.any_nil, Bool.false_eq_true, ↓reduceIte, free, Option.isSome_none,
      List.nil_append]
    rw [sortDedup_of_sorted (List.pairwise_singleton _ _), ← isRow_]
    refine ⟨replayed.uuids, ?_, rows, identities⟩
    intro id
    simp only
    rw [OrderedMap.get_insert, List.any_append, List.any_cons, List.any_nil, Bool.or_false,
      rebuilds.key]
    by_cases same : id = planStepId host other.step
    · subst same
      rw [if_pos rfl, beq_self_eq_true, Bool.or_true, rebuilds.requirement]
      simp
    · rw [if_neg same, beq_eq_false_iff_ne.mpr (Ne.symm same), Bool.or_false]
      exact replayed.requirements id
  · -- the row is kept, with a requirement of its own text
    have isKept : (lineage.without ids).carried (lineage.stepId host step.step) = row := by
      have retained : (lineage.without ids).stepRequirements.get
          (lineage.stepId host step.step) = _ := OrderedMap.get_retain _ _ _
      rw [if_pos (by simpa using isOmitted), isRow] at retained
      exact PlanLineage.carried_of_get retained
    rw [isKept, sortDedup_of_sorted (kept.sorted _ _ isRow)]
    obtain ⟨own, isOwn, requirement, found, text⟩ := kept.own _ textIn
    rw [isCarried] at isOwn
    have notRebuilt : own ∉ ids := by
      intro isIn
      obtain ⟨other, otherIn, rebuilds, sameKey⟩ := rebuilt own isIn
      rw [rebuilds.key] at sameKey
      rw [← sameKey] at isOwn isIn
      exact isOmitted (rebuilds.once _ _ isRow isOwn ▸ isIn)
    have isOwned : row.any (fun id => (revision.requirements.get id).any
        (·.text == step.step)) = true := by
      refine List.any_eq_true.mpr ⟨own, isOwn, ?_⟩
      rw [replayed.requirements, if_neg (by simp [notRebuilt]), found, Option.any_some, text]
      exact beq_self_eq_true _
    rw [if_pos isOwned]
    refine ⟨replayed.uuids, ?_, rows, identities⟩
    intro id
    simp only
    rw [replayed.requirements id, List.any_append, List.any_cons, List.any_nil, Bool.or_false]
    by_cases same : lineage.stepId host step.step = id
    · subst same
      simp [isOmitted]
    · rw [beq_eq_false_iff_ne.mpr same, Bool.or_false]

/-- The loop over all the rows. -/
theorem Replayed.all (separates : host.Separates texts)
    (kept : lineage.Kept host texts uuids (plan.plan.map (·.step)))
    (rebuilt : ∀ id ∈ ids, ∃ step ∈ plan.plan, Rebuilds host lineage step ∧
      lineage.stepId host step.step = id) :
    Replayed host lineage ids start plan.plan ((PlanLineage.stepArgs plan).foldl
      (reviseStep host ⟨some plan, lineage.without ids, PlanLineage.stepArgs plan⟩)
        ⟨(lineage.without ids).requirements, .empty, .empty, start⟩) := by
  have run : ∀ done rest : List PlanItemArg, done ++ rest = plan.plan → ∀ revision : Revision,
      Replayed host lineage ids start done revision →
        Replayed host lineage ids start plan.plan ((rest.map fun step =>
          (⟨step.step, step.status, []⟩ : PlanStepArg)).foldl
            (reviseStep host ⟨some plan, lineage.without ids, PlanLineage.stepArgs plan⟩)
              revision) := by
    intro done rest split_ revision replayed
    induction rest generalizing done revision with
    | nil =>
      rw [List.append_nil] at split_
      rw [← split_]
      exact replayed
    | cons first rest ih =>
      refine ih (done ++ [first]) (by simpa using split_) _ ?_
      have nodup := kept.nodup
      rw [← split_, List.map_append, List.map_cons, List.nodup_append] at nodup
      refine replayed.next separates kept rebuilt ?_ (fun other earlier => ?_)
        (fun other earlier same => ?_)
      · rw [← split_]
        exact List.mem_append_right _ List.mem_cons_self
      · rw [← split_]
        exact List.mem_append_left _ earlier
      · exact nodup.2.2 _ (List.mem_map_of_mem earlier) _ List.mem_cons_self same
  refine run [] plan.plan rfl _ ⟨rfl, ?_, fun _ => rfl, fun _ => rfl⟩
  intro id
  have retained : (lineage.without ids).requirements.get id = _ := OrderedMap.get_retain _ _ _
  rw [retained]
  simp only [List.any_nil, Bool.not_false, Bool.and_true]
  cases ids.contains id <;> rfl

theorem PlanLineage.Kept.reason_of_mapped {steps : List Text}
    (kept : lineage.Kept host texts uuids steps) {id : Text} {requirement : PlanRequirement}
    (found : lineage.requirements.get id = some requirement)
    (isMapped : lineage.isMapped id = true) : requirement.supersededReason = none := by
  cases isReason : requirement.supersededReason with
  | none => rfl
  | some reason =>
    have isAccepted := (kept.accepted id).mpr ⟨requirement, found, by rw [isReason]; rfl⟩
    rw [kept.unmapped id isMapped] at isAccepted
    cases isAccepted

/-- A replay rebuilds all but what is resolved of the rows that were left out. -/
theorem PlanLineage.Kept.revise_without (separates : host.Separates texts)
    (kept : lineage.Kept host texts uuids (plan.plan.map (·.step)))
    (rebuilt : ∀ id ∈ ids, ∃ step ∈ plan.plan, Rebuilds host lineage step ∧
      lineage.stepId host step.step = id) :
    ((lineage.without ids).revise host start (some plan) (stepArgs plan) []).1 =
      { lineage with
        resolvedRequirements := lineage.resolvedRequirements.retain fun id =>
          !ids.contains id } := by
  have replayed := @Replayed.all _ _ _ start _ _ _ separates kept rebuilt
  unfold revise
  simp only
  generalize (stepArgs plan).foldl
    (reviseStep host ⟨some plan, lineage.without ids, stepArgs plan⟩)
      ⟨(lineage.without ids).requirements, .empty, .empty, start⟩ = revision at replayed
  have rows : revision.stepRequirements = lineage.stepRequirements := by
    apply OrderedMap.ext_get
    intro key
    rw [replayed.stepRequirements]
    split
    · rfl
    next absent =>
      cases found : lineage.stepRequirements.get key with
      | none => rfl
      | some held =>
        obtain ⟨text, member, same⟩ := kept.keys key held found
        obtain ⟨step, listed, rfl⟩ := List.mem_map.mp member
        exact (absent (List.any_eq_true.mpr ⟨step, listed, beq_iff_eq.mpr same⟩)).elim
  have identities : revision.stepIdentities = lineage.stepIdentities := by
    apply OrderedMap.ext_get
    intro key
    rw [replayed.stepIdentities]
    split
    · rfl
    next absent =>
      cases found : lineage.stepIdentities.get key with
      | none => rfl
      | some id =>
        obtain ⟨text, member, same, _⟩ := kept.identities key id found
        obtain ⟨step, listed, rfl⟩ := List.mem_map.mp member
        exact (absent (List.any_eq_true.mpr ⟨step, listed, beq_iff_eq.mpr same.symm⟩)).elim
  have requirements : revision.requirements = lineage.requirements := by
    apply OrderedMap.ext_get
    intro id
    rw [replayed.requirements]
    split
    next omitted =>
      rw [Bool.and_eq_true, Bool.not_eq_true', List.any_eq_false] at omitted
      obtain ⟨step, listed, _, same⟩ := rebuilt id (by simpa using omitted.1)
      exact absurd (beq_iff_eq.mpr same) (omitted.2 step listed)
    · rfl
  rw [rows, identities, requirements]
  have reasons : lineage.requirements.mapValues (fun id requirement =>
      if PlanLineage.isMapped { lineage.without ids with
          requirements := lineage.requirements
          stepRequirements := lineage.stepRequirements
          stepIdentities := lineage.stepIdentities } id then
        { requirement with supersededReason := none }
      else requirement) = lineage.requirements := by
    apply OrderedMap.ext_get
    intro id
    rw [OrderedMap.get_mapValues]
    cases found : lineage.requirements.get id with
    | none => rfl
    | some requirement =>
      rw [Option.map_some]
      split
      next isMapped =>
        have none_ := kept.reason_of_mapped found isMapped
        obtain ⟨text, status, source, reason⟩ := requirement
        simp only at none_
        rw [none_]
      · rfl
  have revisions : (lineage.without ids).stepRevisions.retain (fun id =>
      (lineage.stepRequirements.get id).isSome) = lineage.stepRevisions := by
    apply OrderedMap.ext_get
    intro id
    rw [OrderedMap.get_retain]
    split
    · rfl
    next absent =>
      cases found : lineage.stepRevisions.get id with
      | none => rfl
      | some version => exact absurd (kept.revisions id (by rw [found]; rfl)) absent
  have accepted : (lineage.without ids).acceptedSupersessions.retain (fun id =>
      !PlanLineage.isMapped { lineage.without ids with
          requirements := lineage.requirements
          stepRequirements := lineage.stepRequirements
          stepIdentities := lineage.stepIdentities } id) = lineage.acceptedSupersessions := by
    apply OrderedMap.ext_get
    intro id
    rw [OrderedMap.get_retain]
    split
    · rfl
    next mapped =>
      rw [Bool.not_eq_true, Bool.not_eq_false'] at mapped
      exact (kept.unmapped id mapped).symm
  rw [reasons, revisions, accepted, supersede, List.foldl_nil, ← kept.workflow]
  rfl

/-- The status of a requirement that one row carries is that of the row. -/
theorem updateStatus_own {step : PlanItemArg} {carriers : List PlanItemArg} (some_ : carriers ≠ [])
    (all : ∀ item ∈ carriers, item = step) (isResolved : Bool) :
    PlanRequirement.updateStatus ⟨step.step, step.status, none, none⟩ carriers isResolved =
      ⟨step.step, step.status, none, none⟩ := by
  have allOf : ∀ p : PlanItemArg → Bool, carriers.all p = p step := by
    intro p
    rw [Bool.eq_iff_iff, List.all_eq_true]
    refine ⟨fun held => ?_, fun held item member => all item member ▸ held⟩
    obtain ⟨item, member⟩ := List.exists_mem_of_ne_nil _ some_
    exact all item member ▸ held item member
  have anyOf : ∀ p : PlanItemArg → Bool, carriers.any p = p step := by
    intro p
    rw [Bool.eq_iff_iff, List.any_eq_true]
    refine ⟨?_, fun held => ?_⟩
    · rintro ⟨item, member, held⟩
      exact all item member ▸ held
    · obtain ⟨item, member⟩ := List.exists_mem_of_ne_nil _ some_
      exact ⟨item, member, (all item member).symm ▸ held⟩
  rw [PlanRequirement.updateStatus, if_neg some_]
  simp only [allOf, anyOf]
  obtain ⟨text, status⟩ := step
  cases status <;> simp

/-- What replay rebuilds has the statuses that it had. -/
theorem PlanLineage.Kept.updateStatuses_resolved
    (kept : lineage.Kept host texts uuids (plan.plan.map (·.step)))
    (settled : lineage.updateStatuses host plan = lineage)
    (rebuilt : ∀ id ∈ ids, ∃ step ∈ plan.plan, Rebuilds host lineage step ∧
      lineage.stepId host step.step = id) :
    PlanLineage.updateStatuses host { lineage with
        resolvedRequirements := lineage.resolvedRequirements.retain fun id =>
          !ids.contains id } plan =
      { lineage with
        resolvedRequirements := lineage.resolvedRequirements.retain fun id =>
          !ids.contains id } := by
  have isResolved : ∀ id, (lineage.resolvedRequirements.retain fun id => !ids.contains id).get id =
      if !ids.contains id then lineage.resolvedRequirements.get id else none :=
    fun id => OrderedMap.get_retain _ _ _
  have resolved : (PlanLineage.updateStatuses host { lineage with
      resolvedRequirements := lineage.resolvedRequirements.retain fun id =>
        !ids.contains id } plan).resolvedRequirements =
      lineage.resolvedRequirements.retain fun id => !ids.contains id := by
    apply OrderedMap.ext_get
    intro id
    have before := @PlanLineage.isResolved_updateStatuses host lineage plan id
    rw [settled] at before
    rw [PlanLineage.isResolved_updateStatuses]
    split
    · rfl
    next pruned =>
      have sameIf : ¬((lineage.requirements.get id).isNone || (lineage.carriers host plan id).all
        (·.status == .completed)) = true := pruned
      rw [if_neg sameIf] at before
      rw [isResolved, before, ite_self]
  have requirements : (PlanLineage.updateStatuses host { lineage with
      resolvedRequirements := lineage.resolvedRequirements.retain fun id =>
        !ids.contains id } plan).requirements = lineage.requirements := by
    apply OrderedMap.ext_get
    intro id
    rw [PlanLineage.get_updateStatuses, resolved, isResolved]
    have before := @PlanLineage.get_updateStatuses host lineage plan id
    rw [settled] at before
    by_cases isIn : id ∈ ids
    · obtain ⟨step, listed, rebuilds, same⟩ := rebuilt id isIn
      rw [rebuilds.key] at same
      subst same
      have carries : step ∈ lineage.carriers host plan (planStepId host step.step) := by
        rw [PlanLineage.mem_carriers, rebuilds.key, PlanLineage.carried_of_get rebuilds.row]
        exact ⟨listed, List.mem_singleton_self _⟩
      simp only
      rw [rebuilds.requirement, Option.map_some, Option.some_inj]
      refine updateStatus_own (List.ne_nil_of_mem carries) (fun item member => ?_) _
      obtain ⟨itemIn, carried⟩ := PlanLineage.mem_carriers.mp member
      obtain ⟨held, found, isCarried⟩ := kept.get_stepId (List.mem_map_of_mem itemIn)
      rw [isCarried] at carried
      have sameKey := rebuilds.once _ _ found carried
      refine List.inj_on_of_nodup_map kept.nodup itemIn listed ?_
      exact kept.distinct _ (List.mem_map_of_mem itemIn) _ (List.mem_map_of_mem listed)
        (sameKey.trans rebuilds.key.symm)
    · rw [if_pos (by simpa using isIn)]
      exact before.symm
  rw [PlanLineage.updateStatuses] at resolved requirements
  rw [PlanLineage.updateStatuses]
  simp only at resolved requirements ⊢
  rw [resolved] at requirements ⊢
  rw [requirements, ← kept.workflow]

/-- Replay of a lineage without some rows that it rebuilds. -/
theorem PlanLineage.Kept.reconcile_without (separates : host.Separates texts)
    (kept : lineage.Kept host texts uuids (plan.plan.map (·.step)))
    (settled : lineage.updateStatuses host plan = lineage)
    (rebuilt : ∀ id ∈ ids, ∃ step ∈ plan.plan, Rebuilds host lineage step ∧
      lineage.stepId host step.step = id) :
    (lineage.without ids).reconcileRestored host start (some plan) =
      { lineage with
        resolvedRequirements := lineage.resolvedRequirements.retain fun id =>
          !ids.contains id } := by
  have retained : (lineage.without ids).stepRequirements.mapValues (fun _ held => held.filter
      fun id => ((lineage.without ids).requirements.get id).isSome) =
        (lineage.without ids).stepRequirements := by
    apply OrderedMap.ext_get
    intro key
    rw [OrderedMap.get_mapValues]
    cases found : (lineage.without ids).stepRequirements.get key with
    | none => rfl
    | some held =>
      rw [Option.map_some, Option.some_inj, List.filter_eq_self]
      intro id member
      have isKey : (lineage.without ids).stepRequirements.get key = _ :=
        OrderedMap.get_retain _ _ _
      rw [found] at isKey
      split at isKey
      next notOmitted =>
        have isRequirement : (lineage.without ids).requirements.get id = _ :=
          OrderedMap.get_retain _ _ _
        rw [isRequirement, if_pos]
        · exact kept.listed key held isKey.symm id member
        rw [Bool.not_eq_true', ← Bool.not_eq_true, List.contains_iff_mem]
        intro isIn
        obtain ⟨step, _, rebuilds, same⟩ := rebuilt id isIn
        rw [rebuilds.key] at same
        rw [← same] at member isIn
        have isOwn := rebuilds.once key held isKey.symm member
        rw [isOwn] at notOmitted
        simp [isIn] at notOmitted
      · cases isKey
  rw [reconcileRestored, retained]
  have same : ({ lineage.without ids with
      legacyMetadata := .empty
      stepRequirements := (lineage.without ids).stepRequirements } : PlanLineage) =
      lineage.without ids := by
    rw [← kept.legacyMetadata]
    rfl
  rw [same, kept.revise_without separates rebuilt]
  exact kept.updateStatuses_resolved settled rebuilt

end Replay

/-! ## Restarts -/

section Restarts

variable {host : Host} {texts : Text → Prop} {uuids : Nat} {lineage : PlanLineage}
variable {plan : UpdatePlanArgs} {codec : ResponseCodec} {effect : PlanUpdateEffect}

/-- A snapshot is read back when its plan is accepted. -/
theorem planSnapshotFromItem_item {response : PlanToolResponse}
    (inverts : codec.read (codec.print response) = some response) :
    planSnapshotFromItem codec (planSnapshotItem codec response) =
      if response.currentPlan.isValid then some response else none := by
  rw [planSnapshotItem, planSnapshotFromItem]
  simp only [ne_eq, not_true_eq_false, ↓reduceIte, String.toList_ofList, List.append_assoc,
    stripPrefix_append, Option.bind_some]
  have stripped : stripSuffix planSnapshotSuffix (codec.print response ++ planSnapshotSuffix) =
      some (codec.print response) := by
    simp [stripSuffix]
  rw [stripped, Option.bind_some, inverts]
  cases isValid : response.currentPlan.isValid with
  | true => simp [isValid]
  | false => simp [isValid]

/-- A lineage is restored when it is the one that replay leaves. -/
theorem fullLineageFor_durable :
    (durableResponse host plan effect lineage).fullLineageFor host uuids plan
        (some (planRevisionWithLineage host (some plan) lineage)) = some lineage ↔
      (lineage.compactForPlan host plan).reconcileRestored host uuids (some plan) = lineage := by
  have current : (durableResponse host plan effect lineage).currentPlan = plan := rfl
  have complete : (durableResponse host plan effect lineage).lineageComplete = true := rfl
  have compact : (durableResponse host plan effect lineage).lineage =
      lineage.compactForPlan host plan := rfl
  have revision : (durableResponse host plan effect lineage).revision =
      planRevisionWithLineage host (some plan) lineage := rfl
  rw [PlanToolResponse.fullLineageFor, current, complete, compact, revision]
  simp only [Bool.not_true, bne_self_eq_false, Bool.false_or, Bool.or_self, Bool.false_eq_true,
    ↓reduceIte, Option.any_some]
  refine ⟨?_, ?_⟩
  · intro restored
    split at restored
    · cases restored
    · exact Option.some_inj.mp restored
  · intro same
    simp [same]

theorem PlanLineage.Kept.rebuilt_rows {id : Text} (member : id ∈ lineage.rebuilt host plan) :
    ∃ step ∈ plan.plan, Rebuilds host lineage step ∧ lineage.stepId host step.step = id := by
  rw [rebuilt, List.mem_map] at member
  obtain ⟨step, listed, same⟩ := member
  rw [List.mem_filter] at listed
  exact ⟨step, listed.1, PlanLineage.rebuilds listed.2, same⟩

/-- Replay of a whole lineage leaves it as it is. -/
theorem PlanLineage.Kept.reconcile (separates : host.Separates texts)
    (kept : lineage.Kept host texts uuids (plan.plan.map (·.step)))
    (settled : lineage.updateStatuses host plan = lineage) (start : Nat) :
    lineage.reconcileRestored host start (some plan) = lineage := by
  have restored := @PlanLineage.Kept.reconcile_without _ _ _ start _ _ [] separates kept settled
    fun id member => by cases member
  rw [PlanLineage.without_nil] at restored
  rw [restored]
  have all : lineage.resolvedRequirements.retain (fun id => !([] : List Text).contains id) =
      lineage.resolvedRequirements := by
    apply OrderedMap.ext_get
    intro id
    rw [OrderedMap.get_retain]
    rfl
  rw [all]

/-- What replay restores of a compact lineage. -/
theorem PlanLineage.Kept.reconcile_compact (separates : host.Separates texts)
    (kept : lineage.Kept host texts uuids (plan.plan.map (·.step)))
    (settled : lineage.updateStatuses host plan = lineage) (start : Nat) :
    (lineage.compactForPlan host plan).reconcileRestored host start (some plan) = lineage ↔
      ∀ item ∈ plan.plan, lineage.isReconstructible host item = true →
        lineage.resolvedRequirements.get (lineage.stepId host item.step) = none := by
  rw [compactForPlan_eq kept.workflow, kept.reconcile_without separates settled
    fun id member => rebuilt_rows member]
  refine ⟨?_, ?_⟩
  · intro same item listed isRebuilt
    have resolved := congrArg (fun lineage => lineage.resolvedRequirements.get
      (PlanLineage.stepId host lineage item.step)) same
    have member : lineage.stepId host item.step ∈ lineage.rebuilt host plan :=
      List.mem_map.mpr ⟨item, List.mem_filter.mpr ⟨listed, isRebuilt⟩, rfl⟩
    have omitted : (lineage.resolvedRequirements.retain fun id =>
        !(lineage.rebuilt host plan).contains id).get (lineage.stepId host item.step) = none := by
      rw [OrderedMap.get_retain, if_neg (by simpa using member)]
    exact resolved.symm.trans omitted
  intro unresolved
  have all : (lineage.resolvedRequirements.retain fun id =>
      !(lineage.rebuilt host plan).contains id) = lineage.resolvedRequirements := by
    apply OrderedMap.ext_get
    intro id
    rw [OrderedMap.get_retain]
    split
    · rfl
    next omitted =>
      rw [Bool.not_eq_true, Bool.not_eq_false', List.contains_iff_mem] at omitted
      obtain ⟨item, isRebuilt, rfl⟩ := List.mem_map.mp omitted
      rw [List.mem_filter] at isRebuilt
      exact (unresolved item isRebuilt.1 isRebuilt.2).symm
  rw [all]

/-- A durable snapshot of a reachable state restores its lineage exactly when at most one step is
    in progress and no row that it leaves out is named as resolved. Replays that start from the
    lineage, once or several times, leave it as it is. -/
theorem snapshot_restores_iff (separates : host.Separates texts) {world : World}
    (reachable : World.Reachable host texts world) (isPlan : world.state.plan = some plan)
    (inverts : codec.read (codec.print (durableResponse host plan effect world.state.lineage)) =
      some (durableResponse host plan effect world.state.lineage)) :
    (restoredLineage host codec uuids plan effect world.state.lineage = some world.state.lineage ∧
      ∀ counts : List Nat, counts.foldl (fun lineage uuids =>
        lineage.reconcileRestored host uuids (some plan)) world.state.lineage =
          world.state.lineage) ↔
    plan.plan.countP (·.status == .inProgress) ≤ 1 ∧
      ∀ item ∈ plan.plan, world.state.lineage.isReconstructible host item = true →
        world.state.lineage.resolvedRequirements.get
          (world.state.lineage.stepId host item.step) = none := by
  have kept := reachable.kept separates
  have items : world.state.items = plan.plan := by
    rw [PlanState.items, isPlan]
    rfl
  have lineageKept := kept.lineage
  rw [items] at lineageKept
  have settled := kept.settled plan isPlan
  have replays : ∀ counts : List Nat, counts.foldl (fun lineage uuids =>
      lineage.reconcileRestored host uuids (some plan)) world.state.lineage =
        world.state.lineage := by
    intro counts
    induction counts with
    | nil => rfl
    | cons count rest ih =>
      rw [List.foldl_cons, lineageKept.reconcile separates settled, ih]
  have isValid : plan.isValid = decide (plan.plan.countP (·.status == .inProgress) ≤ 1) := by
    have named : plan.plan.all (fun item => trim item.step != []) = true := by
      rw [List.all_eq_true]
      intro item member
      rw [bne_iff_ne]
      exact kept.named item (items ▸ member)
    rw [UpdatePlanArgs.isValid, named, Bool.true_and]
  have current : (durableResponse host plan effect world.state.lineage).currentPlan = plan := rfl
  rw [restoredLineage, planSnapshotFromItem_item inverts, current, isValid,
    ← lineageKept.reconcile_compact separates settled uuids]
  by_cases few : plan.plan.countP (·.status == .inProgress) ≤ 1
  · rw [decide_eq_true few, if_pos rfl, Option.bind_some, fullLineageFor_durable]
    exact ⟨fun both => ⟨few, both.1⟩, fun both => ⟨both.2, replays⟩⟩
  · rw [decide_eq_false few, if_neg Bool.false_ne_true, Option.bind_none]
    refine ⟨fun both => (by cases both.1), fun both => absurd both.1 few⟩

end Restarts

/-! ## A snapshot -/

section Sample

/-- A first plan with a completed step, with what it resolves. -/
def sampleCompleted (resolve : List Text) : PlanToolArgs where
  samplingRevision := some 0
  plan := some [⟨"B".toList, .completed, []⟩]
  resolve := resolve

/-- serde_json on one response. -/
def sampleCodec (response : PlanToolResponse) : ResponseCodec where
  print _ := ("\x7b\"current_plan\":").toList ++ samplePlanJson ++
    (",\"obligations\":\x7b\"completed\":1,\"superseded\":0,\"unresolved\":[]\x7d," ++
      "\"completion_authority\":\"checklist_only\",\"lineage_complete\":true," ++
      "\"revision\":\"").toList ++ response.revision ++
    ("\",\"step_ids\":[\"df7e70e5021544f4\"],\"message\":\"Plan updated\"," ++
      "\"effect\":\"initial\",\"no_progress\":false\x7d").toList
  read _ := some response

theorem sampleCompleted_given (resolve : List Text) :
    ∀ plan, (sampleCompleted resolve).plan = some plan → ∀ step ∈ plan, sampleTexts step.step := by
  intro plan isPlan step member
  obtain rfl := Option.some_inj.mp isPlan
  obtain rfl := List.mem_singleton.mp member
  exact .inl rfl

/-- The plan of the two samples. -/
def samplePlan : UpdatePlanArgs := ⟨none, [⟨"B".toList, .completed⟩]⟩

/-- A plan with a completed step, the requirement of which is named as resolved. -/
theorem sample_resolved : ∃ world,
    World.empty.after sampleHost (sampleCompleted [planStepId sampleHost "B".toList]) = some world ∧
      world.state.plan = some samplePlan ∧
      samplePlan.plan.any (fun item => world.state.lineage.isReconstructible sampleHost item &&
        (world.state.lineage.resolvedRequirements.get
          (world.state.lineage.stepId sampleHost item.step)).isSome) = true := by
  have accepted : (World.empty.after sampleHost
      (sampleCompleted [planStepId sampleHost "B".toList])).any (fun world =>
        decide (world.state.plan = some samplePlan) && samplePlan.plan.any fun item =>
          world.state.lineage.isReconstructible sampleHost item &&
            (world.state.lineage.resolvedRequirements.get
              (world.state.lineage.stepId sampleHost item.step)).isSome) = true := by
    decide +kernel
  cases isWorld : World.empty.after sampleHost
      (sampleCompleted [planStepId sampleHost "B".toList]) with
  | none =>
    rw [isWorld] at accepted
    cases accepted
  | some world =>
    rw [isWorld, Option.any_some, Bool.and_eq_true, decide_eq_true_eq] at accepted
    exact ⟨world, rfl, accepted.1, accepted.2⟩

/-- A snapshot loses what is resolved of a row that it leaves out. -/
theorem resolved_row_not_restored : sampleHost.Separates sampleTexts ∧ ∃ world plan codec,
    World.Reachable sampleHost sampleTexts world ∧ world.state.plan = some plan ∧
      codec.read (codec.print (durableResponse sampleHost plan .initial world.state.lineage)) =
        some (durableResponse sampleHost plan .initial world.state.lineage) ∧
      ∀ uuids, restoredLineage sampleHost codec uuids plan .initial world.state.lineage ≠
        some world.state.lineage := by
  obtain ⟨world, isWorld, isPlan, resolved⟩ := sample_resolved
  have reachable : World.Reachable sampleHost sampleTexts world :=
    .call _ _ _ .empty (World.committed_after (sampleCompleted_given _) isWorld)
  have kept := reachable.kept sampleHost_separates
  have lineageKept := kept.lineage
  rw [PlanState.items, isPlan, Option.map_some, Option.getD_some] at lineageKept
  refine ⟨sampleHost_separates, world, samplePlan,
    sampleCodec (durableResponse sampleHost samplePlan .initial world.state.lineage), reachable,
    isPlan, rfl, fun uuids restored => ?_⟩
  obtain ⟨item, member, both⟩ := List.any_eq_true.mp resolved
  rw [Bool.and_eq_true] at both
  rw [restoredLineage, planSnapshotFromItem_item rfl] at restored
  have isValid : (durableResponse sampleHost samplePlan .initial
      world.state.lineage).currentPlan.isValid = true := by
    change samplePlan.isValid = true
    decide +kernel
  rw [if_pos isValid, Option.bind_some, fullLineageFor_durable,
    lineageKept.reconcile_compact sampleHost_separates (kept.settled _ isPlan)] at restored
  have absent := restored item member both.1
  rw [absent] at both
  cases both.2

/-- The snapshot of a plan with a completed step restores its lineage. -/
theorem snapshot_restores_completed : ∃ world, World.Reachable sampleHost sampleTexts world ∧
    world.state.plan = some samplePlan ∧
      restoredLineage sampleHost
        (sampleCodec (durableResponse sampleHost samplePlan .initial world.state.lineage)) 0
          samplePlan .initial world.state.lineage = some world.state.lineage := by
  have accepted : (World.empty.after sampleHost (sampleCompleted [])).any (fun world =>
      decide (world.state.plan = some samplePlan) && samplePlan.plan.all fun item =>
        (world.state.lineage.resolvedRequirements.get
          (world.state.lineage.stepId sampleHost item.step)).isNone) = true := by
    decide +kernel
  cases isWorld : World.empty.after sampleHost (sampleCompleted []) with
  | none =>
    rw [isWorld] at accepted
    cases accepted
  | some world =>
    rw [isWorld, Option.any_some, Bool.and_eq_true, decide_eq_true_eq, List.all_eq_true] at accepted
    have reachable : World.Reachable sampleHost sampleTexts world :=
      .call _ _ _ .empty (World.committed_after (sampleCompleted_given _) isWorld)
    refine ⟨world, reachable, accepted.1, ?_⟩
    refine ((snapshot_restores_iff sampleHost_separates reachable accepted.1 rfl).mpr
      ⟨by decide +kernel, fun item member _ => ?_⟩).1
    exact Option.isNone_iff_eq_none.mp (accepted.2 item member)

end Sample

end Codex.PlanStore
