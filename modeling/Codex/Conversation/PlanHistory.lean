import Codex.Conversation.PlanObligations

/-!
# Runs of the plan store

What the calls of `conversation/src/plan_store.rs` leave of the obligations, over every run from an
empty store.
-/

namespace Codex.PlanStore

open Codex.Text

/-- The rows of a plan. -/
def PlanState.items (state : PlanState) : List PlanItemArg := (state.plan.map (·.plan)).getD []

/-- What holds of a state after the calls. -/
structure PlanState.Kept (host : Host) (texts : Text → Prop) (uuids : Nat) (state : PlanState) :
    Prop where
  lineage : state.lineage.Kept host texts uuids (state.items.map (·.step))
  named : ∀ item ∈ state.items, trim item.step ≠ []
  settled : ∀ plan, state.plan = some plan → state.lineage.updateStatuses host plan = state.lineage
  first : state.plan = none → state.lineage = .empty

section States

variable {host : Host} {texts : Text → Prop} {uuids later : Nat} {lineage : PlanLineage}
variable {state : PlanState}

theorem PlanLineage.Kept.mono {steps : List Text} (kept : lineage.Kept host texts uuids steps)
    (le : uuids ≤ later) : lineage.Kept host texts later steps :=
  { kept with
    knownKeys := fun key ids found => (kept.knownKeys key ids found).mono le
    known := fun id requirement found => (kept.known id requirement found).mono le }

theorem PlanState.Kept.mono (kept : state.Kept host texts uuids) (le : uuids ≤ later) :
    state.Kept host texts later :=
  { kept with lineage := kept.lineage.mono le }

theorem PlanLineage.Kept.empty : PlanLineage.empty.Kept host texts uuids [] where
  given step member := by cases member
  nodup := List.nodup_nil
  identities key id found := by cases found
  keys key ids found := by cases found
  distinct first member := by cases member
  own step member := by cases member
  sorted key ids found := by cases found
  listed key ids found := by cases found
  knownKeys key ids found := by cases found
  known id requirement found := by cases found
  accepted id := by
    refine ⟨fun found => (by cases found), ?_⟩
    rintro ⟨requirement, found, _⟩
    cases found
  unmapped id isMapped := rfl
  resolved id found := by cases found
  revisions id found := by cases found
  workflow := rfl
  legacyMetadata := rfl

theorem PlanState.Kept.empty : PlanState.empty.Kept host texts uuids where
  lineage := PlanLineage.Kept.empty
  named item member := by cases member
  settled plan found := by cases found
  first _ := rfl

end States

section Next

variable {host : Host} {texts : Text → Prop} {uuids later : Nat} {lineage result : PlanLineage}
variable {current : PlanState} {args : PlanToolArgs} {next : UpdatePlanArgs}

variable {revisionChecked : Bool}

theorem setStatuses_steps {expected : Option (OrderedMap Text Nat)} {seen : List Nat}
    {plan result : List PlanItemArg} {updates : List PlanStatusUpdate}
    (done : setStatuses host lineage revisionChecked expected seen plan updates = .ok result) :
    result.map (·.step) = plan.map (·.step) := by
  induction updates generalizing seen plan with
  | nil =>
    obtain rfl := Except.ok.inj done
    rfl
  | cons update rest ih =>
    rw [setStatuses] at done
    split at done
    · cases done
    next index _ =>
      split at done
      · cases done
      split at done
      · cases done
      next item found =>
        simp only at done
        split at done
        · cases done
        rw [ih done, List.map_set]
        refine List.ext_getElem? fun other => ?_
        rw [List.getElem?_set]
        split
        next same =>
          subst same
          rw [List.length_map, List.getElem?_map, found]
          obtain ⟨inside, _⟩ := List.getElem?_eq_some_iff.mp found
          rw [if_pos inside]
          rfl
        · rfl

/-- The statuses that a call sets leave the texts of the steps. -/
theorem stagedStatuses_steps
    (done : stagedStatuses host current args revisionChecked = .ok (some next)) :
    next.plan.map (·.step) = current.items.map (·.step) := by
  unfold stagedStatuses at done
  split at done
  · cases Except.ok.inj done
  next statuses _ =>
    unfold statusPlan at done
    split at done
    · cases done
    next plan isPlan =>
      rw [PlanState.items, isPlan]
      split at done
      · cases done
      split at done
      · cases done
      split at done
      · cases done
      next steps isSteps =>
        split at done
        · cases done
        · obtain rfl := Option.some_inj.mp (Except.ok.inj done)
          exact setStatuses_steps isSteps

/-- A lineage with pins is that of the plan before the call. -/
theorem PlanState.Kept.pinned (kept : current.Kept host texts uuids)
    (done : pinned host current args = .ok lineage) :
    lineage.Kept host texts uuids (current.items.map (·.step)) := by
  obtain ⟨requirements, rfl, pins⟩ := pinned_spec done
  exact kept.lineage.pins pins

theorem replacePlan_spec (separates : host.Separates texts)
    (kept : current.Kept host texts uuids) (pins : pinned host current args = .ok lineage)
    {plan : List PlanStepArg} (given : ∀ step ∈ plan, texts step.step)
    (done : replacePlan host uuids current lineage args plan = .ok (next, result, later)) :
    Replaced host texts args current.plan uuids later lineage result next ∧
      ∀ item ∈ next.plan, trim item.step ≠ [] := by
  have lineageKept := kept.pinned pins
  unfold replacePlan at done
  split at done
  · cases done
  next blank =>
    rw [Bool.not_eq_true, List.any_eq_false] at blank
    have named : ∀ item ∈ itemsOf plan, trim item.step ≠ [] := by
      intro item member
      obtain ⟨step, listed, rfl⟩ := List.mem_map.mp member
      simpa using blank step listed
    split at done
    · cases done
    next nodup =>
      rw [not_not] at nodup
      split at done
      · split at done
        · cases done
        next explanation accounted =>
          obtain ⟨continues, isAccounted⟩ := accountForRemovedSteps_spec accounted
          split at done
          · cases done
          next references isAuthorized =>
            simp only [Except.ok.injEq, Prod.mk.injEq] at done
            obtain ⟨rfl, rfl, rfl⟩ := done
            refine ⟨Replaced.revise separates ⟨lineageKept, given, nodup, ?_, ?_⟩ isAccounted
              (authorizeScopeChanges_spec isAuthorized), named⟩
            · intro step member source listed
              rcases continues step member source listed with ⟨entry, isEntry, rfl⟩ | isOrphan
              · obtain ⟨item, isItem, rfl⟩ := List.mem_map.mp isEntry
                obtain ⟨ids, found, _⟩ := lineageKept.get_stepId (List.mem_map_of_mem isItem)
                left
                simp only
                rw [found]
                rfl
              · obtain ⟨requirement, found⟩ := Option.isSome_iff_exists.mp isOrphan
                right
                simp only
                rw [(PlanLineage.orphan_unmapped found).1]
                rfl
            · intro none_ id requirement found
              obtain ⟨requirements, rfl, isPinned⟩ := pinned_spec pins
              rcases isPinned.added id requirement found with old | ⟨_, _, _, isPin⟩
              · rw [kept.first none_] at old
                cases old
              · exact isPin
      next plain =>
        split at done
        · cases done
        simp only [Except.ok.injEq, Prod.mk.injEq] at done
        obtain ⟨rfl, rfl, rfl⟩ := done
        have steps : (itemsOf plan).map (·.step) = current.items.map (·.step) := by
          rw [itemsOf_map_step, PlanState.items]
          rw [isStructural, Bool.or_eq_true, Bool.or_eq_true, not_or, not_or] at plain
          have same := plain.1.1
          cases isPlan : current.plan with
          | none => simp [isPlan] at same
          | some previous =>
            rw [isPlan] at same
            simpa using (of_not_not (by simpa using same) :
              previous.plan.map (·.step) = plan.map (·.step)).symm
        refine ⟨Replaced.refl ?_ steps.symm, named⟩
        rw [steps]
        exact lineageKept

/-- What a call makes the plan and its lineage. -/
theorem nextPlan_spec (separates : host.Separates texts) (kept : current.Kept host texts uuids)
    (pins : pinned host current args = .ok lineage) {statusNext : Option UpdatePlanArgs}
    (given : ∀ plan, args.plan = some plan → ∀ step ∈ plan, texts step.step)
    (statuses : stagedStatuses host current args revisionChecked = .ok statusNext)
    (done : nextPlan host uuids current lineage args statusNext = .ok (next, result, later)) :
    Replaced host texts args current.plan uuids later lineage result next ∧
      ∀ item ∈ next.plan, trim item.step ≠ [] := by
  have lineageKept := kept.pinned pins
  -- a plan with the steps of the one before it
  have unchanged : ∀ plan : UpdatePlanArgs, plan.plan.map (·.step) = current.items.map (·.step) →
      Replaced host texts args current.plan uuids uuids lineage lineage plan ∧
        ∀ item ∈ plan.plan, trim item.step ≠ [] := by
    intro plan same
    refine ⟨Replaced.refl (same ▸ lineageKept) same.symm, fun item member => ?_⟩
    have listed : item.step ∈ current.items.map (·.step) := same ▸ List.mem_map_of_mem member
    obtain ⟨old, isOld, isStep⟩ := List.mem_map.mp listed
    rw [← isStep]
    exact kept.named old isOld
  unfold nextPlan at done
  cases isPlan : args.plan with
  | some plan =>
    rw [isPlan] at done
    exact replacePlan_spec separates kept pins (given plan isPlan) done
  | none =>
    rw [isPlan] at done
    cases statusNext with
    | some plan =>
      simp only [Except.ok.injEq, Prod.mk.injEq] at done
      obtain ⟨rfl, rfl, rfl⟩ := done
      exact unchanged plan (stagedStatuses_steps statuses)
    | none =>
      simp only [Except.ok.injEq, Prod.mk.injEq] at done
      obtain ⟨rfl, rfl, rfl⟩ := done
      refine unchanged _ ?_
      rw [PlanState.items]
      cases current.plan <;> rfl

theorem PlanState.commit_same {state : PlanState} (same : state.plan = some next) :
    (state.commit host next).1 = state := by
  unfold PlanState.commit
  simp only [same, ↓reduceIte]

theorem PlanState.commit_changed {state : PlanState} (changed : state.plan ≠ some next) :
    (state.commit host next).1.plan = some next ∧
      (state.commit host next).1.lineage = state.lineage.updateStatuses host next := by
  unfold PlanState.commit
  cases isPlan : state.plan with
  | none => exact ⟨rfl, rfl⟩
  | some previous =>
    have different : previous ≠ next := fun same => changed (by rw [isPlan, same])
    simp only [if_neg different]
    split
    · exact ⟨rfl, rfl⟩
    · exact ⟨rfl, rfl⟩

/-- A call leaves the plan with its lineage, the statuses of which are settled. -/
theorem settle_spec (kept : current.Kept host texts uuids) :
    (settle host current next lineage).1.plan = some next ∧
      (settle host current next lineage).1.lineage = lineage.updateStatuses host next := by
  unfold settle
  simp only
  by_cases same : current.plan = some next
  · rw [PlanState.commit_same (by exact same)]
    refine ⟨same, ?_⟩
    simp only
    split
    · rfl
    next unchanged =>
      have isSame : current.lineage = lineage := by
        by_contra different
        exact unchanged ⟨same, different⟩
      rw [← isSame]
      exact (kept.settled next same).symm
  · rw [if_neg fun both => same both.1]
    exact PlanState.commit_changed same

end Next

/-- Whether a row of the plan carries a requirement. -/
def PlanState.Carries (host : Host) (state : PlanState) (id : Text) (item : PlanItemArg) : Prop :=
  item ∈ state.items ∧ id ∈ state.lineage.carried (state.lineage.stepId host item.step)

/-- A call retires a requirement: it lists as superseded a step that carries it, or the requirement
    when no step does, with a reference to accepted input that permits this. -/
def PlanState.Retires (host : Host) (args : PlanToolArgs) (state : PlanState) (id : Text) : Prop :=
  ∃ entry ∈ args.superseded, ∃ reference inputs, Cites host args entry.stepId reference ∧
    args.scopeInputs = some inputs ∧
      inputs.permits reference args.scopeChangeReviewedRevision = true ∧
        ((∃ item, state.Carries host id item ∧
            state.lineage.stepId host item.step = entry.stepId) ∨
          (entry.stepId = id ∧ ∀ item, ¬ state.Carries host id item))

/-- What a call leaves of the obligations. -/
structure PlanState.Obliged (host : Host) (args : PlanToolArgs) (state next : PlanState) : Prop where
  /-- No requirement is removed, and its text and source stay as they are. -/
  same : ∀ id requirement, state.lineage.requirements.get id = some requirement →
    ∃ new, next.lineage.requirements.get id = some new ∧ new.text = requirement.text ∧
      new.source = requirement.source
  /-- What a removed, unfinished step carries is carried by a step, superseded or resolved. -/
  accounted : ∀ step ∈ state.items, step.status ≠ .completed →
    (∀ item ∈ next.items, item.step ≠ step.step) →
      ∀ id ∈ state.lineage.carried (state.lineage.stepId host step.step),
        (∃ item, next.Carries host id item) ∨ next.lineage.isSuperseded id = true ∨
          id ∈ args.resolve
  superseded : ∀ id, next.lineage.isSuperseded id = true → state.lineage.isSuperseded id = false →
    state.Retires host args id ∧ ∀ item, ¬ next.Carries host id item
  completed : ∀ id new, next.lineage.requirements.get id = some new → new.status = .completed →
    (∀ old, state.lineage.requirements.get id = some old → old.status ≠ .completed) →
      (∀ item, next.Carries host id item → item.status = .completed) ∧
        (id ∈ args.resolve ∨ (new.source = none ∧ (∃ item, next.Carries host id item) ∧
          ∀ item, next.Carries host id item → item.step = new.text))

section Calls

variable {host : Host} {texts : Text → Prop} {uuids later : Nat} {lineage : PlanLineage}
variable {state next : PlanState} {args : PlanToolArgs}

variable {id : Text}

/-- A requirement is retired exactly when the reference that allows it is kept. -/
theorem PlanLineage.Kept.isSuperseded_iff {steps : List Text}
    (kept : lineage.Kept host texts uuids steps) :
    lineage.isSuperseded id = true ↔ (lineage.acceptedSupersessions.get id).isSome = true := by
  rw [isSuperseded, Bool.and_eq_true]
  refine ⟨And.right, fun accepted => ⟨?_, accepted⟩⟩
  obtain ⟨requirement, found, retired⟩ := (kept.accepted id).mp accepted
  rw [found, Option.any_some]
  exact retired

theorem PlanState.Kept.isMapped_iff (kept : state.Kept host texts uuids) :
    state.lineage.isMapped id = true ↔ ∃ item, state.Carries host id item := by
  rw [kept.lineage.isMapped_iff]
  refine ⟨?_, ?_⟩
  · rintro ⟨step, member, carried⟩
    obtain ⟨item, listed, rfl⟩ := List.mem_map.mp member
    exact ⟨item, listed, carried⟩
  · rintro ⟨item, listed, carried⟩
    exact ⟨item.step, List.mem_map_of_mem listed, carried⟩

/-- The rows that carry a requirement are those that its status is computed from. -/
theorem PlanState.mem_carriers {plan : UpdatePlanArgs} (isPlan : state.plan = some plan)
    {item : PlanItemArg} : item ∈ state.lineage.carriers host plan id ↔
      state.Carries host id item := by
  rw [PlanLineage.mem_carriers, PlanState.Carries, PlanState.items, isPlan]
  rfl

theorem PlanState.Kept.retires (kept : state.Kept host texts uuids)
    (retires : PlanStore.Retires host args state.lineage id) : state.Retires host args id := by
  obtain ⟨entry, member, reference, inputs, cites, isInputs, permits, how⟩ := retires
  refine ⟨entry, member, reference, inputs, cites, isInputs, permits, ?_⟩
  rcases how with carried | ⟨same, unmapped⟩
  · left
    cases found : state.lineage.stepRequirements.get entry.stepId with
    | none =>
      rw [PlanLineage.carried, found] at carried
      cases carried
    | some ids =>
      obtain ⟨step, listed, isStep⟩ := kept.lineage.keys _ _ found
      obtain ⟨item, isItem, rfl⟩ := List.mem_map.mp listed
      exact ⟨item, ⟨isItem, by rwa [isStep]⟩, isStep⟩
  · right
    refine ⟨same, fun item carries => ?_⟩
    rw [kept.isMapped_iff.mpr ⟨item, carries⟩] at unmapped
    cases unmapped

/-- A call that changes nothing. -/
theorem PlanState.Obliged.refl {durablyPublished : Bool} :
    state.Obliged host args { state with durablyPublished } where
  same id requirement found := ⟨requirement, found, rfl, rfl⟩
  accounted step member unfinished removed := absurd rfl (removed step member)
  superseded id held absent := by
    have same : state.lineage.isSuperseded id = true := held
    rw [absent] at same
    cases same
  completed id new found completed absent := absurd completed (absent new found)

/-- A replacement, its resolutions and its revisions of steps meet the obligations. -/
theorem PlanState.Kept.obliged (kept : state.Kept host texts uuids)
    {requirements : OrderedMap Text PlanRequirement} {replacement resolution bumped : PlanLineage}
    {plan : UpdatePlanArgs} (pins : Pinned host state.lineage.requirements requirements)
    (replaced : Replaced host texts args state.plan uuids later { state.lineage with requirements }
      replacement plan)
    (isResolved : resolveAll host plan replacement args.resolve = .ok resolution)
    (isBumped : bumpAll host state resolution plan = .ok bumped)
    (nextKept : next.Kept host texts later) (isPlan : next.plan = some plan)
    (isLineage : next.lineage = bumped.updateStatuses host plan) :
    state.Obliged host args next := by
  obtain ⟨resolvedRequirements, resolved, accepted, rfl, requirement, resolves, accepts, _⟩ :=
    resolveAll_spec isResolved
  obtain ⟨revisions, rfl, _⟩ := bumpAll_spec isBumped
  -- the steps carry what they carried after the replacement
  have isMapped : ∀ id, replacement.isMapped id = true ↔ ∃ item, next.Carries host id item := by
    intro id
    rw [← nextKept.isMapped_iff, isLineage]
    exact Iff.rfl
  have isAccepted : ∀ id, next.lineage.acceptedSupersessions.get id =
      if id ∈ args.resolve then none else replacement.acceptedSupersessions.get id := by
    intro id
    rw [isLineage]
    exact accepts id
  -- a requirement after the call, from the one after the replacement
  have updated : ∀ id, next.lineage.requirements.get id =
      (replacement.requirements.get id).map fun old =>
        PlanRequirement.updateStatus
          (if id ∈ args.resolve then { old with status := .completed, supersededReason := none }
            else old) (next.lineage.carriers host plan id)
          (next.lineage.resolvedRequirements.get id).isSome := by
    intro id
    rw [isLineage, PlanLineage.get_updateStatuses, PlanLineage.carriers_updateStatuses]
    simp only
    rw [requirement id, Option.map_map]
    rfl
  refine ⟨?_, ?_, ?_, ?_⟩
  · intro id old found
    obtain ⟨new, isNew, text, source, _⟩ := replaced.same id old (pins.kept id old found)
    have isUpdated := updated id
    rw [isNew, Option.map_some] at isUpdated
    obtain ⟨textKept, sourceKept⟩ := updateStatus_text
      (if id ∈ args.resolve then { new with status := .completed, supersededReason := none }
        else new) (next.lineage.carriers host plan id)
      (next.lineage.resolvedRequirements.get id).isSome
    refine ⟨_, isUpdated, textKept.trans ?_, sourceKept.trans ?_⟩
    · rw [← text]
      split <;> rfl
    · rw [← source]
      split <;> rfl
  · intro step member unfinished removed id carried
    have isRemoved : ∀ item ∈ plan.plan, item.step ≠ step.step := by
      intro item listed
      refine removed item ?_
      rw [PlanState.items, isPlan]
      exact listed
    rcases replaced.accounted step member unfinished isRemoved id carried with mapped | retired
    · exact .inl ((isMapped id).mp mapped)
    right
    by_cases named : id ∈ args.resolve
    · exact .inr named
    · left
      rw [nextKept.lineage.isSuperseded_iff, isAccepted, if_neg named]
      exact retired
  · intro id held absent
    rw [nextKept.lineage.isSuperseded_iff, isAccepted] at held
    split at held
    · cases held
    rcases replaced.retired id held with old | ⟨retires, unmapped⟩
    · have isSuperseded := kept.lineage.isSuperseded_iff.mpr old
      rw [absent] at isSuperseded
      cases isSuperseded
    · refine ⟨kept.retires retires, fun item carries => ?_⟩
      rw [(isMapped id).mpr ⟨item, carries⟩] at unmapped
      cases unmapped
  · intro id new found completed absent
    rw [updated, Option.map_eq_some_iff] at found
    obtain ⟨old, isOld, rfl⟩ := found
    have carries : ∀ item, next.Carries host id item ↔
        item ∈ next.lineage.carriers host plan id :=
      fun item => (PlanState.mem_carriers isPlan).symm
    have source := (updateStatus_text (if id ∈ args.resolve then
      { old with status := .completed, supersededReason := none } else old)
        (next.lineage.carriers host plan id)
          (next.lineage.resolvedRequirements.get id).isSome)
    rcases updateStatus_completed completed with ⟨none_, status⟩ | ⟨some_, all, how⟩
    · -- no step carries it, so it was completed or it is named
      have named : id ∈ args.resolve := by
        by_contra other
        rw [if_neg other] at status
        cases isFirst : requirements.get id with
        | none =>
          obtain ⟨item, carried⟩ := (isMapped id).mp
            (replaced.new id (by rw [isOld]; rfl) isFirst)
          have listed := (carries item).mp carried
          rw [none_] at listed
          cases listed
        | some first =>
          obtain ⟨same, isSame, _, _, sameStatus⟩ := replaced.same id first isFirst
          obtain rfl := Option.some_inj.mp (isOld.symm.trans isSame)
          rw [sameStatus] at status
          rcases pins.added id first isFirst with before | ⟨_, pending, _⟩
          · exact absent first before status
          · rw [pending] at status
            cases status
      refine ⟨fun item carried => ?_, .inl named⟩
      have listed := (carries item).mp carried
      rw [none_] at listed
      cases listed
    · refine ⟨fun item carried => all item ((carries item).mp carried), ?_⟩
      by_cases named : id ∈ args.resolve
      · exact .inl named
      right
      rcases how with ⟨unpinned, sameText⟩ | isResolved
      · refine ⟨source.2.trans unpinned, ?_, fun item carried => ?_⟩
        · obtain ⟨item, listed⟩ := List.exists_mem_of_ne_nil _ some_
          exact ⟨item, (carries item).mpr listed⟩
        · exact (sameText item ((carries item).mp carried)).trans source.1.symm
      -- what is resolved already was completed
      have before : (state.lineage.resolvedRequirements.get id).isSome = true := by
        rw [isLineage, PlanLineage.isResolved_updateStatuses] at isResolved
        simp only at isResolved
        rw [resolves id, if_neg named, replaced.resolved] at isResolved
        split at isResolved
        · exact isResolved
        · cases isResolved
      obtain ⟨first, isFirst, status⟩ := kept.lineage.resolved id before
      exact absurd status (absent first isFirst)

/-- What a call that changes a copy of the state leaves. -/
theorem stageChange_spec (separates : host.Separates texts) (kept : state.Kept host texts uuids)
    {revisionChecked : Bool} {statusNext : Option UpdatePlanArgs} {staged : StagedPlanUpdate}
    (given : ∀ plan, args.plan = some plan → ∀ step ∈ plan, texts step.step)
    (statuses : stagedStatuses host state args revisionChecked = .ok statusNext)
    (done : stageChange host uuids state args statusNext = .ok staged) :
    uuids ≤ staged.uuids ∧ ∃ next, staged.next = some next ∧ next.plan.isSome = true ∧
      next.Kept host texts staged.uuids ∧ state.Obliged host args next := by
  unfold stageChange at done
  split at done
  · cases done
  next pinnedLineage pins =>
    split at done
    · cases done
    next plan replacedLineage later isNext =>
      split at done
      · cases done
      next resolvedLineage isResolved =>
        split at done
        · cases done
        next bumped isBumped =>
          obtain ⟨replaced, named⟩ := nextPlan_spec separates kept pins given statuses isNext
          obtain ⟨isPlan, isLineage⟩ := @settle_spec _ _ _ bumped _ plan kept
          have bumpedKept := (replaced.kept.resolve isResolved).bump isBumped
          simp only [Except.ok.injEq] at done
          subst done
          have items : (settle host state plan bumped).1.items = plan.plan := by
            rw [PlanState.items, isPlan]
            rfl
          have nextKept : (settle host state plan bumped).1.Kept host texts later := by
            refine ⟨?_, ?_, ?_, ?_⟩
            · rw [items, isLineage]
              exact bumpedKept.updateStatuses
            · rw [items]
              exact named
            · intro other isOther
              rw [isPlan] at isOther
              obtain rfl := Option.some_inj.mp isOther
              rw [isLineage]
              exact PlanLineage.updateStatuses_idem
            · intro none_
              rw [isPlan] at none_
              cases none_
          refine ⟨replaced.count, _, rfl, by rw [isPlan]; rfl, nextKept, ?_⟩
          obtain ⟨requirements, rfl, isPinned⟩ := pinned_spec pins
          exact kept.obliged isPinned replaced isResolved isBumped nextKept isPlan isLineage

end Calls

/-- One step of the store: a committed call, or UUIDs for another purpose. -/
def World.Step (host : Host) (texts : Text → Prop) (world next : World) : Prop :=
  (∃ args, World.Committed host texts args world next) ∨
    ∃ uuids, world.uuids ≤ uuids ∧ next = ⟨world.state, uuids⟩

section Runs

variable {host : Host} {texts : Text → Prop} {world next : World} {args : PlanToolArgs}

/-- A committed call keeps what holds of a state, and meets the obligations. -/
theorem World.Committed.spec (separates : host.Separates texts)
    (kept : world.state.Kept host texts world.uuids)
    (committed : World.Committed host texts args world next) :
    next.state.Kept host texts next.uuids ∧ world.state.Obliged host args next.state := by
  obtain ⟨given, staged, done, rfl⟩ := committed
  unfold stageTool at done
  split at done
  · cases done
  split at done
  · cases done
  simp only at done
  split at done
  · cases done
  split at done
  · cases done
  next statusNext statuses =>
    split at done
    · obtain rfl := Except.ok.inj done
      exact ⟨⟨kept.lineage, kept.named, kept.settled, kept.first⟩, PlanState.Obliged.refl⟩
    obtain ⟨_, state, isNext, isPlan, stateKept, obliged⟩ :=
      stageChange_spec separates kept given statuses done
    have isState : staged.commitPublished world.state =
        { state with durablyPublished := true } := by
      rw [StagedPlanUpdate.commitPublished, isNext]
    rw [isState]
    exact ⟨⟨stateKept.lineage, stateKept.named, stateKept.settled, stateKept.first⟩,
      ⟨obliged.same, obliged.accounted, obliged.superseded, obliged.completed⟩⟩

/-- What holds of every state of a run. -/
theorem World.Reachable.kept (separates : host.Separates texts)
    (reachable : World.Reachable host texts world) : world.state.Kept host texts world.uuids := by
  induction reachable with
  | empty => exact PlanState.Kept.empty
  | call args world next earlier committed ih => exact (committed.spec separates ih).1
  | generate world uuids earlier later ih => exact ih.mono later

theorem World.Reachable.step (reachable : World.Reachable host texts world)
    (step : World.Step host texts world next) : World.Reachable host texts next := by
  rcases step with ⟨args, committed⟩ | ⟨uuids, later, rfl⟩
  · exact .call args world next reachable committed
  · exact .generate world uuids reachable later

/-- No requirement is removed, however many calls follow. -/
theorem World.Reachable.requirement_stays (separates : host.Separates texts)
    (reachable : World.Reachable host texts world) {last : World}
    (run : Relation.ReflTransGen (World.Step host texts) world last) {id : Text}
    {requirement : PlanRequirement}
    (found : world.state.lineage.requirements.get id = some requirement) :
    World.Reachable host texts last ∧ ∃ new, last.state.lineage.requirements.get id = some new ∧
      new.text = requirement.text ∧ new.source = requirement.source := by
  induction run with
  | refl => exact ⟨reachable, requirement, found, rfl, rfl⟩
  | tail _ step ih =>
    obtain ⟨middleReachable, middle, isMiddle, text, source⟩ := ih
    refine ⟨middleReachable.step step, ?_⟩
    rcases step with ⟨args, committed⟩ | ⟨uuids, later, rfl⟩
    · have obliged := (committed.spec separates (middleReachable.kept separates)).2
      obtain ⟨new, isNew, newText, newSource⟩ := obliged.same id middle isMiddle
      exact ⟨new, isNew, newText.trans text, newSource.trans source⟩
    · exact ⟨middle, isMiddle, text, source⟩

/-- The obligations of a checklist are not lost. In every state of a run each row carries a
    requirement with its text, the rows have different identifiers, requirements stay for the rest
    of the run, and every call that is committed accounts for what it changes. -/
theorem obligations_kept (separates : host.Separates texts)
    (reachable : World.Reachable host texts world) :
    (∀ item ∈ world.state.items, ∃ id requirement, world.state.Carries host id item ∧
      world.state.lineage.requirements.get id = some requirement ∧
        requirement.text = item.step) ∧
    (world.state.items.map fun item => world.state.lineage.stepId host item.step).Nodup ∧
    (∀ last, Relation.ReflTransGen (World.Step host texts) world last → ∀ id requirement,
      world.state.lineage.requirements.get id = some requirement →
        ∃ new, last.state.lineage.requirements.get id = some new ∧
          new.text = requirement.text ∧ new.source = requirement.source) ∧
    ∀ args next, World.Committed host texts args world next →
      world.state.Obliged host args next.state := by
  have kept := reachable.kept separates
  refine ⟨?_, ?_, ?_, ?_⟩
  · intro item member
    obtain ⟨id, carried, requirement, found, same⟩ :=
      kept.lineage.own item.step (List.mem_map_of_mem member)
    exact ⟨id, requirement, ⟨member, carried⟩, found, same⟩
  · have steps : world.state.items.map (fun item => world.state.lineage.stepId host item.step) =
        (world.state.items.map (·.step)).map (world.state.lineage.stepId host) := by
      rw [List.map_map]
      rfl
    rw [steps]
    exact kept.lineage.nodup.map_on fun first firstIn second secondIn same =>
      kept.lineage.distinct first firstIn second secondIn same
  · intro last run id requirement found
    exact (reachable.requirement_stays separates run found).2
  · intro args next committed
    exact (committed.spec separates kept).2

end Runs

section Sample

/-- The JSON of the text and the source of the pin. -/
def samplePinJson : Text :=
  ("[\"p\",\x7b\"input_id\":\"m\",\"sha256\":" ++
    "\"148de9c5a7a44d19e56cd9ae1a554bf67847afb0c58f6e12fa29ac7ddfca9940\"\x7d]").toList

/-- The JSON of a plan with the completed step `B`. -/
def samplePlanJson : Text :=
  ("\x7b\"explanation\":null,\"plan\":[\x7b\"step\":\"B\",\"status\":\"completed\"\x7d]\x7d").toList

/-- The JSON of the plan with its lineage, when the requirement of the step is resolved. -/
def sampleLineageJson : Text :=
  "[".toList ++ samplePlanJson ++ (",\x7b\"requirements\":\x7b\"df7e70e5021544f4\":" ++
    "\x7b\"text\":\"B\",\"status\":\"completed\"\x7d\x7d,\"step_requirements\":" ++
    "\x7b\"df7e70e5021544f4\":[\"df7e70e5021544f4\"]\x7d," ++
    "\"resolved_requirements\":[\"df7e70e5021544f4\"]\x7d]").toList

/-- SHA-256 of the texts of the runs. -/
def sampleDigest (text : Text) : Text :=
  if text = "B".toList then
    "df7e70e5021544f4834bbee64a9e3789febc4be81470df629cad6ddb03320a5c".toList
  else if text = "C".toList then
    "6b23c0d5f35d1b11f9b683f0b0a617355deb11277d91ae091d399c655b87940d".toList
  else if text = samplePinJson then
    "b753a224dab71bf5885491cf7942c1feb9dc7f4b486bf1c4391597f273785330".toList
  else if text = samplePlanJson then
    "766c7883d50a88c1bd2b91a3d6be331bc7ea1677d32dc80332c107e066ce3390".toList
  else if text = sampleLineageJson then
    "cebdeccebff46580057fdf150388e24fc1c5664bc09d21f9e37fef18505a4b71".toList
  else text

def sampleHost : Host where
  sha256 := sampleDigest
  pinJson _ _ := samplePinJson
  planJson _ := samplePlanJson
  lineageJson _ _ := sampleLineageJson
  historicalJson _ _ := none
  uuid n := "01890a5d-ac96-774b-bcce-b302099a8057".toList ++ List.replicate n '0'
  debug text := text

def sampleTexts (text : Text) : Prop := text = "B".toList ∨ text = "C".toList

def sampleReference : PlanInputReference :=
  ⟨"m".toList, "148de9c5a7a44d19e56cd9ae1a554bf67847afb0c58f6e12fa29ac7ddfca9940".toList⟩

def samplePin : Text := pinId sampleHost "p".toList sampleReference

/-- A first plan with a step that carries the pin of its request. -/
def sampleFirst : PlanToolArgs where
  plan := some [⟨"B".toList, .pending, [samplePin]⟩]
  scopeInputs := some ⟨none, [], [], false, [⟨"p".toList, some sampleReference⟩]⟩

/-- A replacement that lists the step as superseded and resolves the pin. -/
def sampleSecond : PlanToolArgs where
  plan := some [⟨"C".toList, .pending, []⟩]
  samplingRevision := some 2
  superseded := [⟨samplePin, "x".toList⟩]
  scopeChangeRefs := OrderedMap.empty.insert samplePin sampleReference
  resolve := [samplePin]
  scopeInputs := some ⟨some "m".toList, [sampleReference], [], false, []⟩

/-- The store after a call, when it is accepted. -/
def World.after (host : Host) (world : World) (args : PlanToolArgs) : Option World :=
  match stageTool host world.uuids world.state args with
  | .error _ => none
  | .ok staged => some ⟨staged.commitPublished world.state, staged.uuids⟩

theorem World.committed_after {host : Host} {texts : Text → Prop} {world next : World}
    {args : PlanToolArgs} (given : ∀ plan, args.plan = some plan → ∀ step ∈ plan, texts step.step)
    (after : world.after host args = some next) : World.Committed host texts args world next := by
  refine ⟨given, ?_⟩
  unfold World.after at after
  split at after
  · cases after
  next staged done => exact ⟨staged, done, (Option.some_inj.mp after).symm⟩

theorem sampleHost_uuid_head (n : Nat) : (sampleHost.uuid n).head? = some '0' := by
  change (String.toList "01890a5d-ac96-774b-bcce-b302099a8057" ++ List.replicate n '0').head? = _
  rw [List.head?_append_of_ne_nil _ (by decide +kernel)]
  decide +kernel

theorem sampleHost_pinId (text : Text) (source : PlanInputReference) :
    pinId sampleHost text source = samplePin := rfl

theorem sampleHost_separates : sampleHost.Separates sampleTexts where
  steps first second firstIn secondIn same := by
    rcases firstIn with rfl | rfl <;> rcases secondIn with rfl | rfl
    · rfl
    · exact absurd same (by decide +kernel)
    · exact absurd same (by decide +kernel)
    · rfl
  uuids first second same := by
    have lengths := congrArg List.length (List.append_cancel_left same)
    rwa [List.length_replicate, List.length_replicate] at lengths
  uuid_step n text given same := by
    have heads := sampleHost_uuid_head n
    rw [same] at heads
    rcases given with rfl | rfl <;> exact absurd heads (by decide +kernel)
  uuid_legacy n text given same := by
    have heads := sampleHost_uuid_head n
    rw [same] at heads
    rcases given with rfl | rfl <;> exact absurd heads (by decide +kernel)
  pin_step text source step given same := by
    rw [sampleHost_pinId] at same
    rcases given with rfl | rfl <;> exact absurd same (by decide +kernel)
  pin_legacy text source step given same := by
    rw [sampleHost_pinId] at same
    rcases given with rfl | rfl <;> exact absurd same (by decide +kernel)
  uuid_pin n text source same := by
    have heads := sampleHost_uuid_head n
    rw [same, sampleHost_pinId] at heads
    exact absurd heads (by decide +kernel)
  step_legacy first second firstIn secondIn same := by
    rcases firstIn with rfl | rfl <;> rcases secondIn with rfl | rfl <;>
      exact absurd same (by decide +kernel)

/-- The calls of the run are accepted. The pin ends neither carried nor superseded. -/
theorem sample_accepted : ∃ first second, World.empty.after sampleHost sampleFirst = some first ∧
    first.after sampleHost sampleSecond = some second ∧
      (first.state.items.map (·.step) = ["B".toList] ∧
        first.state.items.all (·.status == .pending) = true ∧
        first.state.items.all (fun item => (first.state.lineage.carried
          (first.state.lineage.stepId sampleHost item.step)).contains samplePin) = true) ∧
      second.state.items.map (·.step) = ["C".toList] ∧
        second.state.items.all (fun item => !(second.state.lineage.carried
          (second.state.lineage.stepId sampleHost item.step)).contains samplePin) = true ∧
        second.state.lineage.isSuperseded samplePin = false := by
  have first : (World.empty.after sampleHost sampleFirst).any (fun first =>
      (first.after sampleHost sampleSecond).any fun second =>
        (decide (first.state.items.map (·.step) = ["B".toList]) &&
          first.state.items.all (·.status == .pending) &&
          first.state.items.all fun item => (first.state.lineage.carried
            (first.state.lineage.stepId sampleHost item.step)).contains samplePin) &&
        (decide (second.state.items.map (·.step) = ["C".toList]) &&
          second.state.items.all (fun item => !(second.state.lineage.carried
            (second.state.lineage.stepId sampleHost item.step)).contains samplePin) &&
          !second.state.lineage.isSuperseded samplePin)) = true := by
    decide +kernel
  cases isFirst : World.empty.after sampleHost sampleFirst with
  | none =>
    rw [isFirst] at first
    cases first
  | some world =>
    rw [isFirst, Option.any_some] at first
    cases isSecond : world.after sampleHost sampleSecond with
    | none =>
      rw [isSecond] at first
      cases first
    | some last =>
      rw [isSecond, Option.any_some] at first
      simp only [Bool.and_eq_true, Bool.not_eq_true', decide_eq_true_eq] at first
      exact ⟨world, last, rfl, isSecond, ⟨first.1.1.1, first.1.1.2, first.1.2⟩, first.2.1.1,
        first.2.1.2, first.2.2⟩

theorem sampleFirst_given : ∀ plan, sampleFirst.plan = some plan →
    ∀ step ∈ plan, sampleTexts step.step := by
  intro plan isPlan step member
  obtain rfl := Option.some_inj.mp isPlan
  obtain rfl := List.mem_singleton.mp member
  exact .inl rfl

theorem sampleSecond_given : ∀ plan, sampleSecond.plan = some plan →
    ∀ step ∈ plan, sampleTexts step.step := by
  intro plan isPlan step member
  obtain rfl := Option.some_inj.mp isPlan
  obtain rfl := List.mem_singleton.mp member
  exact .inr rfl

/-- A requirement of a removed, unfinished step may end neither carried nor superseded: a call can
    list the step as superseded and resolve the requirement. -/
theorem superseded_and_resolved : sampleHost.Separates sampleTexts ∧
    ∃ world args next, World.Reachable sampleHost sampleTexts world ∧
      World.Committed sampleHost sampleTexts args world next ∧
      ∃ step ∈ world.state.items, step.status ≠ .completed ∧
        (∀ item ∈ next.state.items, item.step ≠ step.step) ∧
        ∃ id, world.state.Carries sampleHost id step ∧
          (∀ item, ¬ next.state.Carries sampleHost id item) ∧
          next.state.lineage.isSuperseded id = false := by
  refine ⟨sampleHost_separates, ?_⟩
  obtain ⟨first, second, isFirst, isSecond, ⟨steps, pending, carries⟩, nextSteps, none_,
    notSuperseded⟩ := sample_accepted
  refine ⟨first, sampleSecond, second, .call _ _ _ .empty
    (World.committed_after sampleFirst_given isFirst),
    World.committed_after sampleSecond_given isSecond, ?_⟩
  rw [List.all_eq_true] at pending carries none_
  obtain ⟨step, member, text⟩ := List.mem_map.mp (steps ▸ List.mem_singleton_self "B".toList)
  refine ⟨step, member, ?_, ?_, samplePin, ⟨member, by simpa using carries step member⟩, ?_,
    notSuperseded⟩
  · rw [beq_iff_eq.mp (pending step member)]
    exact fun same => by cases same
  · intro item listed same
    have isNext : item.step ∈ ["C".toList] := nextSteps ▸ List.mem_map_of_mem listed
    rw [same, text] at isNext
    exact absurd isNext (by decide +kernel)
  · rintro item ⟨listed, carried⟩
    have notCarried := none_ item listed
    rw [List.contains_iff_mem.mpr carried] at notCarried
    cases notCarried

/-- The first call of the run is one of the calls that the obligations are about. -/
theorem obligations_kept_sample : ∃ world, World.Reachable sampleHost sampleTexts world ∧
    world.state.items ≠ [] ∧
    (∀ item ∈ world.state.items, ∃ id requirement, world.state.Carries sampleHost id item ∧
      world.state.lineage.requirements.get id = some requirement ∧
        requirement.text = item.step) ∧
    ∀ args next, World.Committed sampleHost sampleTexts args world next →
      world.state.Obliged sampleHost args next.state := by
  obtain ⟨first, second, isFirst, isSecond, ⟨steps, _, _⟩, _⟩ := sample_accepted
  have reachable : World.Reachable sampleHost sampleTexts first :=
    .call _ _ _ .empty (World.committed_after sampleFirst_given isFirst)
  obtain ⟨own, _, _, obliged⟩ := obligations_kept sampleHost_separates reachable
  refine ⟨first, reachable, fun none_ => ?_, own, obliged⟩
  rw [none_] at steps
  cases steps

end Sample

end Codex.PlanStore
