import Codex.Conversation.PlanRevision

/-!
# Obligations of a plan

What the calls of `conversation/src/plan_store.rs` keep: no requirement is lost, and what becomes
superseded or completed does so by a call that says it.
-/

namespace Codex.PlanStore

open Codex.Text

/-! ## Pins -/

section Pins

variable {host : Host} {texts : Text → Prop} {uuids : Nat} {lineage : PlanLineage}
variable {steps : List Text}

/-- Requirements with some pins that were not there. -/
structure Pinned (host : Host) (old new : OrderedMap Text PlanRequirement) : Prop where
  kept : ∀ id requirement, old.get id = some requirement → new.get id = some requirement
  added : ∀ id requirement, new.get id = some requirement → old.get id = some requirement ∨
    (old.get id = none ∧ requirement.status = .pending ∧ requirement.supersededReason = none ∧
      ∃ text source, id = pinId host text source)

theorem Pinned.refl (requirements : OrderedMap Text PlanRequirement) :
    Pinned host requirements requirements :=
  ⟨fun _ _ found => found, fun _ _ found => .inl found⟩

theorem pinAll_spec {inputs : PlanScopeInputs} {reviewed : Option Text}
    {automaticSources : List PlanInputReference} {pins : List PinnedRequirementArg}
    {result : PlanLineage}
    (done : pinAll host inputs reviewed automaticSources lineage pins = .ok result) :
    ∃ requirements, result = { lineage with requirements } ∧
      Pinned host lineage.requirements requirements := by
  induction pins generalizing lineage with
  | nil =>
    obtain rfl := Except.ok.inj done
    exact ⟨lineage.requirements, rfl, .refl _⟩
  | cons pin rest ih =>
    rw [pinAll] at done
    split at done
    · cases done
    split at done
    · cases done
    next source _ =>
      simp only at done
      obtain ⟨requirements, rfl, kept, added⟩ := ih done
      split at kept
      next held =>
        rw [if_pos held] at added
        rw [if_pos held]
        exact ⟨requirements, rfl, kept, added⟩
      next absent =>
        rw [if_neg absent] at added
        rw [if_neg absent]
        refine ⟨requirements, rfl, ?_, ?_⟩
        · intro id requirement found
          refine kept id requirement ?_
          rw [OrderedMap.get_insert, if_neg]
          · exact found
          · rintro rfl
            rw [found] at absent
            exact absent rfl
        intro id requirement found
        rcases added id requirement found with old | ⟨none_, others⟩
        · rw [OrderedMap.get_insert] at old
          split at old
          next same =>
            obtain rfl := Option.some_inj.mp old
            refine .inr ⟨?_, rfl, rfl, pin.text, source, same⟩
            rw [same]
            simpa using absent
          · exact .inl old
        · rw [OrderedMap.get_insert] at none_
          split at none_
          · cases none_
          · exact .inr ⟨none_, others⟩

theorem pinned_spec {current : PlanState} {args : PlanToolArgs} {result : PlanLineage}
    (done : pinned host current args = .ok result) :
    ∃ requirements, result = { current.lineage with requirements } ∧
      Pinned host current.lineage.requirements requirements := by
  unfold pinned at done
  simp only at done
  split at done <;> split at done
  all_goals first
    | obtain rfl := Except.ok.inj done
      exact ⟨current.lineage.requirements, rfl, .refl _⟩
    | split at done
      · cases done
      · exact pinAll_spec done

/-- Pins keep what holds of a lineage. -/
theorem PlanLineage.Kept.pins (kept : lineage.Kept host texts uuids steps)
    {requirements : OrderedMap Text PlanRequirement}
    (pinned : Pinned host lineage.requirements requirements) :
    ({ lineage with requirements } : PlanLineage).Kept host texts uuids steps where
  given := kept.given
  nodup := kept.nodup
  identities := kept.identities
  keys := kept.keys
  distinct := kept.distinct
  own step member := by
    obtain ⟨id, carried, requirement, found, same⟩ := kept.own step member
    exact ⟨id, carried, requirement, pinned.kept _ _ found, same⟩
  sorted := kept.sorted
  listed key ids found id member := by
    obtain ⟨requirement, held⟩ := Option.isSome_iff_exists.mp (kept.listed key ids found id member)
    simp only
    rw [pinned.kept _ _ held]
    rfl
  knownKeys := kept.knownKeys
  known id requirement found := by
    rcases pinned.added id requirement found with old | ⟨_, _, _, text, source, same⟩
    · exact kept.known id requirement old
    · rw [same]
      exact .pin text source
  accepted id := by
    rw [kept.accepted id]
    refine ⟨?_, ?_⟩
    · rintro ⟨requirement, found, retired⟩
      exact ⟨requirement, pinned.kept _ _ found, retired⟩
    · rintro ⟨requirement, found, retired⟩
      rcases pinned.added id requirement found with old | ⟨_, _, none_, _⟩
      · exact ⟨requirement, old, retired⟩
      · rw [none_] at retired
        cases retired
  unmapped := kept.unmapped
  resolved id isResolved := by
    obtain ⟨requirement, found, completed⟩ := kept.resolved id isResolved
    exact ⟨requirement, pinned.kept _ _ found, completed⟩
  revisions := kept.revisions
  workflow := kept.workflow
  legacyMetadata := kept.legacyMetadata

end Pins

/-! ## Resolutions and revisions of steps -/

section Resolutions

variable {host : Host} {texts : Text → Prop} {uuids : Nat} {lineage : PlanLineage}
variable {steps : List Text} {next : UpdatePlanArgs}

variable {result : PlanLineage}

theorem resolveAll_spec {ids : List Text} (done : resolveAll host next lineage ids = .ok result) :
    ∃ requirements resolved accepted,
      result = { lineage with
        requirements
        resolvedRequirements := resolved
        acceptedSupersessions := accepted } ∧
      (∀ id, requirements.get id = (lineage.requirements.get id).map fun requirement =>
        if id ∈ ids then { requirement with status := .completed, supersededReason := none }
        else requirement) ∧
      (∀ id, resolved.get id = if id ∈ ids then some () else lineage.resolvedRequirements.get id) ∧
      (∀ id, accepted.get id =
        if id ∈ ids then none else lineage.acceptedSupersessions.get id) ∧
      ∀ id ∈ ids, (lineage.requirements.get id).isSome = true ∧
        ∀ step ∈ lineage.carriers host next id, step.status = .completed := by
  induction ids generalizing lineage with
  | nil =>
    obtain rfl := Except.ok.inj done
    refine ⟨lineage.requirements, lineage.resolvedRequirements, lineage.acceptedSupersessions, rfl,
      ?_, ?_, ?_, ?_⟩
    · intro id
      simp
    · intro id
      simp
    · intro id
      simp
    · intro id member
      cases member
  | cons first rest ih =>
    rw [resolveAll] at done
    split at done
    · cases done
    next allowed =>
      obtain ⟨requirements, resolved, accepted, rfl, requirement, isResolved, isAccepted, checks⟩ :=
        ih done
      rw [Bool.or_eq_true, Bool.or_eq_true, not_or, not_or] at allowed
      have held : (lineage.requirements.get first).isSome = true := by
        have notNone := allowed.1.1
        rwa [Bool.not_eq_true, Option.isNone_eq_false_iff] at notNone
      have completed : ∀ step ∈ lineage.carriers host next first, step.status = .completed := by
        intro step member
        have notAny := allowed.2
        rw [Bool.not_eq_true, List.any_eq_false] at notAny
        simpa using notAny step member
      refine ⟨requirements, resolved, accepted, rfl, ?_, ?_, ?_, ?_⟩
      · intro id
        rw [requirement id, OrderedMap.get_mapValues, Option.map_map]
        congr 1
        funext old
        by_cases same : id = first
        · simp [same]
        · by_cases later : id ∈ rest <;> simp [same, later]
      · intro id
        rw [isResolved id, OrderedMap.get_insert]
        by_cases same : id = first
        · simp [same]
        · simp [same]
      · intro id
        rw [isAccepted id, OrderedMap.get_remove]
        by_cases same : id = first
        · simp [same]
        · simp [same]
      intro id member
      rcases List.mem_cons.mp member with rfl | later
      · exact ⟨held, completed⟩
      · obtain ⟨isSome, all⟩ := checks id later
        rw [OrderedMap.get_mapValues, Option.isSome_map] at isSome
        exact ⟨isSome, all⟩

theorem bumpRevisions_spec {current : PlanState} {previous : UpdatePlanArgs}
    {items : List PlanItemArg}
    (done : bumpRevisions host current previous lineage items = .ok result) :
    ∃ revisions, result = { lineage with stepRevisions := revisions } ∧
      ∀ id, (revisions.get id).isSome = true → (lineage.stepRevisions.get id).isSome = true ∨
        ∃ step ∈ items, id = lineage.stepId host step.step := by
  induction items generalizing lineage with
  | nil =>
    obtain rfl := Except.ok.inj done
    exact ⟨lineage.stepRevisions, rfl, fun id held => .inl held⟩
  | cons first rest ih =>
    rw [bumpRevisions] at done
    simp only at done
    split at done
    · split at done
      · obtain ⟨revisions, rfl, held⟩ := ih done
        refine ⟨revisions, rfl, fun id isSome => ?_⟩
        rcases held id isSome with old | ⟨step, member, same⟩
        · rw [OrderedMap.get_insert] at old
          split at old
          next same => exact .inr ⟨first, List.mem_cons_self, same⟩
          · exact .inl old
        · exact .inr ⟨step, List.mem_cons_of_mem _ member, same⟩
      · cases done
    · obtain ⟨revisions, rfl, held⟩ := ih done
      refine ⟨revisions, rfl, fun id isSome => ?_⟩
      rcases held id isSome with old | ⟨step, member, same⟩
      · exact .inl old
      · exact .inr ⟨step, List.mem_cons_of_mem _ member, same⟩

theorem bumpAll_spec {current : PlanState} (done : bumpAll host current lineage next = .ok result) :
    ∃ revisions, result = { lineage with stepRevisions := revisions } ∧
      ∀ id, (revisions.get id).isSome = true → (lineage.stepRevisions.get id).isSome = true ∨
        ∃ step ∈ next.plan, id = lineage.stepId host step.step := by
  unfold bumpAll at done
  split at done
  · obtain rfl := Except.ok.inj done
    exact ⟨lineage.stepRevisions, rfl, fun id held => .inl held⟩
  · exact bumpRevisions_spec done

end Resolutions

/-! ## Statuses -/

section Statuses

variable {host : Host} {texts : Text → Prop} {uuids : Nat} {lineage : PlanLineage}
variable {steps : List Text} {next : UpdatePlanArgs}

variable {id : Text}

theorem PlanLineage.mem_carriers {step : PlanItemArg} :
    step ∈ lineage.carriers host next id ↔
      step ∈ next.plan ∧ id ∈ lineage.carried (lineage.stepId host step.step) := by
  rw [PlanLineage.carriers, List.mem_filter]
  simp

/-- A requirement is carried when it is one of a step. -/
theorem PlanLineage.Kept.isMapped_iff (kept : lineage.Kept host texts uuids steps) :
    lineage.isMapped id = true ↔
      ∃ step ∈ steps, id ∈ lineage.carried (lineage.stepId host step) := by
  rw [PlanLineage.isMapped_iff]
  refine ⟨?_, ?_⟩
  · rintro ⟨key, ids, found, member⟩
    obtain ⟨step, listed, rfl⟩ := kept.keys key ids found
    exact ⟨step, listed, by rwa [PlanLineage.carried_of_get found]⟩
  · rintro ⟨step, listed, member⟩
    obtain ⟨ids, found, same⟩ := kept.get_stepId listed
    exact ⟨_, ids, found, by rwa [same] at member⟩

theorem PlanLineage.Kept.carriers_eq_nil (kept : lineage.Kept host texts uuids
    (next.plan.map (·.step))) :
    lineage.carriers host next id = [] ↔ lineage.isMapped id = false := by
  rw [← not_iff_not, Bool.not_eq_false, kept.isMapped_iff, ← ne_eq, ← List.length_pos_iff,
    List.length_pos_iff_exists_mem]
  refine ⟨?_, ?_⟩
  · rintro ⟨step, member⟩
    obtain ⟨listed, carries⟩ := PlanLineage.mem_carriers.mp member
    exact ⟨step.step, List.mem_map_of_mem listed, carries⟩
  · rintro ⟨text, listed, carries⟩
    obtain ⟨step, member, rfl⟩ := List.mem_map.mp listed
    exact ⟨step, PlanLineage.mem_carriers.mpr ⟨member, carries⟩⟩

theorem updateStatus_text (requirement : PlanRequirement) (carriers : List PlanItemArg)
    (isResolved : Bool) :
    (PlanRequirement.updateStatus requirement carriers isResolved).text =
        requirement.text ∧
      (PlanRequirement.updateStatus requirement carriers isResolved).source =
        requirement.source := by
  unfold PlanRequirement.updateStatus
  split
  · exact ⟨rfl, rfl⟩
  · split
    · exact ⟨rfl, rfl⟩
    · split <;> exact ⟨rfl, rfl⟩

/-- A requirement is completed by its steps only, or it was. -/
theorem updateStatus_completed {requirement : PlanRequirement} {carriers : List PlanItemArg}
    {isResolved : Bool}
    (completed : (PlanRequirement.updateStatus requirement carriers
      isResolved).status = .completed) :
    (carriers = [] ∧ requirement.status = .completed) ∨
      (carriers ≠ [] ∧ (∀ step ∈ carriers, step.status = .completed) ∧
        ((requirement.source = none ∧ ∀ step ∈ carriers, step.step = requirement.text) ∨
          isResolved = true)) := by
  unfold PlanRequirement.updateStatus at completed
  split at completed
  next none_ => exact .inl ⟨none_, completed⟩
  next some_ =>
    split at completed
    next all =>
      rw [Bool.and_eq_true, Bool.or_eq_true, Bool.and_eq_true, List.all_eq_true, List.all_eq_true,
        Option.isNone_iff_eq_none] at all
      refine .inr ⟨some_, fun step member => by simpa using all.1 step member, ?_⟩
      rcases all.2 with ⟨texts, source⟩ | isResolved
      · exact .inl ⟨source, fun step member => by simpa using texts step member⟩
      · exact .inr isResolved
    · split at completed <;> cases completed

/-- The status of a requirement is settled when it is computed once. -/
theorem updateStatus_idem (requirement : PlanRequirement) (carriers : List PlanItemArg)
    (isResolved : Bool) :
    PlanRequirement.updateStatus
        (PlanRequirement.updateStatus requirement carriers isResolved) carriers
          isResolved =
      PlanRequirement.updateStatus requirement carriers isResolved := by
  obtain ⟨text, source⟩ := updateStatus_text requirement carriers isResolved
  generalize updated :
    PlanRequirement.updateStatus requirement carriers isResolved = result at text source
  rw [PlanRequirement.updateStatus, text, source]
  rw [PlanRequirement.updateStatus] at updated
  split
  · rfl
  next some_ =>
    rw [if_neg some_] at updated
    split
    next all =>
      rw [if_pos all] at updated
      rw [← updated]
    next notAll =>
      rw [if_neg notAll] at updated
      split
      next active =>
        rw [if_pos active] at updated
        rw [← updated]
      next notActive =>
        rw [if_neg notActive] at updated
        rw [← updated]

theorem PlanLineage.carriers_updateStatuses (id : Text) :
    (lineage.updateStatuses host next).carriers host next id = lineage.carriers host next id := rfl

theorem PlanLineage.isResolved_updateStatuses (id : Text) :
    ((lineage.updateStatuses host next).resolvedRequirements.get id) =
      if (lineage.requirements.get id).isNone ||
          (lineage.carriers host next id).all (·.status == .completed)
        then lineage.resolvedRequirements.get id else none :=
  OrderedMap.get_retain _ _ _

theorem PlanLineage.get_updateStatuses (id : Text) :
    (lineage.updateStatuses host next).requirements.get id =
      (lineage.requirements.get id).map fun requirement =>
        PlanRequirement.updateStatus requirement (lineage.carriers host next id)
          ((lineage.updateStatuses host next).resolvedRequirements.get id).isSome :=
  OrderedMap.get_mapValues _ _ _

/-- The statuses are settled when they are computed once. -/
theorem PlanLineage.updateStatuses_idem : (lineage.updateStatuses host next).updateStatuses host next =
    lineage.updateStatuses host next := by
  have isNone : ∀ id, ((lineage.updateStatuses host next).requirements.get id).isNone =
      (lineage.requirements.get id).isNone := by
    intro id
    rw [get_updateStatuses, Option.isNone_map]
  have resolved : ∀ id, ((lineage.updateStatuses host next).updateStatuses host
      next).resolvedRequirements.get id =
        (lineage.updateStatuses host next).resolvedRequirements.get id := by
    intro id
    rw [isResolved_updateStatuses, isNone, carriers_updateStatuses, isResolved_updateStatuses]
    split <;> rfl
  have requirements : ((lineage.updateStatuses host next).updateStatuses host next).requirements =
      (lineage.updateStatuses host next).requirements := by
    apply OrderedMap.ext_get
    intro id
    rw [get_updateStatuses, resolved, carriers_updateStatuses, get_updateStatuses, Option.map_map]
    congr 1
    funext requirement
    exact updateStatus_idem _ _ _
  have resolved_ : ((lineage.updateStatuses host next).updateStatuses host
      next).resolvedRequirements = (lineage.updateStatuses host next).resolvedRequirements :=
    OrderedMap.ext_get resolved
  rw [updateStatuses] at requirements resolved_
  rw [updateStatuses]
  congr 1

/-- Statuses keep what holds of a lineage. -/
theorem PlanLineage.Kept.updateStatuses
    (kept : lineage.Kept host texts uuids (next.plan.map (·.step))) :
    (lineage.updateStatuses host next).Kept host texts uuids (next.plan.map (·.step)) := by
  have found : ∀ {id : Text} {requirement : PlanRequirement},
      lineage.requirements.get id = some requirement →
        ∃ updated, (lineage.updateStatuses host next).requirements.get id = some updated ∧
          updated.text = requirement.text ∧ updated = PlanRequirement.updateStatus
            requirement (lineage.carriers host next id)
              ((lineage.updateStatuses host next).resolvedRequirements.get id).isSome := by
    intro id requirement held
    refine ⟨_, ?_, (updateStatus_text requirement _ _).1, rfl⟩
    rw [get_updateStatuses, held, Option.map_some]
  refine ⟨kept.given, kept.nodup, kept.identities, kept.keys, kept.distinct, ?_, kept.sorted, ?_,
    kept.knownKeys, ?_, ?_, kept.unmapped, ?_, kept.revisions, rfl, kept.legacyMetadata⟩
  · intro step member
    obtain ⟨id, carried, requirement, held, same⟩ := kept.own step member
    obtain ⟨updated, isUpdated, text, _⟩ := found held
    exact ⟨id, carried, updated, isUpdated, text.trans same⟩
  · intro key ids mapped id member
    have listed := kept.listed key ids mapped id member
    rw [get_updateStatuses, Option.isSome_map]
    exact listed
  · intro id requirement held
    rw [get_updateStatuses, Option.map_eq_some_iff] at held
    obtain ⟨old, oldHeld, _⟩ := held
    exact kept.known id old oldHeld
  · intro id
    have accepted : (lineage.updateStatuses host next).acceptedSupersessions.get id =
        lineage.acceptedSupersessions.get id := rfl
    rw [accepted, kept.accepted id]
    -- a requirement that is carried is not retired, and the others keep their reasons
    have reason : ∀ requirement, lineage.requirements.get id = some requirement →
        (PlanRequirement.updateStatus requirement (lineage.carriers host next id)
          ((lineage.updateStatuses host next).resolvedRequirements.get id).isSome).supersededReason =
            requirement.supersededReason := by
      intro requirement held
      unfold PlanRequirement.updateStatus
      split
      · rfl
      next some_ =>
        have isMapped : lineage.isMapped id = true := by
          rw [kept.carriers_eq_nil, Bool.not_eq_false] at some_
          exact some_
        have notAccepted := kept.unmapped id isMapped
        have none_ : requirement.supersededReason = none := by
          cases isReason : requirement.supersededReason with
          | none => rfl
          | some reason =>
            have isAccepted := (kept.accepted id).mpr ⟨requirement, held, by rw [isReason]; rfl⟩
            rw [notAccepted] at isAccepted
            cases isAccepted
        split
        · exact none_.symm
        · split <;> rfl
    refine ⟨?_, ?_⟩
    · rintro ⟨requirement, held, retired⟩
      obtain ⟨updated, isUpdated, _, rfl⟩ := found held
      exact ⟨_, isUpdated, by rwa [reason requirement held]⟩
    · rintro ⟨updated, isUpdated, retired⟩
      rw [get_updateStatuses, Option.map_eq_some_iff] at isUpdated
      obtain ⟨requirement, held, rfl⟩ := isUpdated
      exact ⟨requirement, held, by rwa [reason requirement held] at retired⟩
  · intro id isResolved
    have isKept := isResolved
    rw [isResolved_updateStatuses] at isResolved
    split at isResolved
    next allowed =>
      obtain ⟨requirement, held, completed⟩ := kept.resolved id isResolved
      obtain ⟨updated, isUpdated, _, rfl⟩ := found held
      refine ⟨_, isUpdated, ?_⟩
      rw [held, Option.isNone_some, Bool.false_or] at allowed
      rw [isKept]
      unfold PlanRequirement.updateStatus
      split
      · exact completed
      · rw [if_pos (by rw [allowed, Bool.or_true, Bool.and_true])]
    · cases isResolved

/-- Resolutions keep what holds of a lineage. -/
theorem PlanLineage.Kept.resolve (kept : lineage.Kept host texts uuids steps) {ids : List Text}
    {result : PlanLineage} (done : resolveAll host next lineage ids = .ok result) :
    result.Kept host texts uuids steps := by
  obtain ⟨requirements, resolved, accepted, rfl, requirement, isResolved, isAccepted, checks⟩ :=
    resolveAll_spec done
  have held : ∀ {id : Text} {old : PlanRequirement}, lineage.requirements.get id = some old →
      ∃ new, requirements.get id = some new ∧ new.text = old.text := by
    intro id old found
    refine ⟨if id ∈ ids then { old with status := .completed, supersededReason := none } else old,
      ?_, ?_⟩
    · rw [requirement, found, Option.map_some]
    · split <;> rfl
  refine ⟨kept.given, kept.nodup, kept.identities, kept.keys, kept.distinct, ?_, kept.sorted, ?_,
    kept.knownKeys, ?_, ?_, ?_, ?_, kept.revisions, kept.workflow, kept.legacyMetadata⟩
  · intro step member
    obtain ⟨id, carried, old, found, same⟩ := kept.own step member
    obtain ⟨new, isNew, text⟩ := held found
    exact ⟨id, carried, new, isNew, text.trans same⟩
  · intro key listed found id member
    obtain ⟨old, isOld⟩ := Option.isSome_iff_exists.mp (kept.listed key listed found id member)
    obtain ⟨new, isNew, _⟩ := held isOld
    simp only
    rw [isNew]
    rfl
  · intro id new found
    simp only at found
    rw [requirement, Option.map_eq_some_iff] at found
    obtain ⟨old, isOld, _⟩ := found
    exact kept.known id old isOld
  · intro id
    simp only
    rw [isAccepted, requirement]
    split
    next member =>
      refine ⟨fun none_ => (by cases none_), ?_⟩
      rintro ⟨new, found, retired⟩
      rw [Option.map_eq_some_iff] at found
      obtain ⟨old, _, rfl⟩ := found
      cases retired
    next other =>
      rw [kept.accepted id]
      simp
  · intro id isMapped
    simp only
    rw [isAccepted]
    split
    · rfl
    · exact kept.unmapped id isMapped
  intro id resolved_
  simp only at resolved_ ⊢
  rw [isResolved] at resolved_
  split at resolved_
  next member =>
    obtain ⟨old, isOld⟩ := Option.isSome_iff_exists.mp (checks id member).1
    refine ⟨{ old with status := .completed, supersededReason := none }, ?_, rfl⟩
    rw [requirement, isOld, Option.map_some, if_pos member]
  next other =>
    obtain ⟨old, isOld, completed⟩ := kept.resolved id resolved_
    refine ⟨old, ?_, completed⟩
    rw [requirement, isOld, Option.map_some, if_neg other]

/-- The revisions of steps keep what holds of a lineage. -/
theorem PlanLineage.Kept.bump {current : PlanState}
    (kept : lineage.Kept host texts uuids (next.plan.map (·.step)))
    {result : PlanLineage} (done : bumpAll host current lineage next = .ok result) :
    result.Kept host texts uuids (next.plan.map (·.step)) := by
  obtain ⟨revisions, rfl, held⟩ := bumpAll_spec done
  refine ⟨kept.given, kept.nodup, kept.identities, kept.keys, kept.distinct, kept.own, kept.sorted,
    kept.listed, kept.knownKeys, kept.known, kept.accepted, kept.unmapped, kept.resolved, ?_,
    kept.workflow, kept.legacyMetadata⟩
  intro id isSome
  rcases held id isSome with old | ⟨step, member, rfl⟩
  · exact kept.revisions id old
  · obtain ⟨ids, found, _⟩ := kept.get_stepId (List.mem_map_of_mem member)
    simp only
    rw [found]
    rfl

end Statuses

/-! ## Replacements -/

section Replacements

variable {host : Host} {texts : Text → Prop} {uuids : Nat} {lineage : PlanLineage}

theorem lookupLast_isSome {α : Type} {entries : List (Text × α)} {key : Text}
    (found : (lookupLast entries key).isSome = true) : ∃ entry ∈ entries, entry.1 = key := by
  rw [lookupLast, Option.isSome_map] at found
  obtain ⟨entry, isEntry⟩ := Option.isSome_iff_exists.mp found
  refine ⟨entry, List.mem_reverse.mp (List.mem_of_find?_eq_some isEntry), ?_⟩
  simpa using List.find?_some isEntry

variable {previous : Option UpdatePlanArgs} {references : OrderedMap Text PlanInputReference}
   {args : PlanToolArgs}

/-- What the account of a replacement checks. -/
theorem accountForRemovedSteps_spec {next : List PlanStepArg} {superseded : List SupersededStep}
    {explanation result : Option Text}
    (done : accountForRemovedSteps host previous lineage next superseded explanation = .ok result) :
    (∀ step ∈ next, ∀ id ∈ step.continues,
      (∃ entry ∈ previousSteps host previous lineage, entry.1 = id) ∨
        (lineage.orphan id).isSome = true) ∧
      ∀ entry ∈ previousSteps host previous lineage, entry.2.status ≠ .completed →
        (∀ step ∈ next, step.step ≠ entry.2.step) →
          (∃ step ∈ next, entry.1 ∈ step.continues) ∨
            ∃ dropped ∈ superseded, dropped.stepId = entry.1 := by
  unfold accountForRemovedSteps at done
  simp only at done
  split at done
  · cases done
  next known =>
    rw [List.find?_eq_none] at known
    refine ⟨?_, ?_⟩
    · intro step member id continues
      have own := known id (List.mem_flatMap.mpr ⟨step, member, continues⟩)
      rw [Bool.not_eq_true, Bool.not_eq_false', Bool.or_eq_true] at own
      rcases own with isStep | isOrphan
      · exact .inl (lookupLast_isSome isStep)
      · exact .inr isOrphan
    split at done
    · cases done
    split at done
    · cases done
    next accounted =>
      intro entry member unfinished removed
      rw [Bool.not_eq_true, List.any_eq_false] at accounted
      have own := accounted entry member
      by_cases continued : ∃ step ∈ next, entry.1 ∈ step.continues
      · exact .inl continued
      refine .inr ?_
      by_contra dropped
      apply own
      simp only [Bool.and_eq_true, bne_iff_ne, Bool.not_eq_true', List.any_eq_false,
        beq_iff_eq, List.contains_eq_mem, decide_eq_true_eq]
      refine ⟨⟨⟨unfinished, removed⟩, ?_⟩, ?_⟩
      · intro step listed carries
        exact continued ⟨step, listed, carries⟩
      · intro other listed same
        exact dropped ⟨other, listed, same⟩

/-- A reference that a call cites for a scope change. -/
def Cites (host : Host) (args : PlanToolArgs) (key : Text) (reference : PlanInputReference) : Prop :=
  args.scopeChangeRefs.get key = some reference ∨
    ∃ text, args.scopeChangeInstructions.get key = some text ∧ reference.sha256 = host.sha256 text

theorem citeInstructions_spec {inputs : PlanScopeInputs} {reviewed : Option Text}
    {instructions : List (Text × Text)} {result : OrderedMap Text PlanInputReference}
    (done : citeInstructions host inputs reviewed instructions references = .ok result) {key : Text}
    {reference : PlanInputReference} (found : result.get key = some reference) :
    references.get key = some reference ∨
      ∃ text, (key, text) ∈ instructions ∧ reference.sha256 = host.sha256 text := by
  induction instructions generalizing references with
  | nil =>
    obtain rfl := Except.ok.inj done
    exact .inl found
  | cons first rest ih =>
    rw [citeInstructions] at done
    split at done
    · cases done
    next cited isCited =>
      split at done
      · cases done
      rcases ih done with old | ⟨text, member, same⟩
      · rw [OrderedMap.get_insert] at old
        split at old
        next isKey =>
          obtain rfl := Option.some_inj.mp old
          have own := List.find?_some isCited
          rw [Bool.and_eq_true, beq_iff_eq] at own
          refine .inr ⟨first.2, ?_, own.1⟩
          rw [isKey]
          exact List.mem_cons_self
        · exact .inl old
      · exact .inr ⟨text, List.mem_cons_of_mem _ member, same⟩

/-- What is authorized of a replacement. -/
structure Authorized (host : Host) (args : PlanToolArgs) (lineage : PlanLineage)
    (references : OrderedMap Text PlanInputReference) : Prop where
  cited : ∀ key reference, references.get key = some reference →
    Cites host args key reference ∧ (∃ entry ∈ args.superseded, entry.stepId = key) ∧
      ∃ inputs, args.scopeInputs = some inputs ∧
        inputs.permits reference args.scopeChangeReviewedRevision = true
  covered : ∀ entry ∈ args.superseded, (references.get entry.stepId).isSome = true ∧
    ((lineage.stepRequirements.get entry.stepId).isSome = true ∨
      (lineage.orphan entry.stepId).isSome = true)

theorem authorizeScopeChanges_spec
    (done : authorizeScopeChanges host lineage args = .ok references) :
    Authorized host args lineage references := by
  unfold authorizeScopeChanges at done
  split at done
  next none_ =>
    obtain rfl := Except.ok.inj done
    rw [Bool.and_eq_true, Bool.and_eq_true, List.isEmpty_iff, List.isEmpty_iff,
      List.isEmpty_iff] at none_
    refine ⟨?_, ?_⟩
    · intro key reference found
      have member := OrderedMap.get_eq_some_iff.mp found
      rw [none_.2] at member
      cases member
    · intro entry member
      rw [none_.1.1] at member
      cases member
  · split at done
    · cases done
    next inputs isInputs =>
      split at done
      · cases done
      next cited isCited =>
        split at done
        · cases done
        next permitted =>
          split at done
          · cases done
          next covered =>
            obtain rfl := Except.ok.inj done
            rw [List.find?_eq_none] at permitted covered
            refine ⟨?_, ?_⟩
            · intro key reference found
              have own := permitted (key, reference) (OrderedMap.get_eq_some_iff.mp found)
              simp only [Bool.or_eq_true, Bool.not_eq_true', not_or, Bool.not_eq_false,
                List.any_eq_true, beq_iff_eq] at own
              refine ⟨?_, own.1, inputs, isInputs, own.2⟩
              rcases citeInstructions_spec isCited found with old | ⟨text, member, same⟩
              · exact .inl old
              · exact .inr ⟨text, OrderedMap.get_eq_some_iff.mpr member, same⟩
            intro entry member
            have own := covered entry member
            simp only [Bool.or_eq_true, Bool.and_eq_true, not_or, not_and,
              Option.isNone_iff_eq_none] at own
            refine ⟨Option.isSome_iff_ne_none.mpr own.1, ?_⟩
            cases isKey : lineage.stepRequirements.get entry.stepId with
            | some ids => exact .inl rfl
            | none => exact .inr (Option.isSome_iff_ne_none.mpr (own.2 isKey))

theorem PlanLineage.acceptAll_spec (previous : OrderedMap Text (List Text)) (lineage : PlanLineage)
    (references : OrderedMap Text PlanInputReference) :
    ∃ accepted, lineage.acceptAll previous references =
        { lineage with acceptedSupersessions := accepted } ∧
      ∀ id, (accepted.get id).isSome = true ↔
        (lineage.acceptedSupersessions.get id).isSome = true ∨ (lineage.isMapped id = false ∧
          ∃ entry ∈ references.entries, id ∈ (previous.get entry.1).getD [entry.1]) := by
  have one : ∀ (ids : List Text) (reference : PlanInputReference) (lineage : PlanLineage),
      ∃ accepted, ids.foldl (fun lineage id =>
          if lineage.isMapped id then lineage
          else { lineage with
            acceptedSupersessions := lineage.acceptedSupersessions.insert id reference }) lineage =
          { lineage with acceptedSupersessions := accepted } ∧
        ∀ id, (accepted.get id).isSome = true ↔
          (lineage.acceptedSupersessions.get id).isSome = true ∨
            (lineage.isMapped id = false ∧ id ∈ ids) := by
    intro ids reference lineage
    induction ids generalizing lineage with
    | nil => exact ⟨lineage.acceptedSupersessions, rfl, by simp⟩
    | cons first rest ih =>
      rw [List.foldl_cons]
      by_cases isMapped : lineage.isMapped first = true
      · rw [if_pos isMapped]
        obtain ⟨accepted, same, isSome⟩ := ih lineage
        refine ⟨accepted, same, fun id => ?_⟩
        rw [isSome id, List.mem_cons]
        refine or_congr_right (and_congr_right fun unmapped => ?_)
        have different : id ≠ first := by
          rintro rfl
          rw [isMapped] at unmapped
          cases unmapped
        simp [different]
      rw [if_neg isMapped]
      obtain ⟨accepted, same, isSome⟩ := ih { lineage with
        acceptedSupersessions := lineage.acceptedSupersessions.insert first reference }
      refine ⟨accepted, same, fun id => ?_⟩
      rw [isSome id, OrderedMap.get_insert, List.mem_cons]
      rw [Bool.not_eq_true] at isMapped
      by_cases isFirst : id = first
      · simp [isFirst, isMapped]
      · rw [if_neg isFirst]
        simp only [isFirst, false_or]
        rfl
  rw [acceptAll]
  generalize references.entries = entries
  induction entries generalizing lineage with
  | nil => exact ⟨lineage.acceptedSupersessions, rfl, by simp⟩
  | cons first rest ih =>
    rw [List.foldl_cons]
    obtain ⟨accepted, same, isSome⟩ := one ((previous.get first.1).getD [first.1]) first.2 lineage
    rw [same]
    obtain ⟨others, otherSame, otherIsSome⟩ :=
      ih { lineage with acceptedSupersessions := accepted }
    refine ⟨others, otherSame, fun id => ?_⟩
    have unchanged : ({ lineage with acceptedSupersessions := accepted } : PlanLineage).isMapped id =
        lineage.isMapped id := rfl
    rw [otherIsSome id, unchanged, isSome id, or_assoc, ← and_or_left]
    refine or_congr_right (and_congr_right fun _ => ?_)
    simp

/-- A call retires a requirement: it lists a step that carries it as superseded, or the requirement
    when no step does, with a reference to accepted input that permits this. -/
def Retires (host : Host) (args : PlanToolArgs) (lineage : PlanLineage) (id : Text) : Prop :=
  ∃ entry ∈ args.superseded, ∃ reference inputs, Cites host args entry.stepId reference ∧
    args.scopeInputs = some inputs ∧
      inputs.permits reference args.scopeChangeReviewedRevision = true ∧
        (id ∈ lineage.carried entry.stepId ∨
          (entry.stepId = id ∧ lineage.isMapped id = false))

/-- What a call makes of a lineage, before requirements are resolved. -/
structure Replaced (host : Host) (texts : Text → Prop) (args : PlanToolArgs)
    (previous : Option UpdatePlanArgs) (uuids later : Nat) (lineage result : PlanLineage)
    (next : UpdatePlanArgs) : Prop where
  kept : result.Kept host texts later (next.plan.map (·.step))
  count : uuids ≤ later
  same : ∀ id requirement, lineage.requirements.get id = some requirement →
    ∃ new, result.requirements.get id = some new ∧ new.text = requirement.text ∧
      new.source = requirement.source ∧ new.status = requirement.status
  new : ∀ id, (result.requirements.get id).isSome = true → lineage.requirements.get id = none →
    result.isMapped id = true
  resolved : result.resolvedRequirements = lineage.resolvedRequirements
  accounted : ∀ step ∈ (previous.map (·.plan)).getD [], step.status ≠ .completed →
    (∀ item ∈ next.plan, item.step ≠ step.step) →
      ∀ id ∈ lineage.carried (lineage.stepId host step.step), result.isMapped id = true ∨
        (result.acceptedSupersessions.get id).isSome = true
  retired : ∀ id, (result.acceptedSupersessions.get id).isSome = true →
    (lineage.acceptedSupersessions.get id).isSome = true ∨
      (Retires host args lineage id ∧ result.isMapped id = false)

/-- A lineage that stays as it is. -/
theorem Replaced.refl {next : UpdatePlanArgs}
    (kept : lineage.Kept host texts uuids (next.plan.map (·.step)))
    (same : ((previous.map (·.plan)).getD []).map (·.step) = next.plan.map (·.step)) :
    Replaced host texts args previous uuids uuids lineage lineage next where
  kept := kept
  count := Nat.le_refl _
  same id requirement found := ⟨requirement, found, rfl, rfl, rfl⟩
  new id held absent := by
    rw [absent] at held
    cases held
  resolved := rfl
  accounted step member _ removed := by
    have listed : step.step ∈ next.plan.map (·.step) := same ▸ List.mem_map_of_mem member
    obtain ⟨item, isItem, isStep⟩ := List.mem_map.mp listed
    exact absurd isStep (removed item isItem)
  retired id held := .inl held

/-- A requirement that a superseded entry names. -/
theorem Authorized.names {steps : List Text} (kept : lineage.Kept host texts uuids steps)
    (authorized : Authorized host args lineage references) {entry : SupersededStep}
    (member : entry ∈ args.superseded) {id : Text}
    (named : id ∈ (lineage.stepRequirements.get entry.stepId).getD [entry.stepId]) :
    (lineage.requirements.get id).isSome = true ∧ Retires host args lineage id := by
  obtain ⟨isCited, isScope⟩ := authorized.covered entry member
  obtain ⟨reference, found⟩ := Option.isSome_iff_exists.mp isCited
  obtain ⟨cites, _, inputs, isInputs, permits⟩ := authorized.cited _ _ found
  cases isKey : lineage.stepRequirements.get entry.stepId with
  | some ids =>
    rw [isKey, Option.getD_some] at named
    refine ⟨kept.listed _ _ isKey id named, entry, member, reference, inputs, cites, isInputs,
      permits, .inl ?_⟩
    rwa [PlanLineage.carried_of_get isKey]
  | none =>
    rw [isKey, Option.getD_none, List.mem_singleton] at named
    rw [isKey] at isScope
    rcases isScope with isSome | isOrphan
    · cases isSome
    · obtain ⟨orphan, isOrphan_⟩ := Option.isSome_iff_exists.mp isOrphan
      obtain ⟨held, unmapped⟩ := PlanLineage.orphan_unmapped isOrphan_
      rw [named, held]
      exact ⟨rfl, entry, member, reference, inputs, cites, isInputs, permits, .inr ⟨rfl, unmapped⟩⟩

theorem itemsOf_map_step (plan : List PlanStepArg) :
    (itemsOf plan).map (·.step) = plan.map (·.step) := by
  rw [itemsOf, List.map_map]
  rfl

/-- A revision with its references is what a replacement makes of a lineage. -/
theorem Replaced.revise {plan : List PlanStepArg} {explanation : Option Text}
    (separates : host.Separates texts)
    (sound : (⟨previous, lineage, plan⟩ : Previous).Sound host texts uuids)
    (accounted : ∀ entry ∈ previousSteps host previous lineage, entry.2.status ≠ .completed →
      (∀ step ∈ plan, step.step ≠ entry.2.step) → (∃ step ∈ plan, entry.1 ∈ step.continues) ∨
        ∃ dropped ∈ args.superseded, dropped.stepId = entry.1)
    (authorized : Authorized host args lineage references) :
    Replaced host texts args previous uuids
      (lineage.revise host uuids previous plan args.superseded).2 lineage
      ((lineage.revise host uuids previous plan args.superseded).1.acceptAll
        lineage.stepRequirements references) ⟨explanation, itemsOf plan⟩ := by
  obtain ⟨revision, loop, isCount, isRevised⟩ :=
    @PlanLineage.revise_spec _ _ _ _ _ _ args.superseded separates sound
  rw [isCount, isRevised]
  obtain ⟨accepted, isResult, acceptedBy⟩ := PlanLineage.acceptAll_spec lineage.stepRequirements
    (revision.revised lineage args.superseded (lineage.acceptedSupersessions.retain fun id =>
      !isMappedBy revision.stepRequirements id)) references
  have isFinal : (revision.revised lineage args.superseded
      (lineage.acceptedSupersessions.retain fun id =>
        !isMappedBy revision.stepRequirements id)).acceptAll lineage.stepRequirements references =
      revision.revised lineage args.superseded accepted := isResult
  rw [isFinal]
  -- the references are those of the superseded entries
  have isReferenced : ∀ id, (∃ entry ∈ references.entries,
      id ∈ (lineage.stepRequirements.get entry.1).getD [entry.1]) ↔ ∃ entry ∈ args.superseded,
        id ∈ (lineage.stepRequirements.get entry.stepId).getD [entry.stepId] := by
    intro id
    refine ⟨?_, ?_⟩
    · rintro ⟨⟨key, reference⟩, member, named⟩
      obtain ⟨_, ⟨entry, listed, rfl⟩, _⟩ :=
        authorized.cited _ _ (OrderedMap.get_eq_some_iff.mpr member)
      exact ⟨entry, listed, named⟩
    · rintro ⟨entry, listed, named⟩
      obtain ⟨reference, found⟩ :=
        Option.isSome_iff_exists.mp (authorized.covered entry listed).1
      exact ⟨_, OrderedMap.get_eq_some_iff.mp found, named⟩
  have isAccepted : ∀ id, (accepted.get id).isSome = true ↔
      isMappedBy revision.stepRequirements id = false ∧
        ((lineage.acceptedSupersessions.get id).isSome = true ∨ ∃ entry ∈ args.superseded,
          id ∈ (lineage.stepRequirements.get entry.stepId).getD [entry.stepId]) := by
    intro id
    have isMapped : (revision.revised lineage args.superseded
        (lineage.acceptedSupersessions.retain fun id =>
          !isMappedBy revision.stepRequirements id)).isMapped id =
        isMappedBy revision.stepRequirements id := rfl
    have retained : (revision.revised lineage args.superseded
        (lineage.acceptedSupersessions.retain fun id =>
          !isMappedBy revision.stepRequirements id)).acceptedSupersessions.get id =
        if !isMappedBy revision.stepRequirements id then lineage.acceptedSupersessions.get id
          else none := OrderedMap.get_retain _ _ _
    rw [acceptedBy id, isReferenced id, isMapped, retained]
    cases isMappedBy revision.stepRequirements id with
    | true => simp
    | false => simp
  have identified : ∀ step ∈ plan,
      (revision.revised lineage args.superseded accepted).stepId host step.step =
        revision.keyOf host step.step :=
    fun step member => loop.stepId_eq separates sound (sound.given step member)
  have mapped : ∀ key ids id, revision.stepRequirements.get key = some ids → id ∈ ids →
      (revision.revised lineage args.superseded accepted).isMapped id = true :=
    fun key ids id found member => PlanLineage.isMapped_iff.mpr ⟨key, ids, found, member⟩
  refine ⟨?_, loop.count, ?_, ?_, rfl, ?_, ?_⟩
  · have steps : (itemsOf plan).map (·.step) = plan.map (·.step) := itemsOf_map_step plan
    rw [steps]
    exact loop.kept_revised separates sound isAccepted fun entry listed id named =>
      (authorized.names sound.kept listed named).1
  · intro id requirement found
    have isNew := @Revision.get_revised lineage args.superseded revision accepted id
    rw [loop.kept id requirement found, Option.map_some] at isNew
    exact ⟨_, isNew, rfl, rfl, rfl⟩
  · intro id held absent
    rw [Revision.get_revised, Option.isSome_map] at held
    obtain ⟨requirement, found⟩ := Option.isSome_iff_exists.mp held
    rcases loop.new id requirement found with old | ⟨_, _, _, key, ids, isKey, member⟩
    · rw [absent] at old
      cases old
    · exact mapped key ids id isKey member
  · intro step member unfinished removed id carried
    have isPrevious : (lineage.stepId host step.step, step) ∈
        previousSteps host previous lineage := List.mem_map_of_mem member
    have isRemoved : ∀ item ∈ plan, item.step ≠ step.step := fun item listed =>
      removed ⟨item.step, item.status⟩ (List.mem_map_of_mem listed)
    rcases accounted _ isPrevious unfinished isRemoved with
      ⟨item, listed, continues⟩ | ⟨dropped, listed, same⟩
    · obtain ⟨ids, isKey, _, _, covers⟩ := loop.mapped item listed
      exact .inl (mapped _ _ _ isKey (covers _ continues id carried))
    cases isMapped : isMappedBy revision.stepRequirements id with
    | true => exact .inl isMapped
    | false =>
      refine .inr ((isAccepted id).mpr ⟨isMapped, .inr ⟨dropped, listed, ?_⟩⟩)
      rw [same]
      rw [PlanLineage.carried] at carried
      cases isKey : lineage.stepRequirements.get (lineage.stepId host step.step) with
      | none =>
        rw [isKey] at carried
        cases carried
      | some ids =>
        rw [isKey] at carried
        exact carried
  · intro id retired
    obtain ⟨unmapped, why⟩ := (isAccepted id).mp retired
    rcases why with old | ⟨entry, listed, named⟩
    · exact .inl old
    · exact .inr ⟨(authorized.names sound.kept listed named).2, unmapped⟩

end Replacements

end Codex.PlanStore
