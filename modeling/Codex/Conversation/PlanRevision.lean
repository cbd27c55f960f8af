import Codex.Conversation.PlanTool

/-!
# Revisions of a plan

What `revise` does to a lineage: the identifiers of the steps of the new plan are distinct, each of
them carries a requirement with its own text, and what a step continues is carried by it.
-/

namespace Codex.PlanStore

open Codex.Text

/-! ## Sorted identifiers -/

variable {ids : List Text} {id : Text} {lineage : PlanLineage}

@[simp] theorem mem_sortDedup : id ∈ sortDedup ids ↔ id ∈ ids := by
  rw [sortDedup, List.mem_insertionSort, List.mem_dedup]

theorem sorted_sortDedup (ids : List Text) : (sortDedup ids).Pairwise (· < ·) := by
  have sorted : (sortDedup ids).Pairwise (· ≤ ·) := List.pairwise_insertionSort (· ≤ ·) _
  have nodup : (sortDedup ids).Nodup :=
    (List.perm_insertionSort (· ≤ ·) _).nodup_iff.mpr (List.nodup_dedup ids)
  exact (sorted.and nodup).imp fun both => lt_of_le_of_ne both.1 both.2

theorem sortDedup_of_sorted (sorted : ids.Pairwise (· < ·)) :
    sortDedup ids = ids := by
  have nodup : ids.Nodup := sorted.imp ne_of_lt
  rw [sortDedup, List.dedup_eq_self.mpr nodup]
  exact (sorted.imp le_of_lt).insertionSort_eq

/-! ## Lookups -/

theorem PlanLineage.isMapped_iff : lineage.isMapped id = true ↔
    ∃ key ids, lineage.stepRequirements.get key = some ids ∧ id ∈ ids := by
  rw [PlanLineage.isMapped, isMappedBy, List.any_eq_true]
  refine ⟨?_, ?_⟩
  · rintro ⟨ids, member, contains⟩
    obtain ⟨key, found⟩ := OrderedMap.mem_values_iff.mp member
    exact ⟨key, ids, found, by simpa using contains⟩
  · rintro ⟨key, ids, found, member⟩
    exact ⟨ids, OrderedMap.mem_values_iff.mpr ⟨key, found⟩, by simpa using member⟩

theorem PlanLineage.carried_of_get {key : Text}
    (found : lineage.stepRequirements.get key = some ids) : lineage.carried key = ids := by
  rw [PlanLineage.carried, found, Option.getD_some]

theorem PlanLineage.orphan_unmapped {requirement : PlanRequirement}
    (found : lineage.orphan id = some requirement) :
    lineage.requirements.get id = some requirement ∧ lineage.isMapped id = false := by
  rw [PlanLineage.orphan, Option.filter_eq_some_iff] at found
  refine ⟨found.1, ?_⟩
  have own := found.2
  rw [Bool.and_eq_true, Bool.not_eq_true'] at own
  exact own.2

/-! ## Identifiers -/

/-- Where an identifier comes from. -/
inductive Known (host : Host) (texts : Text → Prop) (uuids : Nat) : Text → Prop where
  | step (text : Text) (given : texts text) : Known host texts uuids (planStepId host text)
  | pin (text : Text) (source : PlanInputReference) : Known host texts uuids (pinId host text source)
  | uuid (n : Nat) (before : n < uuids) : Known host texts uuids (host.uuid n)

section Identifiers

variable {host : Host} {texts : Text → Prop} {uuids : Nat}

theorem Known.mono {later : Nat} (known : Known host texts uuids id)
    (le : uuids ≤ later) : Known host texts later id := by
  cases known with
  | step text given => exact .step text given
  | pin text source => exact .pin text source
  | uuid n before => exact .uuid n (Nat.lt_of_lt_of_le before le)

/-- A UUID that is generated now is new. -/
theorem Known.ne_uuid (separates : host.Separates texts) (known : Known host texts uuids id)
    {n : Nat} (later : uuids ≤ n) : id ≠ host.uuid n := by
  cases known with
  | step text given => exact (separates.uuid_step n text given).symm
  | pin text source => exact (separates.uuid_pin n text source).symm
  | uuid m before =>
    intro same
    have equal := separates.uuids same
    omega

theorem Known.ne_legacy (separates : host.Separates texts) {text : Text}
    (known : Known host texts uuids id) (given : texts text) : id ≠ host.sha256 text := by
  cases known with
  | step other otherGiven => exact separates.step_legacy other text otherGiven given
  | pin other source => exact separates.pin_legacy other source text given
  | uuid n before => exact separates.uuid_legacy n text given

/-- The identifier of a step, when none is of the retired form. -/
theorem PlanLineage.stepId_eq (separates : host.Separates texts) {lineage : PlanLineage}
    {text : Text} (given : texts text)
    (identities : ∀ key id, lineage.stepIdentities.get key = some id →
      ∃ step, texts step ∧ key = planStepId host step)
    (keys : ∀ key ids, lineage.stepRequirements.get key = some ids →
      Known host texts uuids key) :
    lineage.stepId host text =
      (lineage.stepIdentities.get (planStepId host text)).getD (planStepId host text) := by
  have noIdentity : lineage.stepIdentities.get (host.sha256 text) = none := by
    cases found : lineage.stepIdentities.get (host.sha256 text) with
    | none => rfl
    | some id =>
      obtain ⟨step, stepGiven, same⟩ := identities _ _ found
      exact absurd same.symm (separates.step_legacy step text stepGiven given)
  have noKey : lineage.stepRequirements.get (host.sha256 text) = none := by
    cases found : lineage.stepRequirements.get (host.sha256 text) with
    | none => rfl
    | some ids => exact absurd rfl ((keys _ _ found).ne_legacy separates given)
  rw [stepId]
  simp only [noIdentity, noKey, Option.or_none]
  cases lineage.stepIdentities.get (planStepId host text) with
  | none => rfl
  | some id => rfl

end Identifiers

/-! ## Lineages that a plan has -/

/-- What holds of the lineage of a plan with some steps. -/
structure PlanLineage.Kept (host : Host) (texts : Text → Prop) (uuids : Nat)
    (lineage : PlanLineage) (steps : List Text) : Prop where
  given : ∀ step ∈ steps, texts step
  nodup : steps.Nodup
  identities : ∀ key id, lineage.stepIdentities.get key = some id →
    ∃ step ∈ steps, key = planStepId host step ∧ id ≠ key
  /-- The keys are the identifiers of the steps. -/
  keys : ∀ key ids, lineage.stepRequirements.get key = some ids →
    ∃ step ∈ steps, lineage.stepId host step = key
  distinct : ∀ first ∈ steps, ∀ second ∈ steps,
    lineage.stepId host first = lineage.stepId host second → first = second
  /-- A step carries a requirement with its own text. -/
  own : ∀ step ∈ steps, ∃ id ∈ lineage.carried (lineage.stepId host step),
    ∃ requirement, lineage.requirements.get id = some requirement ∧ requirement.text = step
  sorted : ∀ key ids, lineage.stepRequirements.get key = some ids → ids.Pairwise (· < ·)
  listed : ∀ key ids, lineage.stepRequirements.get key = some ids →
    ∀ id ∈ ids, (lineage.requirements.get id).isSome = true
  knownKeys : ∀ key ids, lineage.stepRequirements.get key = some ids →
    Known host texts uuids key
  known : ∀ id requirement, lineage.requirements.get id = some requirement →
    Known host texts uuids id
  /-- A requirement is retired with the reference that allows it, when no step carries it. -/
  accepted : ∀ id, (lineage.acceptedSupersessions.get id).isSome = true ↔
    ∃ requirement, lineage.requirements.get id = some requirement ∧
      requirement.supersededReason.isSome = true
  unmapped : ∀ id, lineage.isMapped id = true → lineage.acceptedSupersessions.get id = none
  resolved : ∀ id, (lineage.resolvedRequirements.get id).isSome = true →
    ∃ requirement, lineage.requirements.get id = some requirement ∧
      requirement.status = .completed
  revisions : ∀ id, (lineage.stepRevisions.get id).isSome = true →
    (lineage.stepRequirements.get id).isSome = true
  workflow : lineage.workflow = .empty
  legacyMetadata : lineage.legacyMetadata = .empty

section Kept

variable {host : Host} {texts : Text → Prop} {uuids : Nat} {lineage : PlanLineage}
variable {steps : List Text}

theorem PlanLineage.Kept.stepId_eq (separates : host.Separates texts)
    (kept : lineage.Kept host texts uuids steps) {text : Text} (given : texts text) :
    lineage.stepId host text =
      (lineage.stepIdentities.get (planStepId host text)).getD (planStepId host text) :=
  PlanLineage.stepId_eq separates given (fun key id found => by
    obtain ⟨step, member, same, _⟩ := kept.identities key id found
    exact ⟨step, kept.given step member, same⟩) kept.knownKeys

theorem PlanLineage.Kept.get_stepId (kept : lineage.Kept host texts uuids steps) {step : Text}
    (member : step ∈ steps) : ∃ ids, lineage.stepRequirements.get (lineage.stepId host step) =
      some ids ∧ lineage.carried (lineage.stepId host step) = ids := by
  obtain ⟨id, listed, _⟩ := kept.own step member
  cases found : lineage.stepRequirements.get (lineage.stepId host step) with
  | none =>
    rw [PlanLineage.carried, found] at listed
    cases listed
  | some ids => exact ⟨ids, rfl, PlanLineage.carried_of_get found⟩

end Kept

/-! ## One revision -/

/-- What a revision starts from. -/
structure Previous.Sound (host : Host) (texts : Text → Prop) (uuids : Nat) (previous : Previous) :
    Prop where
  kept : previous.lineage.Kept host texts uuids
    (((previous.plan.map (·.plan)).getD []).map (·.step))
  given : ∀ step ∈ previous.steps, texts step.step
  nodup : (previous.steps.map (·.step)).Nodup
  /-- A step continues one of the previous plan, or a requirement that no step carries. -/
  continues : ∀ step ∈ previous.steps, ∀ source ∈ step.continues,
    (previous.lineage.stepRequirements.get source).isSome = true ∨
      (previous.lineage.requirements.get source).isSome = true
  /-- The first plan comes after pins only. -/
  first : previous.plan = none → ∀ id requirement,
    previous.lineage.requirements.get id = some requirement →
      ∃ text source, id = pinId host text source

/-- The identifier of a step of a revision. -/
def Revision.keyOf (host : Host) (revision : Revision) (text : Text) : Text :=
  (revision.stepIdentities.get (planStepId host text)).getD (planStepId host text)

/-- An identifier that a step has from the previous plan, or from its text in the first one. -/
inductive Inherits (host : Host) (previous : Previous) (step : PlanStepArg) : Text → Prop where
  | previous (id : Text) (found : previous.id host step.step = some id) :
      Inherits host previous step id
  | continued (id : Text) (none_ : previous.id host step.step = none)
      (found : previous.continuedId host step = some id)
      (old : (previous.lineage.stepRequirements.get id).isSome = true ∨ previous.plan = none) :
      Inherits host previous step id
  | text (first : previous.plan = none) : Inherits host previous step (planStepId host step.step)

/-- What holds in the loop of a revision after some steps. -/
structure Revision.Loop (host : Host) (texts : Text → Prop) (start : Nat) (previous : Previous)
    (done : List PlanStepArg) (revision : Revision) : Prop where
  count : start ≤ revision.uuids
  kept : ∀ id requirement, previous.lineage.requirements.get id = some requirement →
    revision.requirements.get id = some requirement
  new : ∀ id requirement, revision.requirements.get id = some requirement →
    previous.lineage.requirements.get id = some requirement ∨
      (previous.lineage.requirements.get id = none ∧ requirement.source = none ∧
        requirement.supersededReason = none ∧
          ∃ key ids, revision.stepRequirements.get key = some ids ∧ id ∈ ids)
  known : ∀ id requirement, revision.requirements.get id = some requirement →
    Known host texts revision.uuids id
  identities : ∀ key id, revision.stepIdentities.get key = some id →
    ∃ step ∈ done, key = planStepId host step.step ∧ id ≠ key
  origin : ∀ step ∈ done, Inherits host previous step (revision.keyOf host step.step) ∨
    ∃ n, start ≤ n ∧ n < revision.uuids ∧ revision.keyOf host step.step = host.uuid n
  mapped : ∀ step ∈ done, ∃ ids,
    revision.stepRequirements.get (revision.keyOf host step.step) = some ids ∧
      (∃ id ∈ ids, ∃ requirement, revision.requirements.get id = some requirement ∧
        requirement.text = step.step) ∧
      (∀ id ∈ previous.lineage.carried (revision.keyOf host step.step), id ∈ ids) ∧
      ∀ source ∈ step.continues, ∀ id ∈ previous.lineage.carried source, id ∈ ids
  keys : ∀ key ids, revision.stepRequirements.get key = some ids →
    (∃ step ∈ done, revision.keyOf host step.step = key) ∧ ids.Pairwise (· < ·) ∧
      ∀ id ∈ ids, (revision.requirements.get id).isSome = true
  distinct : ∀ first ∈ done, ∀ second ∈ done,
    revision.keyOf host first.step = revision.keyOf host second.step → first.step = second.step

section Loop

variable {host : Host} {texts : Text → Prop} {start : Nat} {previous : Previous}
variable {step other : PlanStepArg}

/-! Identifiers of steps -/

theorem Previous.continuedId_eq (found : previous.continuedId host step = some id) :
    step.continues = [id] ∧ previous.references host id = 1 := by
  rw [Previous.continuedId] at found
  split at found
  next source continues =>
    split at found
    next once =>
      obtain rfl := Option.some_inj.mp found
      exact ⟨continues, once⟩
    · cases found
  · cases found

/-- A step that is renamed is the source of one step only. -/
theorem Previous.continuedId_unique (member : step ∈ previous.steps)
    (otherMember : other ∈ previous.steps) (different : step.step ≠ other.step)
    (found : previous.continuedId host step = some id)
    (comes : id ∈ other.continues ∨ previous.id host other.step = some id) : False := by
  obtain ⟨continues, once⟩ := Previous.continuedId_eq found
  rw [Previous.references, List.countP_eq_length_filter, List.length_eq_one_iff] at once
  obtain ⟨only, single⟩ := once
  have isOnly : ∀ source ∈ previous.steps,
      (id ∈ source.continues ∨ previous.id host source.step = some id) → source = only := by
    intro source listed isSource
    have kept : source ∈ [only] := by
      rw [← single, List.mem_filter]
      refine ⟨listed, ?_⟩
      rcases isSource with continued | kept
      · simp [continued]
      · simp [kept]
    exact List.mem_singleton.mp kept
  have first := isOnly step member (.inl (by rw [continues]; exact List.mem_singleton_self id))
  have second := isOnly other otherMember comes
  exact different (by rw [first, second])

variable {text : Text}

theorem Previous.id_eq {text : Text} (found : previous.id host text = some id) :
    ∃ plan, previous.plan = some plan ∧ text ∈ plan.plan.map (·.step) ∧
      id = previous.lineage.stepId host text := by
  rw [Previous.id] at found
  split at found
  · cases found
  next plan isPlan =>
    split at found
    next member =>
      obtain ⟨item, listed, same⟩ := List.any_eq_true.mp member
      refine ⟨plan, isPlan, List.mem_map.mpr ⟨item, listed, by simpa using same⟩, ?_⟩
      exact (Option.some_inj.mp found).symm
    · cases found

theorem Previous.id_of_mem {plan : UpdatePlanArgs} (isPlan : previous.plan = some plan)
    (member : text ∈ plan.plan.map (·.step)) :
    previous.id host text = some (previous.lineage.stepId host text) := by
  obtain ⟨item, listed, rfl⟩ := List.mem_map.mp member
  have held : plan.plan.any (·.step == item.step) = true :=
    List.any_eq_true.mpr ⟨item, listed, beq_self_eq_true item.step⟩
  rw [Previous.id, isPlan]
  exact if_pos held

/-- The step of an identifier is one of the previous plan. -/
theorem Previous.Sound.key_of_id (sound : previous.Sound host texts start) {text : Text}
    (found : previous.id host text = some id) :
    (previous.lineage.stepRequirements.get id).isSome = true := by
  obtain ⟨plan, isPlan, member, rfl⟩ := Previous.id_eq found
  have kept := sound.kept
  rw [isPlan] at kept
  obtain ⟨ids, mapped, _⟩ := kept.get_stepId member
  rw [mapped]
  rfl

/-- Without a plan no step carries anything. -/
theorem Previous.Sound.no_keys (sound : previous.Sound host texts start)
    (none_ : previous.plan = none) (key : Text) :
    previous.lineage.stepRequirements.get key = none := by
  cases found : previous.lineage.stepRequirements.get key with
  | none => rfl
  | some ids =>
    obtain ⟨step, member, _⟩ := sound.kept.keys key ids found
    rw [none_] at member
    cases member

theorem Inherits.known (sound : previous.Sound host texts start) (member : step ∈ previous.steps)
    (inherits : Inherits host previous step id) : Known host texts start id := by
  have ofKey : ∀ {key : Text}, (previous.lineage.stepRequirements.get key).isSome = true →
      Known host texts start key := by
    intro key isKey
    obtain ⟨ids, found⟩ := Option.isSome_iff_exists.mp isKey
    exact sound.kept.knownKeys key ids found
  cases inherits with
  | previous id found => exact ofKey (sound.key_of_id found)
  | continued id none_ found old =>
    have continues := (Previous.continuedId_eq found).1
    rcases sound.continues step member id (by rw [continues]; exact List.mem_singleton_self id) with
      isKey | isRequirement
    · exact ofKey isKey
    · obtain ⟨requirement, held⟩ := Option.isSome_iff_exists.mp isRequirement
      exact sound.kept.known id requirement held
  | text first => exact .step step.step (sound.given step member)

/-- Two steps do not inherit one identifier. -/
theorem Inherits.apart (separates : host.Separates texts) (sound : previous.Sound host texts start)
    (member : step ∈ previous.steps) (otherMember : other ∈ previous.steps)
    (different : step.step ≠ other.step) (inherits : Inherits host previous step id)
    (otherInherits : Inherits host previous other id) : False := by
  -- an identifier that is continued without a plan is that of a pin
  have pinned : ∀ {step : PlanStepArg} {text : Text}, step ∈ previous.steps →
      previous.plan = none → texts text →
        previous.continuedId host step ≠ some (planStepId host text) := by
    intro step text member none_ given found
    have continues := (Previous.continuedId_eq found).1
    rcases sound.continues step member _ (by rw [continues]; exact List.mem_singleton_self _) with
      isKey | isRequirement
    · rw [sound.no_keys none_] at isKey
      cases isKey
    · obtain ⟨requirement, held⟩ := Option.isSome_iff_exists.mp isRequirement
      obtain ⟨pinText, source, same⟩ := sound.first none_ _ _ held
      exact separates.pin_step pinText source text given same.symm
  cases inherits with
  | previous id found =>
    cases otherInherits with
    | previous id otherFound =>
      obtain ⟨plan, isPlan, listed, same⟩ := Previous.id_eq found
      obtain ⟨otherPlan, otherIsPlan, otherListed, otherSame⟩ := Previous.id_eq otherFound
      obtain rfl := Option.some_inj.mp (isPlan.symm.trans otherIsPlan)
      have kept := sound.kept
      rw [isPlan] at kept
      exact different (kept.distinct _ listed _ otherListed (same.symm.trans otherSame))
    | continued id none_ otherFound old =>
      exact Previous.continuedId_unique otherMember member different.symm otherFound (.inr found)
    | text first =>
      obtain ⟨plan, isPlan, _⟩ := Previous.id_eq found
      rw [first] at isPlan
      cases isPlan
  | continued id none_ found old =>
    cases otherInherits with
    | previous id otherFound =>
      exact Previous.continuedId_unique member otherMember different found (.inr otherFound)
    | continued id otherNone otherFound otherOld =>
      have continues := (Previous.continuedId_eq otherFound).1
      exact Previous.continuedId_unique member otherMember different found
        (.inl (by rw [continues]; exact List.mem_singleton_self id))
    | text first => exact pinned member first (sound.given other otherMember) found
  | text first =>
    generalize isId : planStepId host step.step = id at otherInherits
    cases otherInherits with
    | previous id otherFound =>
      obtain ⟨plan, isPlan, _⟩ := Previous.id_eq otherFound
      rw [first] at isPlan
      cases isPlan
    | continued id otherNone otherFound otherOld =>
      rw [← isId] at otherFound
      exact pinned otherMember first (sound.given step member) otherFound
    | text otherFirst =>
      exact different (separates.steps _ _ (sound.given step member)
        (sound.given other otherMember) isId)

/-- A step has an identifier of its own, or it inherits one. -/
theorem Previous.stepId_cases (previous : Previous) (uuids : Nat) (step : PlanStepArg) :
    (previous.isFresh host step = true ∧ previous.stepId host uuids step = host.uuid uuids) ∨
      (previous.isFresh host step = false ∧
        Inherits host previous step (previous.stepId host uuids step)) := by
  cases isFresh : previous.isFresh host step with
  | true => exact .inl ⟨rfl, by rw [Previous.stepId, if_pos isFresh]⟩
  | false =>
    refine .inr ⟨rfl, ?_⟩
    rw [Previous.stepId, if_neg (by rw [isFresh]; exact Bool.false_ne_true)]
    rw [Previous.isFresh] at isFresh
    cases own : previous.id host step.step with
    | some id => exact .previous id own
    | none =>
      rw [own] at isFresh
      cases continued : previous.continuedId host step with
      | some id =>
        refine .continued id own continued ?_
        rw [continued] at isFresh
        cases isKey : (previous.lineage.stepRequirements.get id).isSome with
        | true => exact .inl rfl
        | false =>
          cases isPlan : previous.plan with
          | none => exact .inr rfl
          | some plan => simp [isKey, isPlan] at isFresh
      | none =>
        rw [continued] at isFresh
        refine .text ?_
        cases isPlan : previous.plan with
        | none => rfl
        | some plan => simp [isPlan] at isFresh

/-! The loop -/

/-- What a step of a revision writes. -/
theorem reviseStep_spec (separates : host.Separates texts) {revision : Revision}
    (given : texts step.step) (known : ∀ id requirement, revision.requirements.get id =
      some requirement → Known host texts revision.uuids id) :
    ∃ ids, (reviseStep host previous revision step).stepRequirements =
        revision.stepRequirements.insert (previous.stepId host revision.uuids step) ids ∧
      ids.Pairwise (· < ·) ∧
      (∀ id ∈ previous.inherited revision.requirements (previous.stepId host revision.uuids step)
        step.continues, id ∈ ids) ∧
      (∀ id ∈ ids, id ∈ previous.inherited revision.requirements
        (previous.stepId host revision.uuids step) step.continues ∨
          ((reviseStep host previous revision step).requirements.get id).isSome = true) ∧
      (∃ id ∈ ids, ∃ requirement,
        (reviseStep host previous revision step).requirements.get id = some requirement ∧
          requirement.text = step.step) ∧
      (∀ id requirement, revision.requirements.get id = some requirement →
        (reviseStep host previous revision step).requirements.get id = some requirement) ∧
      (∀ id requirement,
        (reviseStep host previous revision step).requirements.get id = some requirement →
          revision.requirements.get id = some requirement ∨
            (revision.requirements.get id = none ∧ requirement.source = none ∧
              requirement.supersededReason = none ∧ id ∈ ids ∧
                Known host texts (reviseStep host previous revision step).uuids id)) ∧
      revision.uuids ≤ (reviseStep host previous revision step).uuids ∧
      (previous.isFresh host step = true →
        revision.uuids < (reviseStep host previous revision step).uuids) := by
  have counted : ∀ isFresh : Bool, revision.uuids ≤
      (if isFresh then revision.uuids + 1 else revision.uuids) ∧ (isFresh = true →
        revision.uuids < (if isFresh then revision.uuids + 1 else revision.uuids)) := by
    intro isFresh
    cases isFresh with
    | true => exact ⟨Nat.le_succ _, fun _ => Nat.lt_succ_self _⟩
    | false => exact ⟨Nat.le_refl _, fun isFresh => absurd isFresh Bool.false_ne_true⟩
  obtain ⟨le, lt⟩ := counted (previous.isFresh host step)
  rw [reviseStep]
  simp only
  split
  next own =>
    refine ⟨_, rfl, sorted_sortDedup _, fun id member => mem_sortDedup.mpr member,
      fun id member => .inl (mem_sortDedup.mp member), ?_, fun _ _ found => found,
      fun _ _ found => .inl found, le, lt⟩
    obtain ⟨id, member, isOwn⟩ := List.any_eq_true.mp own
    cases found : revision.requirements.get id with
    | none =>
      rw [found] at isOwn
      cases isOwn
    | some requirement =>
      rw [found, Option.any_some] at isOwn
      exact ⟨id, member, requirement, found, by simpa using isOwn⟩
  next absent =>
    generalize (if previous.isFresh host step then revision.uuids + 1 else revision.uuids) = uuids
      at le lt
    -- the new requirement has an identifier that is not taken
    have isNew : revision.requirements.get
        (if (revision.requirements.get (planStepId host step.step)).isSome = true
          then host.uuid uuids else planStepId host step.step) = none := by
      split
      · cases found : revision.requirements.get (host.uuid uuids) with
        | none => rfl
        | some requirement => exact absurd rfl ((known _ _ found).ne_uuid separates le)
      next free => simpa using free
    have isKnown : Known host texts
        (if (revision.requirements.get (planStepId host step.step)).isSome = true
          then uuids + 1 else uuids)
        (if (revision.requirements.get (planStepId host step.step)).isSome = true
          then host.uuid uuids else planStepId host step.step) := by
      split
      · exact .uuid uuids (Nat.lt_succ_self _)
      · exact .step step.step given
    have later : uuids ≤ (if (revision.requirements.get
        (planStepId host step.step)).isSome = true then uuids + 1 else uuids) := by
      split
      · exact Nat.le_succ _
      · exact Nat.le_refl _
    generalize (if (revision.requirements.get (planStepId host step.step)).isSome = true
      then host.uuid uuids else planStepId host step.step) = new at isNew isKnown
    refine ⟨_, rfl, sorted_sortDedup _, ?_, ?_, ⟨new, ?_, ⟨step.step, step.status, none, none⟩, ?_,
      rfl⟩, ?_, ?_, le.trans later, fun isFresh => Nat.lt_of_lt_of_le (lt isFresh) later⟩
    · intro id member
      rw [mem_sortDedup, List.mem_append, mem_sortDedup]
      exact .inl member
    · intro id member
      rw [mem_sortDedup, List.mem_append, mem_sortDedup, List.mem_singleton] at member
      rcases member with old | rfl
      · exact .inl old
      · rw [OrderedMap.get_insert, if_pos rfl]
        exact .inr rfl
    · rw [mem_sortDedup, List.mem_append]
      exact .inr (List.mem_singleton_self new)
    · rw [OrderedMap.get_insert, if_pos rfl]
    · intro id requirement found
      rw [OrderedMap.get_insert, if_neg]
      · exact found
      · rintro rfl
        rw [isNew] at found
        cases found
    intro id requirement found
    rw [OrderedMap.get_insert] at found
    split at found
    next same =>
      subst same
      obtain rfl := Option.some_inj.mp found
      refine .inr ⟨isNew, rfl, rfl, ?_, isKnown⟩
      rw [mem_sortDedup, List.mem_append]
      exact .inr (List.mem_singleton_self id)
    · exact .inl found

/-- One more step keeps what holds in the loop. -/
theorem Revision.Loop.next (separates : host.Separates texts)
    (sound : previous.Sound host texts start) {done : List PlanStepArg} {revision : Revision}
    (loop : revision.Loop host texts start previous done)
    (listed : ∀ other ∈ done, other ∈ previous.steps) (member : step ∈ previous.steps)
    (isNew : ∀ other ∈ done, step.step ≠ other.step) :
    (reviseStep host previous revision step).Loop host texts start previous (done ++ [step]) := by
  have given := sound.given step member
  obtain ⟨ids, keys, sorted, covers, within, own, kept, new, le, lt⟩ :=
    @reviseStep_spec _ _ previous _ separates _ given loop.known
  have identities : (reviseStep host previous revision step).stepIdentities =
      if previous.stepId host revision.uuids step = planStepId host step.step then
        revision.stepIdentities
      else revision.stepIdentities.insert (planStepId host step.step)
        (previous.stepId host revision.uuids step) := by
    rw [reviseStep]
    simp only
    split <;> rfl
  generalize isKey : previous.stepId host revision.uuids step = key at keys covers within identities
  generalize (reviseStep host previous revision step) = revised at *
  have different : ∀ other ∈ done, planStepId host other.step ≠ planStepId host step.step :=
    fun other earlier same => isNew other earlier
      (separates.steps _ _ (sound.given other (listed other earlier)) given same).symm
  -- the step has its key, and the others keep theirs
  have keyOf_step : revised.keyOf host step.step = key := by
    have none_ : revision.stepIdentities.get (planStepId host step.step) = none := by
      cases found : revision.stepIdentities.get (planStepId host step.step) with
      | none => rfl
      | some id =>
        obtain ⟨other, earlier, same, _⟩ := loop.identities _ _ found
        exact absurd same.symm (different other earlier)
    rw [Revision.keyOf, identities]
    split
    next same => rw [none_, Option.getD_none, same]
    · rw [OrderedMap.get_insert, if_pos rfl, Option.getD_some]
  have keyOf_other : ∀ other ∈ done,
      revised.keyOf host other.step = revision.keyOf host other.step := by
    intro other earlier
    rw [Revision.keyOf, Revision.keyOf, identities]
    split
    · rfl
    · rw [OrderedMap.get_insert, if_neg (different other earlier)]
  have origin_step : Inherits host previous step key ∨
      ∃ n, start ≤ n ∧ n < revised.uuids ∧ key = host.uuid n := by
    rcases previous.stepId_cases revision.uuids step with ⟨isFresh, same⟩ | ⟨_, inherits⟩
    · exact .inr ⟨revision.uuids, loop.count, lt isFresh, isKey.symm.trans same⟩
    · exact .inl (isKey ▸ inherits)
  -- the key is none of those that are there
  have apart : ∀ other ∈ done, revision.keyOf host other.step ≠ key := by
    intro other earlier same
    have otherMember := listed other earlier
    have otherKnown : Known host texts revision.uuids (revision.keyOf host other.step) := by
      rcases loop.origin other earlier with inherits | ⟨n, _, before, isUuid⟩
      · exact (inherits.known sound otherMember).mono loop.count
      · rw [isUuid]
        exact .uuid n before
    rcases previous.stepId_cases revision.uuids step with ⟨_, isFresh⟩ | ⟨_, inherits⟩
    · rw [isKey] at isFresh
      exact otherKnown.ne_uuid separates (Nat.le_refl _) (same.trans isFresh)
    · rw [isKey] at inherits
      rcases loop.origin other earlier with otherInherits | ⟨n, after, _, isUuid⟩
      · rw [same] at otherInherits
        exact inherits.apart separates sound member otherMember (isNew other earlier) otherInherits
      · exact (inherits.known sound member).ne_uuid separates after (same.symm.trans isUuid)
  have isIn : ∀ {other : PlanStepArg}, other ∈ done ++ [step] → other ∈ done ∨ other = step := by
    intro other listed_
    rw [List.mem_append, List.mem_singleton] at listed_
    exact listed_
  refine ⟨loop.count.trans le, fun id requirement found => kept _ _ (loop.kept _ _ found), ?_, ?_,
    ?_, ?_, ?_, ?_, ?_⟩
  · intro id requirement found
    rcases new id requirement found with old | ⟨absent, source, reason, listed_, _⟩
    · rcases loop.new id requirement old with first | ⟨absent, source, reason, otherKey, others,
        mapped, listed_⟩
      · exact .inl first
      refine .inr ⟨absent, source, reason, otherKey, others, ?_, listed_⟩
      have notKey : otherKey ≠ key := by
        rintro rfl
        obtain ⟨⟨other, earlier, same⟩, _⟩ := loop.keys _ _ mapped
        exact apart other earlier same
      rw [keys, OrderedMap.get_insert, if_neg notKey, mapped]
    refine .inr ⟨?_, source, reason, key, ids, ?_, listed_⟩
    · cases first : previous.lineage.requirements.get id with
      | none => rfl
      | some old =>
        rw [loop.kept _ _ first] at absent
        cases absent
    · rw [keys, OrderedMap.get_insert, if_pos rfl]
  · intro id requirement found
    rcases new id requirement found with old | ⟨_, _, _, _, known⟩
    · exact (loop.known _ _ old).mono le
    · exact known
  · intro textId id found
    rw [identities] at found
    split at found
    · obtain ⟨other, earlier, same⟩ := loop.identities _ _ found
      exact ⟨other, List.mem_append_left _ earlier, same⟩
    next changed =>
      rw [OrderedMap.get_insert] at found
      split at found
      next isText =>
        obtain rfl := Option.some_inj.mp found
        exact ⟨step, by simp, isText, fun same => changed (same.trans isText)⟩
      · obtain ⟨other, earlier, same⟩ := loop.identities _ _ found
        exact ⟨other, List.mem_append_left _ earlier, same⟩
  · intro other listed_
    rcases isIn listed_ with earlier | rfl
    · rw [keyOf_other other earlier]
      rcases loop.origin other earlier with inherits | ⟨n, after, before, isUuid⟩
      · exact .inl inherits
      · exact .inr ⟨n, after, Nat.lt_of_lt_of_le before le, isUuid⟩
    · rw [keyOf_step]
      exact origin_step
  · intro other listed_
    rcases isIn listed_ with earlier | rfl
    · rw [keyOf_other other earlier]
      obtain ⟨others, mapped, ⟨id, isListed, requirement, found, same⟩, inherited, continued⟩ :=
        loop.mapped other earlier
      refine ⟨others, ?_, ⟨id, isListed, requirement, kept _ _ found, same⟩, inherited, continued⟩
      rw [keys, OrderedMap.get_insert, if_neg (apart other earlier), mapped]
    rw [keyOf_step]
    refine ⟨ids, ?_, own, ?_, ?_⟩
    · rw [keys, OrderedMap.get_insert, if_pos rfl]
    · intro id carried
      exact covers id (List.mem_append_left _ carried)
    · intro source continues id carried
      refine covers id (List.mem_append_right _ ?_)
      exact List.mem_flatMap.mpr ⟨source, continues, List.mem_append_left _ carried⟩
  · intro otherKey others found
    rw [keys, OrderedMap.get_insert] at found
    split at found
    next same =>
      obtain rfl := Option.some_inj.mp found
      refine ⟨⟨step, by simp, by rw [keyOf_step, same]⟩, sorted, ?_⟩
      intro id isListed
      have isKept : ∀ {id : Text}, (previous.lineage.requirements.get id).isSome = true →
          (revised.requirements.get id).isSome = true := by
        intro id held
        obtain ⟨requirement, found⟩ := Option.isSome_iff_exists.mp held
        rw [kept _ _ (loop.kept _ _ found)]
        rfl
      have fromKey : ∀ {source : Text}, id ∈ previous.lineage.carried source →
          (revised.requirements.get id).isSome = true := by
        intro source carried
        rw [PlanLineage.carried] at carried
        cases mapped : previous.lineage.stepRequirements.get source with
        | none =>
          rw [mapped] at carried
          cases carried
        | some held =>
          rw [mapped, Option.getD_some] at carried
          exact isKept (sound.kept.listed _ _ mapped id carried)
      rcases within id isListed with inherited | here
      · rw [Previous.inherited, List.mem_append, List.mem_flatMap] at inherited
        rcases inherited with carried | ⟨source, _, fromSource⟩
        · exact fromKey carried
        rw [List.mem_append] at fromSource
        rcases fromSource with carried | orphan
        · exact fromKey carried
        split at orphan
        next isOrphan =>
          obtain rfl := List.mem_singleton.mp orphan
          rw [Bool.and_eq_true] at isOrphan
          obtain ⟨requirement, held⟩ := Option.isSome_iff_exists.mp isOrphan.2
          rw [kept _ _ held]
          rfl
        · cases orphan
      · exact here
    · obtain ⟨⟨other, earlier, same⟩, otherSorted, held⟩ := loop.keys _ _ found
      refine ⟨⟨other, List.mem_append_left _ earlier, by rw [keyOf_other other earlier, same]⟩,
        otherSorted, ?_⟩
      intro id isListed
      obtain ⟨requirement, old⟩ := Option.isSome_iff_exists.mp (held id isListed)
      rw [kept _ _ old]
      rfl
  · intro first firstIn second secondIn same
    rcases isIn firstIn with firstEarlier | rfl
    · rcases isIn secondIn with secondEarlier | rfl
      · rw [keyOf_other first firstEarlier, keyOf_other second secondEarlier] at same
        exact loop.distinct first firstEarlier second secondEarlier same
      · rw [keyOf_other first firstEarlier, keyOf_step] at same
        exact absurd same (apart first firstEarlier)
    · rcases isIn secondIn with secondEarlier | rfl
      · rw [keyOf_other second secondEarlier, keyOf_step] at same
        exact absurd same.symm (apart second secondEarlier)
      · rfl

end Loop

/-! ## The revised lineage -/

/-- The reason that a requirement has after some steps are superseded. -/
def retiredReason (previous : OrderedMap Text (List Text)) (superseded : List SupersededStep)
    (isMapped : Bool) (id : Text) (reason : Option Text) : Option Text :=
  superseded.foldl (fun reason dropped =>
    if ((previous.get dropped.stepId).getD [dropped.stepId]).contains id && !isMapped then
      some (trim dropped.reason)
    else reason) reason

theorem isSome_retiredReason {previous : OrderedMap Text (List Text)}
    {superseded : List SupersededStep} {isMapped : Bool} {reason : Option Text} :
    (retiredReason previous superseded isMapped id reason).isSome = true ↔ reason.isSome = true ∨
      (isMapped = false ∧ ∃ entry ∈ superseded,
        id ∈ (previous.get entry.stepId).getD [entry.stepId]) := by
  induction superseded generalizing reason with
  | nil => simp [retiredReason]
  | cons first rest ih =>
    rw [retiredReason, List.foldl_cons, ← retiredReason, ih]
    cases isMapped with
    | true => simp
    | false =>
      by_cases held : id ∈ (previous.get first.stepId).getD [first.stepId]
      · simp [held]
      · simp [held]

theorem mapValues_mapValues {α β : Type} [LinearOrder α] (map : OrderedMap α β)
    (first second : α → β → β) : (map.mapValues first).mapValues second =
      map.mapValues fun key value => second key (first key value) := by
  apply OrderedMap.ext_get
  intro key
  rw [OrderedMap.get_mapValues, OrderedMap.get_mapValues, OrderedMap.get_mapValues, Option.map_map]
  rfl

theorem PlanLineage.supersede_eq (previous : OrderedMap Text (List Text))
    (superseded : List SupersededStep) (lineage : PlanLineage) :
    lineage.supersede previous superseded =
      { lineage with requirements := lineage.requirements.mapValues fun id requirement =>
          { requirement with
            supersededReason := retiredReason previous superseded (lineage.isMapped id) id
              requirement.supersededReason } } := by
  induction superseded generalizing lineage with
  | nil =>
    have same : lineage.requirements.mapValues (fun id requirement =>
        { requirement with
          supersededReason := retiredReason previous [] (lineage.isMapped id) id
            requirement.supersededReason }) =
          lineage.requirements := by
      apply OrderedMap.ext_get
      intro id
      rw [OrderedMap.get_mapValues]
      exact Option.map_id'
    rw [same]
    rfl
  | cons first rest ih =>
    rw [supersede, List.foldl_cons, ← supersede, ih]
    simp only [mapValues_mapValues, PlanLineage.isMapped]
    congr 2
    funext id requirement
    rw [retiredReason, retiredReason, List.foldl_cons]
    by_cases held : (((previous.get first.stepId).getD [first.stepId]).contains id &&
        !isMappedBy lineage.stepRequirements id) = true
    · simp only [held, ↓reduceIte]
    · simp only [held, ↓reduceIte, Bool.false_eq_true]

section Revise

variable {host : Host} {texts : Text → Prop} {start : Nat} {lineage : PlanLineage}
variable {plan : Option UpdatePlanArgs} {steps : List PlanStepArg}
variable {superseded : List SupersededStep}

/-- The loop over all the steps. -/
theorem Revision.loop_all (separates : host.Separates texts)
    (sound : (⟨plan, lineage, steps⟩ : Previous).Sound host texts start) :
    (steps.foldl (reviseStep host ⟨plan, lineage, steps⟩)
      ⟨lineage.requirements, .empty, .empty, start⟩).Loop host texts start
        ⟨plan, lineage, steps⟩ steps := by
  have run : ∀ done rest : List PlanStepArg, done ++ rest = steps → ∀ revision : Revision,
      revision.Loop host texts start ⟨plan, lineage, steps⟩ done →
        (rest.foldl (reviseStep host ⟨plan, lineage, steps⟩) revision).Loop host texts start
          ⟨plan, lineage, steps⟩ steps := by
    intro done rest split_ revision loop
    induction rest generalizing done revision with
    | nil =>
      rw [List.append_nil] at split_
      rw [← split_]
      rw [← split_] at loop
      exact loop
    | cons first rest ih =>
      refine ih (done ++ [first]) (by simpa using split_) _ ?_
      have nodup := sound.nodup
      simp only at nodup
      refine loop.next separates sound (fun other earlier => ?_) ?_ (fun other earlier same => ?_)
      · simp only
        rw [← split_]
        exact List.mem_append_left _ earlier
      · simp only
        rw [← split_]
        exact List.mem_append_right _ List.mem_cons_self
      · rw [← split_, List.map_append, List.map_cons, List.nodup_append] at nodup
        exact nodup.2.2 _ (List.mem_map_of_mem earlier) _ List.mem_cons_self same.symm
  refine run [] steps rfl _ ⟨Nat.le_refl _, fun _ _ found => found, fun _ _ found => .inl found,
    sound.kept.known, ?_, ?_, ?_, ?_, ?_⟩
  · intro key id found
    cases found
  · intro step member
    cases member
  · intro step member
    cases member
  · intro key ids found
    cases found
  · intro step member
    cases member

/-- The lineage that a loop leaves: what the superseded steps leave uncarried is retired. -/
def Revision.revised (revision : Revision) (old : PlanLineage) (superseded : List SupersededStep)
    (accepted : OrderedMap Text PlanInputReference) : PlanLineage :=
  { old with
    workflow := .empty
    stepRequirements := revision.stepRequirements
    stepIdentities := revision.stepIdentities
    stepRevisions := old.stepRevisions.retain fun id =>
      (revision.stepRequirements.get id).isSome
    requirements := revision.requirements.mapValues fun id requirement =>
      { requirement with
        supersededReason := retiredReason old.stepRequirements superseded
          (isMappedBy revision.stepRequirements id) id
          (if isMappedBy revision.stepRequirements id then none
            else requirement.supersededReason) }
    acceptedSupersessions := accepted }

/-- What a revision writes, in terms of its loop. -/
theorem PlanLineage.revise_spec (separates : host.Separates texts)
    (sound : (⟨plan, lineage, steps⟩ : Previous).Sound host texts start) :
    ∃ revision : Revision,
      revision.Loop host texts start ⟨plan, lineage, steps⟩ steps ∧
      (lineage.revise host start plan steps superseded).2 = revision.uuids ∧
      (lineage.revise host start plan steps superseded).1 =
        revision.revised lineage superseded (lineage.acceptedSupersessions.retain fun id =>
          !isMappedBy revision.stepRequirements id) := by
  refine ⟨_, Revision.loop_all separates sound, rfl, ?_⟩
  rw [revise]
  simp only [supersede_eq, mapValues_mapValues, PlanLineage.isMapped]
  rw [Revision.revised]
  congr 2
  funext id requirement
  generalize (steps.foldl (reviseStep host ⟨plan, lineage, steps⟩)
    ⟨lineage.requirements, .empty, .empty, start⟩) = revision
  by_cases isMapped : isMappedBy revision.stepRequirements id = true
  · simp only [isMapped, ↓reduceIte]
  · simp only [isMapped, ↓reduceIte, Bool.false_eq_true]

theorem Revision.Loop.knownKey {previous : Previous} {revision : Revision}
    (sound : previous.Sound host texts start) (loop : revision.Loop host texts start previous steps)
    (listed : ∀ step ∈ steps, step ∈ previous.steps) {key : Text}
    (found : revision.stepRequirements.get key = some ids) :
    Known host texts revision.uuids key := by
  obtain ⟨⟨step, member, rfl⟩, _⟩ := loop.keys key ids found
  rcases loop.origin step member with inherits | ⟨n, _, before, same⟩
  · exact (inherits.known sound (listed step member)).mono loop.count
  · rw [same]
    exact .uuid n before

variable {revision : Revision} {accepted : OrderedMap Text PlanInputReference}

theorem Revision.get_revised (id : Text) :
    (revision.revised lineage superseded accepted).requirements.get id =
      (revision.requirements.get id).map fun requirement =>
        { requirement with
          supersededReason := retiredReason lineage.stepRequirements superseded
            (isMappedBy revision.stepRequirements id) id
            (if isMappedBy revision.stepRequirements id then none
              else requirement.supersededReason) } :=
  OrderedMap.get_mapValues _ _ _

/-- A requirement is retired when no step carries it and it was, or an entry names it. -/
theorem Revision.isRetired_iff (id : Text) (old : Option Text) :
    (retiredReason lineage.stepRequirements superseded
      (isMappedBy revision.stepRequirements id) id
      (if isMappedBy revision.stepRequirements id then none else old)).isSome = true ↔
    isMappedBy revision.stepRequirements id = false ∧ (old.isSome = true ∨
      ∃ entry ∈ superseded,
        id ∈ (lineage.stepRequirements.get entry.stepId).getD [entry.stepId]) := by
  rw [isSome_retiredReason]
  cases isMappedBy revision.stepRequirements id with
  | true => simp
  | false => simp

/-- The identifiers of the steps after a revision. -/
theorem Revision.Loop.stepId_eq (separates : host.Separates texts)
    (sound : (⟨plan, lineage, steps⟩ : Previous).Sound host texts start)
    (loop : revision.Loop host texts start ⟨plan, lineage, steps⟩ steps) {text : Text}
    (given : texts text) : (revision.revised lineage superseded accepted).stepId host text =
      revision.keyOf host text := by
  refine @PlanLineage.stepId_eq _ _ revision.uuids separates _ _ given ?_ ?_
  · intro key id found
    obtain ⟨item, member, same, _⟩ := loop.identities key id found
    exact ⟨item.step, sound.given item member, same⟩
  · intro key ids found
    exact loop.knownKey sound (fun _ member => member) found

/-- A revision keeps what holds of a lineage. -/
theorem Revision.Loop.kept_revised (separates : host.Separates texts)
    (sound : (⟨plan, lineage, steps⟩ : Previous).Sound host texts start)
    (loop : revision.Loop host texts start ⟨plan, lineage, steps⟩ steps)
    (isAccepted : ∀ id, (accepted.get id).isSome = true ↔
      isMappedBy revision.stepRequirements id = false ∧
        ((lineage.acceptedSupersessions.get id).isSome = true ∨ ∃ entry ∈ superseded,
          id ∈ (lineage.stepRequirements.get entry.stepId).getD [entry.stepId]))
    (names : ∀ entry ∈ superseded,
      ∀ id ∈ (lineage.stepRequirements.get entry.stepId).getD [entry.stepId],
        (lineage.requirements.get id).isSome = true) :
    (revision.revised lineage superseded accepted).Kept host texts revision.uuids
      (steps.map (·.step)) := by
  have identified : ∀ step ∈ steps,
      (revision.revised lineage superseded accepted).stepId host step.step =
        revision.keyOf host step.step :=
    fun step member => loop.stepId_eq separates sound (sound.given step member)
  have member_of : ∀ {text : Text}, text ∈ steps.map (·.step) →
      ∃ step ∈ steps, step.step = text := List.mem_map.mp
  have held : ∀ id requirement, revision.requirements.get id = some requirement →
      ∃ new, (revision.revised lineage superseded accepted).requirements.get id = some new ∧
        new.text = requirement.text ∧ new.status = requirement.status ∧
          new.supersededReason = retiredReason lineage.stepRequirements superseded
            (isMappedBy revision.stepRequirements id) id
            (if isMappedBy revision.stepRequirements id then none
              else requirement.supersededReason) := by
    intro id requirement found
    have isNew := @Revision.get_revised lineage superseded revision accepted id
    rw [found, Option.map_some] at isNew
    exact ⟨_, isNew, rfl, rfl, rfl⟩
  refine ⟨?_, sound.nodup, ?_, ?_, ?_, ?_, ?_, ?_, ?_, ?_, ?_, ?_, ?_, ?_, rfl,
    sound.kept.legacyMetadata⟩
  · intro text member
    obtain ⟨step, listed, rfl⟩ := member_of member
    exact sound.given step listed
  · intro key id found
    obtain ⟨step, listed, same⟩ := loop.identities key id found
    exact ⟨step.step, List.mem_map_of_mem listed, same⟩
  · intro key ids found
    obtain ⟨⟨step, listed, same⟩, _⟩ := loop.keys key ids found
    exact ⟨step.step, List.mem_map_of_mem listed, (identified step listed).trans same⟩
  · intro first firstIn second secondIn same
    obtain ⟨step, listed, rfl⟩ := member_of firstIn
    obtain ⟨other, otherListed, rfl⟩ := member_of secondIn
    rw [identified step listed, identified other otherListed] at same
    exact loop.distinct step listed other otherListed same
  · intro text member
    obtain ⟨step, listed, rfl⟩ := member_of member
    obtain ⟨ids, mapped, ⟨id, isListed, requirement, found, same⟩, _⟩ := loop.mapped step listed
    obtain ⟨new, isNew, text, _⟩ := held id requirement found
    refine ⟨id, ?_, new, isNew, text.trans same⟩
    rw [identified step listed, PlanLineage.carried_of_get mapped]
    exact isListed
  · intro key ids found
    exact (loop.keys key ids found).2.1
  · intro key ids found id member
    obtain ⟨requirement, isRequirement⟩ :=
      Option.isSome_iff_exists.mp ((loop.keys key ids found).2.2 id member)
    obtain ⟨new, isNew, _⟩ := held id requirement isRequirement
    rw [isNew]
    rfl
  · intro key ids found
    exact loop.knownKey sound (fun _ member => member) found
  · intro id requirement found
    rw [Revision.get_revised, Option.map_eq_some_iff] at found
    obtain ⟨old, isOld, _⟩ := found
    exact loop.known id old isOld
  · intro id
    have isSome := isAccepted id
    refine isSome.trans ⟨?_, ?_⟩
    · rintro ⟨unmapped, reason⟩
      have isOld : ∃ old, revision.requirements.get id = some old ∧
          (old.supersededReason.isSome = true ∨ ∃ entry ∈ superseded,
            id ∈ (lineage.stepRequirements.get entry.stepId).getD [entry.stepId]) := by
        rcases reason with retired | ⟨entry, listed, named⟩
        · obtain ⟨requirement, found, old⟩ := (sound.kept.accepted id).mp retired
          exact ⟨requirement, loop.kept id requirement found, .inl old⟩
        · obtain ⟨requirement, found⟩ := Option.isSome_iff_exists.mp (names entry listed id named)
          exact ⟨requirement, loop.kept id requirement found, .inr ⟨entry, listed, named⟩⟩
      obtain ⟨old, found, why⟩ := isOld
      obtain ⟨new, isNew, _, _, isReason⟩ := held id old found
      refine ⟨new, isNew, ?_⟩
      rw [isReason]
      exact (Revision.isRetired_iff id old.supersededReason).mpr ⟨unmapped, why⟩
    · rintro ⟨new, found, retired⟩
      rw [Revision.get_revised, Option.map_eq_some_iff] at found
      obtain ⟨old, isOld, rfl⟩ := found
      obtain ⟨unmapped, why⟩ := (Revision.isRetired_iff id old.supersededReason).mp retired
      refine ⟨unmapped, ?_⟩
      rcases why with reason | named
      · rcases loop.new id old isOld with previous | ⟨_, _, none_, _⟩
        · exact .inl ((sound.kept.accepted id).mpr ⟨old, previous, reason⟩)
        · rw [none_] at reason
          cases reason
      · exact .inr named
  · intro id isMapped
    cases isRetired : accepted.get id with
    | none => exact isRetired
    | some reference =>
      have unmapped := ((isAccepted id).mp (by rw [isRetired]; rfl)).1
      have mapped : isMappedBy revision.stepRequirements id = true := isMapped
      rw [mapped] at unmapped
      cases unmapped
  · intro id isResolved
    obtain ⟨requirement, found, completed⟩ := sound.kept.resolved id isResolved
    obtain ⟨new, isNew, _, status, _⟩ := held id requirement (loop.kept id requirement found)
    exact ⟨new, isNew, status.trans completed⟩
  intro id isSome
  have retained : (OrderedMap.retain lineage.stepRevisions fun id =>
      (revision.stepRequirements.get id).isSome).get id = _ := OrderedMap.get_retain _ _ _
  have isKey : ((if (revision.stepRequirements.get id).isSome = true then
      lineage.stepRevisions.get id else none : Option Nat)).isSome = true := by
    rw [← retained]
    exact isSome
  split at isKey
  next isKey_ => exact isKey_
  · cases isKey

end Revise

end Codex.PlanStore
