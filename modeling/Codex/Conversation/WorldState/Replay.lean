import Codex.Conversation.WorldState.Render

/-!
# Replaying persisted world state

The rollout items that `update_world_state` emits lead from a baseline to the manager's baseline.
A rendered snapshot takes every null it holds from the same place of the snapshot before, as long
as preserved sections hold accepted values, so the merge patch between the two is exact.
-/

namespace Codex.Conversation.World

/-- A snapshot as a JSON object. -/
def held (snapshot : Option WorldStateSnapshot) : Option Json :=
  snapshot.map fun snapshot => .object snapshot.sections.fields

theorem get_held (snapshot : Option WorldStateSnapshot) (id : String) :
    (snapshot.bind fun snapshot => snapshot.getSection id).map Value.json =
      (held snapshot).bind fun json => json.get id := by
  cases snapshot with
  | none => rfl
  | some snapshot => exact Object.get_map_json snapshot.sections id

/-- Where a snapshot holds the accepted rendering of an extension. -/
def heldRendering (snapshot : Option WorldStateSnapshot) (id : String) : Option Json :=
  ((held snapshot).bind fun json => json.get "_codex_extension_delivery").bind
    fun json => json.get id

theorem renderedExtension_held (snapshot : Option WorldStateSnapshot) (id : String) :
    (snapshot.bind fun snapshot => snapshot.renderedExtension id).map Value.json =
      heldRendering snapshot id := by
  cases snapshot with
  | none => rfl
  | some snapshot =>
    rw [heldRendering, ← get_held, Option.bind_some, WorldStateSnapshot.renderedExtension,
      Option.bind_some, WorldStateSnapshot.getSection]
    cases snapshot.sections.get "_codex_extension_delivery" with
    | none => rfl
    | some value => exact Value.get_map_json value id

/-- A preserved section holds a snapshot without nulls or the baseline's own, and likewise every
    rendering that a section carries over. -/
def Section.Accepted (baseline : Option WorldStateSnapshot) (id : String) (entry : Section) :
    Prop :=
  (∀ snapshot rendering, entry = .preserved snapshot rendering →
    NullFree snapshot.json ∨ (baseline.bind fun old => old.getSection id) = some snapshot) ∧
  ∀ rendering, entry.retainedRendering = some rendering →
    NullFree rendering.json ∨ (baseline.bind fun old => old.renderedExtension id) = some rendering

def WorldState.Accepted (baseline : Option WorldStateSnapshot) (worldState : WorldState) : Prop :=
  ∀ named ∈ worldState.sections, named.2.Accepted baseline named.1

variable {baseline : Option WorldStateSnapshot} {id : String} {value : Value} {entry : Section}
   {host : Host}

theorem carried_of_section
    (source : NullFree value.json ∨ (baseline.bind fun old => old.getSection id) = some value) :
    Carried ((held baseline).bind fun json => json.get id) value.json := by
  rcases source with nullFree | fromBaseline
  · exact .of_nullFree nullFree _
  · rw [← get_held, fromBaseline]
    exact .same value.json

theorem carried_of_rendering (source : NullFree value.json ∨
      (baseline.bind fun old => old.renderedExtension id) = some value) :
    Carried (heldRendering baseline id) value.json := by
  rcases source with nullFree | fromBaseline
  · exact .of_nullFree nullFree _
  · rw [← renderedExtension_held, fromBaseline]
    exact .same value.json

theorem nullFree_stripNulls (nonNull : (stripNulls value).isNull = false) :
    NullFree (stripNulls value).json := by
  refine nullFree_removeNullObjectFields value.json value.canonical ?_
  obtain ⟨json, canonical⟩ := value
  cases json with
  | null => cases nonNull
  | object fields => rfl
  | bool value => rfl
  | number text => rfl
  | string text => rfl
  | array values => rfl

theorem nullFree_renderingOf (role text : String) : NullFree (renderingOf role text).json := by
  refine .object fun key value found => ?_
  change Fields.get key (Fields.insert "text" (.string text)
    (Fields.insert "role" (.string role) [])) = some value at found
  rw [Fields.get_insert, Fields.get_insert] at found
  split at found
  · simp only [Option.some.injEq] at found
    exact found ▸ .leaf rfl rfl
  · split at found
    · simp only [Option.some.injEq] at found
      exact found ▸ .leaf rfl rfl
    · cases found

/-- The snapshot of an accepted section. -/
theorem Section.Accepted.snapshot (accepted : entry.Accepted baseline id)
    (found : entry.snapshot = some value) :
    NullFree value.json ∨ (baseline.bind fun old => old.getSection id) = some value := by
  cases entry with
  | typed state =>
    obtain ⟨serialized, nonNull⟩ := Option.filter_eq_some_iff.mp found
    obtain ⟨raw, -, rfl⟩ := Option.map_eq_some_iff.mp serialized
    exact .inl (nullFree_stripNulls (by simpa using nonNull))
  | extension contribution required rendering =>
    rw [Section.snapshot] at found
    obtain ⟨stripped, nonNull⟩ := Option.filter_eq_some_iff.mp found
    simp only [Option.some.injEq] at stripped
    subst stripped
    exact .inl (nullFree_stripNulls (by simpa using nonNull))
  | preserved snapshot rendering =>
    simp only [Section.snapshot, Option.some.injEq] at found
    subst found
    exact accepted.1 snapshot rendering rfl

theorem Section.budgetFallback_stripped {snapshot : Value} {fragment : Fragment}
    (found : entry.budgetFallback = some (snapshot, fragment)) :
    ∃ raw, snapshot = stripNulls raw := by
  cases entry with
  | typed state => cases found
  | preserved snapshot rendering => cases found
  | extension contribution required rendering =>
    obtain ⟨entry, -, same⟩ := Option.map_eq_some_iff.mp found
    cases same
    exact ⟨entry.1, rfl⟩

/-- What a delivery is about to admit. -/
theorem chooseDelivery_admitted (accepted : entry.Accepted baseline id)
    {previous : PreviousSectionState Value} {rejected rendering : Option Value} {observed : Bool}
    {budget : Nat} (admitted : (chooseDelivery entry previous rejected rendering observed
      budget).admittedSnapshot = some value) :
    NullFree value.json ∨ (baseline.bind fun old => old.getSection id) = some value := by
  simp only [chooseDelivery] at admitted
  split at admitted
  · split at admitted
    · exact accepted.snapshot admitted
    next snapshot fragment fallback =>
    split at admitted
    · next usable =>
      simp only [Option.some.injEq] at admitted
      subst admitted
      obtain ⟨raw, rfl⟩ := Section.budgetFallback_stripped fallback
      simp only [Bool.and_eq_true, Bool.not_eq_true'] at usable
      exact .inl (nullFree_stripNulls usable.1.1)
    · exact accepted.snapshot admitted
  · exact accepted.snapshot admitted

theorem carried_withDelivery {previous : Option Json} {snapshot : Value}
    (carried : Carried previous snapshot.json) (records : Bool) {digest : Option Value}
    (digestCarried : ∀ value, digest = some value →
      Carried (previous.bind fun old => old.get "_retained_delivery") value.json) :
    Carried previous (withDelivery records digest snapshot).json := by
  unfold withDelivery
  split
  · next fields value isObject =>
    have isFields : snapshot.json = .object fields.fields := by
      obtain ⟨json, canonical⟩ := snapshot
      cases json <;> cases isObject
      rfl
    rw [isFields] at carried
    refine .object fun key entry found => ?_
    change Fields.get key (Fields.insert "_retained_delivery" value.json fields.fields) = some entry
      at found
    rw [Fields.get_insert] at found
    split at found
    · next isDigest =>
      simp only [Option.some.injEq] at found
      subst found isDigest
      exact digestCarried value rfl
    · exact carried.field found
  · exact carried

theorem carried_sectionValue {rejected : Option Value} {delivery : Delivery} {advanced : Bool}
    (rejectedHeld : ∀ old, rejected = some old →
      (baseline.bind fun snapshot => snapshot.getSection id) = some old)
    (admitted : ∀ snapshot, delivery.admittedSnapshot = some snapshot →
      NullFree snapshot.json ∨ (baseline.bind fun old => old.getSection id) = some snapshot)
    (found : sectionValue host entry rejected delivery advanced = some value) :
    Carried ((held baseline).bind fun json => json.get id) value.json := by
  obtain ⟨snapshot, chosen, rfl⟩ := Option.map_eq_some_iff.mp found
  refine carried_withDelivery (carried_of_section ?_) _ ?_
  · cases advanced with
    | true => exact admitted snapshot chosen
    | false => exact .inr (rejectedHeld snapshot chosen)
  intro digest isDigest
  rcases Option.or_eq_some_iff.mp isDigest with delivered | ⟨-, kept⟩
  · split at delivered
    · obtain ⟨fragment, -, rfl⟩ := Option.map_eq_some_iff.mp delivered
      exact .leaf rfl rfl
    · cases delivered
  · obtain ⟨old, isOld, entryOfOld⟩ := Option.bind_eq_some_iff.mp kept
    rw [← get_held, rejectedHeld old isOld, Option.map_some, Option.bind_some,
      ← Value.get_map_json, entryOfOld]
    exact .same digest.json

theorem carried_acceptedBefore (accepted : entry.Accepted baseline id)
    (found : acceptedBefore baseline id entry = some value) :
    Carried (heldRendering baseline id) value.json := by
  rcases Option.or_eq_some_iff.mp found with fromBaseline | ⟨-, retained⟩
  · exact carried_of_rendering (.inr fromBaseline)
  · exact carried_of_rendering (accepted.2 value retained)

theorem carried_acceptedAfter (accepted : entry.Accepted baseline id) {delivery : List Fragment}
    {advanced : Bool}
    (found : acceptedAfter entry delivery advanced (acceptedBefore baseline id entry) =
      some value) : Carried (heldRendering baseline id) value.json := by
  unfold acceptedAfter at found
  split at found
  · rcases Option.or_eq_some_iff.mp found with delivered | ⟨-, before⟩
    · obtain ⟨fragment, -, rfl⟩ := Option.map_eq_some_iff.mp delivered
      exact .of_nullFree (nullFree_renderingOf fragment.role fragment.text) _
    · exact carried_acceptedBefore accepted before
  · exact carried_acceptedBefore accepted found

/-- Everything rendered so far is carried from the baseline. -/
structure Rendering.Carried (baseline : Option WorldStateSnapshot) (state : Rendering) : Prop where
  sections : ∀ id value, Fields.get id state.sections.fields = some value →
    World.Carried ((held baseline).bind fun json => json.get id) value
  renderings : ∀ id value, Fields.get id state.extensionRenderings.fields = some value →
    World.Carried (heldRendering baseline id) value

theorem Rendering.Carried.renderSection {previousOf : String → Section → PreviousSectionState Value}
    (known : ∀ id entry old, (previousOf id entry).rejectedSnapshot = some old →
      (baseline.bind fun snapshot => snapshot.getSection id) = some old) {state : Rendering}
    (carried : state.Carried baseline) {named : String × Section}
    (accepted : named.2.Accepted baseline named.1) :
    (renderSection host baseline previousOf state named).Carried baseline := by
  unfold World.renderSection
  dsimp only
  split
  · exact ⟨carried.sections, carried.renderings⟩
  next snapshot found =>
  refine ⟨?_, ?_⟩
  · intro id value entry
    change Fields.get id (Fields.insert named.1 snapshot.json state.sections.fields) = some value at entry
    rw [Fields.get_insert] at entry
    split at entry
    · next here =>
      simp only [Option.some.injEq] at entry
      subst entry here
      exact carried_sectionValue (known named.1 named.2)
        (fun snapshot admitted => chooseDelivery_admitted accepted admitted) found
    · exact carried.sections id value entry
  intro id value entry
  dsimp only at entry
  split at entry
  · cases isAccepted : acceptedAfter named.2 _ _ (acceptedBefore baseline named.1 named.2) with
    | none =>
      rw [isAccepted] at entry
      exact carried.renderings id value entry
    | some rendering =>
      rw [isAccepted] at entry
      change Fields.get id (Fields.insert named.1 rendering.json
        state.extensionRenderings.fields) = some value at entry
      rw [Fields.get_insert] at entry
      split at entry
      · next here =>
        simp only [Option.some.injEq] at entry
        subst entry here
        exact carried_acceptedAfter accepted isAccepted
      · exact carried.renderings id value entry
  · exact carried.renderings id value entry

theorem Rendering.Carried.renderSections {host : Host} {baseline : Option WorldStateSnapshot}
    {previousOf : String → Section → PreviousSectionState Value}
    (known : ∀ id entry old, (previousOf id entry).rejectedSnapshot = some old →
      (baseline.bind fun snapshot => snapshot.getSection id) = some old)
    {sections : List (String × Section)}
    (accepted : ∀ named ∈ sections, named.2.Accepted baseline named.1)
    {state : Rendering} (carried : state.Carried baseline) :
    (sections.foldl (World.renderSection host baseline previousOf) state).Carried baseline := by
  induction sections generalizing state with
  | nil => exact carried
  | cons named sections ih =>
    rw [List.foldl_cons]
    refine ih (fun other member => accepted other (List.mem_cons_of_mem _ member)) ?_
    exact carried.renderSection known (accepted named List.mem_cons_self)

/-- A rendered snapshot is carried from the snapshot it was rendered against. -/
theorem carried_renderWith {host : Host} {baseline : Option WorldStateSnapshot}
    {previousOf : String → Section → PreviousSectionState Value}
    (known : ∀ id entry old, (previousOf id entry).rejectedSnapshot = some old →
      (baseline.bind fun snapshot => snapshot.getSection id) = some old)
    {worldState : WorldState} (accepted : worldState.Accepted baseline) :
    Carried (held baseline)
      (.object (renderWith host worldState baseline previousOf).2.sections.fields) := by
  have start : Rendering.Carried baseline ⟨MAX_MODEL_CONTEXT_BYTES, [], .empty, .empty⟩ :=
    ⟨fun id value found => (by cases found), fun id value found => (by cases found)⟩
  have orderedAccepted : ∀ named ∈ worldState.sections.filter (fun named => named.2.required) ++
      worldState.sections.filter (fun named => !named.2.required),
      named.2.Accepted baseline named.1 := by
    intro named member
    rcases List.mem_append.mp member with required | optional
    · exact accepted named (List.mem_of_mem_filter required)
    · exact accepted named (List.mem_of_mem_filter optional)
  have carried := @Rendering.Carried.renderSections host _ _ known _ orderedAccepted _ start
  unfold renderWith
  dsimp only
  refine .object fun id value found => ?_
  split at found
  · exact carried.sections id value found
  change Fields.get id (Fields.insert "_codex_extension_delivery" (.object _) _) = some value
    at found
  rw [Fields.get_insert] at found
  split at found
  · next here =>
    simp only [Option.some.injEq] at found
    subst found here
    exact .object carried.renderings
  · exact carried.sections id value found

theorem previousInHistory_known {host : Host} {baseline : Option WorldStateSnapshot}
    {items : List ResponseItem} {id : String} {entry : Section} {old : Value}
    (known : (previousInHistory host baseline items id entry).rejectedSnapshot = some old) :
    (baseline.bind fun snapshot => snapshot.getSection id) = some old := by
  unfold previousInHistory at known
  split at known
  · next value found =>
    split at known
    · cases known
    split at known
    · cases known
    · split at known
      · cases known
      · simp only [PreviousSectionState.rejectedSnapshot, Option.some.injEq] at known
        rw [found, known]
  · split at known
    · cases known
    · cases known

theorem mergePatchFrom_eq (current previous : WorldStateSnapshot) :
    (current.mergePatchFrom previous).map Value.json =
      createMergePatch (.object previous.sections.fields) (.object current.sections.fields) := by
  rw [createMergePatch, WorldStateSnapshot.mergePatchFrom]
  dsimp only [Json.asObject, Option.map_some, Option.getD_some]
  split
  · next empty => simp [empty]
  · next nonempty => simp [nonempty]

theorem applyMergePatch_object (snapshot : WorldStateSnapshot) (patch : Value)
    {result : WorldStateSnapshot}
    (isObject : patch.json.asObject.isSome = true)
    (applied : applyMergePatchValue (.object snapshot.sections.fields) patch.json =
      .object result.sections.fields) : snapshot.applyMergePatch patch = some result := by
  obtain ⟨json, canonical⟩ := patch
  cases json with
  | object fields =>
    rw [applyMergePatchValue] at applied
    simp only [Json.asObject, Option.getD_some, Json.object.injEq] at applied
    obtain ⟨⟨resultFields, resultCanonical⟩⟩ := result
    dsimp only at applied
    subst applied
    rfl
  | null | bool value | number text | string text | array values => cases isObject

/-- The patch to a carried snapshot leads there, and is missing exactly between equal snapshots. -/
theorem applyMergePatch_mergePatchFrom {current previous : WorldStateSnapshot}
    (carried : Carried (held (some previous)) (.object current.sections.fields)) :
    (current.mergePatchFrom previous = none ↔ current = previous) ∧
      ∀ patch, current.mergePatchFrom previous = some patch →
        previous.applyMergePatch patch = some current := by
  obtain ⟨unchanged, changed⟩ := applyMergePatchValue_createMergePatch
    (.object current.sections.fields) (.object previous.sections.fields)
    previous.sections.canonical current.sections.canonical carried
  rw [← mergePatchFrom_eq] at unchanged changed
  refine ⟨⟨?_, ?_⟩, ?_⟩
  · intro missing
    have same := unchanged (by rw [missing]; rfl)
    simp only [Json.object.injEq] at same
    obtain ⟨⟨currentFields, currentCanonical⟩⟩ := current
    obtain ⟨⟨previousFields, previousCanonical⟩⟩ := previous
    dsimp only at same
    subst same
    rfl
  · rintro rfl
    have none := createMergePatch_self _ current.sections.canonical
    rw [← mergePatchFrom_eq] at none
    exact Option.map_eq_none_iff.mp none
  intro patch found
  obtain ⟨-, applied⟩ := changed patch.json (by rw [found]; rfl)
  refine applyMergePatch_object previous patch ?_ applied
  simp only [WorldStateSnapshot.mergePatchFrom] at found
  split at found
  · cases found
  · simp only [Option.some.injEq] at found
    rw [← found]
    rfl

/-- One call of `update_world_state`: the history's items at the time, and the world state. -/
structure Update where
  items : List ResponseItem
  worldState : WorldState

/-- The baseline and the emitted item of one update. -/
def Update.apply (host : Host) (baseline : Option WorldStateSnapshot) (update : Update) :
    Option WorldStateSnapshot × Option WorldStateItem :=
  let updated := updateWorldState host ⟨update.items, baseline⟩ update.worldState
  (updated.1.worldStateBaseline, updated.2.2)

/-- The manager's baseline after some updates, and the items they emitted in order. -/
def runUpdates (host : Host) (baseline : Option WorldStateSnapshot) :
    List Update → Option WorldStateSnapshot × List WorldStateItem
  | [] => (baseline, [])
  | update :: updates =>
      let updated := update.apply host baseline
      let rest := runUpdates host updated.1 updates
      (rest.1, updated.2.toList ++ rest.2)

/-- Each world state of a run is accepted at the baseline it meets. -/
def AcceptedRun (host : Host) (baseline : Option WorldStateSnapshot) : List Update → Prop
  | [] => True
  | update :: updates =>
      update.worldState.Accepted baseline ∧ AcceptedRun host (update.apply host baseline).1 updates

/-- One update: its item leads to the new baseline, and is missing when nothing changed. -/
theorem Update.apply_replays (host : Host) (baseline : Option WorldStateSnapshot)
    (update : Update) (accepted : update.worldState.Accepted baseline) :
    (update.apply host baseline).2.toList.foldl applyItem baseline =
        (update.apply host baseline).1 ∧
      ((update.apply host baseline).2 = none ↔ (update.apply host baseline).1 = baseline) := by
  have carried := @carried_renderWith host _ _ (fun id entry old => @previousInHistory_known host
    baseline update.items id entry old) _ accepted
  change Carried _ (.object (renderHistoryDiffWithSnapshot host update.worldState baseline
    update.items).2.sections.fields) at carried
  simp only [Update.apply, updateWorldState]
  generalize (renderHistoryDiffWithSnapshot host update.worldState baseline update.items).2 =
    current at carried
  cases baseline with
  | none => exact ⟨rfl, by simp⟩
  | some previous =>
    obtain ⟨missing, applied⟩ := applyMergePatch_mergePatchFrom carried
    rw [Option.elim_some]
    cases found : current.mergePatchFrom previous with
    | none => simp [missing.mp found]
    | some patch =>
      have differs : current ≠ previous := by
        intro same
        rw [missing.mpr same] at found
        cases found
      simp [applyItem, applied patch found, differs]

theorem runUpdates_replays (host : Host) (baseline : Option WorldStateSnapshot)
    (updates : List Update) (accepted : AcceptedRun host baseline updates) :
    (runUpdates host baseline updates).2.foldl applyItem baseline =
      (runUpdates host baseline updates).1 := by
  induction updates generalizing baseline with
  | nil => rfl
  | cons update updates ih =>
    rw [runUpdates, List.foldl_append, (update.apply_replays host baseline accepted.1).1]
    exact ih _ accepted.2

/-- A value carried from one without nulls has none. -/
theorem Carried.nullFree {previous : Option Json} {value : Json} (carried : Carried previous value)
    (nullFree : ∀ old, previous = some old → NullFree old) : NullFree value := by
  induction carried with
  | same value => exact nullFree value rfl
  | leaf nonNull isLeaf => exact .leaf nonNull isLeaf
  | @object previous fields each ih =>
    refine .object fun key value found => ih key value found fun old isOld => ?_
    obtain ⟨whole, isWhole, isField⟩ := Option.bind_eq_some_iff.mp isOld
    have wholeFree := nullFree whole isWhole
    cases isObject : whole.asObject with
    | none =>
      rw [Json.get, isObject] at isField
      cases isField
    | some entries =>
      have isEntries : whole = .object entries := by
        cases whole <;> cases isObject
        rfl
      rw [isEntries] at wholeFree
      rw [Json.get, isObject] at isField
      exact wholeFree.field isField

/-- An update at a baseline without nulls, whose preserved values have none, keeps it so. -/
theorem Update.apply_nullFree (host : Host) (baseline : Option WorldStateSnapshot)
    (update : Update) (accepted : update.worldState.Accepted baseline)
    (nullFree : ∀ json, held baseline = some json → NullFree json) (json : Json)
    (isHeld : held (update.apply host baseline).1 = some json) : NullFree json := by
  have carried := @carried_renderWith host _ _ (fun id entry old => @previousInHistory_known host
    baseline update.items id entry old) _ accepted
  have whole := carried.nullFree nullFree
  cases isHeld
  exact whole

theorem runUpdates_nullFree (host : Host) (baseline : Option WorldStateSnapshot)
    (updates : List Update) (accepted : AcceptedRun host baseline updates)
    (nullFree : ∀ json, held baseline = some json → NullFree json) (json : Json)
    (isHeld : held (runUpdates host baseline updates).1 = some json) : NullFree json := by
  induction updates generalizing baseline with
  | nil => exact nullFree json isHeld
  | cons update updates ih =>
    refine ih _ accepted.2 (fun other otherHeld => ?_) isHeld
    exact update.apply_nullFree host baseline accepted.1 nullFree other otherHeld

theorem AcceptedRun.at_update {before after : List Update} {update : Update}
    (accepted : AcceptedRun host baseline (before ++ update :: after)) :
    update.worldState.Accepted (runUpdates host baseline before).1 := by
  induction before generalizing baseline with
  | nil => exact accepted.1
  | cons first before ih => exact ih accepted.2

/-- The items emitted by any run of updates lead from its starting baseline to the manager's
    baseline, an update emits no item exactly when it changes nothing, a run keeps snapshots free
    of null fields, and the patch to a snapshot without null fields leads there from any other. -/
theorem world_state_replays (host : Host) (start : Option WorldStateSnapshot)
    (updates : List Update) (accepted : AcceptedRun host start updates) :
    (runUpdates host start updates).2.foldl applyItem start = (runUpdates host start updates).1 ∧
    (∀ before update after, updates = before ++ update :: after →
      ((update.apply host (runUpdates host start before).1).2 = none ↔
        (update.apply host (runUpdates host start before).1).1 =
          (runUpdates host start before).1)) ∧
    ((∀ json, held start = some json → NullFree json) →
      ∀ json, held (runUpdates host start updates).1 = some json → NullFree json) ∧
    ∀ previous current : WorldStateSnapshot, NullFree (.object current.sections.fields) →
      (current.mergePatchFrom previous).elim (some previous) previous.applyMergePatch =
        some current := by
  refine ⟨runUpdates_replays host start updates accepted, ?_, ?_, ?_⟩
  · intro before update after split
    subst split
    exact (update.apply_replays host _ accepted.at_update).2
  · exact runUpdates_nullFree host start updates accepted
  intro previous current nullFree
  obtain ⟨missing, applied⟩ :=
    applyMergePatch_mergePatchFrom (Carried.of_nullFree nullFree (held (some previous)))
  cases found : current.mergePatchFrom previous with
  | none => rw [Option.elim_none, missing.mp found]
  | some patch => exact applied patch found

/-- A section of one object, rendered as nothing. -/
def quietSection (snapshot : Value) : Section :=
  .typed
    { Snapshot := Unit
      serialized := some snapshot
      deserialize := fun _ => none
      matchesLegacyFragment := fun _ _ => false
      hasRetainedFragmentMatcher := false
      matchesRetainedFragment := fun _ _ => false
      required := false
      recordsDelivery := false
      retainedStateSupported := fun _ _ => true
      renderFragments := fun _ => [] }

def quietHost : Host := ⟨fun text => text, fun _ _ => ""⟩

/-- A world state of one section. -/
def single (id : String) (entry : Section) : WorldState := ⟨[(id, entry)], by simp⟩

/-- An update whose only section says where commands run. -/
def cwdUpdate (cwd : Value) : Update :=
  ⟨[], single "environment" (quietSection (Object.empty.insert "cwd" cwd).toValue)⟩

theorem accepted_cwdUpdate (baseline : Option WorldStateSnapshot) (cwd : Value) :
    (cwdUpdate cwd).worldState.Accepted baseline := by
  intro named member
  simp only [cwdUpdate, single, List.mem_singleton] at member
  subst member
  refine ⟨?_, ?_⟩
  · intro snapshot rendering isPreserved
    cases isPreserved
  · intro rendering isRetained
    cases isRetained

/-- An update whose only section is a preserved one. -/
def catalogUpdate : Update :=
  ⟨[], single "catalog" (.preserved ⟨.string "x", trivial⟩ none)⟩

theorem accepted_catalogUpdate (baseline : Option WorldStateSnapshot) :
    catalogUpdate.worldState.Accepted baseline := by
  intro named member
  simp only [catalogUpdate, single, List.mem_singleton] at member
  subst member
  refine ⟨?_, ?_⟩
  · rintro snapshot rendering ⟨⟩
    exact .inl (.leaf rfl rfl)
  · intro rendering isRetained
    cases isRetained

/-- A directory, its removal by a null, and a preserved section. -/
def nullField : List Update :=
  [cwdUpdate (.string "/a"), cwdUpdate ⟨.null, trivial⟩, catalogUpdate]

theorem world_state_replays_null_field :
    AcceptedRun quietHost none nullField ∧
      (runUpdates quietHost none nullField).2.foldl applyItem none =
        (runUpdates quietHost none nullField).1 := by
  have accepted : AcceptedRun quietHost none nullField :=
    ⟨accepted_cwdUpdate _ _, accepted_cwdUpdate _ _, accepted_catalogUpdate _, trivial⟩
  exact ⟨accepted, (world_state_replays quietHost none _ accepted).1⟩

/-- A preserved section may hold a null that no patch can bring about. -/
theorem preserved_null_not_replayed :
    (runUpdates quietHost (some ⟨.empty⟩)
        [⟨[], single "catalog" (.preserved ⟨.null, trivial⟩ none)⟩]).2.foldl applyItem
          (some ⟨.empty⟩) ≠
      (runUpdates quietHost (some ⟨.empty⟩)
        [⟨[], single "catalog" (.preserved ⟨.null, trivial⟩ none)⟩]).1 := by
  decide

end Codex.Conversation.World
