import Codex.Lib.Json

/-!
# Merge patches

`conversation/src/context/world_state/mod.rs:841-899`: the RFC 7386 merge patch between two JSON
values, and its application. A null field of a patch deletes, so a patch can only lead to a value
whose nulls were there before.
-/

namespace Codex.Conversation.World

open Json

mutual

/-- `remove_null_object_fields` (`mod.rs:841`): arrays are left as they are. -/
def removeNullObjectFields : Json → Json
  | .object fields => .object (retainNonNull fields)
  | .null => .null
  | .bool value => .bool value
  | .number text => .number text
  | .string text => .string text
  | .array values => .array values

/-- `retain` of the fields that are not null, and the same within each of them. -/
def retainNonNull : List (String × Json) → List (String × Json)
  | [] => []
  | (key, value) :: fields =>
      if value.isNull then retainNonNull fields
      else (key, removeNullObjectFields value) :: retainNonNull fields

end

/-- The null fields for the keys of `previous` that `current` lacks. -/
def deletions (previous current : List (String × Json)) : List (String × Json) :=
  (previous.filter fun field => (Fields.get field.1 current).isNone).foldl
    (fun patch field => Fields.insert field.1 .null patch) []

mutual

/-- `create_merge_patch` (`mod.rs:853`). -/
def createMergePatch (previous : Json) : Json → Option Json
  | .object current =>
      let start := (previous.asObject.map fun fields => deletions fields current).getD []
      let patch := patchFields previous.asObject start current
      if previous.asObject.isNone || !patch.isEmpty then some (.object patch) else none
  | .null => if previous ≠ .null then some .null else none
  | .bool value => if previous ≠ .bool value then some (.bool value) else none
  | .number text => if previous ≠ .number text then some (.number text) else none
  | .string text => if previous ≠ .string text then some (.string text) else none
  | .array values => if previous ≠ .array values then some (.array values) else none

/-- The loop over the fields of the current object (`mod.rs:868`). -/
def patchFields (previous : Option (List (String × Json))) (patch : List (String × Json)) :
    List (String × Json) → List (String × Json)
  | [] => patch
  | (key, value) :: fields =>
      let change := match previous.bind (Fields.get key) with
        | none => some value
        | some previousValue => createMergePatch previousValue value
      let patch := match change with
        | some change => Fields.insert key change patch
        | none => patch
      patchFields previous patch fields

end

mutual

/-- `apply_merge_patch_value` (`mod.rs:882`). -/
def applyMergePatchValue (target : Json) : Json → Json
  | .object patch => .object (applyFields (target.asObject.getD []) patch)
  | .null => .null
  | .bool value => .bool value
  | .number text => .number text
  | .string text => .string text
  | .array values => .array values

/-- The loop over the fields of a patch (`mod.rs:891`). -/
def applyFields (target : List (String × Json)) : List (String × Json) → List (String × Json)
  | [] => target
  | (key, value) :: patch =>
      let target :=
        if value.isNull then Fields.remove key target
        else
          Fields.insert key (applyMergePatchValue ((Fields.get key target).getD .null) value) target
      applyFields target patch

end

theorem createMergePatch_leaf {previous current : Json} (leaf : current.asObject = none) :
    createMergePatch previous current = if previous = current then none else some current := by
  cases current with
  | object fields => cases leaf
  | null | bool value | number text | string text | array values => rw [createMergePatch, ite_not]

theorem applyMergePatchValue_leaf {target patch : Json} (leaf : patch.asObject = none) :
    applyMergePatchValue target patch = patch := by
  cases patch with
  | object fields => cases leaf
  | null => rfl
  | bool value => rfl
  | number text => rfl
  | string text => rfl
  | array values => rfl

theorem get_foldl_insert (names : List (String × Json)) (start : List (String × Json))
    (key : String) :
    Fields.get key (names.foldl (fun patch field => Fields.insert field.1 .null patch) start) =
      if key ∈ names.map Prod.fst then some .null else Fields.get key start := by
  induction names generalizing start with
  | nil => simp
  | cons name names ih =>
    rw [List.foldl_cons, ih, Fields.get_insert, List.map_cons]
    by_cases here : key = name.1
    · simp [here]
    · simp only [here, if_false, List.mem_cons, false_or]

variable {fields : List (String × Json)} {value : Json}

theorem get_isSome_iff {key : String} :
    (Fields.get key fields).isSome = true ↔ key ∈ fields.map Prod.fst := by
  induction fields with
  | nil => simp [Fields.get]
  | cons field fields ih =>
    rw [Fields.get, List.map_cons, List.mem_cons, ← ih]
    split
    · next same => simp [same]
    · next different => simp [Ne.symm different]

theorem get_deletions (previous current : List (String × Json)) (key : String) :
    Fields.get key (deletions previous current) =
      if (Fields.get key previous).isSome = true ∧ (Fields.get key current).isNone = true then
        some .null else none := by
  have member : key ∈ (previous.filter fun field =>
        (Fields.get field.1 current).isNone).map Prod.fst ↔
      (Fields.get key previous).isSome = true ∧ (Fields.get key current).isNone = true := by
    rw [get_isSome_iff]
    simp only [List.mem_map, List.mem_filter]
    refine ⟨?_, ?_⟩
    · rintro ⟨field, ⟨inside, absent⟩, rfl⟩
      exact ⟨⟨field, inside, rfl⟩, absent⟩
    · rintro ⟨⟨field, inside, rfl⟩, absent⟩
      exact ⟨field, ⟨inside, absent⟩, rfl⟩
  rw [deletions, get_foldl_insert]
  simp only [member, Fields.get]

theorem sorted_deletions (previous current : List (String × Json)) :
    Fields.Sorted (deletions previous current) := by
  unfold deletions
  generalize previous.filter _ = names
  have start : Fields.Sorted ([] : List (String × Json)) := Fields.sorted_nil
  generalize ([] : List (String × Json)) = patch at start ⊢
  induction names generalizing patch with
  | nil => exact start
  | cons name names ih => exact ih _ (Fields.sorted_insert start _ _)

/-- The change that the patch holds for a field of the current object. -/
def fieldChange (previous : Option (List (String × Json))) (key : String) (value : Json) :
    Option Json :=
  (previous.bind (Fields.get key)).elim (some value) fun old => createMergePatch old value

theorem patchFields_cons (previous : Option (List (String × Json)))
    (patch fields : List (String × Json)) (field : String × Json) :
    patchFields previous patch (field :: fields) =
      patchFields previous ((fieldChange previous field.1 field.2).elim patch
        fun change => Fields.insert field.1 change patch) fields := by
  obtain ⟨key, value⟩ := field
  rw [patchFields, fieldChange]
  dsimp only
  cases previous.bind (Fields.get key) with
  | none => rfl
  | some old =>
    dsimp only [Option.elim_some]
    cases createMergePatch old value <;> rfl

theorem get_eq_none_of_sorted {β : Type} {field : String × β} {fields : List (String × β)}
    (sorted : Fields.Sorted (field :: fields)) : Fields.get field.1 fields = none := by
  obtain ⟨below, -⟩ := List.pairwise_cons.mp sorted
  cases found : Fields.get field.1 fields with
  | none => rfl
  | some value =>
    exact absurd (below _ (List.mem_map_of_mem (Fields.mem_of_get_eq_some found))) (lt_irrefl _)

theorem get_patchFields (previous : Option (List (String × Json))) (patch : List (String × Json))
    (sorted : Fields.Sorted fields) (key : String) :
    Fields.get key (patchFields previous patch fields) =
      ((Fields.get key fields).bind (fieldChange previous key)).or (Fields.get key patch) := by
  induction fields generalizing patch with
  | nil => simp [patchFields, Fields.get]
  | cons field fields ih =>
    have rest := (List.pairwise_cons.mp sorted).2
    rw [patchFields_cons, ih _ rest]
    by_cases here : key = field.1
    · subst here
      rw [get_eq_none_of_sorted sorted, Fields.get, if_pos rfl, Option.bind_none, Option.none_or,
        Option.bind_some]
      cases fieldChange previous field.1 field.2 with
      | none => rfl
      | some change => simp [Fields.get_insert]
    · rw [Fields.get, if_neg (Ne.symm here)]
      cases fieldChange previous field.1 field.2 with
      | none => rfl
      | some change => simp [Fields.get_insert, here]

theorem sorted_patchFields (previous : Option (List (String × Json)))
    {patch : List (String × Json)} (start : Fields.Sorted patch) (fields : List (String × Json)) :
    Fields.Sorted (patchFields previous patch fields) := by
  induction fields generalizing patch with
  | nil => rwa [patchFields]
  | cons field fields ih =>
    rw [patchFields_cons]
    cases fieldChange previous field.1 field.2 with
    | none => exact ih start
    | some change => exact ih (Fields.sorted_insert start _ _)

/-- What a field of a patch makes of a field of the target. -/
def fieldResult (target : Option Json) (patch : Json) : Option Json :=
  if patch.isNull then none else some (applyMergePatchValue (target.getD .null) patch)

theorem get_applyFields (target : List (String × Json)) {patch : List (String × Json)}
    (sorted : Fields.Sorted patch) (key : String) :
    Fields.get key (applyFields target patch) =
      (Fields.get key patch).elim (Fields.get key target) (fieldResult (Fields.get key target)) := by
  induction patch generalizing target with
  | nil => simp [applyFields, Fields.get]
  | cons field patch ih =>
    obtain ⟨name, value⟩ := field
    have rest := (List.pairwise_cons.mp sorted).2
    rw [applyFields, ih _ rest]
    by_cases here : key = name
    · subst here
      rw [get_eq_none_of_sorted sorted, Fields.get, if_pos rfl, Option.elim_none, Option.elim_some,
        fieldResult]
      split
      · simp [Fields.get_remove]
      · simp [Fields.get_insert]
    have unchanged : Fields.get key (if value.isNull = true then Fields.remove name target
        else Fields.insert name
          (applyMergePatchValue ((Fields.get name target).getD .null) value) target) =
        Fields.get key target := by
      split
      · simp [Fields.get_remove, here]
      · simp [Fields.get_insert, here]
    rw [unchanged, Fields.get, if_neg (Ne.symm here)]

theorem sorted_applyFields {target : List (String × Json)} (start : Fields.Sorted target)
    (patch : List (String × Json)) : Fields.Sorted (applyFields target patch) := by
  induction patch generalizing target with
  | nil => rwa [applyFields]
  | cons field patch ih =>
    obtain ⟨name, value⟩ := field
    rw [applyFields]
    refine ih ?_
    split
    · exact Fields.sorted_remove start name
    · exact Fields.sorted_insert start _ _

theorem canonical_createMergePatch (current : Json) :
    ∀ previous patch : Json, current.Canonical → createMergePatch previous current = some patch →
      patch.Canonical := by
  induction current using Json.objectInduction with
  | leaf leaf isLeaf =>
    intro previous patch canonical created
    rw [createMergePatch_leaf isLeaf] at created
    split at created
    · cases created
    · simp only [Option.some.injEq] at created
      exact created ▸ canonical
  | object fields ih =>
    intro previous patch canonical created
    obtain ⟨sorted, all⟩ := Json.canonical_object_iff.mp canonical
    rw [createMergePatch] at created
    split at created
    · simp only [Option.some.injEq] at created
      subst created
      have startSorted : Fields.Sorted
          ((previous.asObject.map fun entries => deletions entries fields).getD []) := by
        cases previous.asObject with
        | none => exact Fields.sorted_nil
        | some entries => exact sorted_deletions entries fields
      refine Json.canonical_object_iff.mpr ⟨sorted_patchFields _ startSorted fields, ?_⟩
      intro key value found
      rw [get_patchFields _ _ sorted, Option.or_eq_some_iff] at found
      rcases found with changed | ⟨-, deleted⟩
      · obtain ⟨entry, isEntry, change⟩ := Option.bind_eq_some_iff.mp changed
        rw [fieldChange] at change
        cases old : previous.asObject.bind (Fields.get key) with
        | none =>
          rw [old, Option.elim_none, Option.some.injEq] at change
          exact change ▸ all key entry isEntry
        | some previousValue =>
          rw [old, Option.elim_some] at change
          exact ih (key, entry) (Fields.mem_of_get_eq_some isEntry) previousValue value
            (all key entry isEntry) change
      cases isObject : previous.asObject with
      | none =>
        rw [isObject] at deleted
        cases deleted
      | some entries =>
        rw [isObject, Option.map_some, Option.getD_some, get_deletions] at deleted
        split at deleted
        · simp only [Option.some.injEq] at deleted
          rw [← deleted]
          trivial
        · cases deleted
    · cases created

theorem canonical_of_asObject (canonical : value.Canonical)
    (isObject : value.asObject = some fields) :
    (Json.object fields).Canonical := by
  cases value with
  | object entries =>
    cases isObject
    exact canonical
  | null | bool value | number text | string text | array values => cases isObject

theorem canonical_asObject_getD (canonical : value.Canonical) :
    (Json.object (value.asObject.getD [])).Canonical := by
  cases isObject : value.asObject with
  | none => exact ⟨Fields.sorted_nil, trivial⟩
  | some fields => exact canonical_of_asObject canonical isObject

theorem canonical_applyMergePatchValue (patch : Json) :
    ∀ target : Json, target.Canonical → patch.Canonical →
      (applyMergePatchValue target patch).Canonical := by
  induction patch using Json.objectInduction with
  | leaf leaf isLeaf =>
    intro target _ canonical
    rwa [applyMergePatchValue_leaf isLeaf]
  | object fields ih =>
    intro target targetCanonical canonical
    obtain ⟨sorted, all⟩ := Json.canonical_object_iff.mp canonical
    obtain ⟨targetSorted, targetAll⟩ :=
      Json.canonical_object_iff.mp (canonical_asObject_getD targetCanonical)
    rw [applyMergePatchValue]
    refine Json.canonical_object_iff.mpr ⟨sorted_applyFields targetSorted fields, ?_⟩
    intro key value found
    rw [get_applyFields _ sorted] at found
    cases change : Fields.get key fields with
    | none =>
      rw [change] at found
      exact targetAll key value found
    | some entry =>
      rw [change, Option.elim_some, fieldResult] at found
      split at found
      · cases found
      simp only [Option.some.injEq] at found
      subst found
      refine ih (key, entry) (Fields.mem_of_get_eq_some change) _ ?_ (all key entry change)
      cases old : Fields.get key (target.asObject.getD []) with
      | none => trivial
      | some oldValue => exact targetAll key oldValue old

/-- A value that a patch of `previous` can lead to: outside arrays, each null of it is part of a
    value that `previous` holds at the same place. -/
inductive Carried : Option Json → Json → Prop
  | same (value : Json) : Carried (some value) value
  | leaf {previous : Option Json} {value : Json} (nonNull : value.isNull = false)
      (isLeaf : value.asObject = none) : Carried previous value
  | object {previous : Option Json} {fields : List (String × Json)}
      (each : ∀ key value, Fields.get key fields = some value →
        Carried (previous.bind fun old => old.get key) value) : Carried previous (.object fields)

/-- A value without null fields outside arrays. -/
abbrev NullFree (value : Json) : Prop := Carried none value

theorem Carried.of_nullFree (nullFree : NullFree value) (previous : Option Json) :
    Carried previous value := by
  unfold NullFree at nullFree
  generalize isNone : (none : Option Json) = absent at nullFree
  induction nullFree generalizing previous with
  | same value => cases isNone
  | leaf nonNull isLeaf => exact .leaf nonNull isLeaf
  | object each ih =>
    subst isNone
    exact .object fun key value found => ih key value found _ rfl

/-- A field of a carried object is carried from the same field. -/
theorem Carried.field {previous : Option Json} {key : String}
    (carried : Carried previous (.object fields)) (found : Fields.get key fields = some value) :
    Carried (previous.bind fun old => old.get key) value := by
  cases carried with
  | same =>
    change Carried (Fields.get key fields) value
    rw [found]
    exact .same value
  | leaf nonNull isLeaf => cases isLeaf
  | object each => exact each key value found

theorem Carried.nonNull (nullFree : NullFree value) : value.isNull = false := by
  cases nullFree with
  | leaf nonNull isLeaf => exact nonNull
  | object each => rfl

/-- Over something that is no object, a value without nulls replaces it whole. -/
theorem applyMergePatchValue_of_nullFree (value : Json) :
    ∀ target : Json, target.asObject = none → value.Canonical → NullFree value →
      applyMergePatchValue target value = value := by
  induction value using Json.objectInduction with
  | leaf leaf isLeaf =>
    intro target _ _ _
    exact applyMergePatchValue_leaf isLeaf
  | object fields ih =>
    intro target notObject canonical nullFree
    obtain ⟨sorted, all⟩ := Json.canonical_object_iff.mp canonical
    rw [applyMergePatchValue, notObject, Option.getD_none]
    congr 1
    refine Fields.ext (sorted_applyFields Fields.sorted_nil fields) sorted fun key => ?_
    rw [get_applyFields _ sorted]
    cases found : Fields.get key fields with
    | none => rfl
    | some entry =>
      have entryFree : NullFree entry := nullFree.field found
      rw [Option.elim_some, fieldResult, Carried.nonNull entryFree, if_neg (by simp)]
      exact congrArg some (ih (key, entry) (Fields.mem_of_get_eq_some found) _ rfl
        (all key entry found) entryFree)

/-- Nothing to patch between equal values. -/
theorem createMergePatch_self (value : Json) :
    value.Canonical → createMergePatch value value = none := by
  induction value using Json.objectInduction with
  | leaf leaf isLeaf =>
    intro _
    rw [createMergePatch_leaf isLeaf, if_pos rfl]
  | object fields ih =>
    intro canonical
    obtain ⟨sorted, all⟩ := Json.canonical_object_iff.mp canonical
    have empty : patchFields (some fields) (deletions fields fields) fields = [] := by
      refine Fields.ext (sorted_patchFields _ (sorted_deletions fields fields) fields)
        Fields.sorted_nil fun key => ?_
      rw [get_patchFields _ _ sorted, get_deletions]
      cases found : Fields.get key fields with
      | none => simp [Fields.get]
      | some entry =>
        rw [Option.bind_some, fieldChange, Option.bind_some, found, Option.elim_some,
          ih (key, entry) (Fields.mem_of_get_eq_some found) (all key entry found)]
        simp [Fields.get]
    rw [createMergePatch]
    simp [Json.asObject, empty]

/-- The patch from an object to another leads there. -/
theorem get_apply_patch {previous current : List (String × Json)}
    (sorted : Fields.Sorted current)
    (carried : Carried (some (.object previous)) (.object current))
    (canonical : ∀ key value, Fields.get key current = some value → value.Canonical)
    (each : ∀ key old value, Fields.get key previous = some old →
      Fields.get key current = some value →
      (createMergePatch old value = none → value = old) ∧
      ∀ patch, createMergePatch old value = some patch →
        patch.isNull = false ∧ applyMergePatchValue old patch = value) (key : String) :
    Fields.get key (applyFields previous
        (patchFields (some previous) (deletions previous current) current)) =
      Fields.get key current := by
  have patchSorted := sorted_patchFields (some previous) (sorted_deletions previous current) current
  rw [get_applyFields _ patchSorted, get_patchFields _ _ sorted, get_deletions]
  cases found : Fields.get key current with
  | none =>
    cases old : Fields.get key previous with
    | none => simp
    | some oldValue => simp [fieldResult, Json.isNull]
  | some value =>
    rw [Option.bind_some, fieldChange, Option.bind_some]
    cases old : Fields.get key previous with
    | none =>
      have valueFree := carried.field found
      change Carried (Fields.get key previous) value at valueFree
      rw [old] at valueFree
      rw [Option.elim_none, Option.some_or, Option.elim_some, fieldResult, Carried.nonNull valueFree,
        if_neg (by simp), Option.getD_none,
        applyMergePatchValue_of_nullFree value .null rfl (canonical key value found) valueFree]
    | some oldValue =>
      obtain ⟨unchanged, changed⟩ := each key oldValue value old found
      rw [Option.elim_some]
      cases created : createMergePatch oldValue value with
      | none => simp [unchanged created]
      | some patch =>
        obtain ⟨nonNull, applied⟩ := changed patch created
        simp [fieldResult, nonNull, applied]

/-- Applying the patch to a carried value gives the value, and there is no patch only between equal
    values. -/
theorem applyMergePatchValue_createMergePatch (current : Json) :
    ∀ previous : Json, previous.Canonical → current.Canonical → Carried (some previous) current →
      (createMergePatch previous current = none → current = previous) ∧
      ∀ patch, createMergePatch previous current = some patch →
        patch.isNull = false ∧ applyMergePatchValue previous patch = current := by
  induction current using Json.objectInduction with
  | leaf leaf isLeaf =>
    intro previous _ _ carried
    rw [createMergePatch_leaf isLeaf]
    by_cases same : previous = leaf
    · rw [if_pos same]
      exact ⟨fun _ => same.symm, fun patch absurd => by cases absurd⟩
    rw [if_neg same]
    refine ⟨fun absurd => (by cases absurd), ?_⟩
    intro patch isPatch
    cases isPatch
    refine ⟨?_, applyMergePatchValue_leaf isLeaf⟩
    cases carried with
    | same => exact absurd rfl same
    | leaf nonNull => exact nonNull
    | object each => rfl
  | object fields ih =>
    intro previous previousCanonical canonical carried
    obtain ⟨sorted, all⟩ := Json.canonical_object_iff.mp canonical
    cases isObject : previous.asObject with
    | none =>
      -- The patch holds every field as it is.
      have whole : patchFields none [] fields = fields := by
        refine Fields.ext (sorted_patchFields _ Fields.sorted_nil fields) sorted fun key => ?_
        rw [get_patchFields _ _ sorted]
        cases Fields.get key fields <;> rfl
      rw [createMergePatch, isObject, Option.map_none, Option.getD_none, whole]
      refine ⟨fun absurd => (by simp at absurd), ?_⟩
      intro patch isPatch
      simp only [Option.isNone_none, Bool.true_or, if_true, Option.some.injEq] at isPatch
      subst isPatch
      refine ⟨rfl, applyMergePatchValue_of_nullFree _ previous isObject canonical ?_⟩
      refine .object fun key value found => ?_
      have field := carried.field found
      rwa [Option.bind_some, Json.get, isObject] at field
    | some entries =>
      have isPrevious : previous = .object entries := by
        cases previous <;> cases isObject
        rfl
      subst isPrevious
      obtain ⟨previousSorted, previousAll⟩ := Json.canonical_object_iff.mp previousCanonical
      have each := get_apply_patch sorted carried all fun key old value wasThere found =>
        ih (key, value) (Fields.mem_of_get_eq_some found) old (previousAll key old wasThere)
          (all key value found) (wasThere ▸ (carried.field found :))
      have result : applyFields entries (patchFields (some entries) (deletions entries fields)
          fields) = fields :=
        Fields.ext (sorted_applyFields previousSorted _) sorted each
      rw [createMergePatch, isObject, Option.map_some, Option.getD_some]
      refine ⟨?_, ?_⟩
      · intro unchanged
        simp only [Option.isNone_some, Bool.false_or, Bool.not_eq_true', ite_eq_right_iff,
          reduceCtorEq, imp_false, Bool.not_eq_false, List.isEmpty_iff] at unchanged
        rw [unchanged, applyFields] at result
        rw [result]
      intro patch isPatch
      split at isPatch
      · simp only [Option.some.injEq] at isPatch
        subst isPatch
        refine ⟨rfl, ?_⟩
        rw [applyMergePatchValue, isObject, Option.getD_some, result]
      · cases isPatch

theorem get_retainNonNull (sorted : Fields.Sorted fields) (key : String) :
    Fields.get key (retainNonNull fields) =
      ((Fields.get key fields).filter fun value => !value.isNull).map removeNullObjectFields := by
  induction fields with
  | nil => rfl
  | cons field fields ih =>
    obtain ⟨name, value⟩ := field
    have rest := ih (List.pairwise_cons.mp sorted).2
    rw [retainNonNull]
    by_cases here : name = key
    · subst here
      rw [get_eq_none_of_sorted sorted] at rest
      split
      · next isNull => simp [rest, Fields.get, isNull, Option.filter]
      · next nonNull => simp [Fields.get, nonNull, Option.filter]
    · split
      · simp [rest, Fields.get, here]
      · simp [rest, Fields.get, here]

theorem sorted_retainNonNull (sorted : Fields.Sorted fields) :
    Fields.Sorted (retainNonNull fields) := by
  have sublist : ((retainNonNull fields).map Prod.fst).Sublist (fields.map Prod.fst) := by
    clear sorted
    induction fields with
    | nil => exact List.nil_sublist _
    | cons field fields ih =>
      obtain ⟨name, value⟩ := field
      rw [retainNonNull]
      split
      · exact ih.cons _
      · exact ih.cons_cons _
  exact List.Pairwise.sublist sublist sorted

theorem canonical_removeNullObjectFields (value : Json) :
    value.Canonical → (removeNullObjectFields value).Canonical := by
  induction value using Json.objectInduction with
  | leaf leaf isLeaf =>
    intro canonical
    cases leaf with
    | object fields => cases isLeaf
    | null | bool value | number text | string text | array values => exact canonical
  | object fields ih =>
    intro canonical
    obtain ⟨sorted, all⟩ := Json.canonical_object_iff.mp canonical
    rw [removeNullObjectFields]
    refine Json.canonical_object_iff.mpr ⟨sorted_retainNonNull sorted, ?_⟩
    intro key stripped found
    rw [get_retainNonNull sorted] at found
    obtain ⟨entry, kept, rfl⟩ := Option.map_eq_some_iff.mp found
    have isEntry := (Option.filter_eq_some_iff.mp kept).1
    exact ih (key, entry) (Fields.mem_of_get_eq_some isEntry) (all key entry isEntry)

/-- A stripped value that is not null has no null fields. -/
theorem nullFree_removeNullObjectFields (value : Json) :
    value.Canonical → value.isNull = false → NullFree (removeNullObjectFields value) := by
  induction value using Json.objectInduction with
  | leaf leaf isLeaf =>
    intro _ nonNull
    have same : removeNullObjectFields leaf = leaf := by
      cases leaf with
      | object fields => cases isLeaf
      | null => rfl
      | bool value => rfl
      | number text => rfl
      | string text => rfl
      | array values => rfl
    rw [same]
    exact .leaf nonNull isLeaf
  | object fields ih =>
    intro canonical _
    obtain ⟨sorted, all⟩ := Json.canonical_object_iff.mp canonical
    rw [removeNullObjectFields]
    refine .object fun key stripped found => ?_
    rw [get_retainNonNull sorted] at found
    obtain ⟨entry, kept, rfl⟩ := Option.map_eq_some_iff.mp found
    obtain ⟨isEntry, nonNull⟩ := Option.filter_eq_some_iff.mp kept
    exact ih (key, entry) (Fields.mem_of_get_eq_some isEntry) (all key entry isEntry)
      (by simpa using nonNull)

end Codex.Conversation.World
