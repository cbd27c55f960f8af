import Codex.Lib.Toml

/-!
# Merging configuration layers

`config/src/merge.rs`, and `effective_config` of `config/src/state.rs`.
-/

namespace Codex.Config

open TomlComponent Toml

mutual

/-- `merge_owned_toml_values` (`merge.rs:38`). -/
def mergeOwnedTomlValues : Toml → Toml → Toml
  | base, .table overlay =>
      .table (if base.isTable then mergeEntries base.entriesOf overlay else overlay)
  | _, .array items => .array items
  | _, .string text => .string text
  | _, .integer value => .integer value
  | _, .float bits => .float bits
  | _, .boolean value => .boolean value
  | _, .datetime text => .datetime text

/-- The loop over the entries of the overlay (`merge.rs:50`). -/
def mergeEntries : List (String × Toml) → List (String × Toml) → List (String × Toml)
  | base, [] => base
  | base, (name, value) :: overlay =>
      mergeEntries
        (Fields.insert name
          (((Fields.get name base).map fun existing =>
            mergeOwnedTomlValues existing value).getD value)
          base)
        overlay

end

/-- `is_multi_agent_v2_feature_path` (`merge.rs:60`). -/
def isMultiAgentV2FeaturePath (path : List String) : Bool :=
  path = ["features", "multi_agent_v2"]

/-- `normalize_multi_agent_v2_feature_value` (`merge.rs:70`). -/
def normalizeMultiAgentV2FeatureValue (path : List String) (value : Toml) : Toml :=
  if isMultiAgentV2FeaturePath path then
    (value.asBool.map fun enabled => .table [("enabled", .boolean enabled)]).getD value
  else value

/-- `Value::get_mut` of a key, and a change of what is found. -/
def modify (name : String) (change : Toml → Toml) (value : Toml) : Toml :=
  ((value.get name).map fun inner =>
    .table (Fields.insert name (change inner) value.entriesOf)).getD value

/-- `features.multi_agent_v2`. -/
def featureOf (config : Toml) : Option Toml :=
  (config.get "features").bind fun features => features.get "multi_agent_v2"

/-- The configuration with its `features.multi_agent_v2` normalized. -/
def normalizeFeature (config : Toml) : Toml :=
  modify "features" (modify "multi_agent_v2"
    (normalizeMultiAgentV2FeatureValue ["features", "multi_agent_v2"])) config

/-- `merge_owned_config_values` (`merge.rs:9`). -/
def mergeOwnedConfigValues (base overlay : Toml) : Toml :=
  let baseFeature := featureOf base
  let overlayFeature := featureOf overlay
  if baseFeature.any isTable && overlayFeature.any (·.asBool.isSome) then
    mergeOwnedTomlValues base (normalizeFeature overlay)
  else if baseFeature.any (·.asBool.isSome) && overlayFeature.any isTable then
    mergeOwnedTomlValues (normalizeFeature base) overlay
  else mergeOwnedTomlValues base overlay

/-- `effective_config` (`state.rs:628`), from the layer of the lowest precedence on. -/
def effectiveConfig (layers : List Toml) : Toml := layers.foldl mergeOwnedConfigValues (.table [])

theorem get_mergeEntries {base overlay : List (String × Toml)} (sorted : Fields.Sorted overlay)
    (name : String) :
    Fields.get name (mergeEntries base overlay) =
      ((Fields.get name overlay).map fun value =>
        ((Fields.get name base).map fun existing => mergeOwnedTomlValues existing value).getD
          value).or (Fields.get name base) := by
  induction overlay generalizing base with
  | nil => rw [mergeEntries, Fields.get, Option.map_none, Option.none_or]
  | cons entry overlay ih =>
    obtain ⟨other, value⟩ := entry
    obtain ⟨below, rest⟩ := List.pairwise_cons.mp sorted
    rw [mergeEntries, ih rest, Fields.get_insert, Fields.get]
    by_cases same : other = name
    · subst same
      have absent : Fields.get other overlay = none := by
        cases found : Fields.get other overlay with
        | none => rfl
        | some inner =>
          have member := List.mem_map_of_mem (f := Prod.fst) (Fields.mem_of_get_eq_some found)
          exact absurd (below _ member) (lt_irrefl _)
      rw [absent, Option.map_none, Option.none_or, if_pos rfl, if_pos rfl, Option.map_some,
        Option.some_or]
    · rw [if_neg (Ne.symm same), if_neg same]

variable {base overlay config leaf value : Toml} {name : String} {path : List TomlComponent}
   {change : Toml → Toml} {layers : List Toml}

theorem isTable_merge (table : overlay.isTable) :
    (mergeOwnedTomlValues base overlay).isTable := by
  cases overlay <;> first | rfl | cases table

mutual

theorem canonical_merge : {base : Toml} → (overlay : Toml) → base.Canonical → overlay.Canonical →
    (mergeOwnedTomlValues base overlay).Canonical
  | base, .table overlay, canonicalBase, canonicalOverlay => by
    rw [mergeOwnedTomlValues]
    cases base with
    | table entries =>
      exact canonical_mergeEntries overlay canonicalBase.1 canonicalBase.2
        (canonicalEntries_iff.mp canonicalOverlay.2)
    | array _ | string _ | integer _ | float _ | boolean _ | datetime _ => exact canonicalOverlay
  | _, .array _, _, canonicalOverlay => by
    rw [mergeOwnedTomlValues]
    exact canonicalOverlay
  | _, .string _, _, _ | _, .integer _, _, _ | _, .float _, _, _ | _, .boolean _, _, _
  | _, .datetime _, _, _ => trivial

theorem canonical_mergeEntries : {base : List (String × Toml)} →
    (overlay : List (String × Toml)) → Fields.Sorted base → CanonicalEntries base →
    (∀ entry ∈ overlay, entry.2.Canonical) →
    (Toml.table (mergeEntries base overlay)).Canonical
  | base, [], sorted, canonicalBase, _ => by
    rw [mergeEntries]
    exact ⟨sorted, canonicalBase⟩
  | base, (name, value) :: overlay, sorted, canonicalBase, canonicalOverlay => by
    obtain ⟨first, later⟩ := List.forall_mem_cons.mp canonicalOverlay
    have inside := canonicalEntries_iff.mp canonicalBase
    rw [mergeEntries]
    apply canonical_mergeEntries overlay (Fields.sorted_insert sorted _ _)
    · refine canonicalEntries_iff.mpr ?_
      intro entry member
      rcases Fields.mem_insert member with same | old
      · rw [same]
        cases found : Fields.get name base with
        | none => exact first
        | some existing =>
          exact canonical_merge value (inside _ (Fields.mem_of_get_eq_some found)) first
      · exact inside entry old
    · exact later

end

/-- The overlay has nothing at the path, at no prefix of it anything but a table, and nothing where
    the path leads through an array. -/
def StepsOver (config : Toml) (path : List TomlComponent) : Prop :=
  ∀ front value, front <+: path → config.at? front = some value →
    value.isTable ∧ ∃ name rest, path = front ++ key name :: rest

theorem StepsOver.cons {inner : Toml} (table : config.isTable)
    (found : config.get name = some inner)
    (steps : StepsOver inner path) : StepsOver config (key name :: path) := by
  intro front value isPrefix atFront
  cases front with
  | nil =>
    rw [at?, Option.some.injEq] at atFront
    exact ⟨atFront ▸ table, name, path, rfl⟩
  | cons component front =>
    obtain ⟨rfl, more⟩ := List.cons_prefix_cons.mp isPrefix
    rw [at?, child, found, Option.bind_some] at atFront
    obtain ⟨isTable, other, rest, split⟩ := steps front value more atFront
    exact ⟨isTable, other, rest, by rw [split, List.cons_append]⟩

theorem StepsOver.of_absent (table : config.isTable) (absent : config.get name = none) :
    StepsOver config (key name :: path) := by
  intro front value isPrefix atFront
  cases front with
  | nil =>
    rw [at?, Option.some.injEq] at atFront
    exact ⟨atFront ▸ table, name, path, rfl⟩
  | cons component front =>
    obtain ⟨rfl, more⟩ := List.cons_prefix_cons.mp isPrefix
    rw [at?, child, absent, Option.bind_none] at atFront
    cases atFront

/-- A leaf of the merge is one of the overlay, or one of the base that the overlay steps over. -/
theorem leafAt_merge (canonical : overlay.Canonical)
    (found : (mergeOwnedTomlValues base overlay).leafAt path = some leaf) :
    overlay.leafAt path = some leaf ∨ base.leafAt path = some leaf ∧ StepsOver overlay path := by
  induction path generalizing base overlay with
  | nil =>
    cases overlay with
    | table entries => cases found
    | string _ | integer _ | float _ | boolean _ | datetime _ | array _ => exact .inl found
  | cons component path ih =>
    cases overlay with
    | string _ | integer _ | float _ | boolean _ | datetime _ | array _ => exact .inl found
    | table entries =>
      rw [mergeOwnedTomlValues] at found
      by_cases isTable : base.isTable
      · rw [if_pos isTable, leafAt_cons] at found
        cases component with
        | index position => cases found
        | key name =>
          rw [child, Toml.get, entriesOf, get_mergeEntries canonical.1] at found
          rw [leafAt_cons, leafAt_cons, child, child, Toml.get, Toml.get, entriesOf]
          cases inOverlay : Fields.get name entries with
          | none =>
            rw [inOverlay, Option.map_none, Option.none_or] at found
            exact .inr ⟨found, .of_absent rfl inOverlay⟩
          | some value =>
            rw [inOverlay, Option.map_some, Option.some_or, Option.bind_some] at found
            rw [Option.bind_some]
            cases inBase : Fields.get name base.entriesOf with
            | none =>
              rw [inBase, Option.map_none, Option.getD_none] at found
              exact .inl found
            | some existing =>
              rw [inBase, Option.map_some, Option.getD_some] at found
              have inner : value.Canonical := canonical.get inOverlay
              rw [Option.bind_some]
              exact (ih inner found).imp_right fun both => ⟨both.1, both.2.cons rfl inOverlay⟩
      · rw [if_neg isTable] at found
        exact .inl found

def FEATURE_PATH : List TomlComponent := [key "features", key "multi_agent_v2"]

def ENABLED_PATH : List TomlComponent := [key "features", key "multi_agent_v2", key "enabled"]

theorem at?_modify (name : String) (change : Toml → Toml) (value : Toml) (component : TomlComponent)
    (path : List TomlComponent) :
    (modify name change value).at? (component :: path) =
      if component = key name then (value.get name).bind fun inner => (change inner).at? path
      else value.at? (component :: path) := by
  unfold modify
  cases found : value.get name with
  | none =>
    rw [Option.map_none, Option.getD_none]
    split
    · next same => rw [same, at?, child, found, Option.bind_none, Option.bind_none]
    · rfl
  | some inner =>
    rw [Option.map_some, Option.getD_some, Option.bind_some, at?]
    cases component with
    | key other =>
      rw [child, Toml.get, entriesOf, Fields.get_insert]
      by_cases same : other = name
      · rw [if_pos same, if_pos (congrArg key same), Option.bind_some]
      · rw [if_neg same, if_neg (fun equal => same (TomlComponent.key.inj equal))]
        rfl
    | index position =>
      rw [if_neg (fun equal => by cases equal), at?, child, child]
      cases value with
      | array items => cases found
      | table entries => rfl
      | string _ => rfl
      | integer _ => rfl
      | float _ => rfl
      | boolean _ => rfl
      | datetime _ => rfl

theorem isTable_modify (table : value.isTable) : (modify name change value).isTable := by
  unfold modify
  cases value.get name with
  | none => exact table
  | some inner => rfl

theorem canonical_modify (canonical : value.Canonical)
    (changed : ∀ inner : Toml, inner.Canonical → (change inner).Canonical) :
    (modify name change value).Canonical := by
  unfold modify
  cases found : value.get name with
  | none => exact canonical
  | some inner =>
    rw [Option.map_some, Option.getD_some]
    cases value with
    | table entries =>
      have inside := canonicalEntries_iff.mp canonical.2
      refine ⟨Fields.sorted_insert canonical.1 _ _, canonicalEntries_iff.mpr ?_⟩
      intro entry member
      rcases Fields.mem_insert member with same | old
      · rw [same]
        exact changed inner (canonical.get found)
      · exact inside entry old
    | array items | string _ | integer _ | float _ | boolean _ | datetime _ => cases found

section Feature

variable {config : Toml} {enabled : Bool}

theorem at?_feature (config : Toml) : config.at? FEATURE_PATH = featureOf config := by
  rw [FEATURE_PATH, at?, child, featureOf]
  congr 1
  funext features
  rw [at?, child]
  cases features.get "multi_agent_v2" <;> rfl

/-- What is at and behind the normalized feature. -/
theorem at?_normalizeFeature (isBool : featureOf config = some (.boolean enabled))
    (path : List TomlComponent) :
    (normalizeFeature config).at? (FEATURE_PATH ++ path) =
      (Toml.table [("enabled", .boolean enabled)]).at? path := by
  obtain ⟨features, isFeatures, isFeature⟩ := Option.bind_eq_some_iff.mp isBool
  rw [FEATURE_PATH, List.cons_append, List.cons_append, List.nil_append, normalizeFeature,
    at?_modify, if_pos rfl, isFeatures, Option.bind_some, at?_modify, if_pos rfl, isFeature,
    Option.bind_some]
  rfl

theorem modify_of_not_table (other : value.isTable = false) : modify name change value = value := by
  cases value <;> first | rfl | cases other

/-- What is elsewhere is kept, but for the tables around the feature. -/
theorem at?_normalizeFeature_elsewhere (config : Toml) (elsewhere : ¬FEATURE_PATH <+: path) :
    (normalizeFeature config).at? path = config.at? path ∨
      ∃ value kept, config.at? path = some value ∧ value.isTable ∧
        (normalizeFeature config).at? path = some kept ∧ kept.isTable := by
  rw [FEATURE_PATH] at elsewhere
  cases path with
  | nil =>
    cases isTable : config.isTable with
    | true => exact .inr ⟨config, _, rfl, isTable, rfl, isTable_modify isTable⟩
    | false =>
      rw [normalizeFeature, modify_of_not_table isTable]
      exact .inl rfl
  | cons first path =>
    rw [normalizeFeature, at?_modify]
    by_cases isFeatures : first = key "features"
    · subst isFeatures
      rw [if_pos rfl, at?, child]
      cases config.get "features" with
      | none => exact .inl rfl
      | some features =>
        rw [Option.bind_some, Option.bind_some]
        cases path with
        | nil =>
          cases isTable : features.isTable with
          | true => exact .inr ⟨features, _, rfl, isTable, rfl, isTable_modify isTable⟩
          | false =>
            rw [modify_of_not_table isTable]
            exact .inl rfl
        | cons second path =>
          have different : second ≠ key "multi_agent_v2" := by
            rintro rfl
            exact elsewhere ⟨path, rfl⟩
          rw [at?_modify, if_neg different]
          exact .inl rfl
    · rw [if_neg isFeatures]
      exact .inl rfl

theorem not_scalar_of_table (table : value.isTable) : value.isScalar = false := by
  cases value <;> first | rfl | cases table

/-- A leaf of the normalized configuration is the boolean or a leaf that was there. -/
theorem leafAt_normalizeFeature (isBool : featureOf config = some (.boolean enabled))
    (found : (normalizeFeature config).leafAt path = some leaf) :
    path = ENABLED_PATH ∧ leaf = .boolean enabled ∨ config.leafAt path = some leaf := by
  obtain ⟨atPath, scalar⟩ := leafAt_eq_some.mp found
  by_cases inFeature : FEATURE_PATH <+: path
  · obtain ⟨rest, rfl⟩ := inFeature
    rw [at?_normalizeFeature isBool] at atPath
    left
    cases rest with
    | nil =>
      rw [at?, Option.some.injEq] at atPath
      subst atPath
      cases scalar
    | cons component rest =>
      rw [at?] at atPath
      obtain ⟨inner, isInner, inside⟩ := Option.bind_eq_some_iff.mp atPath
      cases component with
      | index position => cases isInner
      | key name =>
        rw [child, Toml.get, entriesOf, Fields.get] at isInner
        split at isInner
        · next same =>
          obtain rfl := Option.some.inj isInner
          cases rest with
          | nil =>
            rw [at?, Option.some.injEq] at inside
            exact ⟨by rw [← same]; rfl, inside.symm⟩
          | cons component rest =>
            rw [at?, child_of_scalar rfl, Option.bind_none] at inside
            cases inside
        · cases isInner
  · right
    rcases at?_normalizeFeature_elsewhere config inFeature with
      same | ⟨_, kept, _, _, isKept, table⟩
    · exact leafAt_eq_some.mpr ⟨same ▸ atPath, scalar⟩
    · rw [isKept, Option.some.injEq] at atPath
      subst atPath
      rw [not_scalar_of_table table] at scalar
      cases scalar

/-- The configuration has nothing at the path, at no prefix of it anything but a table or the
    boolean of the mixed feature, and nothing where the path leads through an array. -/
def Untouched (config : Toml) (path : List TomlComponent) : Prop :=
  ∀ front value, front <+: path → config.at? front = some value →
    (∃ name rest, path = front ++ key name :: rest) ∧
      (value.isTable ∨ front = FEATURE_PATH ∧ path ≠ ENABLED_PATH ∧ value.asBool.isSome)

theorem StepsOver.untouched (steps : StepsOver config path) :
    Untouched config path := by
  intro front value isPrefix atFront
  obtain ⟨table, onward⟩ := steps front value isPrefix atFront
  exact ⟨onward, .inl table⟩

/-- What the normalized overlay steps over is untouched by the overlay. -/
theorem untouched_of_normalizeFeature (isBool : featureOf config = some (.boolean enabled))
    (steps : StepsOver (normalizeFeature config) path) :
    Untouched config path := by
  intro front value isPrefix atFront
  by_cases inFeature : FEATURE_PATH <+: front
  · obtain ⟨rest, rfl⟩ := inFeature
    rw [at?_append, at?_feature, isBool, Option.bind_some] at atFront
    cases rest with
    | cons component rest =>
      rw [at?, child_of_scalar rfl, Option.bind_none] at atFront
      cases atFront
    | nil =>
      rw [at?, Option.some.injEq] at atFront
      rw [List.append_nil] at isPrefix ⊢
      have atFeature := at?_normalizeFeature isBool []
      rw [List.append_nil] at atFeature
      obtain ⟨_, onward⟩ := steps _ _ isPrefix atFeature
      refine ⟨onward, .inr ⟨rfl, ?_, by rw [← atFront]; rfl⟩⟩
      rintro rfl
      obtain ⟨table, _⟩ := steps ENABLED_PATH (.boolean enabled) (List.prefix_refl _)
        (at?_normalizeFeature isBool [key "enabled"])
      cases table
  · rcases at?_normalizeFeature_elsewhere config inFeature with
      same | ⟨other, kept, isOther, table, isKept, keptTable⟩
    · obtain ⟨table, onward⟩ := steps front value isPrefix (same.trans atFront)
      exact ⟨onward, .inl table⟩
    · rw [isOther, Option.some.injEq] at atFront
      exact ⟨(steps front kept isPrefix isKept).2, .inl (atFront ▸ table)⟩

end Feature

theorem canonical_normalize (canonical : value.Canonical) (path : List String) :
    (normalizeMultiAgentV2FeatureValue path value).Canonical := by
  unfold normalizeMultiAgentV2FeatureValue
  split
  · cases isBool : value.asBool with
    | none => exact canonical
    | some enabled => exact ⟨List.pairwise_singleton _ _, trivial, trivial⟩
  · exact canonical

theorem canonical_normalizeFeature (canonical : config.Canonical) :
    (normalizeFeature config).Canonical :=
  canonical_modify canonical fun _ features =>
    canonical_modify features fun _ feature => canonical_normalize feature _

theorem canonical_mergeConfig (canonicalBase : base.Canonical)
    (canonicalOverlay : overlay.Canonical) : (mergeOwnedConfigValues base overlay).Canonical := by
  rw [mergeOwnedConfigValues]
  split
  · exact canonical_merge _ canonicalBase (canonical_normalizeFeature canonicalOverlay)
  · split
    · exact canonical_merge _ (canonical_normalizeFeature canonicalBase) canonicalOverlay
    · exact canonical_merge _ canonicalBase canonicalOverlay

/-- The layer contains the leaf, for the enabled feature possibly as the boolean form. -/
def Writes (config : Toml) (path : List TomlComponent) (leaf : Toml) : Prop :=
  config.leafAt path = some leaf ∨
    path = ENABLED_PATH ∧ leaf.asBool.isSome ∧ config.at? FEATURE_PATH = some leaf

theorem eq_boolean_of_asBool (isBool : value.asBool.isSome) :
    ∃ enabled, value = .boolean enabled := by
  cases value <;> first | exact ⟨_, rfl⟩ | cases isBool

/-- A leaf of the merged configuration is written by the overlay; or it is a leaf of the base, or
    its boolean form, and untouched by the overlay. -/
theorem leafAt_mergeConfig (canonical : overlay.Canonical)
    (found : (mergeOwnedConfigValues base overlay).leafAt path = some leaf) :
    Writes overlay path leaf ∨ Writes base path leaf ∧ Untouched overlay path := by
  rw [mergeOwnedConfigValues] at found
  split at found
  · next mixed =>
    rw [Bool.and_eq_true, Option.any_eq_true, Option.any_eq_true] at mixed
    obtain ⟨_, feature, isFeature, isBool⟩ := mixed
    obtain ⟨enabled, rfl⟩ := eq_boolean_of_asBool isBool
    rcases leafAt_merge (canonical_normalizeFeature canonical) found with
      inOverlay | ⟨inBase, steps⟩
    · rcases leafAt_normalizeFeature isFeature inOverlay with ⟨isPath, isLeaf⟩ | kept
      · refine .inl (.inr ⟨isPath, by rw [isLeaf]; rfl, ?_⟩)
        rw [at?_feature, isFeature, isLeaf]
      · exact .inl (.inl kept)
    · exact .inr ⟨.inl inBase, untouched_of_normalizeFeature isFeature steps⟩
  · split at found
    · next mixed =>
      rw [Bool.and_eq_true, Option.any_eq_true, Option.any_eq_true] at mixed
      obtain ⟨⟨feature, isFeature, isBool⟩, _⟩ := mixed
      obtain ⟨enabled, rfl⟩ := eq_boolean_of_asBool isBool
      rcases leafAt_merge canonical found with inOverlay | ⟨inBase, steps⟩
      · exact .inl (.inl inOverlay)
      · refine .inr ⟨?_, steps.untouched⟩
        rcases leafAt_normalizeFeature isFeature inBase with ⟨isPath, isLeaf⟩ | kept
        · refine .inr ⟨isPath, by rw [isLeaf]; rfl, ?_⟩
          rw [at?_feature, isFeature, isLeaf]
        · exact .inl kept
    · rcases leafAt_merge canonical found with inOverlay | ⟨inBase, steps⟩
      · exact .inl (.inl inOverlay)
      · exact .inr ⟨.inl inBase, steps.untouched⟩

theorem untouched_enabled (untouched : Untouched config FEATURE_PATH) :
    Untouched config ENABLED_PATH := by
  have split : ENABLED_PATH = FEATURE_PATH ++ [key "enabled"] := rfl
  intro front value isPrefix atFront
  rw [split] at isPrefix
  rcases List.prefix_concat_iff.mp isPrefix with rfl | shorter
  · -- The layer would have the feature as well.
    rw [at?_append] at atFront
    obtain ⟨feature, atFeature, _⟩ := Option.bind_eq_some_iff.mp atFront
    obtain ⟨⟨name, rest, whole⟩, _⟩ := untouched FEATURE_PATH feature (List.prefix_refl _) atFeature
    exact absurd (congrArg List.length whole) (by simp)
  · obtain ⟨⟨name, rest, whole⟩, kept⟩ := untouched front value shorter atFront
    refine ⟨⟨name, rest ++ [key "enabled"], by rw [split, whole, List.append_assoc]; rfl⟩, ?_⟩
    rcases kept with table | ⟨rfl, _, _⟩
    · exact .inl table
    · exact absurd (congrArg List.length whole) (by simp)

theorem writes_merge (canonical : overlay.Canonical)
    (writes : Writes (mergeOwnedConfigValues base overlay) path leaf) :
    Writes overlay path leaf ∨ Writes base path leaf ∧ Untouched overlay path := by
  rcases writes with found | ⟨rfl, isBool, atFeature⟩
  · exact leafAt_mergeConfig canonical found
  have scalar : leaf.isScalar = true := by
    obtain ⟨enabled, rfl⟩ := eq_boolean_of_asBool isBool
    rfl
  have different : FEATURE_PATH ≠ ENABLED_PATH := by decide
  rcases leafAt_mergeConfig canonical (leafAt_eq_some.mpr ⟨atFeature, scalar⟩) with
    (inOverlay | ⟨same, _⟩) | ⟨inBase | ⟨same, _⟩, untouched⟩
  · exact .inl (.inr ⟨rfl, isBool, (leafAt_eq_some.mp inOverlay).1⟩)
  · exact absurd same different
  · exact .inr ⟨.inr ⟨rfl, isBool, (leafAt_eq_some.mp inBase).1⟩, untouched_enabled untouched⟩
  · exact absurd same different

/-- What the effective configuration has was written by a layer, and no layer above touches it. -/
theorem writes_effectiveConfig (canonical : ∀ layer ∈ layers, layer.Canonical)
    (writes : Writes (effectiveConfig layers) path leaf) :
    ∃ below layer above, layers = below ++ layer :: above ∧ Writes layer path leaf ∧
      ∀ higher ∈ above, Untouched higher path := by
  induction layers using List.reverseRecOn with
  | nil =>
    rcases writes with found | ⟨rfl, _, atFeature⟩
    · cases path with
      | nil => cases found
      | cons component path => cases component <;> cases found
    · cases atFeature
  | append_singleton layers overlay ih =>
    rw [effectiveConfig, List.foldl_append] at writes
    obtain ⟨canonicalLayers, canonicalOverlay⟩ := List.forall_mem_append.mp canonical
    rcases writes_merge (canonicalOverlay overlay List.mem_cons_self) writes with
      written | ⟨writesBase, untouched⟩
    · exact ⟨layers, overlay, [], rfl, written, List.forall_mem_nil _⟩
    · obtain ⟨below, layer, above, split, written, higher⟩ := ih canonicalLayers writesBase
      refine ⟨below, layer, above ++ [overlay], by rw [split, List.append_assoc]; rfl, written, ?_⟩
      exact List.forall_mem_append.mpr ⟨higher, List.forall_mem_singleton.mpr untouched⟩

theorem isTable_mergeConfig (table : overlay.isTable) :
    (mergeOwnedConfigValues base overlay).isTable := by
  rw [mergeOwnedConfigValues]
  split
  · exact isTable_merge (isTable_modify table)
  · split <;> exact isTable_merge table

theorem isTable_effectiveConfig (tables : ∀ layer ∈ layers, layer.isTable) :
    (effectiveConfig layers).isTable := by
  induction layers using List.reverseRecOn with
  | nil => rfl
  | append_singleton layers overlay _ =>
    rw [effectiveConfig, List.foldl_append]
    exact isTable_mergeConfig (tables overlay (List.mem_append_right _ List.mem_cons_self))

theorem canonical_effectiveConfig
    (canonical : ∀ layer ∈ layers, layer.Canonical) : (effectiveConfig layers).Canonical := by
  induction layers using List.reverseRecOn with
  | nil => exact ⟨Fields.sorted_nil, trivial⟩
  | append_singleton layers overlay ih =>
    rw [effectiveConfig, List.foldl_append]
    obtain ⟨canonicalLayers, canonicalOverlay⟩ := List.forall_mem_append.mp canonical
    exact canonical_mergeConfig (ih canonicalLayers) (canonicalOverlay overlay List.mem_cons_self)

end Codex.Config
