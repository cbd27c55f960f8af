import Codex.Config.Merge
import Codex.Lib.JsonCompact

/-!
# Origins of configuration values

`config/src/fingerprint.rs`: `config_origin_key` and `record_origins`; `config/src/state.rs`:
`origins_for_effective_config`. The strings of `serde_json` are an instance.
-/

namespace Codex.Config

open TomlComponent Toml JsonText

/-- A byte of a bare key. -/
def isBareByte (byte : UInt8) : Bool :=
  (48 ≤ byte && byte ≤ 57) || (65 ≤ byte && byte ≤ 90) || (97 ≤ byte && byte ≤ 122) || byte = 95 ||
    byte = 45

section Writer

variable [StringWriter]

/-- A component of `config_origin_key` (`fingerprint.rs:14`). -/
def renderKey (name : String) : List UInt8 :=
  let bytes := utf8 name
  if bytes ≠ [] && bytes.all isBareByte then bytes else string bytes

def renderIndex (position : Nat) : List UInt8 := 91 :: (decimal position ++ [93])

def render : TomlComponent → List UInt8
  | key name => renderKey name
  | index position => renderIndex position

/-- `path.join(".")`. -/
def joinPath : List (List UInt8) → List UInt8
  | [] => []
  | [text] => text
  | text :: next :: path => text ++ 46 :: joinPath (next :: path)

/-- `config_origin_key` (`fingerprint.rs:14`). -/
def configOriginKey (path : List String) : List UInt8 := joinPath (path.map renderKey)

/-- The text of a path. -/
def renderPath (path : List TomlComponent) : List UInt8 := joinPath (path.map render)

/-- `ConfigLayerEntry`, a complete configuration and what is said of its layer. -/
structure ConfigLayerEntry (Metadata : Type) where
  entries : List (String × Toml)
  canonical : (Toml.table entries).Canonical
  metadata : Metadata

variable {Metadata : Type}

def ConfigLayerEntry.config (layer : ConfigLayerEntry Metadata) : Toml := .table layer.entries

abbrev Origins (Metadata : Type) := AList (fun _ : List UInt8 => Metadata)

mutual

/-- `record_origins` (`fingerprint.rs:24`). -/
def recordOrigins (metadata : Metadata) : Toml → List (List UInt8) → Origins Metadata →
    Origins Metadata
  | .table entries, path, origins => recordEntries metadata entries path origins
  | .array items, path, origins => recordItems metadata 0 items path origins
  | .string _, path, origins | .integer _, path, origins | .float _, path, origins
  | .boolean _, path, origins | .datetime _, path, origins =>
      if path = [] then origins else origins.insert (joinPath path) metadata

def recordEntries (metadata : Metadata) : List (String × Toml) → List (List UInt8) →
    Origins Metadata → Origins Metadata
  | [], _, origins => origins
  | (name, value) :: entries, path, origins =>
      recordEntries metadata entries path
        (recordOrigins metadata value (path ++ [configOriginKey [name]]) origins)

def recordItems (metadata : Metadata) (position : Nat) : List Toml → List (List UInt8) →
    Origins Metadata → Origins Metadata
  | [], _, origins => origins
  | item :: items, path, origins =>
      recordItems metadata (position + 1) items path
        (recordOrigins metadata item (path ++ [renderIndex position]) origins)

end

/-- `features.multi_agent_v2.enabled`, as it is inserted (`state.rs:672`). -/
def ENABLED_KEY : List UInt8 := utf8 "features.multi_agent_v2.enabled"

/-- The loop over the layers (`state.rs:659`). -/
def recordLayer (hasFeatureEnabledLeaf : Bool) (origins : Origins Metadata)
    (layer : ConfigLayerEntry Metadata) : Origins Metadata :=
  let recorded := recordOrigins layer.metadata layer.config [] origins
  if hasFeatureEnabledLeaf && (featureOf layer.config).any (·.asBool.isSome) then
    recorded.insert ENABLED_KEY layer.metadata
  else recorded

/-- `origins_for_effective_config` (`state.rs:650`). -/
def originsForEffectiveConfig (layers : List (ConfigLayerEntry Metadata)) (effective : Toml) :
    Origins Metadata :=
  let hasFeatureEnabledLeaf :=
    ((featureOf effective).bind fun feature => feature.get "enabled").isSome
  let origins := layers.foldl (recordLayer hasFeatureEnabledLeaf) ∅
  let effectivePaths := recordOrigins () effective [] ∅
  Machine.retain (fun path _ => (effectivePaths.lookup path).isSome) origins

/-- What stands behind a component of a path. -/
def tailText : List TomlComponent → List UInt8
  | [] => []
  | component :: path => 46 :: renderPath (component :: path)

theorem renderPath_cons (component : TomlComponent) (path : List TomlComponent) :
    renderPath (component :: path) = render component ++ tailText path := by
  cases path with
  | nil => rw [renderPath, List.map_singleton, joinPath, tailText, List.append_nil]
  | cons next path => rfl

theorem tailText_head (path : List TomlComponent) :
    tailText path = [] ∨ ∃ rest, tailText path = 46 :: rest := by
  cases path with
  | nil => exact .inl rfl
  | cons component path => exact .inr ⟨_, rfl⟩

omit [StringWriter] in
/-- Texts without a separator are told apart in front of the first one. -/
theorem append_separator_inj {separator : UInt8} {first second rest more : List UInt8}
    (absentFirst : separator ∉ first) (absentSecond : separator ∉ second)
    (restHead : rest = [] ∨ ∃ tail, rest = separator :: tail)
    (moreHead : more = [] ∨ ∃ tail, more = separator :: tail)
    (same : first ++ rest = second ++ more) :
    first = second ∧ rest = more := by
  rcases List.append_eq_append_iff.mp same with
    ⟨middle, isSecond, isRest⟩ | ⟨middle, isFirst, isMore⟩
  · cases middle with
    | nil => exact ⟨by rw [isSecond, List.append_nil], isRest⟩
    | cons byte middle =>
      rcases restHead with empty | ⟨tail, isDot⟩
      · rw [empty] at isRest
        cases isRest
      · rw [isDot, List.cons_append, List.cons.injEq] at isRest
        rw [isSecond, ← isRest.1] at absentSecond
        exact absurd (List.mem_append_right _ List.mem_cons_self) absentSecond
  cases middle with
  | nil => exact ⟨by rw [isFirst, List.append_nil], isMore.symm⟩
  | cons byte middle =>
    rcases moreHead with empty | ⟨tail, isDot⟩
    · rw [empty] at isMore
      cases isMore
    · rw [isDot, List.cons_append, List.cons.injEq] at isMore
      rw [isFirst, ← isMore.1] at absentFirst
      exact absurd (List.mem_append_right _ List.mem_cons_self) absentFirst

/-- A key is bare or quoted. -/
theorem renderKey_cases (name : String) :
    (renderKey name = utf8 name ∧ utf8 name ≠ [] ∧ ∀ byte ∈ utf8 name, isBareByte byte = true) ∨
      renderKey name = string (utf8 name) := by
  unfold renderKey
  by_cases bare : (utf8 name ≠ [] && (utf8 name).all isBareByte) = true
  · rw [Bool.and_eq_true, decide_eq_true_eq, List.all_eq_true] at bare
    refine .inl ⟨if_pos ?_, bare.1, bare.2⟩
    rw [Bool.and_eq_true, decide_eq_true_eq, List.all_eq_true]
    exact bare
  · exact .inr (if_neg bare)

theorem render_ne_nil (component : TomlComponent) : render component ≠ [] := by
  cases component with
  | index position => exact List.cons_ne_nil _ _
  | key name =>
    rw [render]
    rcases renderKey_cases name with ⟨isBare, nonempty, _⟩ | quoted
    · rw [isBare]
      exact nonempty
    · obtain ⟨rest, split⟩ := string_quoted (utf8 name)
      rw [quoted, split]
      exact List.cons_ne_nil _ _

/-- Indices of arrays are never mistaken for keys. -/
theorem renderKey_ne_index (name : String) (position : Nat) {rest more : List UInt8} :
    renderKey name ++ rest ≠ renderIndex position ++ more := by
  intro same
  rw [renderIndex, List.cons_append] at same
  rcases renderKey_cases name with ⟨isBare, nonempty, bare⟩ | quoted
  · obtain ⟨byte, bytes, split⟩ := List.exists_cons_of_ne_nil nonempty
    rw [isBare, split, List.cons_append, List.cons.injEq] at same
    have bareByte := bare byte (split ▸ List.mem_cons_self)
    rw [same.1] at bareByte
    revert bareByte
    decide
  · obtain ⟨_, split⟩ := string_quoted (utf8 name)
    rw [quoted, split, List.cons_append, List.cons.injEq] at same
    exact absurd same.1 (by decide)

omit [StringWriter] in
theorem not_mem_of_bare {bytes : List UInt8} (bare : ∀ byte ∈ bytes, isBareByte byte = true)
    {byte : UInt8} (other : isBareByte byte = false) : byte ∉ bytes := by
  intro member
  rw [bare byte member] at other
  cases other

/-- Bare keys are never mistaken for quoted ones. -/
theorem bare_ne_quoted {bytes : List UInt8} (nonempty : bytes ≠ [])
    (bare : ∀ byte ∈ bytes, isBareByte byte = true) {quoted rest more : List UInt8} :
    bytes ++ rest ≠ string quoted ++ more := by
  obtain ⟨byte, others, rfl⟩ := List.exists_cons_of_ne_nil nonempty
  obtain ⟨_, split⟩ := string_quoted quoted
  rw [split]
  intro same
  rw [List.cons_append, List.cons_append, List.cons.injEq] at same
  have quote := bare byte List.mem_cons_self
  rw [same.1] at quote
  exact absurd quote (by decide)

variable {path : List TomlComponent} {leaf : Toml}

/-- A component with what stands behind it is told from any other by its text. -/
theorem render_inj {first second : TomlComponent} {others : List TomlComponent}
    (same : render first ++ tailText path = render second ++ tailText others) :
    first = second ∧ tailText path = tailText others := by
  cases first with
  | key name =>
    cases second with
    | key other =>
      rw [render, render] at same
      rcases renderKey_cases name with ⟨isBare, nonempty, bare⟩ | quoted <;>
        rcases renderKey_cases other with ⟨otherBare, otherNonempty, bareOther⟩ | otherQuoted
      · rw [isBare, otherBare] at same
        obtain ⟨sameName, sameTail⟩ := append_separator_inj (not_mem_of_bare bare rfl)
          (not_mem_of_bare bareOther rfl) (tailText_head path) (tailText_head others) same
        exact ⟨congrArg key (utf8_injective sameName), sameTail⟩
      · rw [isBare, otherQuoted] at same
        exact absurd same (bare_ne_quoted nonempty bare)
      · rw [quoted, otherBare] at same
        exact absurd same.symm (bare_ne_quoted otherNonempty bareOther)
      · rw [quoted, otherQuoted] at same
        obtain ⟨sameName, sameTail⟩ := string_inj same
        exact ⟨congrArg key (utf8_injective sameName), sameTail⟩
    | index position =>
      exact absurd same (renderKey_ne_index name position)
  | index position =>
    cases second with
    | key other => exact absurd same.symm (renderKey_ne_index other position)
    | index other =>
      rw [render, render, renderIndex, renderIndex, List.cons_append, List.cons_append,
        List.cons.injEq, List.append_assoc, List.append_assoc, List.singleton_append,
        List.singleton_append] at same
      have noBracket : ∀ number, (93 : UInt8) ∉ decimal number := by
        intro number member
        have digit := decimal_digits 93 member
        revert digit
        decide
      obtain ⟨sameDigits, sameTail⟩ := append_separator_inj (noBracket position) (noBracket other)
        (.inr ⟨_, rfl⟩) (.inr ⟨_, rfl⟩) same.2
      exact ⟨congrArg index (decimal_injective sameDigits), (List.cons.inj sameTail).2⟩

/-- Different paths have different texts. -/
theorem renderPath_injective {other : List TomlComponent}
    (same : renderPath path = renderPath other) : path = other := by
  induction path generalizing other with
  | nil =>
    cases other with
    | nil => rfl
    | cons component other =>
      rw [renderPath_cons] at same
      exact absurd (List.append_eq_nil_iff.mp same.symm).1 (render_ne_nil component)
  | cons component path ih =>
    cases other with
    | nil =>
      rw [renderPath_cons] at same
      exact absurd (List.append_eq_nil_iff.mp same).1 (render_ne_nil component)
    | cons second other =>
      rw [renderPath_cons, renderPath_cons] at same
      obtain ⟨rfl, sameTail⟩ := render_inj same
      congr 1
      cases path with
      | nil =>
        cases other with
        | nil => rfl
        | cons next other => cases sameTail
      | cons next path =>
        cases other with
        | nil => cases sameTail
        | cons third other => exact ih (List.cons.inj sameTail).2

/-- A leaf recorded under a path. -/
def recordLeaf (metadata : Metadata) (path : List (List UInt8)) (origins : Origins Metadata)
    (leaf : List TomlComponent × Toml) : Origins Metadata :=
  if path ++ leaf.1.map render = [] then origins
  else origins.insert (joinPath (path ++ leaf.1.map render)) metadata

theorem recordLeaf_cons (metadata : Metadata) (path : List (List UInt8))
    (origins : Origins Metadata) (component : TomlComponent) (leaf : List TomlComponent × Toml) :
    recordLeaf metadata path origins (component :: leaf.1, leaf.2) =
      recordLeaf metadata (path ++ [render component]) origins leaf := by
  rw [recordLeaf, recordLeaf, List.map_cons, List.append_assoc, List.singleton_append]

mutual

theorem recordOrigins_eq (metadata : Metadata) : (value : Toml) → (path : List (List UInt8)) →
    (origins : Origins Metadata) →
    recordOrigins metadata value path origins =
      (leaves value).foldl (recordLeaf metadata path) origins
  | .table entries, path, origins => by
    rw [recordOrigins, leaves, recordEntries_eq metadata entries]
  | .array items, path, origins => by
    rw [recordOrigins, leaves, recordItems_eq metadata items]
  | .string _, path, origins | .integer _, path, origins | .float _, path, origins
  | .boolean _, path, origins | .datetime _, path, origins => by
    rw [recordOrigins, leaves, List.foldl_cons, List.foldl_nil, recordLeaf, List.map_nil,
      List.append_nil]

theorem recordEntries_eq (metadata : Metadata) : (entries : List (String × Toml)) →
    (path : List (List UInt8)) → (origins : Origins Metadata) →
    recordEntries metadata entries path origins =
      (leavesOfEntries entries).foldl (recordLeaf metadata path) origins
  | [], _, _ => rfl
  | (name, value) :: entries, path, origins => by
    rw [recordEntries, leavesOfEntries, List.foldl_append, List.foldl_map,
      recordEntries_eq metadata entries, recordOrigins_eq metadata value]
    simp only [recordLeaf_cons]
    rfl

theorem recordItems_eq (metadata : Metadata) : (items : List Toml) → {position : Nat} →
    (path : List (List UInt8)) → (origins : Origins Metadata) →
    recordItems metadata position items path origins =
      (leavesOfItems position items).foldl (recordLeaf metadata path) origins
  | [], _, _, _ => rfl
  | item :: items, position, path, origins => by
    rw [recordItems, leavesOfItems, List.foldl_append, List.foldl_map,
      recordItems_eq metadata items, recordOrigins_eq metadata item]
    simp only [recordLeaf_cons]
    rfl

end

theorem lookup_recordLeaves (metadata : Metadata) (found : List (List TomlComponent × Toml))
    (origins : Origins Metadata) (text : List UInt8) :
    ((found.foldl (recordLeaf metadata []) origins).lookup text = some metadata ∧
        ∃ leaf ∈ found, leaf.1 ≠ [] ∧ renderPath leaf.1 = text) ∨
      ((found.foldl (recordLeaf metadata []) origins).lookup text = origins.lookup text ∧
        ∀ leaf ∈ found, leaf.1 ≠ [] → renderPath leaf.1 ≠ text) := by
  induction found using List.reverseRecOn with
  | nil => exact .inr ⟨rfl, List.forall_mem_nil _⟩
  | append_singleton found leaf ih =>
    rw [List.foldl_append, List.foldl_cons, List.foldl_nil]
    generalize found.foldl (recordLeaf metadata []) origins = before at *
    rw [recordLeaf, List.nil_append]
    by_cases root : leaf.1 = []
    · rw [if_pos (List.map_eq_nil_iff.mpr root)]
      rcases ih with ⟨isLast, other, member, inside⟩ | ⟨kept, none⟩
      · exact .inl ⟨isLast, other, List.mem_append_left _ member, inside⟩
      · refine .inr ⟨kept, List.forall_mem_append.mpr ⟨none, List.forall_mem_singleton.mpr ?_⟩⟩
        exact fun nonempty => absurd root nonempty
    rw [if_neg (mt List.map_eq_nil_iff.mp root), Machine.lookup_insert_eq, ← renderPath]
    by_cases same : text = renderPath leaf.1
    · rw [if_pos same]
      exact .inl ⟨rfl, leaf, List.mem_append_right _ List.mem_cons_self, root, same.symm⟩
    · rw [if_neg same]
      rcases ih with ⟨isLast, other, member, inside⟩ | ⟨kept, none⟩
      · exact .inl ⟨isLast, other, List.mem_append_left _ member, inside⟩
      · refine .inr ⟨kept, List.forall_mem_append.mpr ⟨none, List.forall_mem_singleton.mpr ?_⟩⟩
        exact fun _ => Ne.symm same

/-- A path that the layer gives an origin to. -/
def Records (hasFeatureEnabledLeaf : Bool) (config : Toml) (path : List TomlComponent) : Prop :=
  (∃ leaf, config.leafAt path = some leaf) ∨
    path = ENABLED_PATH ∧ hasFeatureEnabledLeaf = true ∧
      ∃ feature, featureOf config = some feature ∧ feature.asBool.isSome

theorem renderPath_enabled : renderPath ENABLED_PATH = ENABLED_KEY := rfl

/-- Recording a configuration sets the origins of its leaves and no other. -/
theorem lookup_recordOrigins (metadata : Metadata) {config : Toml} (canonical : config.Canonical)
    (origins : Origins Metadata) (nonempty : path ≠ []) :
    ((∃ leaf, config.leafAt path = some leaf) →
        (recordOrigins metadata config [] origins).lookup (renderPath path) = some metadata) ∧
      ((¬∃ leaf, config.leafAt path = some leaf) →
        (recordOrigins metadata config [] origins).lookup (renderPath path) =
          origins.lookup (renderPath path)) := by
  rw [recordOrigins_eq]
  rcases lookup_recordLeaves metadata (leaves config) origins (renderPath path) with
    ⟨isLast, found, member, _, same⟩ | ⟨kept, none⟩
  · refine ⟨fun _ => isLast, fun absent => absurd ?_ absent⟩
    rw [← renderPath_injective same]
    exact ⟨found.2, (mem_leaves_iff config canonical).mp member⟩
  · refine ⟨?_, fun _ => kept⟩
    rintro ⟨leaf, isLeaf⟩
    exact absurd rfl (none (path, leaf) ((mem_leaves_iff config canonical).mpr isLeaf) nonempty)

theorem lookup_recordLayer {hasFeatureEnabledLeaf : Bool} {origins : Origins Metadata}
    {layer : ConfigLayerEntry Metadata} (nonempty : path ≠ []) :
    (Records hasFeatureEnabledLeaf layer.config path →
        (recordLayer hasFeatureEnabledLeaf origins layer).lookup (renderPath path) =
          some layer.metadata) ∧
      (¬Records hasFeatureEnabledLeaf layer.config path →
        (recordLayer hasFeatureEnabledLeaf origins layer).lookup (renderPath path) =
          origins.lookup (renderPath path)) := by
  obtain ⟨recorded, others⟩ :=
    lookup_recordOrigins layer.metadata layer.canonical origins nonempty
  rw [recordLayer]
  by_cases mixed : (hasFeatureEnabledLeaf &&
      (featureOf layer.config).any (·.asBool.isSome)) = true
  · rw [if_pos mixed, Machine.lookup_insert_eq, ← renderPath_enabled]
    rw [Bool.and_eq_true, Option.any_eq_true] at mixed
    by_cases same : path = ENABLED_PATH
    · rw [if_pos (congrArg renderPath same)]
      exact ⟨fun _ => rfl, fun absent => absurd (.inr ⟨same, mixed⟩) absent⟩
    · rw [if_neg (mt renderPath_injective same)]
      refine ⟨?_, fun absent => others (fun found => absent (.inl found))⟩
      rintro (found | ⟨isPath, _⟩)
      · exact recorded found
      · exact absurd isPath same
  rw [if_neg mixed]
  refine ⟨?_, fun absent => others (fun found => absent (.inl found))⟩
  rintro (found | ⟨_, both⟩)
  · exact recorded found
  · rw [Bool.and_eq_true, Option.any_eq_true] at mixed
    exact absurd both mixed

/-- The origin of a path is the last layer that records it. -/
theorem lookup_recordLayers {hasFeatureEnabledLeaf : Bool} {origins : Origins Metadata}
    {below above : List (ConfigLayerEntry Metadata)} {layer : ConfigLayerEntry Metadata}
    (nonempty : path ≠ []) (records : Records hasFeatureEnabledLeaf layer.config path)
    (last : ∀ higher ∈ above, ¬Records hasFeatureEnabledLeaf higher.config path) :
    ((below ++ layer :: above).foldl (recordLayer hasFeatureEnabledLeaf) origins).lookup
      (renderPath path) = some layer.metadata := by
  rw [List.foldl_append, List.foldl_cons]
  generalize below.foldl (recordLayer hasFeatureEnabledLeaf) origins = before
  induction above using List.reverseRecOn with
  | nil => exact (lookup_recordLayer nonempty).1 records
  | append_singleton above higher ih =>
    obtain ⟨lastAbove, lastHigher⟩ := List.forall_mem_append.mp last
    rw [List.foldl_append, List.foldl_cons, List.foldl_nil,
      (lookup_recordLayer nonempty).2 (lastHigher higher List.mem_cons_self)]
    exact ih lastAbove

omit [StringWriter] in
/-- What is untouched is not recorded. -/
theorem Untouched.not_records {config : Toml} (untouched : Untouched config path)
    (hasFeatureEnabledLeaf : Bool) :
    ¬Records hasFeatureEnabledLeaf config path := by
  rintro (⟨leaf, found⟩ | ⟨rfl, _, feature, isFeature, isBool⟩)
  · obtain ⟨⟨name, rest, whole⟩, _⟩ :=
      untouched path leaf (List.prefix_refl path) (leafAt_eq_some.mp found).1
    exact absurd (congrArg List.length whole) (by simp)
  have within : FEATURE_PATH <+: ENABLED_PATH := ⟨[key "enabled"], rfl⟩
  obtain ⟨_, table | ⟨_, different, _⟩⟩ :=
    untouched FEATURE_PATH feature within ((at?_feature config).trans isFeature)
  · obtain ⟨enabled, rfl⟩ := eq_boolean_of_asBool isBool
    cases table
  · exact different rfl

omit [StringWriter] in
theorem Writes.records {config effective : Toml} (writes : Writes config path leaf)
    (found : effective.leafAt path = some leaf) :
    Records ((featureOf effective).bind fun feature => feature.get "enabled").isSome config
      path := by
  rcases writes with here | ⟨rfl, isBool, atFeature⟩
  · exact .inl ⟨leaf, here⟩
  refine .inr ⟨rfl, ?_, leaf, (at?_feature config).symm.trans atFeature, isBool⟩
  have split : ENABLED_PATH = FEATURE_PATH ++ [key "enabled"] := rfl
  have inside := (leafAt_eq_some.mp found).1
  rw [split, at?_append, at?_feature] at inside
  obtain ⟨feature, isFeature, atEnabled⟩ := Option.bind_eq_some_iff.mp inside
  obtain ⟨enabled, isEnabled, _⟩ := Option.bind_eq_some_iff.mp atEnabled
  rw [isFeature, Option.bind_some]
  exact Option.isSome_iff_exists.mpr ⟨enabled, isEnabled⟩

section Effective

variable (layers : List (ConfigLayerEntry Metadata))

omit [StringWriter] in
theorem canonical_layers :
    ∀ config ∈ layers.map ConfigLayerEntry.config, Toml.Canonical config := by
  intro config member
  obtain ⟨layer, _, rfl⟩ := List.mem_map.mp member
  exact layer.canonical

omit [StringWriter] in
theorem isTable_layers : ∀ config ∈ layers.map ConfigLayerEntry.config, config.isTable := by
  intro config member
  obtain ⟨layer, _, rfl⟩ := List.mem_map.mp member
  rfl

omit [StringWriter] in
theorem leafAt_effective_ne_nil
    (found : (effectiveConfig (layers.map ConfigLayerEntry.config)).leafAt path = some leaf) :
    path ≠ [] := by
  rintro rfl
  have table := isTable_effectiveConfig (isTable_layers layers)
  rw [leafAt_nil, not_scalar_of_table table] at found
  cases found

/-- The origin of a leaf of the effective configuration. -/
theorem exists_origin
    (found : (effectiveConfig (layers.map ConfigLayerEntry.config)).leafAt path = some leaf) :
    ∃ below layer above, layers = below ++ layer :: above ∧
      (originsForEffectiveConfig layers
        (effectiveConfig (layers.map ConfigLayerEntry.config))).lookup (renderPath path) =
          some layer.metadata ∧
      Writes layer.config path leaf ∧ ∀ higher ∈ above, Untouched higher.config path := by
  have canonical := canonical_layers layers
  have nonempty := leafAt_effective_ne_nil layers found
  obtain ⟨_, _, _, split, writes, untouched⟩ := writes_effectiveConfig canonical (.inl found)
  obtain ⟨below, more, rfl, rfl, isMore⟩ := List.map_eq_append_iff.mp split
  obtain ⟨layer, above, rfl, rfl, rfl⟩ := List.map_eq_cons_iff.mp isMore
  have untouchedAbove : ∀ higher ∈ above, Untouched higher.config path :=
    fun higher member => untouched _ (List.mem_map_of_mem member)
  refine ⟨below, layer, above, rfl, ?_, writes, untouchedAbove⟩
  rw [originsForEffectiveConfig, Machine.lookup_retain,
    lookup_recordLayers nonempty (writes.records found)
      fun higher member => (untouchedAbove higher member).not_records _, Option.filter_some,
    (lookup_recordOrigins () (canonical_effectiveConfig canonical) ∅ nonempty).1 ⟨leaf, found⟩]
  rfl

end Effective

/-- Origins are exact: their keys are the texts of the leaves of the effective configuration,
    different paths have different texts, and the origin of a leaf is a layer that contains it
    with no layer above that touches it. -/
theorem originsForEffectiveConfig_exact (layers : List (ConfigLayerEntry Metadata)) :
    let effective := effectiveConfig (layers.map ConfigLayerEntry.config)
    let origins := originsForEffectiveConfig layers effective
    (∀ text, (origins.lookup text).isSome ↔
      ∃ path leaf, effective.leafAt path = some leaf ∧ renderPath path = text) ∧
    (∀ path other, renderPath path = renderPath other → path = other) ∧
    ∀ path leaf, effective.leafAt path = some leaf →
      ∃ below layer above, layers = below ++ layer :: above ∧
        origins.lookup (renderPath path) = some layer.metadata ∧
        Writes layer.config path leaf ∧ ∀ higher ∈ above, Untouched higher.config path := by
  intro effective origins
  refine ⟨?_, fun path other => renderPath_injective, fun path leaf => exists_origin layers⟩
  intro text
  constructor
  · intro present
    obtain ⟨metadata, isMetadata⟩ := Option.isSome_iff_exists.mp present
    change (originsForEffectiveConfig layers effective).lookup text = some metadata at isMetadata
    rw [originsForEffectiveConfig, Machine.lookup_retain, Option.filter_eq_some_iff,
      recordOrigins_eq] at isMetadata
    rcases lookup_recordLeaves () (leaves effective) ∅ text with
      ⟨_, leaf, member, _, same⟩ | ⟨absent, _⟩
    · refine ⟨leaf.1, leaf.2, ?_, same⟩
      exact (mem_leaves_iff effective
        (canonical_effectiveConfig (canonical_layers layers))).mp member
    · rw [absent] at isMetadata
      cases isMetadata.2
  · rintro ⟨path, leaf, found, rfl⟩
    obtain ⟨_, layer, _, _, isOrigin, _⟩ := exists_origin layers found
    exact Option.isSome_iff_exists.mpr ⟨layer.metadata, isOrigin⟩

end Writer

attribute [local instance] visible

/-- A table of the mixed feature, and a layer above that sets it as a boolean. -/
def mixedLayers : List (ConfigLayerEntry Nat) :=
  [⟨[("features", .table [("multi_agent_v2", .table [("limit", .integer 3)])])],
      ⟨List.pairwise_singleton _ _, ⟨List.pairwise_singleton _ _,
        ⟨List.pairwise_singleton _ _, trivial, trivial⟩, trivial⟩, trivial⟩, 0⟩,
    ⟨[("features", .table [("multi_agent_v2", .boolean true)])],
      ⟨List.pairwise_singleton _ _, ⟨List.pairwise_singleton _ _, trivial, trivial⟩, trivial⟩, 1⟩]

/-- The boolean of the mixed feature keeps the other settings of the table below it. -/
theorem exists_origin_mixed :
    ¬∀ path leaf, (effectiveConfig (mixedLayers.map ConfigLayerEntry.config)).leafAt path =
        some leaf →
      ∃ below layer above, mixedLayers = below ++ layer :: above ∧
        (originsForEffectiveConfig mixedLayers
          (effectiveConfig (mixedLayers.map ConfigLayerEntry.config))).lookup (renderPath path) =
            some layer.metadata ∧
        Writes layer.config path leaf ∧ ∀ higher ∈ above, StepsOver higher.config path := by
  intro all
  obtain ⟨below, layer, above, split, _, writes, higher⟩ :=
    all [key "features", key "multi_agent_v2", key "limit"] (.integer 3) rfl
  cases below with
  | nil =>
    obtain ⟨_, rfl⟩ := List.cons.inj split
    obtain ⟨table, _⟩ := higher _ List.mem_cons_self FEATURE_PATH (.boolean true)
      ⟨[key "limit"], rfl⟩ rfl
    cases table
  | cons first below =>
    cases below with
    | nil =>
      obtain ⟨_, rest⟩ := List.cons.inj split
      obtain ⟨rfl, _⟩ := List.cons.inj rest
      rcases writes with found | ⟨same, _⟩
      · cases found
      · exact absurd same (by decide)
    | cons second below =>
      have lengths := congrArg List.length split
      simp only [mixedLayers, List.length_append, List.length_cons, List.length_nil] at lengths
      omega

end Codex.Config
