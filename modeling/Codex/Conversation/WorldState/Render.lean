import Codex.Conversation.ResponseItem
import Codex.Conversation.WorldState.MergePatch

/-!
# World state

`conversation/src/context/world_state/mod.rs`: the sections of the state that the model has been
told about, how they are rendered against an earlier snapshot, and the rollout items that
`ContextManager::update_world_state` (`context_manager/history.rs:513`) emits.

A fragment is its role and its rendered text.
-/

namespace Codex.Conversation.World

structure Fragment where
  role : String
  text : String
  deriving DecidableEq, Repr

/-- `PreviousSectionState` (`mod.rs:332`). -/
inductive PreviousSectionState (T : Type) where
  | absent
  | unknown
  | known (previous : T)

/-- `remove_null_object_fields` on a value. -/
def stripNulls (value : Value) : Value :=
  ⟨removeNullObjectFields value.json, canonical_removeNullObjectFields value.json value.canonical⟩

/-- A `WorldStateSection` (`mod.rs:352`): what its type decides, and its current snapshot as
    `serde_json::to_value` gives it. -/
structure TypedSection where
  Snapshot : Type
  serialized : Option Value
  deserialize : Value → Option Snapshot
  matchesLegacyFragment : String → String → Bool
  hasRetainedFragmentMatcher : Bool
  matchesRetainedFragment : String → String → Bool
  required : Bool
  recordsDelivery : Bool
  retainedStateSupported : Snapshot → List ResponseItem → Bool
  renderFragments : PreviousSectionState Snapshot → List Fragment

/-- `WorldStateSectionContribution` (`extension-api/src/contributors/world_state.rs:83`). -/
structure WorldStateSectionContribution where
  snapshot : Value
  renderDiff : PreviousSectionState Value → Option Fragment
  matchesLegacyFragment : String → String → Bool
  matchesRetainedFragment : Option (String → String → Bool)
  budgetFallback : Option (Value × Fragment)

/-- `ErasedWorldStateSection` (`mod.rs:34`): a typed section, an extension's contribution with
    whether it is required and its previous rendering, or a preserved snapshot with its accepted
    rendering. -/
inductive Section where
  | typed (state : TypedSection)
  | extension (contribution : WorldStateSectionContribution) (required : Bool)
      (previousRendering : Option Value)
  | preserved (snapshot : Value) (rendering : Option Value)

namespace Section

/-- `snapshot` (`mod.rs:75`, `mod.rs:200`, `mod.rs:262`). -/
def snapshot : Section → Option Value
  | typed state => (state.serialized.map stripNulls).filter fun value => !value.isNull
  | extension contribution _ _ =>
      (some (stripNulls contribution.snapshot)).filter fun value => !value.isNull
  | preserved snapshot _ => some snapshot

/-- `budget_fallback` (`mod.rs:183`). -/
def budgetFallback : Section → Option (Value × Fragment)
  | extension contribution _ _ =>
      contribution.budgetFallback.map fun entry => (stripNulls entry.1, entry.2)
  | typed _ => none
  | preserved _ _ => none

def retainsRenderedFragment : Section → Bool
  | typed _ => false
  | extension _ _ _ => true
  | preserved _ _ => true

def retainedRendering : Section → Option Value
  | typed _ => none
  | extension _ _ previousRendering => previousRendering
  | preserved _ rendering => rendering

def matchesLegacyFragment : Section → String → String → Bool
  | typed state => state.matchesLegacyFragment
  | extension contribution _ _ => contribution.matchesLegacyFragment
  | preserved _ _ => fun _ _ => false

def hasRetainedFragmentMatcher : Section → Bool
  | typed state => state.hasRetainedFragmentMatcher
  | extension contribution _ _ => contribution.matchesRetainedFragment.isSome
  | preserved _ _ => false

def matchesRetainedFragment : Section → String → String → Bool
  | typed state => state.matchesRetainedFragment
  | extension contribution _ _ => fun role text =>
      contribution.matchesRetainedFragment.any fun matcher => matcher role text
  | preserved _ _ => fun _ _ => false

def required : Section → Bool
  | typed state => state.required
  | extension _ required _ => required
  | preserved _ rendering => rendering.isSome

def recordsDelivery : Section → Bool
  | typed state => state.recordsDelivery
  | extension _ _ _ => false
  | preserved _ _ => false

end Section

/-- The input texts of a message's content. -/
def inputTexts (content : List ContentItem) : List String :=
  content.filterMap fun part => match part with
    | .inputText text => some text
    | .inputImage _ _ => none
    | .outputText _ => none
    | .refusal _ => none

/-- The role and input texts of a message. -/
def messageTexts : ResponseItem → Option (String × List String)
  | .message _ role content _ _ => some (role, inputTexts content)
  | _ => none

/-- `has_legacy_fragment` and `has_retained_fragment` (`mod.rs:809-839`) for a matcher. -/
def hasFragment (matcher : String → String → Bool) (items : List ResponseItem) : Bool :=
  (items.filterMap messageTexts).any fun message => message.2.any (matcher message.1)

/-- `retained_texts` (`mod.rs:790`). -/
def retainedTexts (items : List ResponseItem) (expectedRole : String) : List String :=
  ((items.filterMap messageTexts).filter fun message => message.1 = expectedRole).flatMap Prod.snd

/-- What the world state takes from the rest of the program: the hexadecimal SHA-256 of a text, and
    the text of a withdrawal, which prints its receipt (`mod.rs:767`). -/
structure Host where
  deliveryDigest : String → String
  removalText : String → Value → String

/-- `retained_state_supported` (`mod.rs:117`, `mod.rs:226`, `mod.rs:282`). -/
def Section.retainedStateSupported (host : Host) (previous : Value) (items : List ResponseItem) :
    Section → Bool
  | typed state =>
      let delivered :=
        if state.recordsDelivery then
          let latest := items.reverse.findSome? fun item => (messageTexts item).bind fun message =>
            message.2.reverse.find? (state.matchesLegacyFragment message.1)
          ((previous.get "_retained_delivery").bind Value.asStr).any fun expected =>
            latest.any fun text => host.deliveryDigest text = expected
        else true
      delivered && (state.deserialize previous).any fun old => state.retainedStateSupported old items
  | extension _ _ _ => true
  | preserved _ rendering => rendering.any fun fragment =>
      ((fragment.get "role").bind Value.asStr).any fun role =>
        ((fragment.get "text").bind Value.asStr).any fun text =>
          (retainedTexts items role).any fun retained => retained = text

/-- `render_fragments` (`mod.rs:164`, `mod.rs:230`, `mod.rs:293`). -/
def Section.renderFragments (previous : PreviousSectionState Value) : Section → List Fragment
  | typed state => state.renderFragments <| match previous with
      | .absent => .absent
      | .unknown => .unknown
      | .known value => match state.deserialize value with
          | some old => .known old
          | none => .unknown
  | extension contribution _ _ => (contribution.renderDiff previous).toList
  | preserved _ rendering => match previous with
      | .known _ => []
      | .absent | .unknown => (rendering.bind fun fragment =>
          ((fragment.get "role").bind Value.asStr).bind fun role =>
            if role = "developer" || role = "user" then
              ((fragment.get "text").bind Value.asStr).map fun text => ⟨role, text⟩
            else none).toList

/-- `WorldStateSnapshot` (`mod.rs:406`). -/
structure WorldStateSnapshot where
  sections : Object
  deriving DecidableEq

namespace WorldStateSnapshot

/-- `WorldStateSnapshot::section` (`mod.rs:414`). -/
def getSection (snapshot : WorldStateSnapshot) (id : String) : Option Value :=
  snapshot.sections.get id

/-- `WorldStateSnapshot::rendered_extension` (`mod.rs:411`). -/
def renderedExtension (snapshot : WorldStateSnapshot) (id : String) : Option Value :=
  (snapshot.sections.get "_codex_extension_delivery").bind fun value => value.get id

/-- `WorldStateSnapshot::into_value` (`mod.rs:418`). -/
def intoValue (snapshot : WorldStateSnapshot) : Value := snapshot.sections.toValue

/-- `serde_json::from_value` of a snapshot: only an object is one. -/
def fromValue (value : Value) : Option WorldStateSnapshot := value.asObject.map mk

theorem canonical_patch (previous current : Object) :
    (Json.object (patchFields (some previous.fields) (deletions previous.fields current.fields)
      current.fields)).Canonical := by
  by_cases empty : patchFields (some previous.fields) (deletions previous.fields current.fields) current.fields = []
  · rw [empty]
    exact ⟨Fields.sorted_nil, trivial⟩
  · refine canonical_createMergePatch (.object current.fields) (.object previous.fields) _ current.canonical ?_
    simp [createMergePatch, Json.asObject, empty]

/-- `merge_patch_from` (`mod.rs:423`). -/
def mergePatchFrom (current previous : WorldStateSnapshot) : Option Value :=
  let patch := patchFields (some previous.sections.fields)
    (deletions previous.sections.fields current.sections.fields) current.sections.fields
  if patch.isEmpty then none
  else some ⟨.object patch, canonical_patch previous.sections current.sections⟩

theorem canonical_applied (sections patch : Object) :
    (Json.object (applyFields sections.fields patch.fields)).Canonical := by
  have applied := canonical_applyMergePatchValue (.object patch.fields) (.object sections.fields) sections.canonical
    patch.canonical
  rwa [applyMergePatchValue] at applied

/-- `apply_merge_patch` (`mod.rs:443`): an error for what is no object. -/
def applyMergePatch (snapshot : WorldStateSnapshot) (patch : Value) : Option WorldStateSnapshot :=
  match patch.asObject with
  | some fields => some ⟨⟨applyFields snapshot.sections.fields fields.fields, canonical_applied _ _⟩⟩
  | none => fromValue patch

end WorldStateSnapshot

/-- `WorldState` (`mod.rs:400`): sections with distinct ids, in the order they were added. -/
structure WorldState where
  sections : List (String × Section)
  nodup : (sections.map Prod.fst).Nodup

/-- `MAX_MODEL_CONTEXT_TOKENS` in bytes (`context-fragments/src/budget.rs:8`). -/
def MAX_MODEL_CONTEXT_BYTES : Nat := 10000 * 4

/-- `ModelContextBudget::try_take` of each text (`budget.rs:36`): what is left when all fit. -/
def takeAll (remaining : Nat) : List String → Option Nat
  | [] => some remaining
  | text :: texts =>
      if text.utf8ByteSize ≤ remaining then takeAll (remaining - text.utf8ByteSize) texts else none

def supportedRole (fragment : Fragment) : Bool :=
  fragment.role = "developer" || fragment.role = "user"

/-- `json!` of a role and a text. -/
def renderingOf (role text : String) : Value :=
  ((Object.empty.insert "role" (.string role)).insert "text" (.string text)).toValue

/-- `removed_extension_fragment` (`mod.rs:767`). -/
def removedExtensionFragment (host : Host) (id : String) (rendering : Value) : Option Fragment :=
  ((rendering.get "role").bind Value.asStr).bind fun role =>
    if role = "developer" || role = "user" then some ⟨role, host.removalText id rendering⟩
    else none

/-- What a section offers: its fragments, the snapshot they bring about, whether they may overflow
    the budget, and the budget left when they fit. -/
structure Delivery where
  fragments : List Fragment
  admittedSnapshot : Option Value
  required : Bool
  candidateBudget : Option Nat

/-- The delivery of a section, with its compact fallback in place of fragments that do not fit
    (`mod.rs:624-673`). -/
def chooseDelivery (entry : Section) (previous : PreviousSectionState Value)
    (rejectedSnapshot acceptedRendering : Option Value) (previouslyObserved : Bool)
    (budget : Nat) : Delivery :=
  let delivery := entry.renderFragments previous
  let ordinary : Delivery :=
    ⟨delivery, entry.snapshot, entry.required, takeAll budget (delivery.map Fragment.text)⟩
  if ordinary.candidateBudget.isNone && !entry.required && previouslyObserved &&
      delivery.all supportedRole then
    match entry.budgetFallback with
    | none => ordinary
    | some (snapshot, fragment) =>
        if !snapshot.isNull && fragment.text.utf8ByteSize ≤ 1024 && supportedRole fragment then
          let alreadyDelivered := rejectedSnapshot = some snapshot &&
            acceptedRendering = some (renderingOf fragment.role fragment.text)
          let delivery := if alreadyDelivered then [] else [fragment]
          ⟨delivery, some snapshot, true, takeAll budget (delivery.map Fragment.text)⟩
        else ordinary
  else ordinary

/-- The state of `render_with`'s loop. -/
structure Rendering where
  budget : Nat
  fragments : List Fragment
  sections : Object
  extensionRenderings : Object

/-- The withdrawal of a developer rendering that a user one replaces (`mod.rs:696-717`). -/
def withdrawal (host : Host) (id : String) (entry : Section) (delivery : List Fragment)
    (acceptedRendering : Option Value) : Option Fragment :=
  if entry.retainsRenderedFragment && delivery.any fun fragment => fragment.role = "user" then
    (acceptedRendering.filter fun rendering =>
      (rendering.get "role").bind Value.asStr = some "developer").bind
        (removedExtensionFragment host id)
  else none

/-- The snapshot of a section with the digest of its latest delivery (`mod.rs:737-749`). -/
def withDelivery (records : Bool) (digest : Option Value) (snapshot : Value) : Value :=
  match records, snapshot.asObject, digest with
  | true, some fields, some digest => (fields.insert "_retained_delivery" digest).toValue
  | _, _, _ => snapshot

/-- What is known of a section before it is rendered: the snapshot that stays when its delivery is
    not admitted. -/
def PreviousSectionState.rejectedSnapshot {T : Type} : PreviousSectionState T → Option T
  | known previous => some previous
  | absent => none
  | unknown => none

def PreviousSectionState.isAbsent {T : Type} : PreviousSectionState T → Bool
  | absent => true
  | unknown => false
  | known _ => false

/-- The rendering accepted for a section so far (`mod.rs:616-619`). -/
def acceptedBefore (previousSnapshot : Option WorldStateSnapshot) (id : String)
    (entry : Section) : Option Value :=
  (previousSnapshot.bind fun snapshot => snapshot.renderedExtension id).or entry.retainedRendering

/-- The rendering accepted for a section after its delivery (`mod.rs:722-730`). -/
def acceptedAfter (entry : Section) (delivery : List Fragment) (advanced : Bool)
    (acceptedRendering : Option Value) : Option Value :=
  if advanced && entry.retainsRenderedFragment then
    (delivery.getLast?.map fun fragment => renderingOf fragment.role fragment.text).or
      acceptedRendering
  else acceptedRendering

/-- The value of a section in the new snapshot, given whether its delivery was admitted. -/
def sectionValue (host : Host) (entry : Section) (rejectedSnapshot : Option Value)
    (delivery : Delivery) (advanced : Bool) : Option Value :=
  let deliveredDigest := if advanced && entry.recordsDelivery then
      delivery.fragments.getLast?.map fun fragment => Value.string (host.deliveryDigest fragment.text)
    else none
  let digest := deliveredDigest.or
    (rejectedSnapshot.bind fun old => old.get "_retained_delivery")
  (if advanced then delivery.admittedSnapshot else rejectedSnapshot).map
    (withDelivery entry.recordsDelivery digest)

/-- One section of `render_with` (`mod.rs:607-756`). -/
def renderSection (host : Host) (previousSnapshot : Option WorldStateSnapshot)
    (previousOf : String → Section → PreviousSectionState Value) (state : Rendering)
    (named : String × Section) : Rendering :=
  let id := named.1
  let entry := named.2
  let previous := previousOf id entry
  let rejectedSnapshot := previous.rejectedSnapshot
  let acceptedRendering := acceptedBefore previousSnapshot id entry
  let previouslyObserved := !previous.isAbsent || acceptedRendering.isSome
  let delivery :=
    chooseDelivery entry previous rejectedSnapshot acceptedRendering previouslyObserved state.budget
  let advanced := delivery.fragments.all supportedRole &&
    (delivery.candidateBudget.isSome || delivery.required)
  let withdrawn :=
    if advanced then withdrawal host id entry delivery.fragments acceptedRendering else none
  let budget := if advanced then
      let budget := delivery.candidateBudget.getD 0
      withdrawn.elim budget fun fragment => (takeAll budget [fragment.text]).getD 0
    else state.budget
  let delivered := if advanced then withdrawn.toList ++ delivery.fragments else []
  let acceptedRendering := acceptedAfter entry delivery.fragments advanced acceptedRendering
  match sectionValue host entry rejectedSnapshot delivery advanced with
  | none => { state with budget := budget, fragments := state.fragments ++ delivered }
  | some snapshot =>
      { budget := budget
        fragments := state.fragments ++ delivered
        sections := state.sections.insert id snapshot
        extensionRenderings := if entry.retainsRenderedFragment then
            acceptedRendering.elim state.extensionRenderings (state.extensionRenderings.insert id)
          else state.extensionRenderings }

/-- `render_with` (`mod.rs:597`): required sections first. -/
def renderWith (host : Host) (worldState : WorldState)
    (previousSnapshot : Option WorldStateSnapshot)
    (previousOf : String → Section → PreviousSectionState Value) :
    List Fragment × WorldStateSnapshot :=
  let ordered := worldState.sections.filter (fun named => named.2.required) ++
    worldState.sections.filter fun named => !named.2.required
  let state := ordered.foldl (renderSection host previousSnapshot previousOf)
    ⟨MAX_MODEL_CONTEXT_BYTES, [], .empty, .empty⟩
  let sections := if state.extensionRenderings.fields.isEmpty then state.sections
    else state.sections.insert "_codex_extension_delivery" state.extensionRenderings.toValue
  (state.fragments, ⟨sections⟩)

/-- What the history and the previous snapshot say about a section (`mod.rs:573-594`). -/
def previousInHistory (host : Host) (previous : Option WorldStateSnapshot)
    (items : List ResponseItem) (id : String) (entry : Section) : PreviousSectionState Value :=
  match previous.bind fun snapshot => snapshot.getSection id with
  | some value =>
      if entry.recordsDelivery && (value.get "_retained_delivery").isNone &&
          !hasFragment entry.matchesLegacyFragment items then .absent
      else if !entry.retainedStateSupported host value items then .unknown
      else if entry.hasRetainedFragmentMatcher &&
          !hasFragment entry.matchesRetainedFragment items then .absent
      else .known value
  | none => if hasFragment entry.matchesLegacyFragment items then .unknown else .absent

/-- `render_history_diff_with_snapshot` (`mod.rs:566`). -/
def renderHistoryDiffWithSnapshot (host : Host) (worldState : WorldState)
    (previous : Option WorldStateSnapshot) (items : List ResponseItem) :
    List Fragment × WorldStateSnapshot :=
  renderWith host worldState previous (previousInHistory host previous items)

/-- `WorldStateItem` (`protocol.rs:5201`). -/
structure WorldStateItem where
  full : Bool
  state : Value
  deriving DecidableEq

/-- The parts of `ContextManager` that the world state concerns (`history.rs:441`). -/
structure Manager where
  items : List ResponseItem
  worldStateBaseline : Option WorldStateSnapshot

/-- `ContextManager::update_world_state` (`history.rs:513`). -/
def updateWorldState (host : Host) (manager : Manager) (worldState : WorldState) :
    Manager × List Fragment × Option WorldStateItem :=
  let rendered :=
    renderHistoryDiffWithSnapshot host worldState manager.worldStateBaseline manager.items
  let rolloutItem := manager.worldStateBaseline.elim
    (some (WorldStateItem.mk true rendered.2.intoValue))
    fun previous => (rendered.2.mergePatchFrom previous).map (WorldStateItem.mk false)
  ({ manager with worldStateBaseline := some rendered.2 }, rendered.1, rolloutItem)

/-- A persisted item applied to a baseline (`core/src/session/rollout_reconstruction.rs:1334-1352`). -/
def applyItem (baseline : Option WorldStateSnapshot) (item : WorldStateItem) :
    Option WorldStateSnapshot :=
  if item.full then WorldStateSnapshot.fromValue item.state
  else baseline.bind fun previous => previous.applyMergePatch item.state

end Codex.Conversation.World
