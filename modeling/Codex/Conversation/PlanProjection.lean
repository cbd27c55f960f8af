import Codex.Conversation.Normalize
import Codex.Lib.PairingMoves
import Codex.Lib.Retain
import Codex.Lib.Text

/-!
# Projection of the plan history

`conversation/src/context_manager/history.rs`: `project_update_plan_history`, which replaces the
accepted `update_plan` calls of a history by the latest of them. The output of a call is JSON, read
and written by `serde_json`, which is a parameter.
-/

namespace Codex.Conversation

open Codex.Pairing Codex.Retain

/-- What the projection uses of `serde_json` and its `Value`. -/
structure ValueCodec where
  Value : Type
  /-- `from_str` -/
  read : String → Option Value
  /-- `Value::to_string` -/
  print : Value → String
  /-- `Value::get` of a key -/
  get : Value → String → Option Value
  isObject : Value → Bool
  /-- `Map::remove` and `Map::insert` of an object -/
  remove : Value → String → Value
  insert : Value → String → Value → Value
  /-- `json!` of a count -/
  number : Nat → Value

/-- What is documented of the operations: only an object has a key, and setting or removing one key
    leaves the others. -/
structure ValueCodec.Lawful (codec : ValueCodec) : Prop where
  isObject_of_get : ∀ value key found, codec.get value key = some found →
    codec.isObject value = true
  get_remove : ∀ value key other, codec.isObject value = true → other ≠ key →
    codec.get (codec.remove value key) other = codec.get value other
  isObject_remove : ∀ value key, codec.isObject value = true →
    codec.isObject (codec.remove value key) = true
  get_insert : ∀ value key new other, codec.isObject value = true → other ≠ key →
    codec.get (codec.insert value key new) other = codec.get value other

/-- `function_call_output_content_items_to_text` (`models.rs:2274`). -/
def functionCallOutputContentItemsToText (items : List FunctionCallOutputContentItem) :
    Option String :=
  let segments := items.filterMap fun item =>
    match item with
    | .inputText text => if (Text.trim text.toList).isEmpty then none else some text
    | _ => none
  if segments.isEmpty then none else some ("\n".intercalate segments)

/-- `FunctionCallOutputBody::to_text` (`models.rs:2338`). -/
def FunctionCallOutputBody.toText : FunctionCallOutputBody → Option String
  | .text content => some content
  | .contentItems items => functionCallOutputContentItemsToText items

/-- The `FunctionCall` of `update_plan` without a namespace (`history.rs:1692`). -/
def isUpdatePlanCall : ResponseItem → Bool
  | .functionCall _ name namespace' _ _ _ => name = "update_plan" && namespace'.isNone
  | _ => false

section Projection

variable (codec : ValueCodec)

/-- The `current_plan` object of a value, if it has one. -/
def currentPlan (value : codec.Value) : Option codec.Value :=
  (codec.get value "current_plan").filter codec.isObject

/-- The output and its value that make a call the latest accepted one (`history.rs:1706`). -/
def authoritativeOutput (items : List ResponseItem) (counterparts : List (Option Nat))
    (callIndex : Nat) : Option (Nat × codec.Value) :=
  counterparts[callIndex]?.join.bind fun outputIndex =>
    match items[outputIndex]? with
    | some (.functionCallOutput _ _ output _) =>
        if output.success = some false then none
        else
          match output.body with
          | .contentItems _ => none
          | .text text => (codec.read text).bind fun value =>
              (currentPlan codec value).map fun _ => (outputIndex, value)
    | _ => none

/-- The output of a call that is accepted, whatever its body is made of (`history.rs:1754`). -/
def acceptedOutput (items : List ResponseItem) (counterparts : List (Option Nat))
    (callIndex : Nat) : Option Nat :=
  counterparts[callIndex]?.join.bind fun outputIndex =>
    match items[outputIndex]? with
    | some (.functionCallOutput _ _ output _) =>
        let accepted := output.success ≠ some false &&
          output.body.toText.any fun text => (codec.read text).any fun value =>
            (currentPlan codec value).isSome
        if accepted then some outputIndex else none
    | _ => none

/-- The arguments of the projected call: `json!` of its one field, as text. -/
def PROJECTED_ARGUMENTS : String :=
  "\x7b\"projected\":\"authoritative current plan is in the tool output\"\x7d"

def withArguments (arguments : String) : ResponseItem → ResponseItem
  | .functionCall id name namespace' _ callId metadata =>
      .functionCall id name namespace' arguments callId metadata
  | item => item

def withOutputText (text : String) : ResponseItem → ResponseItem
  | .functionCallOutput id callId output metadata =>
      .functionCallOutput id callId { output with body := .text text } metadata
  | item => item

/-- The value of the projected output (`history.rs:1725`). -/
def authoritativeValue (value : codec.Value) (superseded : Nat) : codec.Value :=
  codec.insert (codec.remove value "normalized_plan") "superseded_updates"
    (codec.number superseded)

/-- The indexes of the accepted calls up to the latest one, and of their outputs. -/
def updateItemIndices (items : List ResponseItem) (counterparts : List (Option Nat))
    (updateCalls : List Nat) (latestCallIndex : Nat) : List Nat :=
  updateCalls.flatMap fun index =>
    if latestCallIndex < index then []
    else ((acceptedOutput codec items counterparts index).map fun outputIndex =>
      [index, outputIndex]).getD []

/-- The loop of `items.retain`: what is kept, and how much of it before the latest call. -/
def retainUpdates (items : List ResponseItem) (indices : List Nat) (latestCallIndex : Nat) :
    List ResponseItem × Nat :=
  let kept := items.zipIdx.filter fun entry => !indices.contains entry.2
  (kept.map Prod.fst, (kept.filter fun entry => entry.2 < latestCallIndex).length)

/-- `project_update_plan_history` (`history.rs:1687`). -/
def projectUpdatePlanHistory (items : List ResponseItem) : List ResponseItem :=
  let counterparts := pairs items
  let updateCalls := items.findIdxs isUpdatePlanCall
  let latest := updateCalls.reverse.findSome? fun callIndex =>
    (authoritativeOutput codec items counterparts callIndex).map fun found => (callIndex, found)
  match latest with
  | none => items
  | some (latestCallIndex, latestOutputIndex, value) =>
      let superseded := (updateCalls.filter fun index => index < latestCallIndex).length
      let projected := [items[latestCallIndex]?.map (withArguments PROJECTED_ARGUMENTS),
        items[latestOutputIndex]?.map
          (withOutputText (codec.print (authoritativeValue codec value superseded)))].reduceOption
      let retained := retainUpdates items
        (updateItemIndices codec items counterparts updateCalls latestCallIndex) latestCallIndex
      retained.1.take retained.2 ++ projected ++ retained.1.drop retained.2

/-- The text of a body that is one text. -/
def textOnly : FunctionCallOutputBody → Option String
  | .text text => some text
  | .contentItems _ => none

/-- A call of `update_plan` is paired with an output that accepts it: the body, as it is read, is
    the text of a value with a current plan, and the call has not failed. -/
def AcceptedAs (reading : FunctionCallOutputBody → Option String) (items : List ResponseItem)
    (call output : Nat) (value : codec.Value) : Prop :=
  (∃ item, items[call]? = some item ∧ isUpdatePlanCall item = true) ∧ PairedAt items call output ∧
    ∃ id callId payload metadata text,
      items[output]? = some (.functionCallOutput id callId payload metadata) ∧
      payload.success ≠ some false ∧ reading payload.body = some text ∧
      codec.read text = some value ∧ (currentPlan codec value).isSome = true

/-- The items of the accepted pairs up to a call. -/
def Superseded (reading : FunctionCallOutputBody → Option String) (items : List ResponseItem)
    (latest index : Nat) : Prop :=
  ∃ call output value, AcceptedAs codec reading items call output value ∧ call ≤ latest ∧
    (index = call ∨ index = output)

/-- The superseded items of a history are replaced by one pair in the place of the latest call; the
    others keep their order and, where they are calls with an output, their output. -/
structure Replaced (reading : FunctionCallOutputBody → Option String)
    (items result : List ResponseItem) (call output : Nat) (value : codec.Value)
    (place : Nat → Nat) (position : Nat) : Prop where
  kept : ∀ index, index < items.length → ¬ Superseded codec reading items call index →
    result[place index]? = items[index]?
  order : ∀ first second, ¬ Superseded codec reading items call first → first < second →
    place first < place second
  before : ∀ index, ¬ Superseded codec reading items call index → index < call →
    place index < position
  after : ∀ index, call < index → position + 1 < place index
  only : ∀ other, other < result.length → other = position ∨ other = position + 1 ∨
    ∃ index, index < items.length ∧ ¬ Superseded codec reading items call index ∧
      place index = other
  callItem : ∃ id name namespace' arguments projected callId metadata,
    items[call]? = some (.functionCall id name namespace' arguments callId metadata) ∧
    result[position]? = some (.functionCall id name namespace' projected callId metadata)
  outputItem : ∃ id callId payload metadata projected,
    items[output]? = some (.functionCallOutput id callId payload metadata) ∧
    result[position + 1]? = some (.functionCallOutput id callId
      { payload with body := .text (codec.print projected) } metadata) ∧
    currentPlan codec projected = currentPlan codec value
  projected : PairedAt result position (position + 1)
  paired : ∀ first second, PairedAt items first second →
    ¬ Superseded codec reading items call first →
      ¬ Superseded codec reading items call second ∧ PairedAt result (place first) (place second)

/-- A history is left as it is, or its accepted pairs up to the latest are replaced. Which pairs
    are accepted depends on how bodies are read, to find the latest and to take out pairs. -/
def OnlyRemovesSuperseded (latestReading reading : FunctionCallOutputBody → Option String)
    (items result : List ResponseItem) : Prop :=
  ((∀ call output value, ¬ AcceptedAs codec latestReading items call output value) ∧
      result = items) ∨
    ∃ call output value place position,
      AcceptedAs codec latestReading items call output value ∧
        (∀ other otherOutput otherValue,
          AcceptedAs codec latestReading items other otherOutput otherValue → other ≤ call) ∧
        Replaced codec reading items result call output value place position

theorem pairedAt_iff {items : List ResponseItem} {call output : Nat} :
    PairedAt items call output ↔ Paired (items.map occurrence) call output := by
  constructor
  · intro paired
    exact ⟨paired.2.1, paired.1⟩
  · intro paired
    exact pairedAt_of_joined paired.1 (pairing_joined paired.1).1 paired.joined

theorem opens_updatePlanCall {item : ResponseItem} (isCall : isUpdatePlanCall item = true) :
    opens occurrence item = true := by
  rw [opens_occurrence]
  cases item with
  | functionCall => rfl
  | _ => cases isCall

theorem mem_updateCalls {items : List ResponseItem} {call : Nat} :
    call ∈ items.findIdxs isUpdatePlanCall ↔
      ∃ item, items[call]? = some item ∧ isUpdatePlanCall item = true := by
  rw [List.mem_findIdxs_iff_exists_getElem_pos]
  constructor
  · rintro ⟨inside, isCall⟩
    exact ⟨_, List.getElem?_eq_getElem inside, isCall⟩
  · rintro ⟨item, found, isCall⟩
    obtain ⟨inside, rfl⟩ := List.getElem?_eq_some_iff.mp found
    exact ⟨inside, isCall⟩

theorem counterpart_iff {items : List ResponseItem} {call output : Nat} {item : ResponseItem}
    (found : items[call]? = some item) (isCall : isUpdatePlanCall item = true) :
    (pairs items)[call]?.join = some output ↔ PairedAt items call output := by
  rw [Option.join_eq_some_iff]
  constructor
  · intro paired
    exact (pairedAt_of_opens found (opens_updatePlanCall isCall) paired).1
  · exact fun paired => paired.2.1

/-- The output that makes a call the latest accepted one is a text. -/
theorem authoritativeOutput_iff {items : List ResponseItem} {call output : Nat}
    {value : codec.Value} :
    (call ∈ items.findIdxs isUpdatePlanCall ∧
      authoritativeOutput codec items (pairs items) call = some (output, value)) ↔
      AcceptedAs codec textOnly items call output value := by
  rw [mem_updateCalls]
  constructor
  · rintro ⟨⟨item, found, isCall⟩, accepts⟩
    obtain ⟨index, paired, accepts⟩ := Option.bind_eq_some_iff.mp accepts
    rw [counterpart_iff found isCall] at paired
    split at accepts
    next id callId payload metadata atOutput =>
      split at accepts
      next => cases accepts
      next success =>
        split at accepts
        next => cases accepts
        next text body =>
          obtain ⟨read, isRead, accepts⟩ := Option.bind_eq_some_iff.mp accepts
          obtain ⟨plan, hasPlan, same⟩ := Option.map_eq_some_iff.mp accepts
          cases same
          refine ⟨⟨item, found, isCall⟩, paired, id, callId, payload, metadata, text, atOutput,
            success, ?_, isRead, ?_⟩
          · rw [body]
            rfl
          · rw [hasPlan]
            rfl
    next => cases accepts
  · rintro ⟨⟨item, found, isCall⟩, paired, id, callId, payload, metadata, text, atOutput, success,
      body, isRead, hasPlan⟩
    refine ⟨⟨item, found, isCall⟩, ?_⟩
    rw [authoritativeOutput, (counterpart_iff found isCall).mpr paired, Option.bind_some, atOutput]
    simp only
    rw [if_neg success]
    cases shape : payload.body with
    | contentItems content =>
      rw [shape] at body
      cases body
    | text content =>
      rw [shape] at body
      cases body
      obtain ⟨plan, isPlan⟩ := Option.isSome_iff_exists.mp hasPlan
      simp only [isRead, isPlan, Option.bind_some, Option.map_some]

/-- The output that makes a call one to be taken out is anything with a text. -/
theorem acceptedOutput_iff {items : List ResponseItem} {call output : Nat} :
    (call ∈ items.findIdxs isUpdatePlanCall ∧
      acceptedOutput codec items (pairs items) call = some output) ↔
      ∃ value, AcceptedAs codec FunctionCallOutputBody.toText items call output value := by
  rw [mem_updateCalls]
  constructor
  · rintro ⟨⟨item, found, isCall⟩, accepts⟩
    obtain ⟨index, paired, accepts⟩ := Option.bind_eq_some_iff.mp accepts
    rw [counterpart_iff found isCall] at paired
    split at accepts
    next id callId payload metadata atOutput =>
      obtain ⟨accepted, same⟩ := Option.ite_none_right_eq_some.mp accepts
      cases same
      obtain ⟨success, read⟩ := Bool.and_eq_true_iff.mp accepted
      obtain ⟨text, body, read⟩ := (Option.any_eq_true _ _).mp read
      obtain ⟨value, isRead, hasPlan⟩ := (Option.any_eq_true _ _).mp read
      exact ⟨value, ⟨item, found, isCall⟩, paired, id, callId, payload, metadata, text, atOutput,
        of_decide_eq_true success, body, isRead, hasPlan⟩
    next => cases accepts
  · rintro ⟨value, ⟨item, found, isCall⟩, paired, id, callId, payload, metadata, text, atOutput,
      success, body, isRead, hasPlan⟩
    refine ⟨⟨item, found, isCall⟩, ?_⟩
    rw [acceptedOutput, (counterpart_iff found isCall).mpr paired, Option.bind_some, atOutput]
    simp only [body, isRead, hasPlan, Option.any_some, Bool.and_true]
    exact if_pos (decide_eq_true success)

/-- What is accepted as a text is accepted. -/
theorem AcceptedAs.toText {codec : ValueCodec} {items : List ResponseItem} {call output : Nat}
    {value : codec.Value} (accepted : AcceptedAs codec textOnly items call output value) :
    AcceptedAs codec FunctionCallOutputBody.toText items call output value := by
  obtain ⟨isCall, paired, id, callId, payload, metadata, text, found, success, body, rest⟩ :=
    accepted
  refine ⟨isCall, paired, id, callId, payload, metadata, text, found, success, ?_, rest⟩
  cases shape : payload.body with
  | text content =>
    rw [shape] at body
    exact body
  | contentItems content =>
    rw [shape] at body
    cases body

theorem mem_updateItemIndices {items : List ResponseItem} {latest index : Nat} :
    index ∈ updateItemIndices codec items (pairs items) (items.findIdxs isUpdatePlanCall) latest ↔
      Superseded codec FunctionCallOutputBody.toText items latest index := by
  rw [updateItemIndices, List.mem_flatMap]
  constructor
  · rintro ⟨call, member, here⟩
    split at here
    next => exact absurd here List.not_mem_nil
    next early =>
      cases accepts : acceptedOutput codec items (pairs items) call with
      | none =>
        rw [accepts] at here
        exact absurd here List.not_mem_nil
      | some output =>
        rw [accepts] at here
        obtain ⟨value, accepted⟩ := (acceptedOutput_iff codec).mp ⟨member, accepts⟩
        exact ⟨call, output, value, accepted, Nat.not_lt.mp early, by simpa using here⟩
  · rintro ⟨call, output, value, accepted, early, here⟩
    obtain ⟨member, accepts⟩ := (acceptedOutput_iff codec).mpr ⟨value, accepted⟩
    refine ⟨call, member, ?_⟩
    rw [if_neg (Nat.not_lt.mpr early), accepts]
    simpa using here

/-- The last index at which a search succeeds. -/
theorem findSome?_reverse {β : Type} {find : Nat → Option β} {indexes : List Nat}
    (sorted : indexes.Pairwise (· < ·)) {found : β}
    (latest : indexes.reverse.findSome? find = some found) :
    ∃ index ∈ indexes, find index = some found ∧
      ∀ other ∈ indexes, index < other → find other = none := by
  induction indexes using List.reverseRecOn with
  | nil => cases latest
  | append_singleton indexes last ih =>
    obtain ⟨before, -, below⟩ := List.pairwise_append.mp sorted
    rw [List.reverse_append, List.reverse_singleton, List.singleton_append,
      List.findSome?_cons] at latest
    cases here : find last with
    | some value =>
      rw [here] at latest
      refine ⟨last, by simp, here.trans latest, fun other member less => ?_⟩
      rcases List.mem_append.mp member with early | same
      · have earlier := below other early last (List.mem_singleton_self last)
        omega
      · rw [List.mem_singleton.mp same] at less
        omega
    | none =>
      rw [here] at latest
      obtain ⟨index, member, isFound, none⟩ := ih before latest
      refine ⟨index, List.mem_append_left _ member, isFound, fun other later less => ?_⟩
      rcases List.mem_append.mp later with early | same
      · exact none other early less
      · rw [List.mem_singleton.mp same]
        exact here

/-- The occurrences of an accepted pair. -/
theorem AcceptedAs.isPair {codec : ValueCodec} {reading : FunctionCallOutputBody → Option String}
    {items : List ResponseItem} {call output : Nat} {value : codec.Value}
    (accepted : AcceptedAs codec reading items call output value) :
    ∃ id name namespace' arguments callId metadata outputId payload outputMetadata,
      items[call]? = some (.functionCall id name namespace' arguments callId metadata) ∧
      items[output]? = some (.functionCallOutput outputId callId payload outputMetadata) := by
  obtain ⟨⟨item, atCall, isCall⟩, paired, outputId, outputCallId, payload, outputMetadata, text,
    atOutput, -⟩ := accepted
  obtain ⟨-, -, -, kind, callId, opens, closes⟩ := paired
  cases item with
  | functionCall id name namespace' arguments ownId metadata =>
    rw [atCall] at opens
    rw [atOutput] at closes
    cases opens
    cases closes
    exact ⟨_, _, _, _, _, _, _, _, _, atCall, atOutput⟩
  | _ => cases isCall

theorem AcceptedAs.hasPlan {codec : ValueCodec} {reading : FunctionCallOutputBody → Option String}
    {items : List ResponseItem} {call output : Nat} {value : codec.Value}
    (accepted : AcceptedAs codec reading items call output value) :
    (currentPlan codec value).isSome = true := by
  obtain ⟨-, -, id, callId, payload, metadata, text, -, -, -, -, hasPlan⟩ := accepted
  exact hasPlan

/-- An accepted call is no output of another pair. -/
theorem AcceptedAs.not_output {codec : ValueCodec}
    {reading : FunctionCallOutputBody → Option String} {items : List ResponseItem}
    {call output source : Nat} {value : codec.Value}
    (accepted : AcceptedAs codec reading items call output value) :
    ¬ PairedAt items source call := by
  rintro ⟨-, -, -, kind, callId, -, closes⟩
  obtain ⟨_, _, _, _, _, _, _, _, _, atCall, -⟩ := accepted.isPair
  rw [atCall] at closes
  cases closes

/-- The output of an accepted pair is no call. -/
theorem AcceptedAs.not_call {codec : ValueCodec} {reading : FunctionCallOutputBody → Option String}
    {items : List ResponseItem} {call output target : Nat} {value : codec.Value}
    (accepted : AcceptedAs codec reading items call output value) :
    ¬ PairedAt items output target := by
  rintro ⟨-, -, -, kind, callId, opens, -⟩
  obtain ⟨_, _, _, _, _, _, _, _, _, -, atOutput⟩ := accepted.isPair
  rw [atOutput] at opens
  cases opens

/-- A call that is not superseded keeps its output. -/
theorem Superseded.of_output {codec : ValueCodec} {reading : FunctionCallOutputBody → Option String}
    {items : List ResponseItem} {latest first second : Nat} (paired : PairedAt items first second)
    (gone : Superseded codec reading items latest second) :
    Superseded codec reading items latest first := by
  obtain ⟨call, output, value, accepted, early, rfl | rfl⟩ := gone
  · exact absurd paired accepted.not_output
  · exact ⟨call, _, value, accepted, early, .inl (paired.call_unique accepted.2.1)⟩

/-- Where an item of the history goes: the latest pair to its own place. -/
def placeOf (keep : Nat → Bool) (call output index : Nat) : Nat :=
  if index = call then rank keep call
  else if index = output then rank keep call + 1
  else shifted keep 2 call index

section Moves

variable {codec} {reading : FunctionCallOutputBody → Option String} {items : List ResponseItem}
  {call output : Nat} {value : codec.Value} {keep : Nat → Bool}

theorem AcceptedAs.dropped (latest : AcceptedAs codec reading items call output value)
    (keeps : ∀ index, keep index = true ↔ ¬ Superseded codec reading items call index) :
    keep call = false ∧ keep output = false := by
  rw [← Bool.not_eq_true, ← Bool.not_eq_true, keeps, keeps, not_not, not_not]
  exact ⟨⟨call, output, value, latest, Nat.le_refl _, .inl rfl⟩,
    ⟨call, output, value, latest, Nat.le_refl _, .inr rfl⟩⟩

theorem placeOf_kept (latest : AcceptedAs codec reading items call output value)
    (keeps : ∀ index, keep index = true ↔ ¬ Superseded codec reading items call index) {index : Nat}
    (kept : keep index = true) : placeOf keep call output index = shifted keep 2 call index := by
  obtain ⟨droppedCall, droppedOutput⟩ := latest.dropped keeps
  rw [placeOf, if_neg, if_neg]
  · rintro rfl
    rw [kept] at droppedOutput
    cases droppedOutput
  · rintro rfl
    rw [kept] at droppedCall
    cases droppedCall

theorem placeOf_call : placeOf keep call output call = rank keep call := if_pos rfl

theorem placeOf_output (latest : AcceptedAs codec reading items call output value) :
    placeOf keep call output output = rank keep call + 1 := by
  rw [placeOf, if_neg (Nat.ne_of_gt latest.2.1.1), if_pos rfl]

/-- What does not stay goes with the item it is paired with. -/
theorem AcceptedAs.whole (latest : AcceptedAs codec reading items call output value)
    {index : Nat} (gone : Superseded codec reading items call index)
    (notCall : index ≠ call) (notOutput : index ≠ output) :
    ∃ first second, PairedAt items first second ∧
      Superseded codec reading items call first ∧ first ≠ call ∧ first ≠ output ∧
      Superseded codec reading items call second ∧ second ≠ call ∧ second ≠ output ∧
      (index = first ∨ index = second) := by
  obtain ⟨other, otherOutput, otherValue, accepted, early, here⟩ := gone
  have notLatest : other ≠ call := by
    rintro rfl
    have same := accepted.2.1.output_unique latest.2.1
    rcases here with rfl | rfl
    · exact notCall rfl
    · exact notOutput same
  refine ⟨other, otherOutput, accepted.2.1,
    ⟨other, otherOutput, otherValue, accepted, early, .inl rfl⟩, notLatest, ?_,
    ⟨other, otherOutput, otherValue, accepted, early, .inr rfl⟩, ?_, ?_, here⟩
  · rintro rfl
    exact latest.not_call accepted.2.1
  · rintro rfl
    exact latest.not_output accepted.2.1
  · rintro rfl
    exact notLatest (accepted.2.1.call_unique latest.2.1)

/-- Occurrences of one key keep their order: the latest call and its output have none between
    them. -/
theorem placeOf_order (latest : AcceptedAs codec reading items call output value)
    (keeps : ∀ index, keep index = true ↔ ¬ Superseded codec reading items call index)
    {first second : Nat} {key : Nat × String} {opens closes : Bool}
    (staysFirst : keep first = true ∨ first = call ∨ first = output)
    (staysSecond : keep second = true ∨ second = call ∨ second = output)
    (atFirst : (items.map occurrence)[first]? = some (some ⟨key, opens⟩))
    (atSecond : (items.map occurrence)[second]? = some (some ⟨key, closes⟩))
    (less : first < second) : placeOf keep call output first < placeOf keep call output second := by
  have between := latest.2.1.1
  have places := @placeOf_kept codec reading items call output value keep latest keeps
  rcases staysFirst with keptFirst | rfl | rfl
  · rw [places keptFirst]
    rcases staysSecond with keptSecond | rfl | rfl
    · rw [places keptSecond]
      exact shifted_lt keptFirst less
    · rw [placeOf_call]
      exact shifted_before keptFirst less
    rw [placeOf_output latest]
    rcases Nat.lt_trichotomy first call with before | rfl | after
    · exact Nat.lt_succ_of_lt (shifted_before keptFirst before)
    · rw [(latest.dropped keeps).1] at keptFirst
      cases keptFirst
    · obtain ⟨-, callKey, -, closing, apart⟩ := (pairedAt_iff.mp latest.2.1).joined
      rw [closing] at atSecond
      cases atSecond
      exact absurd atFirst (apart first opens after less)
  · rw [placeOf_call]
    rcases staysSecond with keptSecond | rfl | rfl
    · rw [places keptSecond]
      have after := @shifted_after keep 2 _ _ less
      omega
    · exact absurd less (Nat.lt_irrefl _)
    · rw [placeOf_output latest]
      exact Nat.lt_succ_self _
  rw [placeOf_output latest]
  rcases staysSecond with keptSecond | rfl | rfl
  · rw [places keptSecond]
    have after := @shifted_after keep 2 _ _ (Nat.lt_trans between less)
    omega
  · omega
  · exact absurd less (Nat.lt_irrefl _)

/-- The occurrences of the projected history are those of the items that stay. -/
theorem rearranged (latest : AcceptedAs codec reading items call output value)
    (keeps : ∀ index, keep index = true ↔ ¬ Superseded codec reading items call index)
    {first second : ResponseItem} (atCall : items[call]?.map occurrence = some (occurrence first))
    (atOutput : items[output]?.map occurrence = some (occurrence second)) :
    Rearranged (items.map occurrence) ((replacedAt keep items [first, second] call).map occurrence)
      (fun index => keep index = true ∨ index = call ∨ index = output)
      (placeOf keep call output) := by
  obtain ⟨droppedCall, -⟩ := latest.dropped keeps
  obtain ⟨callItem, foundCall, -⟩ := Option.map_eq_some_iff.mp atCall
  have inside := (List.getElem?_eq_some_iff.mp foundCall).1
  have place := @placeOf_kept codec reading items call output value keep latest keeps
  constructor
  · intro index stays
    rw [List.getElem?_map, List.getElem?_map]
    rcases stays with kept | rfl | rfl
    · rw [place kept]
      have found := @getElem?_replacedAt _ keep items [first, second] _ _ inside droppedCall kept
      exact congrArg _ found
    · rw [placeOf_call, atCall]
      have front := @getElem?_new _ keep items [first, second] _ inside 0 (by simp)
      rw [Nat.add_zero] at front
      rw [front]
      rfl
    · have back := @getElem?_new _ keep items [first, second] _ inside 1 (by simp)
      rw [placeOf_output latest, atOutput, back]
      rfl
  · intro first second key opens closes staysFirst staysSecond atFirst atSecond less
    exact placeOf_order latest keeps staysFirst staysSecond atFirst atSecond less
  · intro position token found
    have within := (List.getElem?_eq_some_iff.mp found).1
    rw [List.length_map] at within
    rcases exists_shifted inside droppedCall within with ⟨low, high⟩ | ⟨index, -, kept, same⟩
    · rw [List.length_cons, List.length_singleton] at high
      rcases Nat.lt_or_eq_of_le low with after | rfl
      · exact ⟨output, .inr (.inr rfl), by rw [placeOf_output latest]; omega⟩
      · exact ⟨call, .inr (.inl rfl), placeOf_call⟩
    · exact ⟨index, .inl kept, (place kept).trans same⟩
  intro index token found
  by_cases stays : keep index = true ∨ index = call ∨ index = output
  · exact .inl stays
  right
  obtain ⟨notKept, notCall, notOutput⟩ := not_or.mp stays |>.imp_right not_or.mp
  rw [keeps, not_not] at notKept
  obtain ⟨first, second, paired, goneFirst, firstCall, firstOutput, goneSecond, secondCall,
    secondOutput, here⟩ := latest.whole notKept notCall notOutput
  refine ⟨first, second, pairedAt_iff.mp paired, ?_, ?_, here⟩
  · rintro (kept | same | same)
    · exact (keeps first).mp kept goneFirst
    · exact firstCall same
    · exact firstOutput same
  · rintro (kept | same | same)
    · exact (keeps second).mp kept goneSecond
    · exact secondCall same
    · exact secondOutput same

end Moves

/-- The projected value has the plan of the value it is made from. -/
theorem currentPlan_authoritativeValue {codec : ValueCodec} (lawful : codec.Lawful)
    {value : codec.Value} (hasPlan : (currentPlan codec value).isSome = true) (superseded : Nat) :
    currentPlan codec (authoritativeValue codec value superseded) = currentPlan codec value := by
  obtain ⟨plan, isPlan⟩ := Option.isSome_iff_exists.mp hasPlan
  have found := Option.eq_some_of_filter_eq_some isPlan
  have isObject := lawful.isObject_of_get _ _ _ found
  rw [currentPlan, authoritativeValue,
    lawful.get_insert _ _ _ _ (lawful.isObject_remove _ _ isObject) (by decide),
    lawful.get_remove _ _ _ isObject (by decide), currentPlan]

/-- The superseded items are replaced by a pair of the latest call and its output. -/
theorem replaced {codec : ValueCodec} (lawful : codec.Lawful) {items : List ResponseItem}
    {call output : Nat} {value : codec.Value}
    (latest : AcceptedAs codec textOnly items call output value) (superseded : Nat)
    {keep : Nat → Bool}
    (keeps : ∀ index, keep index = true ↔
      ¬ Superseded codec FunctionCallOutputBody.toText items call index) :
    Replaced codec FunctionCallOutputBody.toText items
      (replacedAt keep items [items[call]?.map (withArguments PROJECTED_ARGUMENTS),
        items[output]?.map (withOutputText
          (codec.print (authoritativeValue codec value superseded)))].reduceOption call)
      call output value (shifted keep 2 call) (rank keep call) := by
  obtain ⟨id, name, namespace', arguments, callId, metadata, outputId, payload, outputMetadata,
    atCall, atOutput⟩ := latest.isPair
  rw [atCall, atOutput]
  simp only [Option.map_some, List.reduceOption_cons_of_some, List.reduceOption_nil, withArguments,
    withOutputText]
  have accepted := latest.toText
  have inside := (List.getElem?_eq_some_iff.mp atCall).1
  obtain ⟨droppedCall, -⟩ := accepted.dropped keeps
  have moves := rearranged accepted keeps
    (show items[call]?.map occurrence = some (occurrence
      (.functionCall id name namespace' PROJECTED_ARGUMENTS callId metadata)) by rw [atCall]; rfl)
    (show items[output]?.map occurrence = some (occurrence
      (.functionCallOutput outputId callId { payload with
        body := .text (codec.print (authoritativeValue codec value superseded)) } outputMetadata))
      by rw [atOutput]; rfl)
  generalize pair :
    [ResponseItem.functionCall id name namespace' PROJECTED_ARGUMENTS callId metadata,
      ResponseItem.functionCallOutput outputId callId { payload with
        body := .text (codec.print (authoritativeValue codec value superseded)) }
        outputMetadata] = new at moves ⊢
  have count : new.length = 2 := by rw [← pair]; rfl
  have atPlace := @getElem?_new _ keep items new _ inside 0 (by omega)
  have afterPlace := @getElem?_new _ keep items new _ inside 1 (by omega)
  rw [Nat.add_zero] at atPlace
  have place := @placeOf_kept codec _ items call output value keep accepted keeps
  constructor
  · intro index within kept
    have found :=
      @getElem?_replacedAt _ keep items new _ _ inside droppedCall ((keeps index).mpr kept)
    rwa [count] at found
  · exact fun first second kept less => shifted_lt ((keeps first).mpr kept) less
  · exact fun index kept less => shifted_before ((keeps index).mpr kept) less
  · intro index less
    have after := @shifted_after keep 2 _ _ less
    omega
  · intro other within
    rcases exists_shifted inside droppedCall within with ⟨low, high⟩ | ⟨index, less, kept, same⟩
    · rw [count] at high
      rcases Nat.lt_or_eq_of_le low with after | rfl
      · exact .inr (.inl (by omega))
      · exact .inl rfl
    · rw [count] at same
      exact .inr (.inr ⟨index, less, (keeps index).mp kept, same⟩)
  · refine ⟨id, name, namespace', arguments, PROJECTED_ARGUMENTS, callId, metadata, atCall, ?_⟩
    rw [atPlace, ← pair]
    rfl
  · refine ⟨outputId, callId, payload, outputMetadata,
      authoritativeValue codec value superseded, atOutput, ?_,
      currentPlan_authoritativeValue lawful latest.hasPlan superseded⟩
    rw [afterPlace, ← pair]
    rfl
  · have paired := moves.paired (pairedAt_iff.mp latest.2.1) (.inr (.inl rfl)) (.inr (.inr rfl))
    rw [placeOf_call, placeOf_output accepted] at paired
    exact pairedAt_iff.mpr paired
  intro first second paired kept
  have keptSecond : ¬ Superseded codec FunctionCallOutputBody.toText items call second :=
    fun gone => kept (gone.of_output paired)
  refine ⟨keptSecond, ?_⟩
  have moved := moves.paired (pairedAt_iff.mp paired) (.inl ((keeps first).mpr kept))
    (.inl ((keeps second).mpr keptSecond))
  rw [place ((keeps first).mpr kept), place ((keeps second).mpr keptSecond)] at moved
  exact pairedAt_iff.mpr moved

theorem retainUpdates_eq {items : List ResponseItem} (indices : List Nat) {latest : Nat}
    (inside : latest ≤ items.length) :
    retainUpdates items indices latest =
      (retain (fun index => !indices.contains index) items,
        rank (fun index => !indices.contains index) latest) :=
  Prod.ext rfl (length_filter_lt (fun index => !indices.contains index) items inside)

/-- **The projection only takes out superseded accepted plans.** -/
theorem projectUpdatePlanHistory_replaces {codec : ValueCodec} (lawful : codec.Lawful)
    (items : List ResponseItem) :
    OnlyRemovesSuperseded codec textOnly FunctionCallOutputBody.toText items
      (projectUpdatePlanHistory codec items) := by
  unfold projectUpdatePlanHistory
  simp only
  split
  next none =>
    left
    refine ⟨fun call output value accepted => ?_, rfl⟩
    obtain ⟨member, isLatest⟩ := (authoritativeOutput_iff codec).mpr accepted
    rw [List.findSome?_eq_none_iff] at none
    have nothing := none call (List.mem_reverse.mpr member)
    rw [isLatest] at nothing
    cases nothing
  next call output value found =>
    right
    obtain ⟨index, member, isFound, later⟩ := findSome?_reverse List.pairwise_findIdxs found
    obtain ⟨⟨other, otherValue⟩, isLatest, same⟩ := Option.map_eq_some_iff.mp isFound
    cases same
    have accepted := (authoritativeOutput_iff codec).mp ⟨member, isLatest⟩
    obtain ⟨item, atCall, -⟩ := accepted.1
    rw [retainUpdates_eq _ (Nat.le_of_lt (List.getElem?_eq_some_iff.mp atCall).1)]
    refine ⟨call, output, value, _, _, accepted, ?_, replaced lawful accepted _ ?_⟩
    · intro other otherOutput otherValue otherAccepted
      by_contra after
      obtain ⟨otherMember, otherFound⟩ := (authoritativeOutput_iff codec).mpr otherAccepted
      have nothing := later other otherMember (Nat.not_le.mp after)
      rw [otherFound] at nothing
      cases nothing
    · intro index
      rw [← mem_updateItemIndices, ← List.contains_iff_mem, Bool.not_eq_true, Bool.not_eq_true']

end Projection

mutual

/-- `Value::to_string`. -/
def printJson : Json → String
  | .null => "null"
  | .bool value => if value then "true" else "false"
  | .number text => text
  | .string text => quoted text
  | .array values => "[" ++ printValues values ++ "]"
  | .object fields => "\x7b" ++ printFields fields ++ "\x7d"

def printValues : List Json → String
  | [] => ""
  | value :: values =>
      printJson value ++ (if values.isEmpty then "" else ",") ++ printValues values

def printFields : List (String × Json) → String
  | [] => ""
  | (key, value) :: fields =>
      quoted key ++ ":" ++ printJson value ++ (if fields.isEmpty then "" else ",") ++
        printFields fields

end

/-- The codec of `serde_json` that reads the given texts. -/
def jsonCodec (texts : List (String × Json)) : ValueCodec where
  Value := Json
  read text := Fields.get text texts
  print := printJson
  get := Json.get
  isObject value := value.asObject.isSome
  remove value key :=
    (value.asObject.map fun fields => .object (Fields.remove key fields)).getD value
  insert value key new :=
    (value.asObject.map fun fields => .object (Fields.insert key new fields)).getD value
  number count := .number (toString count)

theorem jsonCodec_lawful (texts : List (String × Json)) : (jsonCodec texts).Lawful := by
  have object : ∀ value : Json, value.asObject.isSome = true →
      ∃ fields, value = .object fields := by
    intro value isObject
    cases value with
    | object fields => exact ⟨fields, rfl⟩
    | _ => cases isObject
  constructor
  · intro value key found isFound
    obtain ⟨fields, isObject, -⟩ := Option.bind_eq_some_iff.mp isFound
    exact Option.isSome_of_eq_some isObject
  · intro value key other isObject apart
    obtain ⟨fields, rfl⟩ := object value isObject
    exact (Fields.get_remove key other fields).trans (if_neg apart)
  · intro value key isObject
    obtain ⟨fields, rfl⟩ := object value isObject
    rfl
  · intro value key new other isObject apart
    obtain ⟨fields, rfl⟩ := object value isObject
    exact (Fields.get_insert key other new fields).trans (if_neg apart)

/-- An accepted plan, and the text that `serde_json` reads it from. -/
def acceptedPlan : Json := .object [("current_plan", .object [])]

def planCodec : ValueCodec := jsonCodec [(printJson acceptedPlan, acceptedPlan)]

def updatePlanCall (callId : String) : ResponseItem :=
  .functionCall none "update_plan" none "" callId none

def planOutput (callId : String) (body : FunctionCallOutputBody) : ResponseItem :=
  .functionCallOutput none callId { body, success := some true } none

/-- Two accepted plans, one rejected in between, and the call of another tool. -/
def plannedHistory : List ResponseItem :=
  [updatePlanCall "a", planOutput "a" (.text (printJson acceptedPlan)),
    updatePlanCall "b", .functionCall none "shell" none "" "c" none,
    planOutput "b" (.text "rejected"), updatePlanCall "d",
    planOutput "c" (.text "done"), planOutput "d" (.text (printJson acceptedPlan))]

theorem plannedHistory_projected :
    OnlyRemovesSuperseded planCodec textOnly FunctionCallOutputBody.toText plannedHistory
      (projectUpdatePlanHistory planCodec plannedHistory) :=
  projectUpdatePlanHistory_replaces (jsonCodec_lawful _) plannedHistory

/-- A plan accepted in content items after one accepted as a text, and the other way around. -/
def itemsLast : List ResponseItem :=
  [updatePlanCall "a", planOutput "a" (.text (printJson acceptedPlan)), updatePlanCall "b",
    planOutput "b" (.contentItems [.inputText (printJson acceptedPlan)])]

def itemsFirst : List ResponseItem :=
  [updatePlanCall "a", planOutput "a" (.contentItems [.inputText (printJson acceptedPlan)]),
    updatePlanCall "b", planOutput "b" (.text (printJson acceptedPlan))]

/-- A plan in content items is not the latest, but it is superseded: neither way to read a body
    does for both. -/
theorem projectUpdatePlanHistory_readings :
    ¬ OnlyRemovesSuperseded planCodec FunctionCallOutputBody.toText FunctionCallOutputBody.toText
        itemsLast (projectUpdatePlanHistory planCodec itemsLast) ∧
      ¬ OnlyRemovesSuperseded planCodec textOnly textOnly itemsFirst
        (projectUpdatePlanHistory planCodec itemsFirst) := by
  constructor
  · have result : projectUpdatePlanHistory planCodec itemsLast =
        [.functionCall none "update_plan" none PROJECTED_ARGUMENTS "a" none,
          planOutput "a" (.text (printJson (.object [("current_plan", .object []),
            ("superseded_updates", .number "0")]))), updatePlanCall "b",
          planOutput "b" (.contentItems [.inputText (printJson acceptedPlan)])] := by
      decide +kernel
    have accepted : ∃ value,
        AcceptedAs planCodec FunctionCallOutputBody.toText itemsLast 2 3 value :=
      (acceptedOutput_iff planCodec).mp (by decide +kernel)
    obtain ⟨value, isAccepted⟩ := accepted
    rw [result]
    rintro (⟨none, -⟩ | ⟨call, output, latest, place, position, isLatest, last, replaced⟩)
    · exact none _ _ _ isAccepted
    have late := last _ _ _ isAccepted
    obtain ⟨id, name, namespace', arguments, projected, callId, metadata, atCall, newCall⟩ :=
      replaced.callItem
    obtain ⟨outputId, outputCallId, payload, outputMetadata, printed, atOutput, newOutput, -⟩ :=
      replaced.outputItem
    have inside : call < 4 := (List.getElem?_eq_some_iff.mp atCall).1
    have within : position < 4 := (List.getElem?_eq_some_iff.mp newCall).1
    obtain rfl | rfl : call = 2 ∨ call = 3 := by omega
    · cases atCall
      interval_cases position
      · simp at newCall
      · cases newCall
      · cases newOutput
      · cases newCall
    · cases atCall
  · have result : projectUpdatePlanHistory planCodec itemsFirst =
        [.functionCall none "update_plan" none PROJECTED_ARGUMENTS "b" none,
          planOutput "b" (.text (printJson (.object [("current_plan", .object []),
            ("superseded_updates", .number "1")])))] := by
      decide +kernel
    have latest : (authoritativeOutput planCodec itemsFirst (pairs itemsFirst) 2).map Prod.fst =
        some 3 := by
      decide +kernel
    obtain ⟨⟨output, value⟩, isLatest, rfl⟩ := Option.map_eq_some_iff.mp latest
    have accepted := (authoritativeOutput_iff planCodec).mp ⟨by decide +kernel, isLatest⟩
    rw [result]
    rintro (⟨none, -⟩ | ⟨call, output, latest, place, position, isLatest, last, replaced⟩)
    · exact none _ _ _ accepted
    -- The first call is not accepted as a text, so it would have to be kept.
    have stays : ¬ Superseded planCodec textOnly itemsFirst call 0 := by
      rintro ⟨first, second, value, ⟨⟨item, atFirst, isCall⟩, paired, id, callId, payload,
        metadata, text, atSecond, -, body, -⟩, -, rfl | rfl⟩
      · have same : (pairs itemsFirst)[0]? = some (some 1) := by decide +kernel
        have equal := paired.2.1.symm.trans same
        simp only [Option.some.injEq] at equal
        subst equal
        cases atSecond
        cases body
      · cases atSecond
    have kept := replaced.kept 0 (by decide) stays
    have within : place 0 < 2 := (List.getElem?_eq_some_iff.mp kept).1
    obtain zero | one : place 0 = 0 ∨ place 0 = 1 := by omega
    · rw [zero] at kept
      simp [itemsFirst, updatePlanCall, PROJECTED_ARGUMENTS] at kept
    · rw [one] at kept
      cases kept

end Codex.Conversation
