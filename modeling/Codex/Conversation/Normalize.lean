import Codex.Conversation.ResponseItem
import Codex.Lib.Pairing

/-!
# Call and output pairing of a history

`conversation/src/tool_occurrence.rs` and `conversation/src/context_manager/normalize.rs`: before a
history is sent, every tool call without an output gets one, and outputs without a call are
dropped. The release build logs what `error_or_panic` is given and goes on.
-/

namespace Codex.Conversation

open Codex.Pairing

/-- `tool_occurrence::identity` (`tool_occurrence.rs:6`). -/
def identity : ResponseItem → Option (Nat × Bool × String)
  | .functionCall _ _ _ _ callId _ => some (0, true, callId)
  | .localShellCall _ (some callId) _ _ _ => some (0, true, callId)
  | .functionCallOutput _ callId _ _ => some (0, false, callId)
  | .customToolCall _ _ callId _ _ _ _ => some (1, true, callId)
  | .customToolCallOutput _ callId _ _ _ => some (1, false, callId)
  | .toolSearchCall _ (some callId) _ _ _ _ => some (2, true, callId)
  | .toolSearchOutput _ (some callId) _ _ _ _ _ => some (2, false, callId)
  | _ => none

/-- An item as an occurrence of its kind and call id. -/
def occurrence (item : ResponseItem) : Option (Occurrence (Nat × String)) :=
  (identity item).map fun entry => ⟨(entry.1, entry.2.2), entry.2.1⟩

/-- `tool_occurrence::pairs` (`tool_occurrence.rs:52`). -/
def pairs (items : List ResponseItem) : List (Option Nat) := pairing (items.map occurrence)

/-- A character in a JSON string. -/
def escapeChar (char : Char) : List Char :=
  if char = '"' then ['\\', '"']
  else if char = '\\' then ['\\', '\\']
  else if char = Char.ofNat 8 then ['\\', 'b']
  else if char = '\t' then ['\\', 't']
  else if char = '\n' then ['\\', 'n']
  else if char = Char.ofNat 12 then ['\\', 'f']
  else if char = '\r' then ['\\', 'r']
  else if char.toNat < 32 then
    ['\\', 'u', '0', '0', Nat.digitChar (char.toNat / 16), Nat.digitChar (char.toNat % 16)]
  else [char]

/-- A JSON string. -/
def quoted (text : String) : String :=
  "\"" ++ String.ofList (text.toList.flatMap escapeChar) ++ "\""

/-- `MISSING_TOOL_RESULT` (`normalize.rs:9`). -/
def MISSING_TOOL_RESULT : String :=
  "Result unavailable. Execution outcome and side effects are unknown. Do not repeat a " ++
    "state-changing operation solely because its result is missing."

/-- `missing_tool_result` (`normalize.rs:13`): a `ToolFailure` with code `UncertainEffects`. -/
def missingToolResult (callId : String) : FunctionCallOutputPayload :=
  .fromText <|
    "\x7b\"tool_failure\":\x7b\"code\":\"uncertain_effects\",\"message\":" ++
      quoted MISSING_TOOL_RESULT ++
      ",\"execution_state\":\"unknown\",\"effects\":\"unknown\",\"retry_safe\":false," ++
      "\"safe_next_actions\":[\"Inspect retained results and external state; do not " ++
      "automatically replay the request.\"],\"live_operations\":[],\"details\":" ++
      "\x7b\"call_id\":" ++ quoted callId ++ ",\"response_missing\":true\x7d\x7d\x7d"

section Normalize

-- `Uuid::new_v5` of a name in `SYNTHETIC_OUTPUT_ID_NAMESPACE`, as text.
variable (newV5 : String → String)

/-- `synthetic_output_id` (`normalize.rs:159`). -/
def syntheticOutputId (lead : String) (itemId : Option ResponseItemId) : Option ResponseItemId :=
  (itemId.filter fun id => id.text ≠ "").map fun id =>
    .withSuffix lead (newV5 (lead ++ ":" ++ id.text))

/-- The output that `collect_missing_call_outputs` builds for an unpaired call
    (`normalize.rs:80-147`). -/
def missingOutput : ResponseItem → Option ResponseItem
  | .functionCall id _ _ _ callId _ => some <|
      .functionCallOutput (syntheticOutputId newV5 "fco" id) callId (missingToolResult callId) none
  | .toolSearchCall id (some callId) _ _ _ _ => some <|
      .toolSearchOutput (syntheticOutputId newV5 "tso" id) (some callId) "incomplete" "client" []
        none none
  | .customToolCall id _ callId _ _ _ _ => some <|
      .customToolCallOutput (syntheticOutputId newV5 "ctco" id) callId none
        (missingToolResult callId) none
  | .localShellCall id (some callId) _ _ _ => some <|
      .functionCallOutput (syntheticOutputId newV5 "fco" id) callId (missingToolResult callId) none
  | _ => none

/-- `collect_missing_call_outputs` (`normalize.rs:67`). -/
def collectMissingCallOutputs (items : List ResponseItem) : List (Nat × ResponseItem) :=
  (items.zip (pairs items)).zipIdx.filterMap fun entry =>
    if entry.1.2.isNone then (missingOutput newV5 entry.1.1).map (Prod.mk entry.2) else none

/-- The merging loop of `insert_items_after` (`normalize.rs:48`). -/
def mergeInsertions (index : Nat) :
    List ResponseItem → List (Nat × ResponseItem) → List ResponseItem
  | [], _ => []
  | item :: items, insertions =>
      item :: ((insertions.takeWhile fun entry => entry.1 = index).map Prod.snd ++
        mergeInsertions (index + 1) items (insertions.dropWhile fun entry => entry.1 = index))

/-- `insert_items_after` (`normalize.rs:38`). -/
def insertItemsAfter (items : List ResponseItem) :
    List (Nat × ResponseItem) → List ResponseItem
  | [] => items
  | [(index, item)] => items.insertIdx (index + 1) item
  | first :: second :: rest => mergeInsertions 0 items (first :: second :: rest)

/-- `ensure_call_outputs_present` (`normalize.rs:22`). -/
def ensureCallOutputsPresent (items : List ResponseItem) : List ResponseItem :=
  insertItemsAfter items (collectMissingCallOutputs newV5 items)

/-- Whether `remove_orphan_outputs` keeps an item (`normalize.rs:176-206`). -/
def keepsOutput (item : ResponseItem) (hasMatch : Bool) : Bool :=
  match item with
  | .functionCallOutput .. => hasMatch
  | .customToolCallOutput .. => hasMatch
  | .toolSearchOutput _ callId _ execution _ _ _ =>
      if execution = "server" then true
      else if callId.isSome then hasMatch
      else true
  | _ => true

/-- The `retain` of `remove_orphan_outputs` (`normalize.rs:214`). -/
def retainExcept (index : Nat) : List ResponseItem → List Nat → List ResponseItem
  | [], _ => []
  | item :: items, orphans =>
      if orphans.head? = some index then retainExcept (index + 1) items orphans.tail
      else item :: retainExcept (index + 1) items orphans

/-- `remove_orphan_outputs` (`normalize.rs:168`). -/
def removeOrphanOutputs (items : List ResponseItem) : List ResponseItem :=
  let orphanIndexes := (items.zip (pairs items)).zipIdx.filterMap fun entry =>
    if keepsOutput entry.1.1 entry.1.2.isSome then none else some entry.2
  if orphanIndexes.isEmpty then items else retainExcept 0 items orphanIndexes

/-- The passes of `normalize_history` on calls and outputs (`history.rs`). -/
def normalizeCalls (items : List ResponseItem) : List ResponseItem :=
  removeOrphanOutputs (ensureCallOutputsPresent newV5 items)

/-- The items that need an output: calls with a call id. -/
def requiresOutput : ResponseItem → Bool
  | .functionCall .. => true
  | .customToolCall .. => true
  | .localShellCall _ callId _ _ _ => callId.isSome
  | .toolSearchCall _ callId _ _ _ _ => callId.isSome
  | _ => false

/-- The items that are outputs of tools. -/
def isOutput : ResponseItem → Bool
  | .functionCallOutput .. => true
  | .customToolCallOutput .. => true
  | .toolSearchOutput .. => true
  | _ => false

/-- The outputs that need no call: those of a server-side tool search, and those without a call
    id. -/
def isExempt : ResponseItem → Bool
  | .toolSearchOutput _ callId _ execution _ _ _ => execution = "server" || callId.isNone
  | _ => false

/-- What becomes of an item, given its pair: an unpaired call is followed by its synthetic output,
    and an unpaired output is dropped unless it is exempt. -/
def settle (item : ResponseItem) (paired : Option Nat) : List ResponseItem :=
  if paired.isSome then [item]
  else if requiresOutput item then item :: (missingOutput newV5 item).toList
  else if isOutput item && !isExempt item then []
  else [item]

/-- The call at one index and the later output at another are each other's pair. -/
def PairedAt (items : List ResponseItem) (call output : Nat) : Prop :=
  call < output ∧ (pairs items)[call]? = some (some output) ∧
    (pairs items)[output]? = some (some call) ∧
    ∃ kind id, items[call]?.bind identity = some (kind, true, id) ∧
      items[output]?.bind identity = some (kind, false, id)

/-- The item that answers a call. -/
def answerOf (item : ResponseItem) : ResponseItem := (missingOutput newV5 item).getD item

theorem opens_occurrence (item : ResponseItem) :
    opens occurrence item = requiresOutput item := by
  cases item with
  | localShellCall id callId | toolSearchCall id callId | toolSearchOutput id callId =>
      cases callId <;> rfl
  | _ => rfl

theorem requiresOutput_eq_isSome (item : ResponseItem) :
    requiresOutput item = (missingOutput newV5 item).isSome := by
  cases item with
  | localShellCall id callId => cases callId <;> rfl
  | toolSearchCall id callId => cases callId <;> rfl
  | _ => rfl

theorem closes_occurrence (item : ResponseItem) :
    (closes occurrence item && !isExempt item) = (isOutput item && !isExempt item) := by
  cases item with
  | localShellCall id callId => cases callId <;> rfl
  | toolSearchCall id callId => cases callId <;> rfl
  | toolSearchOutput id callId => cases callId <;> simp [closes, occurrence, identity, isExempt,
      isOutput]
  | _ => rfl

theorem keepsOutput_eq (item : ResponseItem) (hasMatch : Bool) :
    keepsOutput item hasMatch = !(closes occurrence item && !hasMatch && !isExempt item) := by
  cases item with
  | localShellCall id callId => cases callId <;> rfl
  | toolSearchCall id callId => cases callId <;> rfl
  | toolSearchOutput id callId status execution =>
    by_cases server : execution = "server"
    · cases callId <;> simp [keepsOutput, server, isExempt]
    · cases callId <;> simp [keepsOutput, server, closes, occurrence, identity, isExempt]
  | functionCallOutput => cases hasMatch <;> rfl
  | customToolCallOutput => cases hasMatch <;> rfl
  | _ => rfl

theorem occurrence_answerOf (item : ResponseItem) (key : Nat × String)
    (token : occurrence item = some ⟨key, true⟩) :
    occurrence (answerOf newV5 item) = some ⟨key, false⟩ := by
  cases item with
  | functionCall => cases token; rfl
  | customToolCall => cases token; rfl
  | localShellCall id callId =>
    cases callId with
    | none => cases token
    | some callId => cases token; rfl
  | toolSearchCall id callId =>
    cases callId with
    | none => cases token
    | some callId => cases token; rfl
  | toolSearchOutput id callId => cases callId <;> cases token
  | _ => cases token

theorem pairs_isSome (items : List ResponseItem) :
    (pairs items).map Option.isSome = settled (fun _ => .absent) (items.map occurrence) :=
  pairing_isSome _

theorem length_pairs (items : List ResponseItem) : (pairs items).length = items.length := by
  rw [pairs, length_pairing, List.length_map]

/-- The insertions for the items from `index` on. -/
def insertionsFrom (index : Nat) (entries : List (ResponseItem × Option Nat)) :
    List (Nat × ResponseItem) :=
  (entries.zipIdx index).filterMap fun entry =>
    if entry.1.2.isNone then (missingOutput newV5 entry.1.1).map (Prod.mk entry.2) else none

theorem insertionsFrom_cons (index : Nat) (entry : ResponseItem × Option Nat)
    (entries : List (ResponseItem × Option Nat)) :
    insertionsFrom newV5 index (entry :: entries) =
      (if requiresOutput entry.1 && !entry.2.isSome then [(index, answerOf newV5 entry.1)]
        else []) ++ insertionsFrom newV5 (index + 1) entries := by
  rw [insertionsFrom, List.zipIdx_cons, List.filterMap_cons, requiresOutput_eq_isSome newV5]
  cases paired : entry.2 with
  | some other => simp [insertionsFrom]
  | none =>
    cases built : missingOutput newV5 entry.1 with
    | none => simp [insertionsFrom]
    | some output => simp [insertionsFrom, answerOf, built]

variable {index : Nat} {items : List ResponseItem} {item : ResponseItem}

theorem le_of_mem_insertionsFrom {entries : List (ResponseItem × Option Nat)}
    {entry : Nat × ResponseItem} (member : entry ∈ insertionsFrom newV5 index entries) :
    index ≤ entry.1 ∧ entry.1 < index + entries.length := by
  obtain ⟨source, inside, built⟩ := List.mem_filterMap.mp member
  have bounds := List.mem_zipIdx inside
  split at built
  · obtain ⟨output, -, same⟩ := Option.map_eq_some_iff.mp built
    subst same
    exact ⟨bounds.1, bounds.2.1⟩
  · cases built

/-- No later insertion belongs at `index`. -/
theorem takeWhile_insertionsFrom (index : Nat) (entries : List (ResponseItem × Option Nat)) :
    (insertionsFrom newV5 (index + 1) entries).takeWhile (fun entry => entry.1 = index) = [] ∧
      (insertionsFrom newV5 (index + 1) entries).dropWhile (fun entry => entry.1 = index) =
        insertionsFrom newV5 (index + 1) entries := by
  rcases rest : insertionsFrom newV5 (index + 1) entries with _ | ⟨head, tail⟩
  · exact ⟨rfl, rfl⟩
  · have later := (le_of_mem_insertionsFrom newV5 (rest ▸ List.mem_cons_self)).1
    have differs : head.1 ≠ index := by omega
    simp [differs]

theorem mergeInsertions_eq_complete (index : Nat) (items : List ResponseItem)
    (paired : List (Option Nat)) (length : paired.length = items.length) :
    mergeInsertions index items (insertionsFrom newV5 index (items.zip paired)) =
      complete occurrence (answerOf newV5) items (paired.map Option.isSome) := by
  induction items generalizing index paired with
  | nil => rfl
  | cons item items ih =>
    rcases paired with _ | ⟨pair, paired⟩
    · cases length
    have rest := ih (index + 1) paired (by simpa using length)
    obtain ⟨none, all⟩ := takeWhile_insertionsFrom newV5 index (items.zip paired)
    rw [List.zip_cons_cons, insertionsFrom_cons, List.map_cons, complete, opens_occurrence,
      mergeInsertions]
    split
    · simp [none, all, rest]
    · simp [none, all, rest]

theorem mergeInsertions_nil (index : Nat) (items : List ResponseItem) :
    mergeInsertions index items [] = items := by
  induction items generalizing index with
  | nil => rfl
  | cons item items ih => simp [mergeInsertions, ih]

theorem mergeInsertions_singleton (index position : Nat) (output : ResponseItem)
    (items : List ResponseItem) (bound : position < items.length) :
    mergeInsertions index items [(index + position, output)] =
      items.insertIdx (position + 1) output := by
  induction items generalizing index position with
  | nil => cases bound
  | cons item items ih =>
    cases position with
    | zero => simp [mergeInsertions, mergeInsertions_nil]
    | succ position =>
      have rest := ih (index + 1) position (by simpa using bound)
      rw [show index + 1 + position = index + (position + 1) by omega] at rest
      simp [mergeInsertions, rest]

/-- Inserting a single item at once is what the merging loop would do. -/
theorem insertItemsAfter_eq_merge (items : List ResponseItem)
    (insertions : List (Nat × ResponseItem))
    (bound : ∀ entry ∈ insertions, entry.1 < items.length) :
    insertItemsAfter items insertions = mergeInsertions 0 items insertions := by
  rcases insertions with _ | ⟨⟨index, item⟩, _ | ⟨second, rest⟩⟩
  · rw [insertItemsAfter, mergeInsertions_nil]
  · have merged := mergeInsertions_singleton 0 index item items (bound _ List.mem_cons_self)
    rw [Nat.zero_add] at merged
    rw [insertItemsAfter, merged]
  · rfl

theorem ensureCallOutputsPresent_eq (items : List ResponseItem) :
    ensureCallOutputsPresent newV5 items =
      complete occurrence (answerOf newV5) items ((pairs items).map Option.isSome) := by
  rw [ensureCallOutputsPresent, insertItemsAfter_eq_merge]
  · exact mergeInsertions_eq_complete newV5 0 items (pairs items) (length_pairs items)
  · intro entry member
    have bound := (@le_of_mem_insertionsFrom newV5 0 _ _ member).2
    rw [List.length_zip, length_pairs] at bound
    omega

/-- The indexes of the orphans from `index` on. -/
def orphansFrom (index : Nat) (entries : List (ResponseItem × Option Nat)) : List Nat :=
  (entries.zipIdx index).filterMap fun entry =>
    if keepsOutput entry.1.1 entry.1.2.isSome then none else some entry.2

theorem le_of_mem_orphansFrom {position : Nat} {entries : List (ResponseItem × Option Nat)}
    (member : position ∈ orphansFrom index entries) :
    index ≤ position := by
  obtain ⟨source, inside, isOrphan⟩ := List.mem_filterMap.mp member
  split at isOrphan
  · cases isOrphan
  · simp only [Option.some.injEq] at isOrphan
    exact isOrphan ▸ (List.mem_zipIdx inside).1

theorem orphansFrom_cons (index : Nat) (entry : ResponseItem × Option Nat)
    (entries : List (ResponseItem × Option Nat)) :
    orphansFrom index (entry :: entries) =
      (if closes occurrence entry.1 && !entry.2.isSome && !isExempt entry.1 then [index] else []) ++
        orphansFrom (index + 1) entries := by
  rw [orphansFrom, List.zipIdx_cons, List.filterMap_cons, ← orphansFrom, keepsOutput_eq]
  cases closes occurrence entry.1 && !entry.2.isSome && !isExempt entry.1 <;> rfl

theorem retainExcept_eq_prune (index : Nat) (items : List ResponseItem)
    (paired : List (Option Nat)) (length : paired.length = items.length) :
    retainExcept index items (orphansFrom index (items.zip paired)) =
      prune occurrence isExempt items (paired.map Option.isSome) := by
  induction items generalizing index paired with
  | nil => rfl
  | cons item items ih =>
    rcases paired with _ | ⟨pair, paired⟩
    · cases length
    have rest := ih (index + 1) paired (by simpa using length)
    rw [List.zip_cons_cons, orphansFrom_cons, List.map_cons, prune, retainExcept]
    cases closes occurrence item && !pair.isSome && !isExempt item with
    | true => simp [rest]
    | false =>
      have later : (orphansFrom (index + 1) (items.zip paired)).head? ≠ some index := by
        intro here
        have le := le_of_mem_orphansFrom (List.mem_of_mem_head? here)
        omega
      simp [later, rest]

theorem prune_of_no_orphans (index : Nat) (items : List ResponseItem)
    (paired : List (Option Nat)) (length : paired.length = items.length)
    (empty : orphansFrom index (items.zip paired) = []) :
    prune occurrence isExempt items (paired.map Option.isSome) = items := by
  have retained := retainExcept_eq_prune index items paired length
  rw [empty] at retained
  rw [← retained]
  clear retained empty length
  induction items generalizing index with
  | nil => rfl
  | cons item items ih => simp [retainExcept, ih]

theorem removeOrphanOutputs_eq (items : List ResponseItem) :
    removeOrphanOutputs items =
      prune occurrence isExempt items ((pairs items).map Option.isSome) := by
  rw [removeOrphanOutputs]
  change (if (orphansFrom 0 (items.zip (pairs items))).isEmpty then items else _) = _
  split
  · next empty =>
    rw [prune_of_no_orphans 0 items (pairs items) (length_pairs items)
      (List.isEmpty_iff.mp empty)]
  · exact retainExcept_eq_prune 0 items (pairs items) (length_pairs items)

/-- The pairing after the outputs were added. -/
theorem pairs_ensureCallOutputsPresent (items : List ResponseItem) :
    (pairs (ensureCallOutputsPresent newV5 items)).map Option.isSome =
      completeFlags occurrence items ((pairs items).map Option.isSome) := by
  rw [pairs_isSome, ensureCallOutputsPresent_eq, pairs_isSome]
  have completed := settled_complete (occurrence_answerOf newV5) (fun _ => .absent) items
  have none : carried (fun _ => Open.absent) (items.map occurrence) = fun _ => .absent := by
    funext key
    simp [carried]
  rwa [none] at completed

theorem ensured_answered (items : List ResponseItem) :
    List.Forall₂ (fun item paired => opens occurrence item = true → paired = true)
      (ensureCallOutputsPresent newV5 items)
      ((pairs (ensureCallOutputsPresent newV5 items)).map Option.isSome) := by
  rw [pairs_ensureCallOutputsPresent, ensureCallOutputsPresent_eq]
  exact complete_answered items _ (by rw [List.length_map, length_pairs])

/-- The pairing after the orphans were dropped. -/
theorem pairs_normalizeCalls (items : List ResponseItem) :
    (pairs (normalizeCalls newV5 items)).map Option.isSome =
      pruneFlags occurrence isExempt (ensureCallOutputsPresent newV5 items)
        ((pairs (ensureCallOutputsPresent newV5 items)).map Option.isSome) := by
  have answered := ensured_answered newV5 items
  rw [normalizeCalls, removeOrphanOutputs_eq, pairs_isSome]
  rw [pairs_isSome] at answered ⊢
  exact settled_prune (fun key => .inl rfl) answered

theorem normalizeCalls_eq_prune (items : List ResponseItem) :
    normalizeCalls newV5 items =
      prune occurrence isExempt (ensureCallOutputsPresent newV5 items)
        ((pairs (ensureCallOutputsPresent newV5 items)).map Option.isSome) :=
  removeOrphanOutputs_eq _

theorem normalised_answered (items : List ResponseItem) :
    List.Forall₂ (fun item paired => opens occurrence item = true → paired = true)
      (normalizeCalls newV5 items)
      ((pairs (normalizeCalls newV5 items)).map Option.isSome) := by
  rw [pairs_normalizeCalls, normalizeCalls_eq_prune]
  exact prune_forall₂ (ensured_answered newV5 items)

theorem normalised_justified (items : List ResponseItem) :
    List.Forall₂ (fun item paired =>
        closes occurrence item = true → paired = true ∨ isExempt item = true)
      (normalizeCalls newV5 items)
      ((pairs (normalizeCalls newV5 items)).map Option.isSome) := by
  rw [pairs_normalizeCalls, normalizeCalls_eq_prune]
  exact prune_justified _ _ (by rw [List.length_map, length_pairs])

theorem settle_eq_repairOne (item : ResponseItem) (paired : Option Nat) :
    settle newV5 item paired =
      repairOne occurrence (answerOf newV5) isExempt item paired.isSome := by
  rw [settle, repairOne, opens_occurrence, closes_occurrence]
  split
  · rfl
  split
  · next requires =>
    rw [requiresOutput_eq_isSome newV5] at requires
    obtain ⟨output, built⟩ := Option.isSome_iff_exists.mp requires
    simp [answerOf, built]
  · rfl

/-- The normalised history, item by item. -/
theorem normalizeCalls_eq_flatMap (items : List ResponseItem) :
    normalizeCalls newV5 items =
      (items.zip (pairs items)).flatMap fun entry => settle newV5 entry.1 entry.2 := by
  rw [normalizeCalls_eq_prune, pairs_ensureCallOutputsPresent, ensureCallOutputsPresent_eq,
    prune_complete _ _ _ _ (by rw [List.length_map, length_pairs]), repair, List.zip_map_right,
    List.flatMap_map]
  refine List.flatMap_congr fun entry _ => ?_
  exact (settle_eq_repairOne newV5 entry.1 entry.2).symm

/-- What holds of each item and whether it is paired, at an index. -/
theorem paired_at_of_forall₂ {holds : ResponseItem → Bool → Prop}
    (all : List.Forall₂ holds items ((pairs items).map Option.isSome))
    (found : items[index]? = some item) :
    ∃ pair, (pairs items)[index]? = some pair ∧ holds item pair.isSome := by
  have bound := (List.getElem?_eq_some_iff.mp found).1
  have pairBound : index < (pairs items).length := by rwa [length_pairs]
  refine ⟨(pairs items)[index], List.getElem?_eq_getElem pairBound, ?_⟩
  rw [List.forall₂_map_right_iff] at all
  have here := (List.forall₂_iff_get.mp all).2 index bound pairBound
  rw [List.getElem?_eq_getElem bound, Option.some.injEq] at found
  subst found
  exact here

theorem occurrence_eq_some {key : Nat × String} {call : Bool}
    (token : occurrence item = some ⟨key, call⟩) : identity item = some (key.1, call, key.2) := by
  obtain ⟨⟨kind, isCall, id⟩, found, same⟩ := Option.map_eq_some_iff.mp token
  cases same
  exact found

/-- Joined occurrences of a history that point at each other. -/
theorem pairedAt_of_joined {call output : Nat} (forth : (pairs items)[call]? = some (some output))
    (back : (pairs items)[output]? = some (some call))
    (joined : Joined (items.map occurrence) call output) : PairedAt items call output := by
  obtain ⟨before, key, opening, closing, -⟩ := joined
  rw [List.getElem?_map] at opening closing
  obtain ⟨caller, atCall, opens⟩ := Option.map_eq_some_iff.mp opening
  obtain ⟨answer, atOutput, closes⟩ := Option.map_eq_some_iff.mp closing
  refine ⟨before, forth, back, key.1, key.2, ?_, ?_⟩
  · rw [atCall]
    exact occurrence_eq_some opens
  · rw [atOutput]
    exact occurrence_eq_some closes

/-- A paired call has a later output. -/
theorem pairedAt_of_opens {other : Nat} (found : items[index]? = some item)
    (isCall : opens occurrence item = true) (paired : (pairs items)[index]? = some (some other)) :
    PairedAt items index other ∧ Joined (items.map occurrence) index other := by
  obtain ⟨back, joined | ⟨-, key, -, closing, -⟩⟩ := pairing_joined paired
  · exact ⟨pairedAt_of_joined paired back joined, joined⟩
  · rw [List.getElem?_map, found, Option.map_some, Option.some.injEq] at closing
    rw [opens_eq closing] at isCall
    cases isCall

/-- A paired output has an earlier call. -/
theorem pairedAt_of_closes {other : Nat} (found : items[index]? = some item)
    (isOutput : closes occurrence item = true)
    (paired : (pairs items)[index]? = some (some other)) : PairedAt items other index := by
  obtain ⟨back, ⟨-, key, opening, -⟩ | joined⟩ := pairing_joined paired
  · rw [List.getElem?_map, found, Option.map_some, Option.some.injEq] at opening
    rw [closes_eq opening] at isOutput
    cases isOutput
  · exact pairedAt_of_joined back paired joined

theorem PairedAt.output_unique {call first second : Nat} (one : PairedAt items call first)
    (other : PairedAt items call second) : first = second := by
  have same := one.2.1.symm.trans other.2.1
  simpa using same

theorem PairedAt.call_unique {first second output : Nat} (one : PairedAt items first output)
    (other : PairedAt items second output) :
    first = second := by
  have same := one.2.2.1.symm.trans other.2.2.1
  simpa using same

theorem normalised_call (items : List ResponseItem)
    (found : (normalizeCalls newV5 items)[index]? = some item)
    (isCall : requiresOutput item = true) :
    ∃ output, PairedAt (normalizeCalls newV5 items) index output ∧
      Joined ((normalizeCalls newV5 items).map occurrence) index output := by
  rw [← opens_occurrence] at isCall
  obtain ⟨pair, paired, answered⟩ := paired_at_of_forall₂ (normalised_answered newV5 items) found
  obtain ⟨output, isOutput⟩ := Option.isSome_iff_exists.mp (answered isCall)
  exact ⟨output, pairedAt_of_opens found isCall (isOutput ▸ paired)⟩

theorem normalised_output (items : List ResponseItem)
    (found : (normalizeCalls newV5 items)[index]? = some item) (output : isOutput item = true)
    (needsCall : isExempt item = false) :
    ∃ call, PairedAt (normalizeCalls newV5 items) call index := by
  have closed := closes_occurrence item
  rw [output, needsCall, Bool.not_false, Bool.and_true, Bool.and_true] at closed
  obtain ⟨pair, paired, justified⟩ :=
    paired_at_of_forall₂ (normalised_justified newV5 items) found
  rcases justified closed with isPaired | exempt
  · obtain ⟨call, isCall⟩ := Option.isSome_iff_exists.mp isPaired
    exact ⟨call, pairedAt_of_closes found closed (isCall ▸ paired)⟩
  · rw [needsCall] at exempt
    cases exempt

/-- An inserted output is paired with the call before it. -/
theorem normalised_inserted (items : List ResponseItem) {call : ResponseItem}
    {before after : List (ResponseItem × Option Nat)}
    (split : items.zip (pairs items) = before ++ (call, none) :: after)
    (isCall : requiresOutput call = true) :
    PairedAt (normalizeCalls newV5 items)
      (before.flatMap fun entry => settle newV5 entry.1 entry.2).length
      ((before.flatMap fun entry => settle newV5 entry.1 entry.2).length + 1) := by
  have flat := normalizeCalls_eq_flatMap newV5 items
  rw [split, List.flatMap_append, List.flatMap_cons, settle_eq_repairOne newV5 call none,
    repairOne, opens_occurrence, isCall] at flat
  simp only [Option.isSome_none, Bool.false_eq_true, if_false, if_true, List.cons_append,
    List.nil_append] at flat
  generalize before.flatMap (fun entry => settle newV5 entry.1 entry.2) = done at flat ⊢
  have atCall : (normalizeCalls newV5 items)[done.length]? = some call := by simp [flat]
  have atNext : (normalizeCalls newV5 items)[done.length + 1]? = some (answerOf newV5 call) := by
    simp [flat]
  obtain ⟨output, paired, later, key, opening, closing, apart⟩ :=
    normalised_call newV5 items atCall isCall
  have nextToken : ((normalizeCalls newV5 items).map occurrence)[done.length + 1]? =
      some (some ⟨key, false⟩) := by
    rw [List.getElem?_map, atCall, Option.map_some, Option.some.injEq] at opening
    rw [List.getElem?_map, atNext, Option.map_some, occurrence_answerOf newV5 call key opening]
  by_cases adjacent : output = done.length + 1
  · exact adjacent ▸ paired
  · exact absurd nextToken (apart _ _ (by omega) (by omega))

/-- After the two passes every call with a call id is paired with exactly one output, which comes
    later; every output is paired with exactly one earlier call, except the tool-search outputs
    that are exempt; the history is the given one, item by item, without its unpaired outputs and
    with an output directly behind each unpaired call, which is that call's pair; and the passes
    have nothing left to do. -/
theorem normalised_history_paired (items : List ResponseItem) :
    (∀ index item, (normalizeCalls newV5 items)[index]? = some item → requiresOutput item = true →
      ∃! output, PairedAt (normalizeCalls newV5 items) index output) ∧
    (∀ index item, (normalizeCalls newV5 items)[index]? = some item → isOutput item = true →
      isExempt item = false → ∃! call, PairedAt (normalizeCalls newV5 items) call index) ∧
    (normalizeCalls newV5 items =
      (items.zip (pairs items)).flatMap fun entry => settle newV5 entry.1 entry.2) ∧
    (∀ before call after, items.zip (pairs items) = before ++ (call, none) :: after →
      requiresOutput call = true →
      PairedAt (normalizeCalls newV5 items)
        (before.flatMap fun entry => settle newV5 entry.1 entry.2).length
        ((before.flatMap fun entry => settle newV5 entry.1 entry.2).length + 1)) ∧
    ensureCallOutputsPresent newV5 (normalizeCalls newV5 items) = normalizeCalls newV5 items ∧
    removeOrphanOutputs (normalizeCalls newV5 items) = normalizeCalls newV5 items := by
  refine ⟨?_, ?_, normalizeCalls_eq_flatMap newV5 items, ?_, ?_, ?_⟩
  · intro index item found isCall
    obtain ⟨output, paired, -⟩ := normalised_call newV5 items found isCall
    exact ⟨output, paired, fun other also => also.output_unique paired⟩
  · intro index item found output needsCall
    obtain ⟨call, paired⟩ := normalised_output newV5 items found output needsCall
    exact ⟨call, paired, fun other also => also.call_unique paired⟩
  · intro before call after split isCall
    exact normalised_inserted newV5 items split isCall
  · rw [ensureCallOutputsPresent_eq]
    exact complete_of_answered (normalised_answered newV5 items)
  · rw [removeOrphanOutputs_eq]
    exact prune_of_justified (normalised_justified newV5 items)

end Normalize

end Codex.Conversation
