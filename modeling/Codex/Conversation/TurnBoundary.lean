import Codex.Conversation.ResponseItem
import Codex.Lib.Text

/-!
# Turn boundaries and contextual items

`context-fragments/src/user_turn.rs`, `fragment.rs` and `additional_context.rs`, and
`conversation/src/event_mapping.rs` and `context/contextual_user_message.rs`: which items of a
history start an instruction turn, and which are context that the host put into it. The two
classifiers of a user's text are written twice, with a table each.

A hook prompt is read by `quick_xml`: `hookPromptXml` is the text and the run id of the element
that a whole text is, when it is one.
-/

namespace Codex.Conversation

open Codex.Text

/-- `text.get(..marker.len())` is the marker up to the case of ASCII letters. A marker is ASCII, so
    that the bytes compared are characters. -/
def startsIgnoringCase (marker text : Text) : Bool :=
  (text.take marker.length).map Char.toLower == marker.map Char.toLower

def endsIgnoringCase (marker text : Text) : Bool :=
  (text.drop (text.length - marker.length)).map Char.toLower == marker.map Char.toLower

/-- `matches_marked_text` (`fragment.rs:134`). -/
def matchesMarkedText (startMarker endMarker text : Text) : Bool :=
  if startMarker.isEmpty || endMarker.isEmpty then false
  else
    let trimmed := trimStart text
    if !startsIgnoringCase startMarker trimmed then false
    else
      let trimmed := trimEnd trimmed
      if utf8Len trimmed < utf8Len startMarker + utf8Len endMarker then false
      else endsIgnoringCase endMarker trimmed

def MAX_ADDITIONAL_CONTEXT_VALUE_BYTES : Nat := 4000

def MAX_ADDITIONAL_CONTEXT_SOURCE_LABEL_BYTES : Nat := 1536

/-- The loop of `matches_rendered_attr_value` and `matches_rendered_text_value`: entities, and
    characters other than the reserved ones. Each step takes a character, so that the length of the
    value is fuel enough. -/
def matchesRendered (entities : List Text) (reserved : List Char) : Nat → Text → Bool
  | _, [] => true
  | 0, _ => false
  | fuel + 1, c :: value =>
      match entities.findSome? fun entity => stripPrefix entity (c :: value) with
      | some rest => matchesRendered entities reserved fuel rest
      | none => !reserved.contains c && matchesRendered entities reserved fuel value

/-- `matches_rendered_attr_value` (`additional_context.rs:158`). -/
def matchesRenderedAttrValue (value : Text) : Bool :=
  utf8Len value ≤ MAX_ADDITIONAL_CONTEXT_SOURCE_LABEL_BYTES &&
    matchesRendered ["&amp;".toList, "&lt;".toList, "&gt;".toList, "&quot;".toList, "&#39;".toList]
      ['&', '<', '>', '"', '\''] value.length value

/-- `matches_rendered_text_value` (`additional_context.rs:186`). -/
def matchesRenderedTextValue (value : Text) : Bool :=
  matchesRendered ["&amp;".toList, "&lt;".toList, "&gt;".toList] ['&', '<', '>'] value.length value

/-- `matches_explicit_context` (`additional_context.rs:123`). -/
def matchesExplicitContext (trimmed openingPrefix openingSuffix closingTag : Text)
    (maxBodyBytes : Option Nat) : Bool :=
  match stripPrefix openingPrefix trimmed with
  | none => false
  | some afterPrefix =>
      let source := afterPrefix.takeWhile (· ≠ '"')
      if source.length = afterPrefix.length ||
          MAX_ADDITIONAL_CONTEXT_SOURCE_LABEL_BYTES < utf8Len source then false
      else if !matchesRenderedAttrValue source then false
      else
        match stripPrefix openingSuffix (afterPrefix.drop source.length) with
        | none => false
        | some bodyAndClose =>
            (stripSuffix closingTag bodyAndClose).any fun body =>
              maxBodyBytes.all (fun limit => utf8Len body ≤ limit) && matchesRenderedTextValue body

/-- `matches_legacy_external_context` (`additional_context.rs:208`). -/
def matchesLegacyExternalContext (trimmed : Text) : Bool :=
  match stripPrefix "<external_".toList trimmed with
  | none => false
  | some rest =>
      match splitOnce ">".toList rest with
      | none => false
      | some (key, valueAndClose) => "</external_".toList ++ key ++ ">".toList <:+ valueAndClose

/-- `AdditionalContextUserFragment::matches_text` (`additional_context.rs:53`). -/
def additionalContextMatchesText (text : Text) : Bool :=
  let trimmed := trim text
  matchesExplicitContext trimmed "<external_context source=\"".toList
      "\" kind=\"untrusted\">\n".toList "\n</external_context>".toList
      (some MAX_ADDITIONAL_CONTEXT_VALUE_BYTES) ||
    matchesLegacyExternalContext trimmed

/-- `is_valid_source` (`internal_model_context.rs:135`). -/
def isValidSource : Text → Bool
  | [] => false
  | first :: rest =>
      first.isLower && rest.all fun c => c.isLower || c.isDigit || c == '_'

/-- `matches_legacy_goal_context` (`internal_model_context.rs:126`). -/
def matchesLegacyGoalContext (text : Text) : Bool :=
  ((stripPrefix "<goal_context>".toList text).bind (stripSuffix "</goal_context>".toList)).any
    fun body => !decide ("<goal_context>".toList <:+: body) &&
      !decide ("</goal_context>".toList <:+: body)

def CONTEXT_START_MARKER : Text := "<codex_internal_context".toList

def CONTEXT_END_MARKER : Text := "</codex_internal_context>".toList

/-- `InternalModelContextFragment::matches_text` (`internal_model_context.rs:92`). -/
def internalContextMatchesText (text : Text) : Bool :=
  let trimmed := trim text
  if matchesLegacyGoalContext trimmed then true
  else
    match stripPrefix CONTEXT_START_MARKER trimmed with
    | none => false
    | some rest =>
        match stripPrefix " source=\"".toList rest with
        | none => false
        | some rest =>
            match splitOnce "\">".toList rest with
            | none => false
            | some (source, bodyAndClose) =>
                isValidSource source &&
                  (stripSuffix CONTEXT_END_MARKER bodyAndClose).any fun body =>
                    !decide (CONTEXT_START_MARKER <:+: body) &&
                      !decide (CONTEXT_END_MARKER <:+: body)

/-- `is_internal_context` (`user_turn.rs:143`). A goal context's wrapper decides at once. -/
def isInternalContext (text : Text) : Bool :=
  match (stripPrefix "<goal_context>".toList text).bind (stripSuffix "</goal_context>".toList) with
  | some body =>
      !decide ("<goal_context>".toList <:+: body) && !decide ("</goal_context>".toList <:+: body)
  | none =>
      match ((stripPrefix CONTEXT_START_MARKER text).bind
        (stripPrefix " source=\"".toList)).bind (splitOnce "\">".toList) with
      | none => false
      | some (source, body) =>
          isValidSource source && (stripSuffix CONTEXT_END_MARKER body).any fun body =>
            !decide (CONTEXT_START_MARKER <:+: body) && !decide (CONTEXT_END_MARKER <:+: body)

def RETIRED_WARNINGS : List Text :=
  [("Warning: apply_patch was requested via exec_command. Use the apply_patch tool instead of " ++
      "exec_command.").toList,
    "Warning: Your account was flagged for potentially high-risk cyber activity.".toList,
    ("Warning: Your account was flagged for potentially high-risk cyber activity and this " ++
      "request was routed to gpt-5.2 as a fallback. To regain access to gpt-5.3-codex, apply " ++
      "for trusted access: https://chatgpt.com/cyber or learn more: " ++
      "https://developers.openai.com/codex/concepts/cyber-safety").toList]

def isCount (text : Text) : Bool := !text.isEmpty && text.all Char.isDigit

/-- `is_legacy_compaction_warning_text` (`user_turn.rs:116`). -/
def isLegacyCompactionWarningText (text : Text) : Bool :=
  let text := trim text
  if RETIRED_WARNINGS.contains text then true
  else
    match stripPrefix
      "Warning: The maximum number of unified exec processes you can keep open is ".toList text with
    | none => false
    | some rest =>
        match stripSuffix ".".toList rest with
        | some limit => isCount limit
        | none =>
            match stripSuffix (" processes open. Reuse older processes or close them to " ++
              "prevent automatic pruning of old processes").toList rest with
            | none => false
            | some counts =>
                (splitOnce " and you currently have ".toList counts).any fun split =>
                  isCount split.1 && isCount split.2

/-- `MARKERS` of `is_contextual_user_text` (`user_turn.rs:89`). -/
def MARKERS : List (Text × Text) :=
  [("# AGENTS.md instructions".toList, "</INSTRUCTIONS>".toList),
    ("<environment_context>".toList, "</environment_context>".toList),
    ("<subagents_context>".toList, "</subagents_context>".toList),
    ("<skill>".toList, "</skill>".toList),
    ("<skills_instructions>".toList, "</skills_instructions>".toList),
    ("<user_shell_command>".toList, "</user_shell_command>".toList),
    ("<turn_aborted>".toList, "</turn_aborted>".toList),
    ("<subagent_notification>".toList, "</subagent_notification>".toList),
    ("<recommended_plugins>".toList, "</recommended_plugins>".toList),
    ("<task_capsule_v1>".toList, "</task_capsule_v1>".toList),
    ("<codex_task_state>".toList, "</codex_task_state>".toList)]

/-- `CONTEXTUAL_USER_FRAGMENTS` (`contextual_user_message.rs:48`), as what each registration
    matches. -/
def CONTEXTUAL_USER_FRAGMENTS : List (Text → Bool) :=
  [matchesMarkedText "# AGENTS.md instructions".toList "</INSTRUCTIONS>".toList,
    matchesMarkedText "<environment_context>".toList "</environment_context>".toList,
    matchesMarkedText "<subagents_context>".toList "</subagents_context>".toList,
    additionalContextMatchesText,
    matchesMarkedText "<skill>".toList "</skill>".toList,
    matchesMarkedText "<skills_instructions>".toList "</skills_instructions>".toList,
    matchesMarkedText "<user_shell_command>".toList "</user_shell_command>".toList,
    matchesMarkedText "<turn_aborted>".toList "</turn_aborted>".toList,
    matchesMarkedText "<subagent_notification>".toList "</subagent_notification>".toList,
    internalContextMatchesText,
    matchesMarkedText "<recommended_plugins>".toList "</recommended_plugins>".toList,
    matchesMarkedText "<task_capsule_v1>".toList "</task_capsule_v1>".toList,
    matchesMarkedText "<codex_task_state>".toList "</codex_task_state>".toList]

/-- `CONTEXTUAL_DEVELOPER_PREFIXES` (`event_mapping.rs:40`). -/
def CONTEXTUAL_DEVELOPER_PREFIXES : List Text :=
  ["<permissions instructions>".toList, "<model_switch>".toList, "<apps_instructions>".toList,
    "<collaboration_mode>".toList, "<multi_agent_mode>".toList, "<plugins_instructions>".toList,
    "<skills_instructions>".toList, "<skills_usage_instructions>".toList,
    "<personality_spec>".toList]

def ResponseItemId.startsWith (id : ResponseItemId) (marker : String) : Bool :=
  marker.toList.isPrefixOf id.text.toList

/-- `is_code_mode_notification_id` (`user_turn.rs:21`). -/
def isCodeModeNotificationId (id : ResponseItemId) : Bool := id.startsWith "msg_cmn_"

/-- `is_user_input_item_id` (`event_mapping.rs:36`). -/
def isUserInputItemId (id : ResponseItemId) : Bool := id.startsWith "msg_user_"

/-- `is_trusted_stable_context_id` (`stable_context.rs:80`). -/
def isTrustedStableContextId (id : ResponseItemId) : Bool := id.startsWith "msg_sctx_"

section Classifiers

variable (hookPromptXml : Text → Option (Text × Text))

/-- `parse_hook_prompt_fragment` (`items.rs:731`). -/
def parseHookPromptFragment (text : Text) : Option (Text × Text) :=
  (hookPromptXml (trim text)).filter fun fragment => !(trim fragment.2).isEmpty

/-- `is_contextual_user_text` (`user_turn.rs:88`). -/
def isContextualUserText (text : Text) : Bool :=
  if MARKERS.any (fun marker => matchesMarkedText marker.1 marker.2 text) ||
      (parseHookPromptFragment hookPromptXml text).isSome || additionalContextMatchesText text ||
      isInternalContext (trim text) then true
  else isLegacyCompactionWarningText text

/-- `is_user_turn_boundary` (`user_turn.rs:25`). -/
def isUserTurnBoundary : ResponseItem → Bool
  | .agentMessage .. => true
  | .message id role content _ _ =>
      if id.any isTrustedStableContextId then false
      else if role = "user" && id.any isCodeModeNotificationId then false
      else role = "user" && (id.any isUserInputItemId || content.isEmpty ||
        !content.all fun part =>
          match part with
          | .inputText text => isContextualUserText hookPromptXml text.toList
          | _ => false)
  | _ => false

/-- `is_standard_contextual_user_text` (`contextual_user_message.rs:73`). -/
def isStandardContextualUserText (text : Text) : Bool :=
  isLegacyCompactionWarningText text || CONTEXTUAL_USER_FRAGMENTS.any fun fragment => fragment text

/-- `is_contextual_user_fragment` (`contextual_user_message.rs:80`). -/
def isContextualUserFragment : ContentItem → Bool
  | .inputText text =>
      (parseHookPromptFragment hookPromptXml text.toList).isSome ||
        isStandardContextualUserText text.toList
  | _ => false

/-- `is_contextual_user_message_content` (`event_mapping.rs:52`). -/
def isContextualUserMessageContent (message : List ContentItem) : Bool :=
  !message.isEmpty && message.all (isContextualUserFragment hookPromptXml)

/-- `is_contextual_user_message` (`event_mapping.rs:57`). -/
def isContextualUserMessage : ResponseItem → Bool
  | .message id role content _ _ =>
      role = "user" && !id.any isUserInputItemId &&
        (id.any isCodeModeNotificationId || isContextualUserMessageContent hookPromptXml content)
  | _ => false

/-- `is_contextual_dev_fragment` (`event_mapping.rs:83`). -/
def isContextualDevFragment : ContentItem → Bool
  | .inputText text =>
      CONTEXTUAL_DEVELOPER_PREFIXES.any fun marker =>
        startsIgnoringCase marker (trimStart text.toList)
  | _ => false

/-- `is_contextual_dev_message_content` (`event_mapping.rs:71`). -/
def isContextualDevMessageContent (message : List ContentItem) : Bool :=
  message.any isContextualDevFragment

/-- `has_non_contextual_dev_message_content` (`event_mapping.rs:77`). -/
def hasNonContextualDevMessageContent (message : List ContentItem) : Bool :=
  message.any fun part => !isContextualDevFragment part

/-- A text in a goal context's wrapper does not start like the other fragment. -/
theorem stripPrefix_of_goal {text rest : Text}
    (goal : stripPrefix "<goal_context>".toList text = some rest) :
    stripPrefix CONTEXT_START_MARKER text = none := by
  obtain rfl := stripPrefix_eq_some.mp goal
  apply stripPrefix_of_not_prefix
  apply not_prefix_of_take 2 (by decide)
  rw [List.take_append_of_le_length (by decide)]
  decide

theorem internalContextMatchesText_eq (text : Text) :
    internalContextMatchesText text = isInternalContext (trim text) := by
  have apart := @stripPrefix_of_goal (trim text)
  unfold internalContextMatchesText isInternalContext matchesLegacyGoalContext
  generalize trim text = text at apart ⊢
  generalize "<goal_context>".toList = goalStart at apart ⊢
  generalize "</goal_context>".toList = goalEnd
  generalize " source=\"".toList = sourceStart
  generalize "\">".toList = sourceEnd
  simp only
  cases goal : (stripPrefix goalStart text).bind (stripSuffix goalEnd) with
  | some body =>
    obtain ⟨rest, stripped, _⟩ := Option.bind_eq_some_iff.mp goal
    rw [apart stripped, Option.any_some]
    simp
  | none =>
    rw [Option.any_none, if_neg Bool.false_ne_true]
    cases stripPrefix CONTEXT_START_MARKER text with
    | none => rfl
    | some rest =>
      simp only [Option.bind_some]
      cases stripPrefix sourceStart rest with
      | none => rfl
      | some rest =>
        simp only [Option.bind_some]

/-- Two of the registrations are not markers. -/
theorem or_regroup (a b c other d e f g h internal i j k : Bool) :
    (a || (b || (c || (other || (d || (e || (f || (g || (h || (internal || (i || (j ||
      (k || false))))))))))))) =
      ((a || (b || (c || (d || (e || (f || (g || (h || (i || (j || (k || false))))))))))) ||
        other || internal) := by
  cases other <;> cases internal <;> simp

theorem any_fragments (text : Text) :
    CONTEXTUAL_USER_FRAGMENTS.any (fun fragment => fragment text) =
      (MARKERS.any (fun marker => matchesMarkedText marker.1 marker.2 text) ||
        additionalContextMatchesText text || internalContextMatchesText text) :=
  or_regroup _ _ _ _ _ _ _ _ _ _ _ _ _

theorem isContextualUserText_eq (text : Text) :
    isContextualUserText hookPromptXml text =
      ((parseHookPromptFragment hookPromptXml text).isSome ||
        isStandardContextualUserText text) := by
  rw [isContextualUserText, isStandardContextualUserText, any_fragments,
    internalContextMatchesText_eq]
  generalize MARKERS.any _ = marked
  cases marked <;> cases isInternalContext (trim text) <;>
    cases additionalContextMatchesText text <;> simp

/-- No item both starts a turn and is a contextual user message. -/
theorem isContextualUserMessage_of_boundary {item : ResponseItem}
    (boundary : isUserTurnBoundary hookPromptXml item = true) :
    isContextualUserMessage hookPromptXml item = false := by
  cases item with
  | message id role content phase metadata =>
    have same : (content.all fun part =>
        match part with
        | .inputText text => isContextualUserText hookPromptXml text.toList
        | _ => false) = content.all (isContextualUserFragment hookPromptXml) := by
      congr 1
      funext part
      cases part with
      | inputText text => exact isContextualUserText_eq hookPromptXml text.toList
      | _ => rfl
    simp only [isUserTurnBoundary] at boundary
    rw [same] at boundary
    simp only [isContextualUserMessage, isContextualUserMessageContent]
    grind
  | _ => rfl

end Classifiers

end Codex.Conversation
