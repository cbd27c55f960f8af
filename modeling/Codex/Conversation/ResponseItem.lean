import Codex.Lib.Json

/-!
# Response items

`protocol/src/models.rs` and `protocol/src/response_item_id.rs`: the items of a conversation's
history.
-/

namespace Codex.Conversation

/-- `ResponseItemId` (`response_item_id.rs:17`). -/
structure ResponseItemId where
  text : String
  deriving DecidableEq, Repr

/-- `ResponseItemId::with_suffix` (`response_item_id.rs:24`). -/
def ResponseItemId.withSuffix (lead suffix : String) : ResponseItemId := ⟨lead ++ "_" ++ suffix⟩

inductive ImageDetail where
  | auto
  | low
  | high
  | original
  deriving DecidableEq, Repr

/-- `ContentItem` (`models.rs:860`). -/
inductive ContentItem where
  | inputText (text : String)
  | inputImage (imageUrl : String) (detail : Option ImageDetail)
  | outputText (text : String)
  | refusal (refusal : String)
  deriving DecidableEq, Repr

/-- `AgentMessageInputContent` (`models.rs:881`). -/
inductive AgentMessageInputContent where
  | inputText (text : String)
  | encryptedContent (encryptedContent : String)
  deriving DecidableEq, Repr

/-- `MessagePhase` (`models.rs:926`). -/
inductive MessagePhase where
  | commentary
  | partialAnswer
  | finalAnswer
  deriving DecidableEq, Repr

/-- `InternalChatMessageMetadataPassthrough` (`models.rs:943`). -/
structure MetadataPassthrough where
  turnId : Option String
  deriving DecidableEq, Repr

inductive ReasoningSummary where
  | summaryText (text : String)
  deriving DecidableEq, Repr

inductive ReasoningContent where
  | reasoningText (text : String)
  | text (text : String)
  deriving DecidableEq, Repr

inductive LocalShellStatus where
  | completed
  | inProgress
  | incomplete
  deriving DecidableEq, Repr

/-- `LocalShellAction::Exec` (`models.rs:1869`). -/
structure LocalShellAction where
  command : List String
  timeoutMs : Option UInt64
  workingDirectory : Option String
  env : Option (AList fun _ : String => String)
  user : Option String
  deriving DecidableEq

/-- `WebSearchAction` (`models.rs:1880`). -/
inductive WebSearchAction where
  | search (query : Option String) (queries : Option (List String))
  | openPage (url : Option String)
  | findInPage (url pattern : Option String)
  | other
  deriving DecidableEq, Repr

/-- `FunctionCallOutputContentItem` (`models.rs:2246`). -/
inductive FunctionCallOutputContentItem where
  | inputText (text : String)
  | inputImage (imageUrl : String) (detail : Option ImageDetail)
  | encryptedContent (encryptedContent : String)
  deriving DecidableEq, Repr

/-- `FunctionCallOutputBody` (`models.rs:2326`). -/
inductive FunctionCallOutputBody where
  | text (text : String)
  | contentItems (items : List FunctionCallOutputContentItem)
  deriving DecidableEq, Repr

/-- `FunctionCallOutputPayload` (`models.rs:2319`). -/
structure FunctionCallOutputPayload where
  body : FunctionCallOutputBody
  success : Option Bool
  deriving DecidableEq, Repr

/-- `FunctionCallOutputPayload::from_text` (`models.rs:2353`). -/
def FunctionCallOutputPayload.fromText (content : String) : FunctionCallOutputPayload :=
  ⟨.text content, none⟩

/-- `ResponseItem` (`models.rs:965`). -/
inductive ResponseItem where
  | additionalTools (id : Option ResponseItemId) (role : String) (tools : List Json)
  | message (id : Option ResponseItemId) (role : String) (content : List ContentItem)
      (phase : Option MessagePhase) (metadata : Option MetadataPassthrough)
  | agentMessage (id : Option ResponseItemId) (author recipient : String)
      (content : List AgentMessageInputContent) (metadata : Option MetadataPassthrough)
  | reasoning (id : Option ResponseItemId) (summary : List ReasoningSummary)
      (content : Option (List ReasoningContent)) (encryptedContent : Option String)
      (metadata : Option MetadataPassthrough)
  | localShellCall (id : Option ResponseItemId) (callId : Option String)
      (status : LocalShellStatus) (action : LocalShellAction)
      (metadata : Option MetadataPassthrough)
  | functionCall (id : Option ResponseItemId) (name : String) (namespace' : Option String)
      (arguments callId : String) (metadata : Option MetadataPassthrough)
  | toolSearchCall (id : Option ResponseItemId) (callId status : Option String)
      (execution : String) (arguments : Json) (metadata : Option MetadataPassthrough)
  | functionCallOutput (id : Option ResponseItemId) (callId : String)
      (output : FunctionCallOutputPayload) (metadata : Option MetadataPassthrough)
  | customToolCall (id : Option ResponseItemId) (status : Option String) (callId name : String)
      (namespace' : Option String) (input : String) (metadata : Option MetadataPassthrough)
  | customToolCallOutput (id : Option ResponseItemId) (callId : String) (name : Option String)
      (output : FunctionCallOutputPayload) (metadata : Option MetadataPassthrough)
  | toolSearchOutput (id : Option ResponseItemId) (callId : Option String)
      (status execution : String) (tools : List Json) (omittedResultCount : Option Nat)
      (metadata : Option MetadataPassthrough)
  | webSearchCall (id : Option ResponseItemId) (status : Option String)
      (action : Option WebSearchAction) (metadata : Option MetadataPassthrough)
  | imageGenerationCall (id : Option ResponseItemId) (status : String)
      (revisedPrompt result : Option String) (error : Option Json)
      (metadata : Option MetadataPassthrough)
  | compaction (id : Option ResponseItemId) (encryptedContent : String)
      (metadata : Option MetadataPassthrough)
  | compactionTrigger
  | contextCompaction (id : Option ResponseItemId) (encryptedContent : Option String)
      (metadata : Option MetadataPassthrough)
  | other
  deriving DecidableEq

end Codex.Conversation
