import Rexux.Foundation.Text

/-!
# Items of a conversation

What the model said, was told and did, in the order of the conversation.  The parts of
an item that no operation on the history looks at are kept together as one text.
-/

namespace Rexux.History

open Foundation

inductive ContentItem
  | inputText (text : Text)
  | inputImage (imageUrl : Text) (detail : Option Text)
  | inputAudio (audioUrl : Text)
  | outputText (text : Text)
  deriving DecidableEq, Repr

inductive FunctionCallOutputContentItem
  | inputText (text : Text)
  | inputImage (imageUrl : Text) (detail : Option Text)
  | inputAudio (audioUrl : Text)
  | encryptedContent (encryptedContent : Text)
  deriving DecidableEq, Repr

inductive FunctionCallOutputBody
  | text (text : Text)
  | contentItems (items : List FunctionCallOutputContentItem)
  deriving DecidableEq, Repr

structure FunctionCallOutputPayload where
  body : FunctionCallOutputBody
  success : Option Bool
  deriving DecidableEq, Repr

def FunctionCallOutputPayload.fromText (content : Text) : FunctionCallOutputPayload :=
  ⟨.text content, none⟩

/-- `rest` stands for the fields that are only carried along. -/
structure InternalChatMessageMetadataPassthrough where
  turnId : Option Text
  contentItemKinds : Option (List Text)
  rest : Option Text
  deriving DecidableEq, Repr

def InternalChatMessageMetadataPassthrough.default : InternalChatMessageMetadataPassthrough :=
  ⟨none, none, none⟩

abbrev Passthrough := Option InternalChatMessageMetadataPassthrough

/-- The items of a model's history, with the fields that are read here. -/
inductive ResponseItem
  | message (id : Option Text) (role : Text) (content : List ContentItem) (phase : Option Text)
      (passthrough : Passthrough)
  | localShellCall (id callId : Option Text) (action : Text) (passthrough : Passthrough)
  | functionCall (id : Option Text) (callId : Text) (invocation : Text) (passthrough : Passthrough)
  | toolSearchCall (id callId : Option Text) (execution : Text) (arguments : Text)
      (passthrough : Passthrough)
  | customToolCall (id : Option Text) (callId : Text) (invocation : Text)
      (passthrough : Passthrough)
  | functionCallOutput (id callId name namespace' : Option Text)
      (output : FunctionCallOutputPayload) (passthrough : Passthrough)
  | customToolCallOutput (id : Option Text) (callId : Text) (name : Option Text)
      (output : FunctionCallOutputPayload) (passthrough : Passthrough)
  | toolSearchOutput (id callId : Option Text) (status execution : Text) (tools : List Text)
      (passthrough : Passthrough)
  | imageGenerationCall (id : Option Text) (status : Text) (revisedPrompt : Option Text)
      (result : Text) (passthrough : Passthrough)
  | agentMessage (content : Text) (passthrough : Passthrough)
  | reasoning (content : Text) (passthrough : Passthrough)
  | additionalTools (content : Text)
  | webSearchCall (content : Text) (passthrough : Passthrough)
  | compaction (content : Text) (passthrough : Passthrough)
  | compactionTrigger
  | contextCompaction (content : Text) (passthrough : Passthrough)
  | other
  deriving DecidableEq, Repr

/-- What the harness notes about an item. -/
structure RexuxHarnessMetadata where
  clientAuthored : Bool
  fallbackTokenLimitOverride : Option ℕ
  deriving DecidableEq, Repr

/-- An item as it is recorded. -/
structure ResponseItemEnvelope where
  item : ResponseItem
  metadata : Option RexuxHarnessMetadata
  deriving DecidableEq, Repr

def ResponseItemEnvelope.new (item : ResponseItem) : ResponseItemEnvelope := ⟨item, none⟩

abbrev AnnotatedContent := ContentItem × Text

/-- Missing classifications read as unknown. -/
def annotate : List ContentItem → List Text → List AnnotatedContent
  | [], _ => []
  | item :: items, [] => (item, "unknown".toList) :: annotate items []
  | item :: items, kind :: kinds => (item, kind) :: annotate items kinds

def toAnnotatedContent (content : List ContentItem) (passthrough : Passthrough) :
    List AnnotatedContent :=
  annotate content ((passthrough.bind (·.contentItemKinds)).getD [])

/-- Note the kinds of the content in the metadata. -/
def setContentKinds (passthrough : Passthrough) (kinds : List Text) : Passthrough :=
  some { passthrough.getD .default with contentItemKinds := some kinds }

end Rexux.History
