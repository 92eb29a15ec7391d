import CodexPilot.RustStd.Text

/-!
# Response items

The items that the history of a thread is made of.  What no function of this development reads of an
item is its `Data`.
-/

namespace CodexPilot.ContextManager

open RustStd

/-- A part of a message. -/
inductive ContentItem where
  | inputText (text : Text)
  | inputImage (imageUrl : Text)
  | outputText (text : Text)
  deriving DecidableEq

/-- `ImageDetail`. -/
inductive ImageDetail where
  | auto
  | low
  | high
  | original
  deriving DecidableEq

/-- A part of an output. -/
inductive FunctionCallOutputContentItem where
  | inputText (text : Text)
  | inputImage (imageUrl : Text) (detail : Option ImageDetail)
  deriving DecidableEq

/-- The body of an output. -/
inductive FunctionCallOutputBody where
  | text (content : Text)
  | contentItems (items : List FunctionCallOutputContentItem)
  deriving DecidableEq

/-- The output of a call. -/
structure FunctionCallOutputPayload where
  body : FunctionCallOutputBody
  success : Option Bool
  deriving DecidableEq

def FunctionCallOutputPayload.fromText (content : Text) : FunctionCallOutputPayload :=
  ⟨.text content, none⟩

/-- An item of the history; fields that nothing reads are its data. -/
inductive ResponseItem (Data : Type) where
  | message (role : Text) (content : List ContentItem) (data : Data)
  | reasoning (data : Data)
  | localShellCall (callId : Option Text) (data : Data)
  | functionCall (callId : Text) (data : Data)
  | toolSearchCall (callId : Option Text) (data : Data)
  | functionCallOutput (callId : Text) (output : FunctionCallOutputPayload)
  | customToolCall (callId : Text) (data : Data)
  | customToolCallOutput (callId : Text) (name : Option Text) (output : FunctionCallOutputPayload)
  | toolSearchOutput (callId : Option Text) (status execution : Text) (tools : List Data)
  | webSearchCall (data : Data)
  | imageGenerationCall (result : Text) (data : Data)
  | ghostSnapshot (data : Data)
  | compaction (data : Data)
  | other
  deriving DecidableEq

/-- The settings of a turn, as a rollout records them. -/
structure TurnContextItem (Data : Type) where
  turnId : Option Text
  model : Text
  realtimeActive : Option Bool
  data : Data

/-- An output of a tool. -/
def ResponseItem.isOutput {Data : Type} : ResponseItem Data → Bool
  | .functionCallOutput .. | .customToolCallOutput .. | .toolSearchOutput .. => true
  | _ => false

end CodexPilot.ContextManager
