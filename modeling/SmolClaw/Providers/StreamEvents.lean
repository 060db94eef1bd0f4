/-
  How one event of a provider's stream is read (`sc_provider_openai_parse_sse_event`,
  `src/providers/compatible.c`; `sc_provider_anthropic_parse_sse_event` and
  `sc_provider_gemini_parse_sse_event`, `src/providers/http_providers.c`).

  The `data:` lines of the text are joined, the JSON in them is read, and a CHAIN of branches picks the
  one event the callback is given.  Gemini's events are read as answers first (`geminiParseResponse`).
-/
import SmolClaw.Providers.Answers
import SmolClaw.Providers.RetryRule

namespace SmolClaw.Providers

open SmolClaw.Runtime

/-! ## Events -/

/-- `sc_provider_stream_event_type` -/
inductive StreamEventType where
  | delta
  | toolCall
  | done
  | error
  | reasoningDelta
  | preExecutedToolCall
  | preExecutedToolResult
  | finalUsage
  deriving DecidableEq, Repr

/-- `sc_provider_stream_event` -/
structure StreamEvent where
  type : StreamEventType := .delta
  text : Bytes := []
  toolCall : ProviderToolCall := { name := [], argumentsJson := [], arguments := none }
  errorMessage : Bytes := []
  inputTokens : Int64 := 0
  outputTokens : Int64 := 0
  totalTokens : Int64 := 0

/-! ## The payload of an event -/

/-- A line without its line end's CR. -/
def withoutCr (line : Bytes) : Bytes :=
  if line.getLast? = some (chr '\r') then line.dropLast else line

/-- What a `data:` line of at least `least` bytes carries: one blank after the colon is dropped. -/
def dataOfLine (least : Nat) (line : Bytes) : Option Bytes :=
  let line := withoutCr line
  if least ≤ line.length ∧ str "data:" <+: line then
    let data := line.drop 5
    some (if data.head? = some (chr ' ') then data.tail else data)
  else none

/-- The two loops over the lines of an event: a line feed goes in front of what a line adds, unless
    nothing is there yet. -/
def eventPayload (least : Nat) (sseEvent : Bytes) : Bytes :=
  ((sseEvent.splitOn (chr '\n')).filterMap (dataOfLine least)).foldl
    (fun payload data => (if payload = [] then payload else payload ++ str "\n") ++ data) []

/-- `sse_data_payload` of the compatible provider: a line `data:` without data is passed over. -/
def sseDataPayload (sseEvent : Bytes) : Bytes := eventPayload 6 sseEvent

/-- `sse_event_payload` of the other providers. -/
def sseEventPayload (sseEvent : Bytes) : Bytes := eventPayload 5 sseEvent

/-! ## OpenAI -/

/-- The first of two counts that is there. -/
def countOf (usage : Option Json) (key other : String) : Int64 :=
  ((memberCount usage key).or (memberCount usage other)).getD 0

/-- `stream_event_set_usage`, with `parse_usage` -/
def streamEventSetUsage (usage : Json) (out : StreamEvent) : StreamEvent :=
  let input := countOf (some usage) "prompt_tokens" "input_tokens"
  let output := countOf (some usage) "completion_tokens" "output_tokens"
  { out with
    type := .finalUsage
    inputTokens := input
    outputTokens := output
    totalTokens := (memberCount (some usage) "total_tokens").getD (input + output) }

/-- `response_error_status`: the key of the error that the object reports. -/
def responseErrorStatus (root : Json) : Option String :=
  Reliable.errorStatusFromJson root "sc.provider_compatible.error_response"
    "sc.provider_compatible.nonstandard_error_response"

/-- `parse_one_stream_tool_call` -/
def parseOneStreamToolCall (value : Json) (out : StreamEvent) : Res StreamEvent :=
  match member (some value) "function" with
  | none => Status.parse "sc.provider_tool_call.malformed"
  | some function =>
      let arguments := (memberText (some function) "arguments").getD []
      .ok { out with
        toolCall := {
          callId := (memberText (some value) "id").getD []
          name := (memberText (some function) "name").getD []
          argumentsJson := arguments
          arguments := if arguments = [] then none else (jsonParseStatus arguments).toOption } }

/-- The first reasoning field that is a text. -/
def reasoningText (delta : Option Json) : Option Bytes :=
  ((memberText delta "reasoning_content").or (memberText delta "reasoning")).or
    (memberText delta "reasoning_delta")

/-- The chain of branches on the `delta` of the first choice. -/
def openaiDelta (delta : Option Json) (out : StreamEvent) : Res StreamEvent :=
  match memberText delta "content" with
  | some text => .ok { out with type := .delta, text := text }
  | none =>
      match reasoningText delta with
      | some text => .ok { out with type := .reasoningDelta, text := text }
      | none =>
          match member delta "tool_calls" with
          | some calls =>
              match arrayItems (some calls) with
              | [] => Status.parse "sc.provider_tool_call.expected_array"
              | call :: _ => parseOneStreamToolCall call { out with type := .toolCall }
          | none => .ok (if out.type = .finalUsage then out else { out with type := .delta, text := [] })

/-- The `delta` of an event's first choice. -/
def openaiChoiceDelta (root : Json) : Option Json :=
  member (arrayItems (member (some root) "choices")).head? "delta"

/-- `sc_provider_openai_parse_sse_event`, from the tree of the payload on. -/
def openaiParseRoot (root : Json) : Res StreamEvent :=
  match responseErrorStatus root with
  | some key => .ok { type := .error, errorMessage := str key }
  | none =>
      let choices := member (some root) "choices"
      match member (some root) "usage" with
      | some usage =>
          if choices.isNone then .ok (streamEventSetUsage usage {})
          else if arrayItems choices = [] then
            openaiDelta (openaiChoiceDelta root) (streamEventSetUsage usage {})
          else if (openaiChoiceDelta root).isNone then Status.parse "sc.provider_stream.invalid_event"
          else openaiDelta (openaiChoiceDelta root) {}
      | none =>
          if (openaiChoiceDelta root).isNone then Status.parse "sc.provider_stream.invalid_event"
          else openaiDelta (openaiChoiceDelta root) {}

/-- `sc_provider_openai_parse_sse_event` -/
def openaiParseSseEvent (sseEvent : Bytes) : Res StreamEvent :=
  let payload := sseDataPayload sseEvent
  if payload = str "[DONE]" then .ok { type := .done }
  else do
    let root ← jsonParseStatus payload
    openaiParseRoot root

/-! ## Anthropic -/

/-- The branch of a `content_block_delta`: any other delta leaves the event empty. -/
def anthropicDelta (delta : Option Json) (out : StreamEvent) : StreamEvent :=
  let type := memberText delta "type"
  let thinking := (memberText delta "thinking").or (memberText delta "text")
  if type = some (str "text_delta") ∧ (memberText delta "text").isSome then
    { out with type := .delta, text := (memberText delta "text").getD [] }
  else if (type = some (str "thinking_delta") ∨ type = some (str "reasoning_delta")) ∧ thinking.isSome then
    { out with type := .reasoningDelta, text := thinking.getD [] }
  else out

/-- The branch of a `content_block_start`: a `tool_use` block with a name. -/
def anthropicBlock (block : Option Json) (out : StreamEvent) : Res StreamEvent :=
  match memberText block "name" with
  | some name =>
      if memberText block "type" = some (str "tool_use") then do
        let argumentsJson ← match member block "input" with
          | some input => jsonSerialize input
          | none => .ok (str "\x7b\x7d")
        let arguments ← jsonParseStatus argumentsJson
        .ok { out with
          type := .toolCall
          toolCall := {
            callId := (memberText block "id").getD []
            name := name
            argumentsJson := argumentsJson
            arguments := some arguments } }
      else .ok out
  | none => .ok out

/-- `sc_provider_anthropic_parse_sse_event`, from the tree of the payload on. -/
def anthropicParseRoot (root : Json) : Res StreamEvent :=
  if (member (some root) "error").isSome then
    .ok { type := .error, errorMessage := str "sc.provider_anthropic.error_response" }
  else
    match memberText (some root) "type" with
    | none => Status.parse "sc.provider_anthropic.sse_missing_type"
    | some type =>
        if type = str "message_stop" then .ok { type := .done }
        else if type = str "message_delta" then
          let usage := member (some root) "usage"
          let input := (memberCount usage "input_tokens").getD 0
          let output := (memberCount usage "output_tokens").getD 0
          .ok { type := .finalUsage
                inputTokens := input
                outputTokens := output
                totalTokens := input + output }
        else if type = str "content_block_delta" then .ok (anthropicDelta (member (some root) "delta") {})
        else if type = str "content_block_start" then anthropicBlock (member (some root) "content_block") {}
        else .ok {}

/-- `sc_provider_anthropic_parse_sse_event` -/
def anthropicParseSseEvent (sseEvent : Bytes) : Res StreamEvent :=
  let payload := sseEventPayload sseEvent
  if payload = [] then .ok {}
  else do
    let root ← jsonParseStatus payload
    anthropicParseRoot root

/-! ## Gemini -/

/-- The event of a call: the fields are copied. -/
def eventOfCall (type : StreamEventType) (call : ProviderToolCall) : StreamEvent :=
  { type := type, toolCall := call }

/-- The one event that an answer becomes. -/
def geminiEvent (response : Answer) : StreamEvent :=
  match response.preExecutedToolCall.filter (·.name ≠ []) with
  | some call => eventOfCall .preExecutedToolCall call
  | none =>
      if response.preExecutedToolResult ≠ [] then
        { type := .preExecutedToolResult, text := response.preExecutedToolResult }
      else
        match response.toolCalls with
        | call :: _ => eventOfCall .toolCall call
        | [] =>
            if response.streamingComplete then { type := .done }
            else { text := response.text }

/-- `sc_provider_gemini_parse_sse_event` -/
def geminiParseSseEvent (sseEvent : Bytes) : Res StreamEvent := do
  let response ← geminiParseResponse sseEvent
  .ok (geminiEvent response)

end SmolClaw.Providers
