/-
  How the answers of three providers are taken apart (`sc_provider_anthropic_parse_response`,
  `sc_provider_gemini_parse_response` and `sc_provider_ollama_parse_response`,
  `src/providers/http_providers.c`).

  1. **Program** — each parser fills an `Answer` from the JSON tree of the response: usage, names, the
     text and the tool calls.  Gemini's also takes a response in which `data:` occurs for an event
     stream, and then reads only the lines that start with it.

  2. **Calls** — Gemini's and Ollama's parsers write the arguments of a call out and read them again
     (`makeCall`); Anthropic's takes texts only, while the event parser beside it knows `tool_use` blocks.

  The overflow checks of `append_text_parts` are left out with `sc_alloc`: texts that are in memory do
  not add up past `SIZE_MAX`.
-/
import SmolClaw.Json.Parsed
import SmolClaw.Runtime.ToolCalls

namespace SmolClaw.Providers

open SmolClaw.Runtime

/-! ## Answers -/

/-- `sc_provider_response`, with the fields only the parsers of answers fill. -/
structure Answer extends ProviderResponse where
  streamingComplete : Bool := false
  finishReason : Bytes := []
  model : Bytes := []
  reasoningText : Bytes := []
  preExecutedToolCall : Option ProviderToolCall := none
  preExecutedToolResult : Bytes := []

/-- `sc_json_object_get` on a value that may be missing. -/
def member (value : Option Json) (key : String) : Option Json := value.bind (·.objectGet (str key))

/-- The string under a key. -/
def memberText (value : Option Json) (key : String) : Option Bytes := Json.asStr (member value key)

/-- The string under a key when it is not empty, else what was there. -/
def nonEmptyText (value : Option Json) (key : String) (default : Bytes) : Bytes :=
  match memberText value key with
  | some [] | none => default
  | some text => text

/-- `(int64_t)number` of the number under a key. -/
def memberCount (value : Option Json) (key : String) : Option Int64 :=
  (Json.asNumber (member value key)).map fun number => Int64.ofInt number.toInt64

/-- `sc_provider_response_add_tool_call` -/
def Answer.addToolCall (answer : Answer) (call : ProviderToolCall) : Res Answer := do
  let response ← Runtime.addToolCall answer.toProviderResponse call
  .ok { answer with toProviderResponse := response }

/-! ## Anthropic -/

/-- `append_text_parts`, whose failure is the missing list. -/
def appendTextParts (parts : Option Json) : Res Bytes :=
  match parts with
  | none => Status.parse "sc.provider_http.missing_text"
  | some _ => .ok ((arrayItems parts).flatMap fun part => (memberText (some part) "text").getD [])

/-- `sc_provider_anthropic_parse_response` -/
def anthropicParseResponse (responseJson : Bytes) : Res Answer := do
  let root ← jsonParseStatus responseJson
  if (root.objectGet (str "error")).isSome then Status.http "sc.provider_anthropic.error_response"
  else
    let usage := member (some root) "usage"
    let input := (memberCount usage "input_tokens").getD 0
    let output := (memberCount usage "output_tokens").getD 0
    let text ← appendTextParts (member (some root) "content")
    .ok { text := text
          usage := { inputTokens := input, outputTokens := output, totalTokens := input + output }
          model := nonEmptyText (some root) "model" []
          finishReason := nonEmptyText (some root) "stop_reason" [] }

/-! ## Gemini -/

/-- The call a parser adds: the arguments are written out and read again. -/
def makeCall (callId name : Bytes) (args : Json) : Res ProviderToolCall := do
  let argsJson ← jsonSerialize args
  let arguments ← jsonParseStatus argsJson
  .ok { callId := callId, name := name, argumentsJson := argsJson, arguments := some arguments }

/-- `parse_gemini_part` -/
def parseGeminiPart (out : Answer) (part : Json) (index : Nat) : Res Answer :=
  match memberText (some part) "text" with
  | some text => .ok { out with text := out.text ++ text }
  | none =>
      match member (some part) "functionCall" with
      | none => .ok out
      | some functionCall =>
          let name := (memberText (some functionCall) "name").getD []
          if name = [] then Status.parse "sc.provider_gemini.tool_call_missing_name"
          else do
            let args := (member (some functionCall) "args").getD (.object [])
            let call ← makeCall (str "gemini-call-" ++ decimal (index + 1)) name args
            out.addToolCall call

/-- The loop over the parts of a candidate. -/
def parseGeminiParts : Answer → Nat → List Json → Res Answer
  | out, _, [] => .ok out
  | out, index, part :: parts => do
      let out ← parseGeminiPart out part index
      parseGeminiParts out (index + 1) parts

/-- The query a grounded answer was searched with, as the arguments of a call. -/
def queryArguments (queries : Option Json) : Json :=
  .object [(str "query", .string ((Json.asStr (arrayItems queries).head?).getD []))]

/-- `parse_gemini_grounding` -/
def parseGeminiGrounding (root : Json) (out : Answer) : Res Answer :=
  let candidate := (arrayItems (member (some root) "candidates")).head?
  let grounding := member candidate "groundingMetadata"
  let queries := member grounding "webSearchQueries"
  let chunks := member grounding "groundingChunks"
  if grounding.isNone ∨ arrayItems queries = [] then .ok out
  else do
    let argumentsJson ← jsonSerialize (queryArguments queries)
    let resultJson ← match chunks with
      | none => .ok []
      | some chunks => jsonSerialize chunks
    .ok { out with
      preExecutedToolCall := some {
        callId := str "gemini-grounded-search"
        name := str "google_search"
        argumentsJson := argumentsJson
        arguments := some (queryArguments queries) }
      preExecutedToolResult := if resultJson = [] then out.preExecutedToolResult else resultJson }

/-- What a Gemini document adds to the usage. -/
def geminiUsage (root : Json) (usage : Usage) : Usage :=
  let counts := member (some root) "usageMetadata"
  let input := usage.inputTokens + (memberCount counts "promptTokenCount").getD 0
  let output := usage.outputTokens + (memberCount counts "candidatesTokenCount").getD 0
  let total :=
    match memberCount counts "totalTokenCount" with
    | some count => usage.totalTokens + count
    | none => input + output
  { usage with inputTokens := input, outputTokens := output, totalTokens := total }

/-- `parse_gemini_error_status`: the message of the status is left out. -/
def parseGeminiErrorStatus {α : Type} (fallbackKey : String) : Res α := Status.http fallbackKey

/-- `parse_gemini_json_response` -/
def parseGeminiJsonResponse (responseJson : Bytes) (out : Answer) : Res Answer := do
  let root ← jsonParseStatus responseJson
  if (root.objectGet (str "error")).isSome then
    parseGeminiErrorStatus "sc.provider_gemini.error_response"
  else
    let out := { out with
      model := nonEmptyText (some root) "modelVersion" out.model
      usage := geminiUsage root out.usage }
    let out ← parseGeminiGrounding root out
    let candidate := (arrayItems (member (some root) "candidates")).head?
    let out := { out with finishReason := nonEmptyText candidate "finishReason" out.finishReason }
    let parts := member (member candidate "content") "parts"
    if parts.isNone then Status.parse "sc.provider_gemini.missing_parts"
    else parseGeminiParts out 0 (arrayItems parts)

/-- `contains_data_prefix` -/
def containsDataPrefix (value : Bytes) : Bool := decide (str "data:" <:+: value)

/-- One line of an event stream. -/
def parseGeminiLine (out : Answer) (line : Bytes) : Res Answer :=
  if str "data:" <+: line then
    let payload := (line.drop 5).dropWhile fun c => c == chr ' ' || c == chr '\t'
    if str "[DONE]" <+: payload then .ok { out with streamingComplete := true }
    else parseGeminiJsonResponse payload out
  else .ok out

/-- `sc_provider_gemini_parse_response` -/
def geminiParseResponse (responseJson : Bytes) : Res Answer :=
  if containsDataPrefix responseJson then (responseJson.splitOn (chr '\n')).foldlM parseGeminiLine {}
  else parseGeminiJsonResponse responseJson {}

/-! ## Ollama -/

/-- The arguments of a call: a string is read as JSON. -/
def ollamaArguments (function : Option Json) : Res Json :=
  match member function "arguments" with
  | none => .ok (.object [])
  | some (.string text) => jsonParseStatus text
  | some args => .ok args

/-- One call of `parse_ollama_tool_calls`. -/
def parseOllamaToolCall (out : Answer) (value : Json) (index : Nat) : Res Answer :=
  let function := member (some value) "function"
  let name := (memberText function "name").getD []
  if name = [] then Status.parse "sc.provider_ollama.tool_call_missing_name"
  else do
    let args ← ollamaArguments function
    let callId := (memberText (some value) "id").getD (str "ollama-call-" ++ decimal (index + 1))
    let call ← makeCall callId name args
    out.addToolCall call

/-- `parse_ollama_tool_calls` -/
def parseOllamaToolCalls : Answer → Nat → List Json → Res Answer
  | out, _, [] => .ok out
  | out, index, value :: values => do
      let out ← parseOllamaToolCall out value index
      parseOllamaToolCalls out (index + 1) values

/-- `sc_provider_ollama_parse_response` -/
def ollamaParseResponse (responseJson : Bytes) : Res Answer := do
  let root ← jsonParseStatus responseJson
  if (root.objectGet (str "error")).isSome then
    parseGeminiErrorStatus "sc.provider_ollama.error_response"
  else
    let message := member (some root) "message"
    let input := (memberCount (some root) "prompt_eval_count").getD 0
    let output := (memberCount (some root) "eval_count").getD 0
    let text := ((memberText message "content").or (memberText (some root) "response")).getD []
    let reasoning := ((((memberText message "thinking").or (memberText message "reasoning")).or
      (memberText (some root) "thinking")).or (memberText (some root) "reasoning")).getD []
    parseOllamaToolCalls
      { text := text
        usage := { inputTokens := input, outputTokens := output, totalTokens := input + output }
        model := nonEmptyText (some root) "model" []
        finishReason := nonEmptyText (some root) "done_reason" []
        reasoningText := reasoning } 0 (arrayItems (member message "tool_calls"))

end SmolClaw.Providers
