/-
  What the two loops of the agent share about tool calls (`src/runtime/agent.c`): which tools a turn
  may use, the checks of the arguments, calls written in the text of an answer, and the line that tells
  the provider what a call gave.

  The answers of a provider are taken after `runtime_stream_callback` has put them together.  The fields
  of an answer that the loops do not read are left out.
-/
import SmolClaw.Core.Text
import SmolClaw.Json.Serialize
import SmolClaw.Lib.Infix
import SmolClaw.Security.Requests
import SmolClaw.Tools.Common

namespace SmolClaw.Runtime

open Lib.Infix Security

/-! ## Calls and answers -/

/-- `sc_provider_tool_call`; the arguments may be a null pointer. -/
structure ProviderToolCall where
  callId : Bytes := []
  name : Bytes
  argumentsJson : Bytes
  arguments : Option Json

/-- What a response adds to the usage of its turn. -/
structure Usage where
  inputTokens : Int64 := 0
  outputTokens : Int64 := 0
  totalTokens : Int64 := 0
  costUsd : Double := ⟨0⟩

/-- `sc_provider_response` -/
structure ProviderResponse where
  text : Bytes := []
  toolCalls : List ProviderToolCall := []
  usage : Usage := {}
  malformedToolCall : Bool := false

/-- `SC_PROVIDER_MAX_TOOL_ARGUMENT_BYTES` -/
def providerMaxToolArgumentBytes : Nat := 262144

/-- `sc_provider_response_add_tool_call`; the tree of the arguments is copied as it is. -/
def addToolCall (response : ProviderResponse) (call : ProviderToolCall) : Res ProviderResponse :=
  if providerMaxToolArgumentBytes < call.argumentsJson.length then
    Status.invalidArgument "sc.provider_tool_call.arguments_too_large"
  else .ok { response with toolCalls := response.toolCalls ++ [call] }

/-! ## Calls in the text of an answer -/

/-- `trim_ascii` -/
def trimAscii (value : Bytes) : Bytes :=
  let blank := fun c => c == chr ' ' || c == chr '\n' || c == chr '\r' || c == chr '\t'
  ((value.dropWhile blank).reverse.dropWhile blank).reverse

/-- `add_recovered_named_tool_call` -/
def addRecoveredNamed (response : ProviderResponse) (name argsJson : Bytes) (index : Nat) :
    Res ProviderResponse :=
  if name = [] then Status.invalidArgument "sc.agent.text_tool_call.invalid_argument"
  else do
    let arguments ← jsonParseStatus argsJson
    addToolCall response {
      callId := str "text-call-" ++ decimal index
      name := name
      argumentsJson := argsJson
      arguments := some arguments }

/-- `add_recovered_json_tool_call` -/
def addRecoveredJson (response : ProviderResponse) (payload : Bytes) (index : Nat) :
    Res ProviderResponse := do
  let root ← jsonParseStatus payload
  let name := ((Json.asStr (root.objectGet (str "name"))).or
    (Json.asStr (root.objectGet (str "tool")))).getD []
  if name = [] then Status.parse "sc.agent.text_tool_call.missing_name"
  else
    match (root.objectGet (str "arguments")).or (root.objectGet (str "args")) with
    | none => Status.parse "sc.agent.text_tool_call.missing_arguments"
    | some args => do
        let argsJson ← jsonSerialize args
        addRecoveredNamed response name argsJson index

/-- The state of the loop of `recover_text_tool_calls`. -/
structure Recovery where
  response : ProviderResponse
  visible : Bytes := []
  recovered : Nat := 0

/-- A piece of text that is a call, or stays in the text. -/
def Recovery.take (r : Recovery) (parsed : Res ProviderResponse) (piece : Bytes) : Recovery :=
  match parsed with
  | .ok response => { r with response := response, recovered := r.recovered + 1 }
  | .error _ => { r with visible := r.visible ++ piece }

/-- The place of a text in another, from its start. -/
def findLiteral (haystack needle : Bytes) : Option Nat := (firstInfix needle haystack).map (·.1.length)

/-- What follows a `<tool `: the text behind it, if the loop goes on. -/
def recoverNamed (r : Recovery) (source : Bytes) : Recovery × Option Bytes :=
  match findLiteral source (str "name=\""), findLiteral source [chr '>'] with
  | some nameStart, some tagEnd =>
      match findLiteral (source.drop (tagEnd + 1)) (str "</tool>") with
      | none => ({ r with visible := r.visible ++ source }, none)
      | some body =>
          let close := tagEnd + 1 + body
          if tagEnd < nameStart then ({ r with visible := r.visible ++ source }, none)
          else
            let piece := source.take (close + (str "</tool>").length)
            let rest := source.drop (close + (str "</tool>").length)
            let nameStart := nameStart + (str "name=\"").length
            match findLiteral (source.drop nameStart) [chr '"'] with
            | none => ({ r with visible := r.visible ++ piece }, some rest)
            | some length =>
                if tagEnd < nameStart + length then ({ r with visible := r.visible ++ piece }, some rest)
                else
                  let name := (source.drop nameStart).take length
                  let args := trimAscii ((source.drop (tagEnd + 1)).take body)
                  (r.take (addRecoveredNamed r.response name args (r.recovered + 1)) piece, some rest)
  | _, _ => ({ r with visible := r.visible ++ source }, none)

/-- What follows a `<tool_call>`: the text behind it, if the loop goes on. -/
def recoverJson (r : Recovery) (source : Bytes) : Recovery × Option Bytes :=
  let opening := (str "<tool_call>").length
  match findLiteral (source.drop opening) (str "</tool_call>") with
  | none => ({ r with visible := r.visible ++ source }, none)
  | some length =>
      let close := opening + length + (str "</tool_call>").length
      let payload := trimAscii ((source.drop opening).take length)
      (r.take (addRecoveredJson r.response payload (r.recovered + 1)) (source.take close),
        some (source.drop close))

/-- The loop of `recover_text_tool_calls`: every round takes a marker off the text. -/
def recoverLoop : Nat → Recovery → Bytes → Recovery
  | 0, r, _ => r
  | rounds + 1, r, source =>
      if source = [] then r
      else
        let toolCallStart := findLiteral source (str "<tool_call>")
        let toolStart := findLiteral source (str "<tool ")
        let useToolCall := match toolCallStart, toolStart with
          | some callStart, some start => decide (callStart < start)
          | some _, none => true
          | none, _ => false
        match (if useToolCall then toolCallStart else toolStart) with
        | none => { r with visible := r.visible ++ source }
        | some start =>
            let r := { r with visible := r.visible ++ source.take start }
            let next := if useToolCall then recoverJson r (source.drop start)
              else recoverNamed r (source.drop start)
            match next with
            | (r, none) => r
            | (r, some rest) => recoverLoop rounds r rest

/-- `recover_text_tool_calls`: calls found in the text leave it. -/
def recoverTextToolCalls (response : ProviderResponse) : ProviderResponse :=
  let r := recoverLoop (response.text.length + 1) { response := response } response.text
  if r.recovered = 0 then r.response else { r.response with text := r.visible }

/-! ## Tools -/

/-- `sc_tool_spec`, as far as a call reads it. -/
structure ToolSpec where
  name : Bytes
  risk : ToolRisk := .readonly
  inputSchema : Option Json := none

/-- `sc_tool`: what its `spec` answers, and whether it has an `invoke_async` of its own. -/
structure Tool where
  spec : Res ToolSpec
  invokesAsync : Bool := false

/-- The limits that `sc_turn` puts on tools. -/
structure TurnTools where
  disableMemory : Bool := false
  allowedTools : List Bytes := []
  deniedTools : List Bytes := []
  autonomyOverride : Option AutonomyLevel := none

/-- `tool_name_is_memory` -/
def toolNameIsMemory (name : Bytes) : Bool :=
  [str "memory_store", str "memory_recall", str "memory_search", str "memory_pin", str "memory_forget",
    str "memory_export", str "memory_purge"].contains name

/-- `turn_allows_tool` -/
def turnAllowsTool (turn : TurnTools) (name : Bytes) : Bool :=
  if turn.disableMemory && toolNameIsMemory name then false
  else if turn.deniedTools.contains name then false
  else if turn.allowedTools = [] then true
  else turn.allowedTools.contains name

/-- `find_tool_by_name` -/
def findToolByName (tools : List Tool) (name : Bytes) : Option Tool :=
  tools.find? fun tool =>
    match tool.spec with
    | .ok spec => spec.name == name
    | .error _ => false

/-- `turn_autonomy_allows_spec` -/
def turnAutonomyAllowsSpec (turn : TurnTools) (spec : ToolSpec) : Bool :=
  match turn.autonomyOverride with
  | none => true
  | some .full => true
  | some .readOnly => spec.risk == .readonly
  | some .supervised => spec.risk != .destructive && spec.risk != .shell

/-- `sc_security_validate_prompt_injection` -/
def validatePromptInjection (text : Bytes) : Res Unit :=
  let needles := ["ignore previous instructions", "ignore all previous", "developer message",
    "system prompt", "reveal hidden", "exfiltrate", "disable safety", "bypass policy"]
  if needles.any fun needle => strContainsCasefold text (str needle) then
    Status.securityDenied "sc.security.prompt_injection_detected"
  else .ok ()

/-- The items of an array, none for anything else: `sc_json_array_len` and `sc_json_array_get`. -/
def arrayItems : Option Json → List Json
  | some (.array items) => items
  | _ => []

/-- The check of the required members, under the errors of a family. -/
def checkRequired (family : String) (args : Json) : List Json → Res Unit
  | [] => .ok ()
  | item :: required =>
      match Json.asStr (some item) with
      | none => Status.invalidArgument (family ++ ".invalid_required")
      | some name =>
          match args.objectGet name with
          | none => Status.invalidArgument (family ++ ".required_missing")
          | some (.string _) => checkRequired family args required
          | some _ => Status.invalidArgument (family ++ ".type_mismatch")

/-- `validate_tool_call_args` -/
def validateToolCallArgs (spec : ToolSpec) (call : ProviderToolCall) : Res Unit :=
  match call.arguments, spec.inputSchema with
  | none, _ => Status.invalidArgument "sc.agent.tool_schema.missing_args"
  | some _, none => .ok ()
  | some (.object members), some schema =>
      checkRequired "sc.agent.tool_schema" (.object members) (arrayItems (schema.objectGet (str "required")))
  | some _, some _ => Status.invalidArgument "sc.agent.tool_schema.args_not_object"

/-- The check of the texts of the required members. -/
def checkRequiredTexts (args : Json) : List Json → Res Unit
  | [] => .ok ()
  | item :: required =>
      match (Json.asStr (some item)).bind fun name => Json.asStr (args.objectGet name) with
      | none => checkRequiredTexts args required
      | some text =>
          if text.contains 0 then Status.invalidArgument "sc.tool.args.embedded_nul"
          else if !strIsValidUtf8 text then Status.invalidArgument "sc.tool.args.invalid_utf8"
          else checkRequiredTexts args required

/-- `sc_tool_validate_call_against_schema` -/
def toolValidateCall (spec : ToolSpec) (args : Json) : Res Unit :=
  match spec.inputSchema with
  | none => .ok ()
  | some schema =>
      match args with
      | .object members => do
          let required := arrayItems (schema.objectGet (str "required"))
          checkRequired "sc.tool.schema" (.object members) required
          if (schema.objectGet (str "properties")).isSome then checkRequiredTexts (.object members) required
          else .ok ()
      | _ => Status.invalidArgument "sc.tool.schema.args_not_object"

/-! ## Results of tools -/

/-- `sc_attachment_delivery` -/
inductive AttachmentDelivery where
  | default
  | photo
  | document
  deriving DecidableEq, Repr

/-- An attachment; without bytes there is none. -/
structure Attachment where
  contentType : Bytes := []
  filename : Bytes := []
  bytes : Bytes := []
  delivery : AttachmentDelivery := .default
  deriving DecidableEq, Repr

/-- `sc_tool_result` -/
structure ToolResult where
  success : Bool
  output : Bytes := []
  attachment : Attachment := {}
  deriving DecidableEq, Repr

/-- `tool_status_is_approval_required` -/
def isApprovalRequired (e : ScError) : Bool := e.code == .cancelled && e.errorKey == "sc.tool.approval_required"

/-- `tool_status_is_turn_terminal` for a status that is not OK. -/
def isTurnTerminal (e : ScError) : Bool :=
  if e.errorKey = "sc.agent.tool_loop.repeated_terminal_failure" then false
  else e.code == .unsupported || e.errorKey == "sc.browser_tool.cdp_connect_failed" ||
    e.errorKey == "sc.browser_tool.websocket_client_unavailable"

/-- `tool_policy_decision` -/
def toolPolicyDecision : Res ToolResult → Bytes
  | .ok _ => str "allowed"
  | .error e =>
      if e.code = .securityDenied then str "denied"
      else if isApprovalRequired e then str "approval-required"
      else str "allowed"

/-- `tool_failure_reason` -/
def toolFailureReason : Res ToolResult → Bytes
  | .ok _ => []
  | .error e => str e.errorKey

/-- `tool_outcome` -/
def toolOutcome (status : Res ToolResult) (success : Bool) : Bytes :=
  if success then str "ok"
  else
    match status with
    | .ok _ => str "error"
    | .error e =>
        if e.code = .securityDenied then str "denied"
        else if isApprovalRequired e then str "approval_required"
        else str "error"

/-- Both loops call a tool successful if it returned OK and says so itself. -/
def toolSuccess : Res ToolResult → Bool
  | .ok result => result.success
  | .error _ => false

/-- `append_bounded` -/
def bounded (value : Bytes) (maxBytes : Nat) : Bytes := if 0 < maxBytes then value.take maxBytes else value

/-- The line about a call for the next prompt. -/
def feedbackLine (name : Bytes) (success : Bool) (output : Bytes) (maxBytes : Nat) : Bytes :=
  str "tool=" ++ name ++ str " success=" ++ (if success then str "true" else str "false") ++ str " output=" ++
    bounded output maxBytes ++ str "\n"

end SmolClaw.Runtime
