/-
  A turn run asynchronously (`sc_agent_process_message_async`, `src/runtime/agent.c`), with operations
  that complete at once.

  1. **Program** — the callbacks walk through the same rounds as the synchronous loops: the answer of the
     provider, its calls one after the other, the next prompt.  There is no success cache and no approval,
     and what is known of terminal failures outlives the retry after a context overflow.

  2. **What is a parameter** — the provider, the tools and the clock answer as in the synchronous loops
     (`LoopEnv`), at once.
-/
import SmolClaw.Runtime.AgentMessage

namespace SmolClaw.Runtime

open Security

/-! ## The turn in flight -/

/-- `agent_async_turn`, with what happened so far. -/
structure AsyncState where
  failures : List Bytes := []
  result : TurnResult
  records : List LoopRecord := []

/-- Something happens; the asynchronous turn sets no override. -/
def AsyncState.note (s : AsyncState) (event : LoopEvent) : AsyncState :=
  { s with records := s.records ++ [⟨none, event⟩] }

/-- The `invoke` of a tool. -/
def AsyncState.invoke (env : LoopEnv) (s : AsyncState) (call : ProviderToolCall) :
    AsyncState × Res ToolResult :=
  let result := env.invoke s.records none call
  (s.note (.invoke call result), result)

/-- `sc_tool_invoke_async`: a tool without an `invoke_async` of its own is invoked as in
    `sc_tool_invoke`. -/
def toolInvokeAsync (env : LoopEnv) (s : AsyncState) (tool : Tool) (spec : ToolSpec) (call : ProviderToolCall)
    (args : Json) : AsyncState × Res ToolResult :=
  if tool.invokesAsync then s.invoke env call
  else
    match toolValidateCall spec args with
    | .error e => (s, .error e)
    | .ok () => s.invoke env call

/-- A status, and whether it came with a completion (`agent_async_tool_done`). -/
structure AsyncSettled where
  status : Res ToolResult
  completed : Bool := false

/-- The part of `agent_async_tool_next` that finds the status of a call. -/
def asyncSettleCall (agent : LoopAgent) (turn : TurnTools) (env : LoopEnv) (s : AsyncState)
    (call : ProviderToolCall) : AsyncState × AsyncSettled :=
  if !turnAllowsTool turn call.name then
    (s, { status := Status.securityDenied "sc.agent.tool_loop.filtered_tool" })
  else
    match findToolByName agent.tools call.name with
    | none => (s, { status := Status.invalidArgument "sc.agent.tool_loop.unknown_tool" })
    | some tool =>
        if s.failures.contains call.name then
          (s, { status := Status.unsupported "sc.agent.tool_loop.repeated_terminal_failure" })
        else
          match checkCall turn tool call with
          | .error e => (s, { status := .error e })
          | .ok spec =>
              match call.arguments with
              | none => (s, { status := Status.invalidArgument "sc.provider_tool_call.invalid_argument" })
              | some args =>
                  let after := toolInvokeAsync env s tool spec call args
                  (after.1, { status := after.2, completed := true })

/-- The output of a call as `agent_async_tool_finish` reports it. -/
def asyncReportedOutput : Res ToolResult → Bytes
  | .ok result => if result.success then result.output else str "tool_error"
  | .error e => str e.errorKey

section
variable (hmac : Digest → Bytes → Digest)

/-- `agent_async_tool_finish`: the line for the next prompt. -/
def asyncFinishCall (agent : LoopAgent) (env : LoopEnv) (s : AsyncState) (call : ProviderToolCall)
    (settled : AsyncSettled) : AsyncState × Res Bytes :=
  let output := asyncReportedOutput settled.status
  let s := { s with result := { s.result with toolCallCount := s.result.toolCallCount + 1 } }
  let s := s.note (.settled call false settled.status)
  match appendCallReceipt hmac agent (env.clock s.result.receipts.receipts.length) s.result.receipts call
      settled.status output with
  | .error e => (s, .error e)
  | .ok receipts =>
      let s := { s with
        failures := addFailure s.failures call settled.status
        result := copyAttachment { s.result with receipts := receipts } settled.status }
      (s, .ok (feedbackLine call.name (toolSuccess settled.status) output agent.maxToolOutputBytes))

/-- `agent_async_tool_next` and `agent_async_tool_done` over the calls of an answer: the feedback. -/
def asyncToolCalls (agent : LoopAgent) (turn : TurnTools) (env : LoopEnv) :
    List ProviderToolCall → Bytes → AsyncState → AsyncState × Res Bytes
  | [], feedback, s => (s, .ok feedback)
  | call :: calls, feedback, s =>
      match env.interrupted s.records with
      | some .expired => (s, Status.timeout "sc.agent.tool_loop.timeout")
      | some .cancelled => (s, Status.cancelled "sc.agent.tool_loop.cancelled")
      | none =>
          let settled := asyncSettleCall agent turn env s call
          match asyncFinishCall hmac agent env settled.1 call settled.2 with
          | (s, .error e) => (s, .error e)
          | (s, .ok line) =>
              if settled.2.completed && cancelledCall settled.2.status then
                (s, Status.cancelled "sc.agent.tool_loop.cancelled")
              else asyncToolCalls agent turn env calls (feedback ++ line) s

/-- `provider_response_clone`, as far as it can fail. -/
def cloneToolCalls : List ProviderToolCall → ProviderResponse → Res ProviderResponse
  | [], response => .ok response
  | call :: calls, response => do cloneToolCalls calls (← addToolCall response call)

/-- The answer of `agent_async_provider_generate_done`, or of the stream's end. -/
def asyncAnswer (streaming : Bool) (answer : Res ProviderResponse) : Res ProviderResponse :=
  if streaming then answer
  else do
    let response ← answer
    cloneToolCalls response.toolCalls { response with toolCalls := [] }

/-- How the rounds end; a failure that `agent_async_provider_ready` sees may be retried. -/
structure AsyncEnd where
  status : Res Bytes
  ready : Bool := false

/-- `agent_async_provider_next` and `agent_async_provider_ready`, with the iterations that are left. -/
def asyncLoop (streaming : Bool) (agent : LoopAgent) (turn : TurnTools) (env : LoopEnv) :
    Nat → Bytes → Bytes → AsyncState → AsyncState × AsyncEnd
  | 0, _, _, s => (s, { status := Status.cancelled "sc.agent.tool_loop.max_iterations" })
  | iterations + 1, prompt, output, s =>
      match turnCheckContinue (env.interrupted s.records) with
      | .error e => (s, { status := .error e })
      | .ok () =>
          let answer := asyncAnswer streaming (env.provider s.records prompt)
          let s := { s with
            result := { s.result with providerCallCount := s.result.providerCallCount + 1 } }.note
              (.request prompt)
          match answer with
          | .error e => (s, { status := .error e, ready := true })
          | .ok response =>
              let response := recoverTextToolCalls response
              let usages := s.result.usages ++ [response.usage]
              let exceeded := !response.malformedToolCall && env.exceedsBudget usages
              let s := { s with result := { s.result with
                usages := usages, budgetExceeded := s.result.budgetExceeded || exceeded } }
              if response.malformedToolCall then
                (s, { status := Status.parse "sc.agent.provider.malformed_tool_call", ready := true })
              else if exceeded then
                (s, { status := Status.cancelled "sc.agent.budget_exceeded", ready := true })
              else if response.toolCalls.isEmpty then (s, { status := .ok (output ++ response.text) })
              else
                match asyncToolCalls hmac agent turn env response.toolCalls [] s with
                | (s, .error e) => (s, { status := .error e })
                | (s, .ok feedback) =>
                    asyncLoop streaming agent turn env iterations
                      (prompt ++ str "\n## Tool results\n" ++ feedback) (output ++ response.text) s

/-- What happened in an asynchronous turn, and what its caller is handed. -/
structure AsyncTrace where
  state : TurnState
  records : List LoopRecord
  result : Option TurnResult
  recorded : Option Bytes := none
  status : Res Unit

/-- What `agent_async_complete` hands the caller: no result when the turn failed. -/
def asyncComplete (result : TurnResult) : Res Unit → Option TurnResult
  | .ok _ => some result
  | .error _ => none

/-- The end of a turn that failed. -/
def asyncFail (s : TurnState) (after : AsyncState) (e : ScError) : AsyncTrace :=
  { state := s, records := after.records, result := asyncComplete after.result (.error e), status := .error e }

/-- `agent_async_finalize_success` -/
def asyncFinalize (m : MessageTurn) (env : MessageEnv) (s : TurnState) (after : AsyncState)
    (output : Bytes) : AsyncTrace :=
  let text := stripReceiptTokens (appendReceiptBlock m.showReceipts after.result.receipts.receipts output)
  let result := { after.result with output := text }
  match turnCheckContinue (env.loop.interrupted after.records) with
  | .error e =>
      { state := s, records := after.records, result := asyncComplete result (.error e), status := .error e }
  | .ok () =>
      { state := { s with messages := appendTurn m.config.maxMessages s.messages m.turn.input text }
        records := after.records
        result := asyncComplete result (env.persist text)
        recorded := some text
        status := env.persist text }

/-- The rounds behind `agent_async_retry_context_overflow`. -/
def asyncRetry (streaming : Bool) (m : MessageTurn) (env : MessageEnv) (memoryContext : Bytes)
    (s : TurnState) (first : AsyncState) : AsyncTrace :=
  let budget := historyPromptBudget m.config s.cachedToolSpecsJson m.turn.input memoryContext
  match env.buildPrompt m 1 { s with messages := compactForOverflow s.messages budget } with
  | (s, .error e) => asyncFail s first e
  | (s, .ok again) =>
      match asyncLoop hmac streaming m.agent m.tools env.loop m.agent.maxToolIterations
          (env.render 1 again) [] first with
      | (after, { status := .error e, .. }) => asyncFail s after e
      | (after, { status := .ok output, .. }) => asyncFinalize m env s after output

/-- `sc_agent_process_message_async`, once it has found its history. -/
def asyncMessage (streaming : Bool) (m : MessageTurn) (env : MessageEnv) (s : TurnState)
    (result : TurnResult) : AsyncTrace :=
  match env.prepare with
  | .error e => asyncFail s { result := result } e
  | .ok memoryContext =>
      let budget := historyPromptBudget m.config s.cachedToolSpecsJson m.turn.input memoryContext
      match env.buildPrompt m 0 { s with messages := pruneToBudget s.messages budget } with
      | (s, .error e) => asyncFail s { result := result } e
      | (s, .ok shown) =>
          match asyncLoop hmac streaming m.agent m.tools env.loop m.agent.maxToolIterations
              (env.render 0 shown) [] { result := result } with
          | (after, { status := .ok output, .. }) => asyncFinalize m env s after output
          | (after, { status := .error e, ready := ready }) =>
              if !ready ∨ !isContextOverflow e ∨ s.messages = [] then asyncFail s after e
              else asyncRetry hmac streaming m env memoryContext s after

end

end SmolClaw.Runtime
