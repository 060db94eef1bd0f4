/-
  The loop of a turn that asks the provider and runs the tools it calls (`run_provider_loop` and
  `execute_tool_calls`, `src/runtime/agent.c`).

  1. **Program** — every round sends the prompt, settles the calls of the answer one after the other
     and puts what they gave behind the prompt.  A call may be refused, answered from the success cache,
     or invoked; an invocation that needs approval asks for it, and is made again with the thread's
     approval override set.  Denials, grants, successes and terminal failures are kept for one loop.

  2. **What is a parameter** — the provider, the tools, the one who approves, and the clock: they answer
     to all that happened so far (`LoopEnv`).  Whether the budget is exceeded is one of their answers,
     because the cost is a sum of floating point numbers.

  3. **Specification** — `ApprovalSafe`: the override is set only while a tool runs that was approved in
     this loop with the same arguments, and a tool that was declined does not run any more.

  4. **Result** — `approvals_safe`: so it is in every loop that a thread runs.
-/
import SmolClaw.Lib.Run
import SmolClaw.Runtime.ToolCalls

namespace SmolClaw.Runtime

open Lib.History Lib.Run Security

/-! ## What happens in a loop -/

/-- What is seen of a loop from outside, and how a call was settled: `reused` from the success cache. -/
inductive LoopEvent where
  | request (prompt : Bytes)
  | invoke (call : ProviderToolCall) (result : Res ToolResult)
  | approval (call : ProviderToolCall) (answer : Res Bool)
  | settled (call : ProviderToolCall) (reused : Bool) (status : Res ToolResult)

/-- An event, with the approval override of the thread while it happens. -/
structure LoopRecord where
  override : Option Bytes
  event : LoopEvent

/-- Why `turn_check_continue` ends a turn. -/
inductive Interruption where
  | cancelled
  | expired
  deriving DecidableEq, Repr

/-- What the surroundings of a loop answer, given what happened so far. -/
structure LoopEnv where
  /-- `provider_request_once` with this prompt; the rest of the request is the same during a turn. -/
  provider : List LoopRecord → Bytes → Res ProviderResponse
  /-- The `invoke` of the tool with the name of the call, under this override. -/
  invoke : List LoopRecord → Option Bytes → ProviderToolCall → Res ToolResult
  /-- `turn->request_tool_approval` -/
  approve : Option (List LoopRecord → ProviderToolCall → Res Bool) := none
  interrupted : List LoopRecord → Option Interruption := fun _ => none
  /-- `result_exceeds_budget` -/
  exceedsBudget : List Usage → Bool := fun _ => false
  /-- `sc_clock_wall`, for each receipt. -/
  clock : Nat → Int64 := fun _ => 0

/-- The surroundings after these events. -/
def LoopEnv.after (env : LoopEnv) (earlier : List LoopRecord) : LoopEnv :=
  { env with
    provider := fun records => env.provider (earlier ++ records)
    invoke := fun records => env.invoke (earlier ++ records)
    approve := env.approve.map fun approve records => approve (earlier ++ records)
    interrupted := fun records => env.interrupted (earlier ++ records) }

/-! ## State -/

/-- `sc_agent`, as far as the loops read it. -/
structure LoopAgent where
  tools : List Tool := []
  maxToolIterations : Nat
  maxToolOutputBytes : Nat := 0
  receiptsEnabled : Bool := true

/-- `tool_success_cache` -/
structure SuccessEntry where
  toolName : Bytes
  argumentsJson : Bytes
  output : Bytes
  attachment : Attachment
  replayCount : Nat := 0

/-- `sc_agent_turn_result`; the usage of every answer stands for the sums. -/
structure TurnResult where
  output : Bytes := []
  providerCallCount : Nat := 0
  toolCallCount : Nat := 0
  receipts : ReceiptChain
  usages : List Usage := []
  budgetExceeded : Bool := false
  attachment : Attachment := {}

/-- The locals of `run_provider_loop` that it shares with `execute_tool_calls`, the override of the
    thread, and what happened in the loop. -/
structure LoopState where
  override : Option Bytes
  denials : List Bytes := []
  grants : List (Bytes × Bytes) := []
  successes : List SuccessEntry := []
  failures : List Bytes := []
  result : TurnResult
  records : List LoopRecord := []

/-- Something happens. -/
def LoopState.note (s : LoopState) (event : LoopEvent) : LoopState :=
  { s with records := s.records ++ [⟨s.override, event⟩] }

/-! ## Invoking a tool -/

/-- `sc_tool_invoke` -/
def toolInvoke (env : LoopEnv) (s : LoopState) (spec : ToolSpec) (call : ProviderToolCall) (args : Json) :
    LoopState × Res ToolResult :=
  match toolValidateCall spec args with
  | .error e => (s, .error e)
  | .ok () =>
      let result := env.invoke s.records s.override call
      (s.note (.invoke call result), result)

/-- An invocation between `sc_tool_approval_override_set` and `sc_tool_approval_override_clear`. -/
def invokeApproved (env : LoopEnv) (s : LoopState) (spec : ToolSpec) (call : ProviderToolCall)
    (args : Json) : LoopState × Res ToolResult :=
  let after := toolInvoke env { s with override := some call.name } spec call args
  ({ after.1 with override := none }, after.2)

/-- `approval_denials_add` -/
def addDenial (denials : List Bytes) (call : ProviderToolCall) : List Bytes :=
  if denials.contains call.name then denials else denials ++ [call.name]

/-- `approval_grants_add` -/
def addGrant (grants : List (Bytes × Bytes)) (call : ProviderToolCall) : List (Bytes × Bytes) :=
  if grants.contains (call.name, call.argumentsJson) then grants
  else grants ++ [(call.name, call.argumentsJson)]

/-- An invocation answered that it needs approval: `request_turn_tool_approval` and what follows. -/
def askApproval (env : LoopEnv) (s : LoopState) (spec : ToolSpec) (call : ProviderToolCall) (args : Json) :
    LoopState × Res ToolResult :=
  match env.approve with
  | none => (s, Status.cancelled "sc.tool.approval_required")
  | some approve =>
      let answer := approve s.records call
      let s := s.note (.approval call answer)
      match answer with
      | .error e => (s, .error e)
      | .ok false =>
          ({ s with denials := addDenial s.denials call },
            Status.securityDenied "sc.tool.approval_declined")
      | .ok true => invokeApproved env { s with grants := addGrant s.grants call } spec call args

/-- The checks both loops make before they invoke a tool. -/
def checkCall (turn : TurnTools) (tool : Tool) (call : ProviderToolCall) : Res ToolSpec := do
  let spec ← tool.spec
  if !turnAutonomyAllowsSpec turn spec then Status.securityDenied "sc.agent.tool_loop.autonomy_denied"
  else do
    validatePromptInjection call.argumentsJson
    validateToolCallArgs spec call
    .ok spec

/-- The first invocation, under the override if this very call has been approved. -/
def invokeFirst (env : LoopEnv) (s : LoopState) (spec : ToolSpec) (call : ProviderToolCall) (args : Json) :
    LoopState × Res ToolResult :=
  if s.grants.contains (call.name, call.argumentsJson) then invokeApproved env s spec call args
  else toolInvoke env s spec call args

/-- A call that is not in the success cache. -/
def invokeCall (turn : TurnTools) (env : LoopEnv) (tool : Tool) (s : LoopState) (call : ProviderToolCall) :
    LoopState × Res ToolResult :=
  match checkCall turn tool call with
  | .error e => (s, .error e)
  | .ok spec =>
      if s.denials.contains call.name then (s, Status.securityDenied "sc.tool.approval_declined")
      else
        match call.arguments with
        | none => (s, Status.invalidArgument "sc.provider_tool_call.invalid_argument")
        | some args =>
            match invokeFirst env s spec call args with
            | (s, .ok result) => (s, .ok result)
            | (s, .error e) =>
                if isApprovalRequired e then askApproval env s spec call args else (s, .error e)

/-! ## The success cache -/

/-- `tool_success_cache_find`, with the place of the entry. -/
def successFind (successes : List SuccessEntry) (call : ProviderToolCall) : Option (SuccessEntry × Nat) :=
  successes.zipIdx.find? fun entry =>
    entry.1.toolName == call.name && entry.1.argumentsJson == call.argumentsJson

/-- `tool_success_cache_find_attachment_by_name`, with the place of the entry. -/
def successFindAttachmentByName (successes : List SuccessEntry) (call : ProviderToolCall) :
    Option (SuccessEntry × Nat) :=
  successes.zipIdx.find? fun entry =>
    decide (0 < entry.1.attachment.bytes.length) && entry.1.toolName == call.name

/-- `tool_success_cache_add` -/
def successAdd (successes : List SuccessEntry) (call : ProviderToolCall) (result : ToolResult) :
    List SuccessEntry :=
  if (successFind successes call).isSome then successes
  else
    successes ++ [{
      toolName := call.name
      argumentsJson := call.argumentsJson
      output := result.output
      attachment := if 0 < result.attachment.bytes.length then result.attachment else {} }]

/-- `tool_result_from_success_cache` -/
def resultFromSuccess (cached : SuccessEntry) : ToolResult where
  success := true
  output := str "duplicate tool call suppressed; previous result reused" ++
    if 0 < cached.output.length then str ": " ++ cached.output else []
  attachment := if 0 < cached.attachment.bytes.length then cached.attachment else {}

/-! ## Settling a call -/

/-- How a call was settled: from the success cache, and so that the loop stops. -/
structure Settled where
  status : Res ToolResult
  reused : Bool := false
  stop : Bool := false

/-- An answer from the success cache. -/
def replaySuccess (s : LoopState) (entry : SuccessEntry) (i : Nat) (byName : Bool) : LoopState × Settled :=
  ({ s with
      successes := s.successes.modify i fun entry => { entry with replayCount := entry.replayCount + 1 } },
    { status := .ok (resultFromSuccess entry), reused := true
      stop := byName || decide (0 < entry.replayCount) })

/-- The part of the loop of `execute_tool_calls` that finds the status of a call. -/
def settleCall (agent : LoopAgent) (turn : TurnTools) (env : LoopEnv) (s : LoopState)
    (call : ProviderToolCall) : LoopState × Settled :=
  if !turnAllowsTool turn call.name then
    (s, { status := Status.securityDenied "sc.agent.tool_loop.filtered_tool" })
  else
    match findToolByName agent.tools call.name with
    | none => (s, { status := Status.invalidArgument "sc.agent.tool_loop.unknown_tool" })
    | some tool =>
        if s.failures.contains call.name then
          (s, { status := Status.unsupported "sc.agent.tool_loop.repeated_terminal_failure" })
        else
          match successFind s.successes call with
          | some (entry, i) => replaySuccess s entry i false
          | none =>
              match successFindAttachmentByName s.successes call with
              | some (entry, i) => replaySuccess s entry i true
              | none =>
                  let after := invokeCall turn env tool s call
                  (after.1, { status := after.2 })

/-! ## What a settled call leaves -/

/-- `tool_terminal_failures_add` for a status that ends the tool for the turn. -/
def addFailure (failures : List Bytes) (call : ProviderToolCall) : Res ToolResult → List Bytes
  | .ok _ => failures
  | .error e =>
      if isTurnTerminal e && !failures.contains call.name then failures ++ [call.name] else failures

/-- `tool_success_cache_add` for an invocation that was successful. -/
def addSuccess (successes : List SuccessEntry) (call : ProviderToolCall) (settled : Settled) :
    List SuccessEntry :=
  match settled.status with
  | .ok result => if !settled.reused && result.success then successAdd successes call result else successes
  | .error _ => successes

/-- The output of a call as it is reported. -/
def reportedOutput : Res ToolResult → Bytes
  | .ok result => result.output
  | .error e => str e.errorKey

section
variable (hmac : Digest → Bytes → Digest)

/-- `sc_receipt_chain_append_ex` for a call. -/
def appendCallReceipt (agent : LoopAgent) (clock : Int64) (receipts : ReceiptChain)
    (call : ProviderToolCall) (status : Res ToolResult) (output : Bytes) : Res ReceiptChain :=
  if !agent.receiptsEnabled then .ok receipts
  else do
    let argsSummary ← Tools.receiptSummary call.argumentsJson
    let outputSummary ← Tools.receiptSummary output
    receiptChainAppendEx hmac receipts {
      toolName := Tools.sizedText call.name
      argsSummary := argsSummary
      outputSummary := outputSummary
      success := toolSuccess status
      policyDecision := Tools.sizedText (toolPolicyDecision status)
      failureReason := Tools.sizedText (toolFailureReason status)
      outcome := Tools.sizedText (toolOutcome status (toolSuccess status))
      clock := .ok clock }

/-- `result_copy_tool_attachment` -/
def copyAttachment (result : TurnResult) : Res ToolResult → TurnResult
  | .ok r => if r.success && decide (0 < r.attachment.bytes.length) then
      { result with attachment := r.attachment } else result
  | .error _ => result

/-- What a status that is not OK does to the loop, whatever else happened. -/
def cancelledCall : Res ToolResult → Bool
  | .ok _ => false
  | .error e => e.code == .cancelled

/-- The rest of the loop of `execute_tool_calls`: the line for the next prompt, if the loop goes on. -/
def finishCall (agent : LoopAgent) (env : LoopEnv) (s : LoopState) (call : ProviderToolCall)
    (settled : Settled) : LoopState × Res Bytes :=
  let s := { s with
    failures := addFailure s.failures call settled.status
    successes := addSuccess s.successes call settled
    result := { s.result with toolCallCount := s.result.toolCallCount + 1 } }
  let s := s.note (.settled call settled.reused settled.status)
  let output := reportedOutput settled.status
  match appendCallReceipt hmac agent (env.clock s.result.receipts.receipts.length) s.result.receipts call
      settled.status output with
  | .error e =>
      (s, if cancelledCall settled.status then Status.cancelled "sc.agent.tool_loop.cancelled" else .error e)
  | .ok receipts =>
      let s := { s with result := copyAttachment { s.result with receipts := receipts } settled.status }
      (s, if cancelledCall settled.status then Status.cancelled "sc.agent.tool_loop.cancelled"
        else .ok (feedbackLine call.name (toolSuccess settled.status) output agent.maxToolOutputBytes))

/-! ## The loops -/

/-- `execute_tool_calls`: the feedback, and whether a repeated success stops the turn. -/
def executeToolCalls (agent : LoopAgent) (turn : TurnTools) (env : LoopEnv) :
    List ProviderToolCall → Bytes → LoopState → LoopState × Res (Bytes × Bool)
  | [], feedback, s => (s, .ok (feedback, false))
  | call :: calls, feedback, s =>
      match env.interrupted s.records with
      | some .expired => (s, Status.timeout "sc.agent.tool_loop.timeout")
      | some .cancelled => (s, Status.cancelled "sc.agent.tool_loop.cancelled")
      | none =>
          let settled := settleCall agent turn env s call
          match finishCall hmac agent env settled.1 call settled.2 with
          | (s, .error e) => (s, .error e)
          | (s, .ok line) =>
              if settled.2.stop then (s, .ok (feedback ++ line, true))
              else executeToolCalls agent turn env calls (feedback ++ line) s

/-- `turn_check_continue` -/
def turnCheckContinue : Option Interruption → Res Unit
  | none => .ok ()
  | some .cancelled => Status.cancelled "sc.agent.turn.cancelled"
  | some .expired => Status.timeout "sc.agent.turn.timeout"

/-- The text of a turn that a repeated success stops before the provider said anything. -/
def stoppedText (result : TurnResult) (output : Bytes) : Bytes :=
  if output = [] then
    if 0 < result.attachment.bytes.length then str "The requested tool result is attached."
    else str "The requested tool action completed."
  else output

/-- A request to the provider. -/
def sendRequest (env : LoopEnv) (s : LoopState) (prompt : Bytes) : LoopState × Res ProviderResponse :=
  ({ s with
      result := { s.result with providerCallCount := s.result.providerCallCount + 1 } }.note (.request prompt),
    (env.provider s.records prompt).map recoverTextToolCalls)

/-- What an answer is refused for. -/
def acceptResponse (env : LoopEnv) (s : LoopState) (response : ProviderResponse) : LoopState × Res Unit :=
  let usages := s.result.usages ++ [response.usage]
  let exceeded := !response.malformedToolCall && env.exceedsBudget usages
  ({ s with result := { s.result with usages := usages, budgetExceeded := s.result.budgetExceeded || exceeded } },
    if response.malformedToolCall then Status.parse "sc.agent.provider.malformed_tool_call"
    else if exceeded then Status.cancelled "sc.agent.budget_exceeded"
    else .ok ())

/-- The loop of `run_provider_loop`, with the iterations that are left. -/
def providerLoop (agent : LoopAgent) (turn : TurnTools) (env : LoopEnv) :
    Nat → Bytes → Bytes → LoopState → LoopState × Res Bytes
  | 0, _, _, s => (s, Status.cancelled "sc.agent.tool_loop.max_iterations")
  | iterations + 1, prompt, output, s =>
      match turnCheckContinue (env.interrupted s.records) with
      | .error e => (s, .error e)
      | .ok () =>
          match sendRequest env s prompt with
          | (s, .error e) => (s, .error e)
          | (s, .ok response) =>
              match acceptResponse env s response with
              | (s, .error e) => (s, .error e)
              | (s, .ok ()) =>
                  if response.toolCalls.isEmpty then (s, .ok (output ++ response.text))
                  else
                    match executeToolCalls hmac agent turn env response.toolCalls [] s with
                    | (s, .error e) => (s, .error e)
                    | (s, .ok (_, true)) => (s, .ok (stoppedText s.result (output ++ response.text)))
                    | (s, .ok (feedback, false)) =>
                        providerLoop agent turn env iterations
                          (prompt ++ str "\n## Tool results\n" ++ feedback) (output ++ response.text) s

/-- `run_provider_loop`: the state it ends with, and its output, from the override of the thread. -/
def runProviderLoop (agent : LoopAgent) (turn : TurnTools) (env : LoopEnv) (override : Option Bytes)
    (prompt : Bytes) (result : TurnResult) : LoopState × Res Bytes :=
  providerLoop hmac agent turn env agent.maxToolIterations prompt [] { override := override, result := result }

end

/-! ## What a loop keeps -/

section Keeps

variable {hmac : Digest → Bytes → Digest} {agent : LoopAgent} {turn : TurnTools} {env : LoopEnv}
  {I : LoopState → Prop}

/-- **The rule for the calls of an answer**: what one settled call keeps, all of them keep. -/
theorem executeToolCalls_keeps
    (hcall : ∀ s call, I s → I (finishCall hmac agent env (settleCall agent turn env s call).1 call
      (settleCall agent turn env s call).2).1) :
    ∀ (calls : List ProviderToolCall) (feedback : Bytes) (s : LoopState), I s →
      I (executeToolCalls hmac agent turn env calls feedback s).1 := by
  intro calls
  induction calls with
  | nil => exact fun _ _ h => h
  | cons call calls ih =>
    intro feedback s h
    have hsettled := hcall s call h
    rw [executeToolCalls]
    split
    · exact h
    · exact h
    dsimp only
    split
    · rename_i heq
      rw [heq] at hsettled
      exact hsettled
    · rename_i heq
      rw [heq] at hsettled
      split
      · exact hsettled
      · exact ih _ _ hsettled

/-- **The rule for a loop**: what a request, its answer and one settled call keep, the loop keeps. -/
theorem providerLoop_keeps (hsend : ∀ s prompt, I s → I (sendRequest env s prompt).1)
    (haccept : ∀ s response, I s → I (acceptResponse env s response).1)
    (hcall : ∀ s call, I s → I (finishCall hmac agent env (settleCall agent turn env s call).1 call
      (settleCall agent turn env s call).2).1) :
    ∀ (iterations : Nat) (prompt output : Bytes) (s : LoopState), I s →
      I (providerLoop hmac agent turn env iterations prompt output s).1 := by
  intro iterations
  induction iterations with
  | zero => exact fun _ _ _ h => h
  | succ iterations ih =>
    intro prompt output s h
    have hsent := hsend s prompt h
    rw [providerLoop]
    split
    · exact h
    split
    · rename_i heq
      rw [heq] at hsent
      exact hsent
    rename_i sent response heq
    rw [heq] at hsent
    have haccepted := haccept sent response hsent
    split
    · rename_i heq
      rw [heq] at haccepted
      exact haccepted
    rename_i accepted heq
    rw [heq] at haccepted
    have hexecuted := executeToolCalls_keeps hcall response.toolCalls [] accepted haccepted
    split
    · exact haccepted
    split
    · rename_i heq
      rw [heq] at hexecuted
      exact hexecuted
    · rename_i heq
      rw [heq] at hexecuted
      exact hexecuted
    · rename_i heq
      rw [heq] at hexecuted
      exact ih _ _ _ hexecuted

end Keeps

/-! ## Tools that failed -/

/-- A call of this tool failed for the turn. -/
def FailedFor (records : List LoopRecord) (name : Bytes) : Prop :=
  ∃ r ∈ records, ∃ call reused e, r.event = .settled call reused (.error e) ∧ call.name = name ∧
    isTurnTerminal e = true

theorem failedFor_append {records records' : List LoopRecord} {name : Bytes} :
    FailedFor (records ++ records') name ↔ FailedFor records name ∨ FailedFor records' name := by
  unfold FailedFor
  simp only [List.mem_append, or_and_right, exists_or]

theorem failedFor_settled {o : Option Bytes} {call : ProviderToolCall} {reused : Bool} {status : Res ToolResult}
    {name : Bytes} : FailedFor [⟨o, .settled call reused status⟩] name ↔
      call.name = name ∧ ∃ e, status = .error e ∧ isTurnTerminal e = true := by
  constructor
  · rintro ⟨r, hr, call', reused', e, hevent, hname, hterminal⟩
    rw [List.mem_singleton.mp hr] at hevent
    obtain ⟨rfl, -, rfl⟩ := LoopEvent.settled.inj hevent
    exact ⟨hname, e, rfl, hterminal⟩
  · rintro ⟨hname, e, rfl, hterminal⟩
    exact ⟨_, List.mem_singleton_self _, call, reused, e, rfl, hname, hterminal⟩

theorem FailedFor.append {records : List LoopRecord} {name : Bytes} (h : FailedFor records name)
    (records' : List LoopRecord) : FailedFor (records ++ records') name :=
  failedFor_append.mpr (Or.inl h)

theorem mem_addFailure {failures : List Bytes} {call : ProviderToolCall} {status : Res ToolResult}
    {name : Bytes} :
    name ∈ addFailure failures call status ↔
      name ∈ failures ∨ (call.name = name ∧ ∃ e, status = .error e ∧ isTurnTerminal e = true) := by
  unfold addFailure
  split
  · exact ⟨Or.inl, fun h => h.elim id fun ⟨_, e, he, _⟩ => nomatch he⟩
  rename_i e
  split
  · rename_i hnew
    rw [Bool.and_eq_true] at hnew
    rw [List.mem_append, List.mem_singleton]
    constructor
    · rintro (hold | rfl)
      · exact Or.inl hold
      · exact Or.inr ⟨rfl, e, rfl, hnew.1⟩
    · rintro (hold | ⟨rfl, -⟩)
      · exact Or.inl hold
      · exact Or.inr rfl
  · rename_i hold
    refine ⟨Or.inl, ?_⟩
    rintro (hin | ⟨rfl, e', he, hterminal⟩)
    · exact hin
    · obtain rfl := Except.error.inj he
      rw [hterminal, Bool.true_and, Bool.not_eq_true', Bool.not_eq_false] at hold
      exact List.contains_iff_mem.mp hold

/-! ## Approvals -/

/-- The approver has approved this call. -/
def Approved (records : List LoopRecord) (name argumentsJson : Bytes) : Prop :=
  ∃ r ∈ records, ∃ call, r.event = .approval call (.ok true) ∧ call.name = name ∧
    call.argumentsJson = argumentsJson

/-- The approver has declined a call of this tool. -/
def Declined (records : List LoopRecord) (name : Bytes) : Prop :=
  ∃ r ∈ records, ∃ call, r.event = .approval call (.ok false) ∧ call.name = name

/-- **What may happen behind these events.** -/
structure ApprovalSafe (before : List LoopRecord) (r : LoopRecord) : Prop where
  /-- The override is set only while a tool is invoked that was approved with these arguments. -/
  granted : ∀ name, r.override = some name → ∃ call result, r.event = .invoke call result ∧
    call.name = name ∧ Approved before call.name call.argumentsJson
  /-- A declined tool is not invoked. -/
  accepted : ∀ call result, r.event = .invoke call result → ¬ Declined before call.name

/-- The state between two calls: what is kept of the answers is all of them. -/
structure LoopState.Sound (s : LoopState) : Prop where
  clear : s.override = none
  safe : Each ApprovalSafe s.records
  grants : ∀ grant ∈ s.grants, Approved s.records grant.1 grant.2
  denials : ∀ name, Declined s.records name → name ∈ s.denials

theorem Approved.mono {records : List LoopRecord} {name argumentsJson : Bytes} (r : LoopRecord)
    (h : Approved records name argumentsJson) : Approved (records ++ [r]) name argumentsJson := by
  obtain ⟨earlier, hearlier, hevent⟩ := h
  exact ⟨earlier, List.mem_append_left _ hearlier, hevent⟩

theorem declined_concat {records : List LoopRecord} {r : LoopRecord} {name : Bytes}
    (h : Declined (records ++ [r]) name) :
    Declined records name ∨ ∃ call, r.event = .approval call (.ok false) ∧ call.name = name := by
  obtain ⟨declining, hdeclining, hevent⟩ := h
  rcases List.mem_append.mp hdeclining with hold | hnew
  · exact Or.inl ⟨declining, hold, hevent⟩
  · rw [List.mem_singleton.mp hnew] at hevent
    exact Or.inr hevent

section Sound

variable (hmac : Digest → Bytes → Digest) (agent : LoopAgent) (turn : TurnTools) (env : LoopEnv)

/-- An event that is no invocation; a refusal has to be kept already. -/
theorem LoopState.Sound.note {s : LoopState} (h : s.Sound) {event : LoopEvent}
    (hinvoke : ∀ call result, event ≠ .invoke call result)
    (hdeclined : ∀ call, event = .approval call (.ok false) → call.name ∈ s.denials) :
    (s.note event).Sound := by
  constructor
  · exact h.clear
  · refine each_concat.mpr ⟨h.safe, fun name hname => ?_, fun call result hevent => ?_⟩
    · rw [h.clear] at hname
      exact absurd hname (Option.some_ne_none name).symm
    · exact absurd hevent (hinvoke call result)
  · exact fun grant hgrant => (h.grants grant hgrant).mono _
  · intro name hname
    rcases declined_concat hname with hold | ⟨call, hcall, rfl⟩
    · exact h.denials name hold
    · exact hdeclined call hcall

/-- **An invocation**, under no override or under the one of an approved call. -/
theorem LoopState.Sound.invoke {s : LoopState} (h : s.Sound) {call : ProviderToolCall}
    (hdenied : call.name ∉ s.denials) {override : Option Bytes}
    (hgrant : ∀ name, override = some name → call.name = name ∧
      Approved s.records call.name call.argumentsJson) (spec : ToolSpec) (args : Json) :
    { (toolInvoke env { s with override := override } spec call args).1 with override := none }.Sound := by
  unfold toolInvoke
  split
  · exact ⟨rfl, h.safe, h.grants, h.denials⟩
  · constructor
    · rfl
    · refine each_concat.mpr ⟨h.safe, fun name hname => ?_, fun call' result hevent => ?_⟩
      · obtain ⟨hcall, happroved⟩ := hgrant name hname
        exact ⟨call, _, rfl, hcall, happroved⟩
      · obtain ⟨rfl, -⟩ := LoopEvent.invoke.inj hevent
        exact fun hdeclined => hdenied (h.denials _ hdeclined)
    · exact fun grant hgrant => (h.grants grant hgrant).mono _
    · intro name hname
      rcases declined_concat hname with hold | ⟨_, hevent, -⟩
      · exact h.denials name hold
      · exact nomatch hevent

theorem LoopState.Sound.invokeApproved {s : LoopState} (h : s.Sound) {call : ProviderToolCall}
    (hdenied : call.name ∉ s.denials) (happroved : Approved s.records call.name call.argumentsJson)
    (spec : ToolSpec) (args : Json) : (invokeApproved env s spec call args).1.Sound := by
  refine h.invoke env hdenied (fun name hname => ⟨Option.some.inj hname, happroved⟩) spec args

theorem LoopState.Sound.invokeFirst {s : LoopState} (h : s.Sound) {call : ProviderToolCall}
    (hdenied : call.name ∉ s.denials) (spec : ToolSpec) (args : Json) :
    (invokeFirst env s spec call args).1.Sound := by
  unfold Runtime.invokeFirst
  split
  · rename_i hgrant
    exact h.invokeApproved env hdenied (h.grants _ (List.contains_iff_mem.mp hgrant)) spec args
  · have hplain := h.invoke env hdenied (fun name (hname : none = some name) => nomatch hname) spec args
    have hsame : { s with override := none } = s := by rw [← h.clear]
    rw [hsame] at hplain
    refine ⟨?_, hplain.safe, hplain.grants, hplain.denials⟩
    unfold toolInvoke
    split
    · exact h.clear
    · exact h.clear

/-- An approval is a grant from then on. -/
theorem LoopState.Sound.grant {s : LoopState} (h : s.Sound) {call : ProviderToolCall}
    (happroved : Approved s.records call.name call.argumentsJson) :
    { s with grants := addGrant s.grants call }.Sound := by
  refine ⟨h.clear, h.safe, fun grant hgrant => ?_, h.denials⟩
  unfold addGrant at hgrant
  split at hgrant
  · exact h.grants grant hgrant
  · rcases List.mem_append.mp hgrant with hold | hnew
    · exact h.grants grant hold
    · rw [List.mem_singleton.mp hnew]
      exact happroved

theorem mem_addDenial (denials : List Bytes) (call : ProviderToolCall) :
    call.name ∈ addDenial denials call ∧ ∀ name ∈ denials, name ∈ addDenial denials call := by
  unfold addDenial
  split
  · rename_i hcontains
    exact ⟨List.contains_iff_mem.mp hcontains, fun name hname => hname⟩
  · exact ⟨List.mem_append_right _ (List.mem_singleton_self _), fun name => List.mem_append_left _⟩

theorem LoopState.Sound.askApproval {s : LoopState} (h : s.Sound) {call : ProviderToolCall}
    (hdenied : call.name ∉ s.denials) (spec : ToolSpec) (args : Json) :
    (askApproval env s spec call args).1.Sound := by
  unfold Runtime.askApproval
  split
  · exact h
  rename_i approve _
  simp only
  cases hanswer : approve s.records call with
  | error e => exact h.note nofun fun call' hcall' => nomatch (LoopEvent.approval.inj hcall').2
  | ok approved =>
    cases approved with
    | false =>
      -- the refusal is kept: the order of the event and the denial does not matter
      have hkept : { s with denials := addDenial s.denials call }.Sound :=
        ⟨h.clear, h.safe, h.grants, fun name hname => (mem_addDenial _ _).2 name (h.denials name hname)⟩
      refine hkept.note nofun fun call' hcall' => ?_
      rw [← (LoopEvent.approval.inj hcall').1]
      exact (mem_addDenial _ _).1
    | true =>
      have hnoted : (s.note (.approval call (.ok true))).Sound :=
        h.note nofun fun call' hcall' =>
          absurd (Except.ok.inj (LoopEvent.approval.inj hcall').2) Bool.true_eq_false.mp
      have happroved : Approved (s.note (.approval call (.ok true))).records call.name call.argumentsJson :=
        ⟨_, List.mem_append_right _ (List.mem_singleton_self _), call, rfl, rfl, rfl⟩
      exact (hnoted.grant happroved).invokeApproved env hdenied happroved spec args

theorem invokeFirst_denials (s : LoopState) (spec : ToolSpec) (call : ProviderToolCall) (args : Json) :
    (invokeFirst env s spec call args).1.denials = s.denials := by
  unfold invokeFirst invokeApproved toolInvoke
  split
  · dsimp only
    split <;> rfl
  · split <;> rfl

theorem LoopState.Sound.invokeCall {s : LoopState} (h : s.Sound) (tool : Tool) (call : ProviderToolCall) :
    (invokeCall turn env tool s call).1.Sound := by
  unfold Runtime.invokeCall
  split
  · exact h
  split
  · exact h
  rename_i spec _ hdenied
  have hdenied : call.name ∉ s.denials := fun hmem => hdenied (List.contains_iff_mem.mpr hmem)
  split
  · exact h
  rename_i args _
  have hfirst := h.invokeFirst env hdenied spec args
  have hkept := invokeFirst_denials env s spec call args
  split
  · rename_i after result heq
    rw [heq] at hfirst
    exact hfirst
  · rename_i after e heq
    rw [heq] at hfirst hkept
    split
    · exact hfirst.askApproval env (by rw [show after.denials = s.denials from hkept]; exact hdenied) spec args
    · exact hfirst

theorem LoopState.Sound.settleCall {s : LoopState} (h : s.Sound) (call : ProviderToolCall) :
    (settleCall agent turn env s call).1.Sound := by
  unfold Runtime.settleCall
  split
  · exact h
  split
  · exact h
  split
  · exact h
  split
  · exact ⟨h.clear, h.safe, h.grants, h.denials⟩
  split
  · exact ⟨h.clear, h.safe, h.grants, h.denials⟩
  · exact h.invokeCall turn env _ call

theorem finishCall_state (s : LoopState) (call : ProviderToolCall) (settled : Settled) :
    ∃ result, (finishCall hmac agent env s call settled).1 = { s with
      failures := addFailure s.failures call settled.status
      successes := addSuccess s.successes call settled
      result := result
      records := s.records ++ [⟨s.override, .settled call settled.reused settled.status⟩] } := by
  unfold finishCall
  dsimp only
  split
  · exact ⟨_, rfl⟩
  · exact ⟨_, rfl⟩

theorem LoopState.Sound.finishCall {s : LoopState} (h : s.Sound) (call : ProviderToolCall)
    (settled : Settled) : (finishCall hmac agent env s call settled).1.Sound := by
  have hsettled : (s.note (.settled call settled.reused settled.status)).Sound :=
    h.note nofun fun _ hevent => nomatch hevent
  obtain ⟨result, hstate⟩ := finishCall_state hmac agent env s call settled
  rw [hstate]
  exact ⟨hsettled.clear, hsettled.safe, hsettled.grants, hsettled.denials⟩

theorem LoopState.Sound.sendRequest {s : LoopState} (h : s.Sound) (prompt : Bytes) :
    (sendRequest env s prompt).1.Sound := by
  have hcounted : { s with
      result := { s.result with providerCallCount := s.result.providerCallCount + 1 } }.Sound :=
    ⟨h.clear, h.safe, h.grants, h.denials⟩
  exact hcounted.note nofun nofun

theorem LoopState.Sound.acceptResponse {s : LoopState} (h : s.Sound) (response : ProviderResponse) :
    (acceptResponse env s response).1.Sound :=
  ⟨h.clear, h.safe, h.grants, h.denials⟩

end Sound

/-! ## Every loop of a thread -/

/-- A call of `run_provider_loop`. -/
structure LoopCall where
  agent : LoopAgent
  turn : TurnTools
  env : LoopEnv
  prompt : Bytes
  result : TurnResult

/-- The call, from the override of the thread. -/
def LoopCall.run (hmac : Digest → Bytes → Digest) (override : Option Bytes) (call : LoopCall) : LoopState :=
  (runProviderLoop hmac call.agent call.turn call.env override call.prompt call.result).1

theorem LoopCall.run_sound (hmac : Digest → Bytes → Digest) (call : LoopCall) :
    (call.run hmac none).Sound := by
  have hstart : LoopState.Sound { override := none, result := call.result } := by
    refine ⟨rfl, each_nil, fun grant hgrant => absurd hgrant List.not_mem_nil, fun name hname => ?_⟩
    obtain ⟨r, hr, -⟩ := hname
    exact absurd hr List.not_mem_nil
  refine providerLoop_keeps (fun s prompt h => h.sendRequest call.env prompt)
    (fun s response h => h.acceptResponse call.env response) (fun s c h => ?_) _ _ _ _ hstart
  exact (h.settleCall call.agent call.turn call.env c).finishCall hmac call.agent call.env c _

/-- **Approvals are safe**: in every loop a thread runs, and the override is clear behind it. -/
theorem approvals_safe (hmac : Digest → Bytes → Digest) (earlier : List LoopCall) (call : LoopCall) :
    let override := Lib.Run.run (fun override call => (LoopCall.run hmac override call).override) none earlier
    Each ApprovalSafe (call.run hmac override).records ∧ (call.run hmac override).override = none := by
  have hclear : ∀ (override : Option Bytes) (call : LoopCall), override = none →
      (call.run hmac override).override = none := by
    rintro override call rfl
    exact (call.run_sound hmac).clear
  intro override
  have hoverride : override = none := run_preserves (I := fun o => o = none) hclear earlier none rfl
  rw [hoverride]
  exact ⟨(call.run_sound hmac).safe, (call.run_sound hmac).clear⟩

end SmolClaw.Runtime
