/-
  A turn with its tool calls (`sc_agent_process_message`, `src/runtime/agent.c`).

  1. **Program** — the provider loop runs on the prompt of the turn.  When it ends because the context is
     too long, the history is compressed and a second loop runs, once.  The output of the loop that
     succeeds gets the block of receipts, and loses what looks like a receipt token.

  2. **Layers** — `answeredMessage` is the turn up to the output of its loops, and `AnsweredTurn.trace` its
     end, where the history takes both messages.  What the turn does to its history is `runTurn`.

  3. **Result** — `processMessage_refines`: seen from its history, the turn is the turn of `runTurn` whose
     provider answers what the loops answered, and whose output is theirs with the receipts.
-/
import SmolClaw.Runtime.Agent
import SmolClaw.Runtime.ToolLoop

namespace SmolClaw.Runtime

open Security

/-! ## Receipts in the output -/

/-- The line of a receipt in `append_receipt_block_to_output`. -/
def receiptLine (receipt : ToolReceipt) : Bytes :=
  str "[receipt: " ++ receipt.token ++ str "] " ++ receipt.toolName.bytes ++ str " " ++ receipt.outcome.bytes ++
    str "\n"

/-- `append_receipt_block_to_output`; `shown` is whether the policy shows receipts. -/
def appendReceiptBlock (shown : Bool) (receipts : List ToolReceipt) (output : Bytes) : Bytes :=
  if !shown || receipts.isEmpty then output
  else output ++ str "\n\nTool receipts:\n" ++ receipts.flatMap receiptLine

/-- A byte that a bare token ends before. -/
def endsToken (c : UInt8) : Bool :=
  (str " \t\r\n]),.").contains c

/-- The text from the next closing bracket on. -/
def afterBracket : Bytes → Option Bytes
  | [] => none
  | c :: text => if c = chr ']' then some text else afterBracket text

/-- The loop of `strip_receipt_tokens_from_output`; every round takes at least one byte. -/
def stripLoop : Nat → Bytes → Bytes
  | 0, _ => []
  | _, [] => []
  | rounds + 1, c :: text =>
      if str "[receipt: sc-receipt-" <+: c :: text then
        match afterBracket (c :: text) with
        | some rest => stripLoop rounds rest
        | none => c :: stripLoop rounds text
      else if str "sc-receipt-" <+: c :: text then
        stripLoop rounds (((c :: text).drop (str "sc-receipt-").length).dropWhile fun c => !endsToken c)
      else c :: stripLoop rounds text

/-- `strip_receipt_tokens_from_output` -/
def stripReceiptTokens (output : Bytes) : Bytes := stripLoop output.length output

/-! ## The turn -/

/-- The agent and the turn, as the loops and the history read them. -/
structure MessageTurn where
  config : AgentConfig
  agent : LoopAgent
  /-- The policy shows receipts in the response. -/
  showReceipts : Bool := false
  turn : Turn
  tools : TurnTools := {}

/-- What the surroundings of a turn answer. -/
structure MessageEnv where
  prepare : Res Bytes
  sections : Nat → Res Unit := fun _ => .ok ()
  built : Nat → Res Unit := fun _ => .ok ()
  /-- The prompt of each attempt, with the history it shows. -/
  render : Nat → List HistoryMessage → Bytes
  persist : Bytes → Res Unit := fun _ => .ok ()
  loop : LoopEnv

/-- What happened in a turn: its loops, one after the other, what each attempt came to, and how it ended. -/
structure MessageTrace where
  state : TurnState
  loops : List (List LoopRecord)
  answers : List (Res Bytes)
  result : TurnResult
  override : Option Bytes
  recorded : Option Bytes := none
  status : Res Unit

/-- The surroundings as the history sees them, given what its provider and its end answer. -/
def MessageEnv.toTurnEnv (env : MessageEnv) (provider : Nat → List HistoryMessage → Res Bytes)
    (finish : Bytes → Res Bytes) : TurnEnv where
  prepare := env.prepare
  sections := env.sections
  built := env.built
  provider := provider
  finish := finish
  persist := env.persist

/-- `build_prompt` -/
def MessageEnv.buildPrompt (m : MessageTurn) (env : MessageEnv) (attempt : Nat) (s : TurnState) :
    TurnState × Res (List HistoryMessage) :=
  Runtime.buildPrompt m.config m.turn (env.toTurnEnv (fun _ _ => .ok []) .ok) attempt s

section
variable (hmac : Digest → Bytes → Digest)

/-- A round of the loop of `sc_agent_process_message`, behind the loops that have run. -/
def MessageEnv.runLoop (m : MessageTurn) (env : MessageEnv) (attempt : Nat) (shown : List HistoryMessage)
    (loops : List (List LoopRecord)) (override : Option Bytes) (result : TurnResult) :
    List (List LoopRecord) × LoopState × Res Bytes :=
  match turnCheckContinue (env.loop.interrupted loops.flatten) with
  | .error e => (loops, { override := override, result := result }, .error e)
  | .ok () =>
      let after := runProviderLoop hmac m.agent m.tools (env.loop.after loops.flatten) override
        (env.render attempt shown) result
      (loops ++ [after.1.records], after)

/-- A turn when its loops have ended: what they left and answered, and the output or the error. -/
structure AnsweredTurn where
  state : TurnState
  loops : List (List LoopRecord) := []
  answers : List (Res Bytes) := []
  result : TurnResult
  override : Option Bytes
  answer : Res Bytes

/-- A loop that failed. -/
def failAnswer (s : TurnState) (loops : List (List LoopRecord)) (answers : List (Res Bytes)) (after : LoopState)
    (e : ScError) : AnsweredTurn :=
  ⟨s, loops, answers, after.result, after.override, .error e⟩

/-- The checks of the output of a loop that succeeded. -/
def concludeAnswer (m : MessageTurn) (env : MessageEnv) (s : TurnState) (loops : List (List LoopRecord))
    (answers : List (Res Bytes)) (after : LoopState) (output : Bytes) : AnsweredTurn :=
  let text := stripReceiptTokens (appendReceiptBlock m.showReceipts after.result.receipts.receipts output)
  let result := { after.result with output := text }
  ⟨s, loops, answers, result, after.override,
    (turnCheckContinue (env.loop.interrupted loops.flatten)).map fun _ => text⟩

/-- The second attempt, with a history compressed for it. -/
def retryAnswer (m : MessageTurn) (env : MessageEnv) (memoryContext : Bytes) (s : TurnState)
    (loops : List (List LoopRecord)) (answers : List (Res Bytes)) (first : LoopState) : AnsweredTurn :=
  let budget := historyPromptBudget m.config s.cachedToolSpecsJson m.turn.input memoryContext
  match env.buildPrompt m 1 { s with messages := compactForOverflow s.messages budget } with
  | (s, .error e) => failAnswer s loops answers first e
  | (s, .ok again) =>
      match env.runLoop hmac m 1 again loops first.override first.result with
      | (loops, after, .error e) => failAnswer s loops (answers ++ [.error e]) after e
      | (loops, after, .ok output) => concludeAnswer m env s loops (answers ++ [.ok output]) after output

/-- The first attempt. -/
def firstAnswer (m : MessageTurn) (env : MessageEnv) (memoryContext : Bytes) (s : TurnState)
    (shown : List HistoryMessage) (override : Option Bytes) (result : TurnResult) : AnsweredTurn :=
  match env.runLoop hmac m 0 shown [] override result with
  | (loops, after, .ok output) => concludeAnswer m env s loops [.ok output] after output
  | (loops, after, .error e) =>
      if !isContextOverflow e ∨ s.messages = [] then failAnswer s loops [.error e] after e
      else retryAnswer hmac m env memoryContext s loops [.error e] after

/-- `sc_agent_process_message` up to the appends. -/
def answeredMessage (m : MessageTurn) (env : MessageEnv) (s : TurnState) (override : Option Bytes)
    (result : TurnResult) : AnsweredTurn :=
  match env.prepare with
  | .error e => ⟨s, [], [], result, override, .error e⟩
  | .ok memoryContext =>
      let budget := historyPromptBudget m.config s.cachedToolSpecsJson m.turn.input memoryContext
      match env.buildPrompt m 0 { s with messages := pruneToBudget s.messages budget } with
      | (s, .error e) => ⟨s, [], [], result, override, .error e⟩
      | (s, .ok shown) => firstAnswer hmac m env memoryContext s shown override result

/-- The end of a turn: the history takes both messages, and the memory keeps them. -/
def AnsweredTurn.trace (answered : AnsweredTurn) (m : MessageTurn) (env : MessageEnv) : MessageTrace :=
  match answered.answer with
  | .error e =>
      ⟨answered.state, answered.loops, answered.answers, answered.result, answered.override, none, .error e⟩
  | .ok output =>
      ⟨{ answered.state with
          messages := appendTurn m.config.maxMessages answered.state.messages m.turn.input output },
        answered.loops, answered.answers, answered.result, answered.override, some output, env.persist output⟩

/-- `sc_agent_process_message`, once it has found its history. -/
def processMessage (m : MessageTurn) (env : MessageEnv) (s : TurnState) (override : Option Bytes)
    (result : TurnResult) : MessageTrace :=
  (answeredMessage hmac m env s override result).trace m env

end

/-- The end of a turn runs no loop. -/
theorem AnsweredTurn.trace_loops (answered : AnsweredTurn) (m : MessageTurn) (env : MessageEnv) :
    (answered.trace m env).loops = answered.loops ∧ (answered.trace m env).answers = answered.answers ∧
      (answered.trace m env).result = answered.result := by
  unfold AnsweredTurn.trace
  split
  · exact ⟨rfl, rfl, rfl⟩
  · exact ⟨rfl, rfl, rfl⟩

/-! ## The turn as its history sees it -/

/-- A trace of `runTurn` that leaves the same history. -/
structure SameHistory (t : MessageTrace) (u : TurnTrace) : Prop where
  state : u.state = t.state
  recorded : u.recorded = t.recorded
  status : u.result.map (fun _ => ()) = t.status

/-- The provider that the history sees: it answers what the loops answered. -/
def MessageTrace.provider (t : MessageTrace) (attempt : Nat) (_shown : List HistoryMessage) : Res Bytes :=
  (t.answers[attempt]?).getD (.ok [])

/-- What becomes of the output of the loops, with the receipts that they left. -/
def MessageTrace.finish (t : MessageTrace) (m : MessageTurn) (env : MessageEnv) (output : Bytes) : Res Bytes :=
  (turnCheckContinue (env.loop.interrupted t.loops.flatten)).map fun _ =>
    stripReceiptTokens (appendReceiptBlock m.showReceipts t.result.receipts.receipts output)

section

variable (m : MessageTurn) (env : MessageEnv) {answered : AnsweredTurn}

/-- The surroundings of a turn whose loops answered this. -/
def AnsweredTurn.turnEnv (answered : AnsweredTurn) : TurnEnv :=
  env.toTurnEnv (answered.trace m env).provider ((answered.trace m env).finish m env)

/-- What an attempt of the turn is answered. -/
theorem provider_eq {attempt : Nat} {answer : Res Bytes} (h : answered.answers[attempt]? = some answer)
    (shown : List HistoryMessage) : (answered.turnEnv m env).provider attempt shown = answer := by
  show (answered.trace m env).provider attempt shown = answer
  rw [MessageTrace.provider, (answered.trace_loops m env).2.1, h]
  rfl

theorem buildPrompt_turnEnv (attempt : Nat) (s : TurnState) :
    Runtime.buildPrompt m.config m.turn (answered.turnEnv m env) attempt s = env.buildPrompt m attempt s := rfl

/-- The end of a turn whose loops succeeded. -/
theorem concludeAnswer_refines (s : TurnState) (prompts : List (List HistoryMessage))
    (loops : List (List LoopRecord)) (answers : List (Res Bytes)) (after : LoopState) (output : Bytes) :
    SameHistory ((concludeAnswer m env s loops answers after output).trace m env)
      (concludeTurn m.config m.turn ((concludeAnswer m env s loops answers after output).turnEnv m env) s prompts
        output) := by
  have hstate : (concludeAnswer m env s loops answers after output).state = s := rfl
  have hfinish : ((concludeAnswer m env s loops answers after output).turnEnv m env).finish output =
      (concludeAnswer m env s loops answers after output).answer := by
    obtain ⟨hloops, -, hresult⟩ := (concludeAnswer m env s loops answers after output).trace_loops m env
    show MessageTrace.finish _ m env output = _
    rw [MessageTrace.finish, hloops, hresult]
    rfl
  generalize concludeAnswer m env s loops answers after output = answered at *
  subst hstate
  unfold concludeTurn
  rw [hfinish]
  unfold AnsweredTurn.trace
  cases answered.answer with
  | error e => exact ⟨rfl, rfl, rfl⟩
  | ok text =>
    refine ⟨rfl, rfl, ?_⟩
    show ((env.persist text).map _).map _ = env.persist text
    cases env.persist text <;> rfl

/-- The second attempt, behind a first one that ended with an error. -/
theorem retryAnswer_refines (hmac : Digest → Bytes → Digest) (memoryContext : Bytes) (s : TurnState)
    (shown : List HistoryMessage) (loops : List (List LoopRecord)) (first : Res Bytes) (after : LoopState) :
    let answered := retryAnswer hmac m env memoryContext s loops [first] after
    answered.answers[0]? = some first ∧ SameHistory (answered.trace m env)
      (retryTurn m.config m.turn (answered.turnEnv m env) memoryContext s shown) := by
  unfold retryAnswer retryTurn
  simp only [buildPrompt_turnEnv]
  obtain ⟨s, again⟩ := env.buildPrompt m 1 { s with messages := compactForOverflow s.messages _ }
  cases again with
  | error e => exact ⟨rfl, rfl, rfl, rfl⟩
  | ok again =>
    dsimp only
    obtain ⟨loops, after, answer⟩ := env.runLoop hmac m 1 again loops after.override after.result
    cases answer with
    | error e => exact ⟨rfl, rfl, rfl, rfl⟩
    | ok output =>
      dsimp only
      rw [provider_eq m env rfl]
      exact ⟨rfl, concludeAnswer_refines m env s _ loops [first, .ok output] after output⟩

/-- **Seen from its history, a turn is the turn of `runTurn`** whose provider answers what its loops
    answered, and whose output ends as theirs does. -/
theorem processMessage_refines (hmac : Digest → Bytes → Digest) (s : TurnState) (override : Option Bytes)
    (result : TurnResult) :
    let t := processMessage hmac m env s override result
    SameHistory t (runTurn m.config m.turn (env.toTurnEnv t.provider (t.finish m env)) s) := by
  show SameHistory ((answeredMessage hmac m env s override result).trace m env)
    (runTurn m.config m.turn ((answeredMessage hmac m env s override result).turnEnv m env) s)
  have hprepare : ((answeredMessage hmac m env s override result).turnEnv m env).prepare = env.prepare := rfl
  unfold runTurn
  rw [hprepare]
  simp only [buildPrompt_turnEnv]
  unfold answeredMessage
  cases env.prepare with
  | error e => exact ⟨rfl, rfl, rfl⟩
  | ok memoryContext =>
    dsimp only
    obtain ⟨s, shown⟩ := env.buildPrompt m 0 { s with messages := pruneToBudget s.messages _ }
    cases shown with
    | error e => exact ⟨rfl, rfl, rfl⟩
    | ok shown =>
      dsimp only
      unfold firstAnswer answerTurn
      obtain ⟨loops, after, answer⟩ := env.runLoop hmac m 0 shown [] override result
      cases answer with
      | ok output =>
        dsimp only
        rw [provider_eq m env rfl]
        exact concludeAnswer_refines m env s [shown] loops [.ok output] after output
      | error e =>
        dsimp only
        by_cases hends : !isContextOverflow e ∨ s.messages = []
        · simp only [if_pos hends]
          rw [provider_eq m env rfl]
          dsimp only
          rw [if_pos hends]
          exact ⟨rfl, rfl, rfl⟩
        · simp only [if_neg hends]
          obtain ⟨hfirst, hretry⟩ := retryAnswer_refines m env hmac memoryContext s shown loops (.error e) after
          rw [provider_eq m env hfirst]
          dsimp only
          rw [if_neg hends]
          exact hretry

end

end SmolClaw.Runtime
