/-
  What a failed turn leaves in its conversation (`sc_agent_process_message`, `src/runtime/agent.c`).

  1. **Program** — behind the provider loops the turn appends its input and its output to the history, one
     after the other, and takes up to three more steps that can fail: the memory and two events.  Nothing
     takes the messages back.  The observers never fail a turn (`sc_observer_emit_safe`).

  2. **Layers** — `answeredMessage` is the turn up to the appends; with appends that succeed, the whole is
     `processMessage` (`settledMessage_eq`).

  3. **Result** — `failedTurn_clean_iff`: a failed turn leaves no message of its own exactly if it does not
     fail behind its first append.
-/
import SmolClaw.Runtime.AgentMessage
import SmolClaw.Runtime.HistoryBounds

namespace SmolClaw.Runtime

open Security

/-! ## The end of a turn -/

/-- What the steps behind the provider loops answer: the memory for the two messages, the memory that
    keeps the turn, and the events. -/
structure TurnEnding where
  /-- `turn_memory_disabled` -/
  memoryDisabled : Bool := false
  appendUser : Res Unit := .ok ()
  appendAssistant : Res Unit := .ok ()
  persistTurn : Bytes → Res Unit := fun _ => .ok ()
  persistedEvent : Res Unit := .ok ()
  completedEvent : Res Unit := .ok ()

/-- The steps of `sc_agent_process_message` behind the two appends. -/
def TurnEnding.finish (ending : TurnEnding) (output : Bytes) : Res Unit := do
  let _ ← if ending.memoryDisabled then .ok () else ending.persistTurn output
  let _ ← if ending.memoryDisabled then .ok () else ending.persistedEvent
  ending.completedEvent

/-- `sc_history_append`, with memory for the message or without. -/
def historyAppendIn (memory : Res Unit) (maxMessages : Nat) (messages : List HistoryMessage)
    (m : HistoryMessage) : Res (List HistoryMessage) := do
  let _ ← memory
  historyAppend maxMessages messages m.role m.content

/-- A turn at its end: the history it leaves, and which messages it has appended to it. -/
structure SettledTurn where
  messages : List HistoryMessage
  appended : List HistoryMessage := []
  status : Res Unit

/-- The end of `sc_agent_process_message`, behind the checks of the output. -/
def settleTurn (maxMessages : Nat) (ending : TurnEnding) (messages : List HistoryMessage)
    (input output : Bytes) : SettledTurn :=
  match historyAppendIn ending.appendUser maxMessages messages ⟨str "user", input⟩ with
  | .error e => ⟨messages, [], .error e⟩
  | .ok messages =>
      match historyAppendIn ending.appendAssistant maxMessages messages ⟨str "assistant", output⟩ with
      | .error e => ⟨messages, [⟨str "user", input⟩], .error e⟩
      | .ok messages =>
          ⟨messages, [⟨str "user", input⟩, ⟨str "assistant", output⟩], ending.finish output⟩

/-- A message is appended if there is memory for it. -/
theorem historyAppendIn_eq (memory : Res Unit) (maxMessages : Nat) (messages : List HistoryMessage)
    {m : HistoryMessage} (hrole : m.role ≠ []) :
    historyAppendIn memory maxMessages messages m =
      memory.map fun _ => historyTrim maxMessages (messages ++ [m]) := by
  unfold historyAppendIn
  cases memory with
  | error e => rfl
  | ok _ => exact if_neg hrole

/-- **What the end of a turn does**, by the memory it gets. -/
theorem settleTurn_eq (maxMessages : Nat) (ending : TurnEnding) (messages : List HistoryMessage)
    (input output : Bytes) :
    settleTurn maxMessages ending messages input output =
      match ending.appendUser, ending.appendAssistant with
      | .error e, _ => ⟨messages, [], .error e⟩
      | .ok (), .error e =>
          ⟨historyTrim maxMessages (messages ++ [⟨str "user", input⟩]), [⟨str "user", input⟩], .error e⟩
      | .ok (), .ok () =>
          ⟨appendTurn maxMessages messages input output,
            [⟨str "user", input⟩, ⟨str "assistant", output⟩], ending.finish output⟩ := by
  have huser : str "user" ≠ [] := by decide
  have hassistant : str "assistant" ≠ [] := by decide
  unfold settleTurn
  rw [historyAppendIn_eq _ _ _ huser]
  cases ending.appendUser with
  | error e => rfl
  | ok _ =>
    show (match historyAppendIn _ _ (historyTrim _ _) _ with | .error e => _ | .ok messages => _) = _
    rw [historyAppendIn_eq _ _ _ hassistant]
    cases ending.appendAssistant with
    | error e => rfl
    | ok _ => rfl

/-! ## The whole turn -/

section
variable (hmac : Digest → Bytes → Digest)

/-- `sc_agent_process_message`, as far as its history goes. -/
def settledMessage (m : MessageTurn) (env : MessageEnv) (ending : TurnEnding) (s : TurnState)
    (override : Option Bytes) (result : TurnResult) : SettledTurn :=
  let answered := answeredMessage hmac m env s override result
  match answered.answer with
  | .error e => ⟨answered.state.messages, [], .error e⟩
  | .ok output => settleTurn m.config.maxMessages ending answered.state.messages m.turn.input output

variable (m : MessageTurn) (env : MessageEnv)

/-- **With memory for both messages, a turn is one of `processMessage`.** -/
theorem settledMessage_eq (ending : TurnEnding) (s : TurnState) (override : Option Bytes)
    (result : TurnResult) (huser : ending.appendUser = .ok ()) (hassistant : ending.appendAssistant = .ok ())
    (hfinish : env.persist = ending.finish) :
    (settledMessage hmac m env ending s override result).messages =
        (processMessage hmac m env s override result).state.messages ∧
      (settledMessage hmac m env ending s override result).status =
        (processMessage hmac m env s override result).status := by
  unfold settledMessage processMessage AnsweredTurn.trace
  dsimp only
  cases (answeredMessage hmac m env s override result).answer with
  | error e => exact ⟨rfl, rfl⟩
  | ok output =>
    rw [hfinish]
    show (settleTurn _ _ _ _ _).messages = _ ∧ (settleTurn _ _ _ _ _).status = _
    rw [settleTurn_eq, huser, hassistant]
    exact ⟨rfl, rfl⟩

end

/-! ## What is left of a failed turn -/

/-- A history cut for a prompt, once or twice. -/
inductive CutFrom (prior : List HistoryMessage) : List HistoryMessage → Prop where
  | whole : CutFrom prior prior
  | pruned (budget : Nat) : CutFrom prior (pruneToBudget prior budget)
  | compacted (budget overflowBudget : Nat) :
      CutFrom prior (compactForOverflow (pruneToBudget prior budget) overflowBudget)

/-- **A turn leaves no trace**: none of its messages, in what it found, cut for its prompt. -/
structure NoTrace (prior : List HistoryMessage) (turn : SettledTurn) : Prop where
  nothing : turn.appended = []
  cut : CutFrom prior turn.messages

section
variable (hmac : Digest → Bytes → Digest) (m : MessageTurn) (env : MessageEnv)

/-- A prompt does not touch the history. -/
theorem messageBuildPrompt_messages {attempt : Nat} {s built : TurnState}
    {shown : Res (List HistoryMessage)} (h : env.buildPrompt m attempt s = (built, shown)) :
    built.messages = s.messages := (buildPrompt_shows h).1

theorem retryAnswer_messages (memoryContext : Bytes) (s : TurnState) (loops : List (List LoopRecord))
    (answers : List (Res Bytes)) (first : LoopState) :
    (retryAnswer hmac m env memoryContext s loops answers first).state.messages = compactForOverflow s.messages
      (historyPromptBudget m.config s.cachedToolSpecsJson m.turn.input memoryContext) := by
  unfold retryAnswer
  dsimp only
  cases hbuilt : env.buildPrompt m 1 _ with
  | mk built again =>
    have hmessages := messageBuildPrompt_messages m env hbuilt
    cases again with
    | error e => exact hmessages
    | ok again =>
      dsimp only
      obtain ⟨loops, after, answer⟩ := env.runLoop hmac m 1 again loops first.override first.result
      cases answer with
      | error e => exact hmessages
      | ok output => exact hmessages

/-- **Up to its end, a turn only cuts its history.** -/
theorem answeredMessage_cut (s : TurnState) (override : Option Bytes) (result : TurnResult) :
    CutFrom s.messages (answeredMessage hmac m env s override result).state.messages := by
  unfold answeredMessage
  cases env.prepare with
  | error e => exact .whole
  | ok memoryContext =>
    dsimp only
    cases hbuilt : env.buildPrompt m 0 _ with
    | mk built shown =>
      have hmessages := messageBuildPrompt_messages m env hbuilt
      dsimp only at hmessages
      have hpruned : CutFrom s.messages built.messages := by
        rw [hmessages]
        exact .pruned _
      cases shown with
      | error e => exact hpruned
      | ok shown =>
        dsimp only
        unfold firstAnswer
        obtain ⟨loops, after, answer⟩ := env.runLoop hmac m 0 shown [] override result
        cases answer with
        | ok output => exact hpruned
        | error e =>
          dsimp only
          split
          · exact hpruned
          · rw [retryAnswer_messages, hmessages]
            exact .compacted _ _

end

/-- **When a failed turn leaves no trace**: its loops fail, or there is no memory for its first message,
    or nothing fails behind that. -/
theorem failedTurn_clean_iff (hmac : Digest → Bytes → Digest) (m : MessageTurn) (env : MessageEnv)
    (ending : TurnEnding) (s : TurnState) (override : Option Bytes) (result : TurnResult) :
    (∀ e, (settledMessage hmac m env ending s override result).status = .error e →
        NoTrace s.messages (settledMessage hmac m env ending s override result)) ↔
      ∀ output, (answeredMessage hmac m env s override result).answer = .ok output →
        ending.appendUser = .ok () → ending.appendAssistant = .ok () ∧ ending.finish output = .ok () := by
  have hcut := answeredMessage_cut hmac m env s override result
  unfold settledMessage
  dsimp only
  cases (answeredMessage hmac m env s override result).answer with
  | error e => exact iff_of_true (fun _ _ => ⟨rfl, hcut⟩) fun output houtput => nomatch houtput
  | ok output =>
    dsimp only
    rw [settleTurn_eq]
    cases ending.appendUser with
    | error e => exact iff_of_true (fun _ _ => ⟨rfl, hcut⟩) fun _ _ huser => nomatch huser
    | ok _ =>
      cases ending.appendAssistant with
      | error e =>
        constructor
        · intro hclean
          exact absurd (hclean e rfl).nothing (List.cons_ne_nil _ _)
        · intro hends
          exact nomatch (hends output rfl rfl).1
      | ok _ =>
        dsimp only
        cases hfinish : ending.finish output with
        | error e =>
          constructor
          · intro hclean
            exact absurd (hclean e rfl).nothing (List.cons_ne_nil _ _)
          · intro hends
            have hok := (hends output rfl rfl).2
            rw [hfinish] at hok
            exact nomatch hok
        | ok _ =>
          refine iff_of_true (fun e he => nomatch he) fun output' houtput' _ => ⟨rfl, ?_⟩
          rw [← Except.ok.inj houtput', hfinish]

/-- A turn without tools. -/
def plainTurn : MessageTurn where
  config := {}
  agent := { tools := [], maxToolIterations := 4, receiptsEnabled := false }
  turn := { input := str "go", sessionId := [], defaultToolSpecs := true }

/-- The provider answers, and the memory does not keep the turn. -/
def forgetfulTurn : SettledTurn :=
  settledMessage (fun key _ => key) plainTurn
    { prepare := .ok []
      render := fun _ _ => str "prompt"
      loop := { provider := fun _ _ => .ok { text := str "done" }, invoke := fun _ _ _ => .ok { success := true } } }
    { persistTurn := fun _ => Status.io "sc.memory.put_failed" }
    { messages := [], cachedToolSpecsJson := [] } none { receipts := receiptChainInit none }

/-- **Both messages of a failed turn may stay in its history.** -/
theorem failed_turn_stays :
    forgetfulTurn.status = Status.io "sc.memory.put_failed" ∧
      forgetfulTurn.messages = [⟨str "user", str "go"⟩, ⟨str "assistant", str "done"⟩] ∧
        ¬ NoTrace [] forgetfulTurn := by
  have happended : forgetfulTurn.appended ≠ [] := by decide +kernel
  exact ⟨by decide +kernel, by decide +kernel, fun h => happended h.nothing⟩

end SmolClaw.Runtime
