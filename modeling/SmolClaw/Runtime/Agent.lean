/-
  One turn of the agent, as far as its history goes (`sc_agent_process_message`,
  `src/runtime/agent.c`).

  1. **Program** — a turn works on the history of its session, cuts it to the budget of the prompt,
     shows it to the provider, compresses it and tries once more when the provider finds the context
     too long, and appends the input and the output when it succeeds.

  2. **Environment** — what memory, clock, tools and provider answer is `TurnEnv`; the provider answers
     to the messages it is shown.

  3. **Result** — a turn leaves the other sessions alone (`process_other`), shows nothing that the
     history was not made from (`runTurn_made`), and does the same on the same history, provided that
     the length of the cached tool list does not matter (`runTurn_congr`).
-/
import Mathlib.Data.List.Infix
import SmolClaw.Lib.Table
import SmolClaw.Runtime.History

namespace SmolClaw.Runtime

open Lib.Table

/-! ## The agent -/

/-- What `sc_agent_new` fixes. -/
structure AgentConfig where
  maxPromptBytes : Nat := 16384
  maxMessages : Nat := 16
  identity : Bytes := str "SmolClaw agent"
  workspace : Bytes := []
  runtimeEnvironment : Bytes := str "smolclaw-runtime"
  toolCount : Nat := 0
  /-- The serialized list of all tools, as a turn without restrictions sees it. -/
  toolSpecsJson : Bytes := str "[]"

/-- `agent_session_history` -/
structure AgentSession where
  sessionId : Bytes
  messages : List HistoryMessage

/-- `sc_agent`: the histories, and the tool list once a turn has serialized it. -/
structure Agent extends AgentConfig where
  cachedToolSpecsJson : Bytes := []
  history : List HistoryMessage := []
  sessionHistories : List AgentSession := []

/-- The messages `agent_history_for_turn` finds: those of the session, none for a new one, and those of
    the agent itself without a session. -/
def Agent.historyFor (agent : Agent) (sessionId : Bytes) : List HistoryMessage :=
  if sessionId = [] then agent.history
  else ((lookup AgentSession.sessionId sessionId agent.sessionHistories).map AgentSession.messages).getD []

/-- The agent after a turn has worked on the history it found. -/
def Agent.setHistory (agent : Agent) (sessionId : Bytes) (messages : List HistoryMessage) : Agent :=
  if sessionId = [] then { agent with history := messages }
  else
    { agent with
      sessionHistories := upsert AgentSession.sessionId ⟨sessionId, messages⟩ agent.sessionHistories }

theorem Agent.historyFor_setHistory_self (agent : Agent) (sessionId : Bytes)
    (messages : List HistoryMessage) :
    (agent.setHistory sessionId messages).historyFor sessionId = messages := by
  unfold historyFor setHistory
  by_cases h : sessionId = []
  · rw [if_pos h, if_pos h]
  · rw [if_neg h, if_neg h]
    show ((lookup AgentSession.sessionId sessionId (upsert _ _ _)).map _).getD [] = messages
    rw [@lookup_upsert_self _ _ _ AgentSession.sessionId ⟨sessionId, messages⟩]
    rfl

theorem Agent.historyFor_setHistory_ne (agent : Agent) {sessionId other : Bytes}
    (messages : List HistoryMessage) (h : other ≠ sessionId) :
    (agent.setHistory sessionId messages).historyFor other = agent.historyFor other := by
  unfold historyFor setHistory
  by_cases hsession : sessionId = []
  · have hother : other ≠ [] := fun hnil => h (hnil.trans hsession.symm)
    rw [if_pos hsession, if_neg hother, if_neg hother]
  · rw [if_neg hsession]
    by_cases hother : other = []
    · rw [if_pos hother, if_pos hother]
    · rw [if_neg hother, if_neg hother]
      show ((lookup AgentSession.sessionId other (upsert _ _ _)).map _).getD [] = _
      rw [lookup_upsert_ne (x := (⟨sessionId, messages⟩ : AgentSession)) h]

theorem Agent.setHistory_config (agent : Agent) (sessionId : Bytes) (messages : List HistoryMessage) :
    (agent.setHistory sessionId messages).toAgentConfig = agent.toAgentConfig ∧
      (agent.setHistory sessionId messages).cachedToolSpecsJson = agent.cachedToolSpecsJson := by
  unfold setHistory
  split
  · exact ⟨rfl, rfl⟩
  · exact ⟨rfl, rfl⟩

/-! ## The budget -/

/-- `agent_history_prompt_budget`; a turn from a channel has no media context. -/
def historyPromptBudget (config : AgentConfig) (cachedToolSpecsJson input memoryContext : Bytes) : Nat :=
  if config.maxPromptBytes = 0 then 0
  else
    let toolBudget :=
      if cachedToolSpecsJson.length = 0 then min (config.toolCount * 384) sizeMax
      else cachedToolSpecsJson.length
    let reserved := [config.identity.length, config.workspace.length, config.runtimeEnvironment.length,
      toolBudget, input.length, memoryContext.length].foldl sizeAddSaturating 1024
    if config.maxPromptBytes ≤ reserved then 0
    else min (config.maxPromptBytes - reserved) (config.maxPromptBytes / 2)

/-! ## A turn -/

/-- `sc_turn`, as the orchestrator fills it in: whether the turn sees all tools
    (`turn_uses_default_tool_specs`). -/
structure Turn where
  input : Bytes
  sessionId : Bytes
  defaultToolSpecs : Bool

/-- What the surroundings of a turn answer, for each of its two attempts. -/
structure TurnEnv where
  /-- All that comes before the history is cut; the memory context. -/
  prepare : Res Bytes
  /-- The sections of the prompt before the tool list. -/
  sections : Nat → Res Unit
  /-- The rest of the prompt. -/
  built : Nat → Res Unit
  /-- `run_provider_loop`, which is shown the history. -/
  provider : Nat → List HistoryMessage → Res Bytes
  /-- Receipts and the deadline: the output as it is recorded. -/
  finish : Bytes → Res Bytes
  /-- All that comes after the history has been extended. -/
  persist : Bytes → Res Unit

/-- `is_context_overflow_status` -/
def isContextOverflow (e : ScError) : Bool :=
  (e.code == .http || e.code == .invalidArgument || e.code == .parse) &&
    [str "context", str "token", str "too_large"].any fun word => decide (word <:+: str e.errorKey)

/-- What a turn works on: the history it found and the cached tool list. -/
structure TurnState where
  messages : List HistoryMessage
  cachedToolSpecsJson : Bytes

/-- What is left of a turn, and what could be seen of it: the histories shown to the provider, and the
    output that was recorded. -/
structure TurnTrace where
  state : TurnState
  prompts : List (List HistoryMessage)
  recorded : Option Bytes
  result : Res Bytes

/-- `build_prompt`, down to what it shows of the history. -/
def buildPrompt (config : AgentConfig) (turn : Turn) (env : TurnEnv) (attempt : Nat) (s : TurnState) :
    TurnState × Res (List HistoryMessage) :=
  match env.sections attempt with
  | .error e => (s, .error e)
  | .ok () =>
      let s :=
        if turn.defaultToolSpecs then { s with cachedToolSpecsJson := config.toolSpecsJson } else s
      (s, (env.built attempt).map fun _ => pruneOrphans s.messages)

/-- The history with the input and the output of a turn: `sc_history_append` twice. -/
def appendTurn (maxMessages : Nat) (messages : List HistoryMessage) (input output : Bytes) :
    List HistoryMessage :=
  historyTrim maxMessages
    (historyTrim maxMessages (messages ++ [⟨str "user", input⟩]) ++ [⟨str "assistant", output⟩])

/-- A turn after the provider's answer. -/
def concludeTurn (config : AgentConfig) (turn : Turn) (env : TurnEnv) (s : TurnState)
    (prompts : List (List HistoryMessage)) (output : Bytes) : TurnTrace :=
  match env.finish output with
  | .error e => ⟨s, prompts, none, .error e⟩
  | .ok output =>
      ⟨{ s with messages := appendTurn config.maxMessages s.messages turn.input output }, prompts,
        some output, (env.persist output).map fun _ => output⟩

/-- The second attempt, with a history compressed for it. -/
def retryTurn (config : AgentConfig) (turn : Turn) (env : TurnEnv) (memoryContext : Bytes)
    (s : TurnState) (shown : List HistoryMessage) : TurnTrace :=
  let budget := historyPromptBudget config s.cachedToolSpecsJson turn.input memoryContext
  match buildPrompt config turn env 1 { s with messages := compactForOverflow s.messages budget } with
  | (s, .error e) => ⟨s, [shown], none, .error e⟩
  | (s, .ok again) =>
      match env.provider 1 again with
      | .error e => ⟨s, [shown, again], none, .error e⟩
      | .ok output => concludeTurn config turn env s [shown, again] output

/-- The provider's answer to the first prompt. -/
def answerTurn (config : AgentConfig) (turn : Turn) (env : TurnEnv) (memoryContext : Bytes)
    (s : TurnState) (shown : List HistoryMessage) : TurnTrace :=
  match env.provider 0 shown with
  | .ok output => concludeTurn config turn env s [shown] output
  | .error e =>
      if !isContextOverflow e ∨ s.messages = [] then ⟨s, [shown], none, .error e⟩
      else retryTurn config turn env memoryContext s shown

/-- `sc_agent_process_message`, once it has found its history. -/
def runTurn (config : AgentConfig) (turn : Turn) (env : TurnEnv) (s : TurnState) : TurnTrace :=
  match env.prepare with
  | .error e => ⟨s, [], none, .error e⟩
  | .ok memoryContext =>
      let budget := historyPromptBudget config s.cachedToolSpecsJson turn.input memoryContext
      match buildPrompt config turn env 0 { s with messages := pruneToBudget s.messages budget } with
      | (s, .error e) => ⟨s, [], none, .error e⟩
      | (s, .ok shown) => answerTurn config turn env memoryContext s shown

/-- What is seen of a turn. -/
structure Answer where
  prompts : List (List HistoryMessage) := []
  recorded : Option Bytes := none
  result : Res Bytes

/-- `sc_agent_process_message` -/
def agentProcessMessage (agent : Agent) (turn : Turn) (env : TurnEnv) : Agent × Answer :=
  if turn.input = [] then (agent, { result := Status.invalidArgument "sc.agent.turn.invalid_argument" })
  else
    let trace := runTurn agent.toAgentConfig turn env
      ⟨agent.historyFor turn.sessionId, agent.cachedToolSpecsJson⟩
    ({ agent with cachedToolSpecsJson := trace.state.cachedToolSpecsJson }.setHistory turn.sessionId
      trace.state.messages, ⟨trace.prompts, trace.recorded, trace.result⟩)

/-! ## What a turn leaves alone -/

/-- **A turn does not touch other sessions.** -/
theorem process_other (agent : Agent) (turn : Turn) (env : TurnEnv) {sessionId : Bytes}
    (h : sessionId ≠ turn.sessionId) :
    (agentProcessMessage agent turn env).1.historyFor sessionId = agent.historyFor sessionId := by
  unfold agentProcessMessage
  split
  · rfl
  · exact Agent.historyFor_setHistory_ne _ _ h

theorem process_config (agent : Agent) (turn : Turn) (env : TurnEnv) :
    (agentProcessMessage agent turn env).1.toAgentConfig = agent.toAgentConfig := by
  unfold agentProcessMessage
  split
  · rfl
  · exact (Agent.setHistory_config _ _ _).1

/-! ## What a turn shows -/

/-- A message that a turn recorded: its input or its output. -/
def Recorded (input : Bytes) (recorded : Option Bytes) (m : HistoryMessage) : Prop :=
  ∃ output, recorded = some output ∧ (m = ⟨str "user", input⟩ ∨ m = ⟨str "assistant", output⟩)

/-- **A turn shows only what its history is made from**, and the history it leaves is made from that and
    from what it recorded. -/
structure Confined (P : HistoryMessage → Prop) (input : Bytes) (recorded : Option Bytes)
    (prompts : List (List HistoryMessage)) (messages : List HistoryMessage) : Prop where
  shown : ∀ shown ∈ prompts, AllMade P shown
  kept : AllMade (fun m => P m ∨ Recorded input recorded m) messages

section Confined

variable {P : HistoryMessage → Prop} {config : AgentConfig} {turn : Turn} {env : TurnEnv}

/-- Without a record, what was shown and kept is confined. -/
theorem Confined.of_none {input : Bytes} {prompts : List (List HistoryMessage)}
    {messages : List HistoryMessage} (hprompts : ∀ shown ∈ prompts, AllMade P shown)
    (h : AllMade P messages) : Confined P input none prompts messages :=
  ⟨hprompts, h.mono fun _ => Or.inl⟩

/-- A prompt shows its history without orphans, and leaves it as it is. -/
theorem buildPrompt_shows {attempt : Nat} {s s' : TurnState} {result : Res (List HistoryMessage)}
    (h : buildPrompt config turn env attempt s = (s', result)) :
    s'.messages = s.messages ∧ ∀ shown, result = .ok shown → shown = pruneOrphans s.messages := by
  unfold buildPrompt at h
  cases hsections : env.sections attempt with
  | error e =>
    rw [hsections] at h
    cases h
    exact ⟨rfl, fun shown hshown => nomatch hshown⟩
  | ok u =>
    rw [hsections] at h
    have hmessages : (if turn.defaultToolSpecs then
        { s with cachedToolSpecsJson := config.toolSpecsJson } else s).messages = s.messages := by
      split
      · rfl
      · rfl
    cases h
    refine ⟨hmessages, fun shown hshown => ?_⟩
    simp only [hmessages] at hshown
    cases hbuilt : env.built attempt with
    | error e => rw [hbuilt] at hshown; exact nomatch hshown
    | ok _ => rw [hbuilt] at hshown; exact (Except.ok.inj hshown).symm

/-- Appending a turn adds its two messages and nothing else. -/
theorem AllMade.appendTurn {messages : List HistoryMessage} (h : AllMade P messages) (maxMessages : Nat)
    (input output : Bytes) :
    AllMade (fun m => P m ∨ Recorded input (some output) m)
      (appendTurn maxMessages messages input output) := by
  have hkept := h.mono (Q := fun m => P m ∨ Recorded input (some output) m) fun _ => Or.inl
  have hadd : ∀ {ms : List HistoryMessage} {m : HistoryMessage},
      AllMade (fun m => P m ∨ Recorded input (some output) m) ms → Recorded input (some output) m →
      AllMade (fun m => P m ∨ Recorded input (some output) m)
        (Runtime.historyTrim maxMessages (ms ++ [m])) := by
    intro ms m hms hm
    refine AllMade.historyTrim (fun x hx => ?_) maxMessages
    rcases List.mem_append.mp hx with hx | hx
    · exact hms x hx
    · rw [List.mem_singleton.mp hx]
      exact .said (Or.inr hm)
  exact hadd (hadd hkept ⟨output, rfl, Or.inl rfl⟩) ⟨output, rfl, Or.inr rfl⟩

theorem concludeTurn_made {s : TurnState} {prompts : List (List HistoryMessage)} (output : Bytes)
    (hprompts : ∀ shown ∈ prompts, AllMade P shown) (h : AllMade P s.messages) :
    Confined P turn.input (concludeTurn config turn env s prompts output).recorded
      (concludeTurn config turn env s prompts output).prompts
      (concludeTurn config turn env s prompts output).state.messages := by
  unfold concludeTurn
  split
  · exact .of_none hprompts h
  · exact ⟨hprompts, h.appendTurn _ _ _⟩

theorem retryTurn_made (memoryContext : Bytes) {s : TurnState} {shown : List HistoryMessage}
    (hshown : AllMade P shown) (h : AllMade P s.messages) :
    Confined P turn.input (retryTurn config turn env memoryContext s shown).recorded
      (retryTurn config turn env memoryContext s shown).prompts
      (retryTurn config turn env memoryContext s shown).state.messages := by
  unfold retryTurn
  simp only
  have hcut := h.compactForOverflow (historyPromptBudget config s.cachedToolSpecsJson turn.input memoryContext)
  split
  next built e hbuilt =>
    obtain ⟨hmessages, -⟩ := buildPrompt_shows hbuilt
    refine .of_none (fun m hm => ?_) (by rw [hmessages]; exact hcut)
    rw [List.mem_singleton.mp hm]
    exact hshown
  next built again hbuilt =>
    obtain ⟨hmessages, hagain⟩ := buildPrompt_shows hbuilt
    have hboth : ∀ m ∈ [shown, again], AllMade P m := by
      intro m hm
      rcases List.mem_pair.mp hm with rfl | rfl
      · exact hshown
      · rw [hagain _ rfl]
        exact hcut.pruneOrphans
    have hleft : AllMade P built.messages := by
      rw [hmessages]
      exact hcut
    split
    · exact .of_none hboth hleft
    · exact concludeTurn_made _ hboth hleft

theorem answerTurn_made (memoryContext : Bytes) {s : TurnState} {shown : List HistoryMessage}
    (hshown : AllMade P shown) (h : AllMade P s.messages) :
    Confined P turn.input (answerTurn config turn env memoryContext s shown).recorded
      (answerTurn config turn env memoryContext s shown).prompts
      (answerTurn config turn env memoryContext s shown).state.messages := by
  have hone : ∀ m ∈ [shown], AllMade P m := by
    intro m hm
    rw [List.mem_singleton.mp hm]
    exact hshown
  unfold answerTurn
  split
  · exact concludeTurn_made _ hone h
  · split
    · exact .of_none hone h
    · exact retryTurn_made memoryContext hshown h

/-- **What a whole turn shows and keeps.** -/
theorem runTurn_made {s : TurnState} (h : AllMade P s.messages) :
    Confined P turn.input (runTurn config turn env s).recorded (runTurn config turn env s).prompts
      (runTurn config turn env s).state.messages := by
  have hnone : ∀ m ∈ ([] : List (List HistoryMessage)), AllMade P m :=
    fun m hm => absurd hm List.not_mem_nil
  unfold runTurn
  split
  · exact .of_none hnone h
  next memoryContext _ =>
    have hcut := h.pruneToBudget (historyPromptBudget config s.cachedToolSpecsJson turn.input memoryContext)
    simp only
    split
    next built e hbuilt =>
      obtain ⟨hmessages, -⟩ := buildPrompt_shows hbuilt
      exact .of_none hnone (by rw [hmessages]; exact hcut)
    next built shown hbuilt =>
      obtain ⟨hmessages, hshows⟩ := buildPrompt_shows hbuilt
      have hleft : AllMade P built.messages := by
        rw [hmessages]
        exact hcut
      have hshown : AllMade P shown := by
        rw [hshows _ rfl]
        exact hcut.pruneOrphans
      exact answerTurn_made memoryContext hshown hleft

end Confined

/-- What a turn shows and keeps, through the whole agent. -/
theorem process_made {P : HistoryMessage → Prop} {agent : Agent} {turn : Turn} {env : TurnEnv}
    (h : AllMade P (agent.historyFor turn.sessionId)) :
    Confined P turn.input (agentProcessMessage agent turn env).2.recorded
      (agentProcessMessage agent turn env).2.prompts
      ((agentProcessMessage agent turn env).1.historyFor turn.sessionId) := by
  unfold agentProcessMessage
  split
  · exact .of_none (fun m hm => absurd hm List.not_mem_nil) h
  · rw [Agent.historyFor_setHistory_self]
    exact runTurn_made h

/-! ## Turns on the same history -/

/-- Two traces that look the same; the cached tool lists may differ. -/
structure SameTrace (t t' : TurnTrace) : Prop where
  prompts : t.prompts = t'.prompts
  recorded : t.recorded = t'.recorded
  result : t.result = t'.result
  messages : t.state.messages = t'.state.messages

section SameHistory

variable (config : AgentConfig) (turn : Turn) (env : TurnEnv)

/-- A prompt depends on the messages only. -/
theorem buildPrompt_congr (attempt : Nat) (messages : List HistoryMessage) (cached cached' : Bytes) :
    ∃ left left' result, buildPrompt config turn env attempt ⟨messages, cached⟩ = (⟨messages, left⟩, result) ∧
      buildPrompt config turn env attempt ⟨messages, cached'⟩ = (⟨messages, left'⟩, result) := by
  unfold buildPrompt
  cases env.sections attempt with
  | error e => exact ⟨cached, cached', .error e, rfl, rfl⟩
  | ok u =>
    cases turn.defaultToolSpecs with
    | true => exact ⟨config.toolSpecsJson, config.toolSpecsJson, _, rfl, rfl⟩
    | false => exact ⟨cached, cached', _, rfl, rfl⟩

theorem concludeTurn_congr (messages : List HistoryMessage) (cached cached' : Bytes)
    (prompts : List (List HistoryMessage)) (output : Bytes) :
    SameTrace (concludeTurn config turn env ⟨messages, cached⟩ prompts output)
      (concludeTurn config turn env ⟨messages, cached'⟩ prompts output) := by
  unfold concludeTurn
  cases env.finish output with
  | error e => exact ⟨rfl, rfl, rfl, rfl⟩
  | ok output => exact ⟨rfl, rfl, rfl, rfl⟩

/-- Without a history there is no second attempt. -/
theorem answerTurn_congr (memoryContext cached cached' : Bytes) (shown : List HistoryMessage) :
    SameTrace (answerTurn config turn env memoryContext ⟨[], cached⟩ shown)
      (answerTurn config turn env memoryContext ⟨[], cached'⟩ shown) := by
  unfold answerTurn
  cases env.provider 0 shown with
  | ok output => exact concludeTurn_congr config turn env _ _ _ _ _
  | error e =>
    simp only
    rw [if_pos (Or.inr trivial), if_pos (Or.inr trivial)]
    exact ⟨rfl, rfl, rfl, rfl⟩

/-- **On the same history a turn does the same**, if the cached tool list is the same too or there is
    nothing to cut. -/
theorem runTurn_congr (messages : List HistoryMessage) {cached cached' : Bytes}
    (h : messages = [] ∨ cached = cached') :
    SameTrace (runTurn config turn env ⟨messages, cached⟩)
      (runTurn config turn env ⟨messages, cached'⟩) := by
  rcases h with rfl | rfl
  · unfold runTurn
    cases env.prepare with
    | error e => exact ⟨rfl, rfl, rfl, rfl⟩
    | ok memoryContext =>
      obtain ⟨left, left', result, hbuilt, hbuilt'⟩ := buildPrompt_congr config turn env 0 [] cached cached'
      simp only [pruneToBudget_nil, hbuilt, hbuilt']
      cases result with
      | error e => exact ⟨rfl, rfl, rfl, rfl⟩
      | ok shown => exact answerTurn_congr config turn env _ _ _ _
  · exact ⟨rfl, rfl, rfl, rfl⟩

end SameHistory

/-- The same through the whole agent. -/
theorem process_congr {agent agent' : Agent} (turn : Turn) (env : TurnEnv)
    (hconfig : agent.toAgentConfig = agent'.toAgentConfig)
    (hhistory : agent.historyFor turn.sessionId = agent'.historyFor turn.sessionId)
    (hcache : agent.historyFor turn.sessionId = [] ∨
      agent.cachedToolSpecsJson = agent'.cachedToolSpecsJson) :
    (agentProcessMessage agent turn env).2 = (agentProcessMessage agent' turn env).2 ∧
      (agentProcessMessage agent turn env).1.historyFor turn.sessionId =
        (agentProcessMessage agent' turn env).1.historyFor turn.sessionId := by
  unfold agentProcessMessage
  split
  · exact ⟨rfl, hhistory⟩
  · have hsame := runTurn_congr agent.toAgentConfig turn env _ hcache
    rw [Agent.historyFor_setHistory_self, Agent.historyFor_setHistory_self, ← hconfig, ← hhistory]
    refine ⟨?_, hsame.messages⟩
    simp only [hsame.prompts, hsame.recorded, hsame.result]

/-! ## The cached tool list -/

/-- The tool list is cached as it is serialized, or not yet. -/
def CacheOk (config : AgentConfig) (cachedToolSpecsJson : Bytes) : Prop :=
  cachedToolSpecsJson = [] ∨ cachedToolSpecsJson = config.toolSpecsJson

/-- **What a turn does to the cached tool list**: it leaves it, or fills it when it sees all tools. -/
def CachedBy (config : AgentConfig) (turn : Turn) (cached after : Bytes) : Prop :=
  after = cached ∨ turn.defaultToolSpecs = true ∧ after = config.toolSpecsJson

section Cache

variable {config : AgentConfig} {turn : Turn} {env : TurnEnv}

theorem CachedBy.trans {cached between after : Bytes} (h : CachedBy config turn cached between)
    (h' : CachedBy config turn between after) : CachedBy config turn cached after := by
  rcases h' with rfl | hfilled
  · exact h
  · exact Or.inr hfilled

theorem buildPrompt_cached {attempt : Nat} {s s' : TurnState} {result : Res (List HistoryMessage)}
    (h : buildPrompt config turn env attempt s = (s', result)) :
    CachedBy config turn s.cachedToolSpecsJson s'.cachedToolSpecsJson := by
  unfold buildPrompt at h
  split at h
  · cases h
    exact Or.inl rfl
  · cases h
    split
    next hturn => exact Or.inr ⟨hturn, rfl⟩
    next => exact Or.inl rfl

theorem concludeTurn_cached (s : TurnState) (prompts : List (List HistoryMessage)) (output : Bytes) :
    (concludeTurn config turn env s prompts output).state.cachedToolSpecsJson = s.cachedToolSpecsJson := by
  unfold concludeTurn
  split
  · rfl
  · rfl

theorem answerTurn_cached (memoryContext : Bytes) (s : TurnState) (shown : List HistoryMessage) :
    CachedBy config turn s.cachedToolSpecsJson
      (answerTurn config turn env memoryContext s shown).state.cachedToolSpecsJson := by
  unfold answerTurn
  split
  · exact Or.inl (concludeTurn_cached _ _ _)
  · split
    · exact Or.inl rfl
    · unfold retryTurn
      simp only
      split
      next again e hbuilt =>
        have hagain := buildPrompt_cached hbuilt
        exact hagain
      next again shown hbuilt =>
        have hagain := buildPrompt_cached hbuilt
        split
        · exact hagain
        · rw [concludeTurn_cached]
          exact hagain

theorem runTurn_cached (s : TurnState) :
    CachedBy config turn s.cachedToolSpecsJson (runTurn config turn env s).state.cachedToolSpecsJson := by
  unfold runTurn
  split
  · exact Or.inl rfl
  · simp only
    split
    next built e hbuilt =>
      have hfirst := buildPrompt_cached hbuilt
      exact hfirst
    next built shown hbuilt =>
      have hfirst := buildPrompt_cached hbuilt
      exact hfirst.trans (answerTurn_cached _ _ _)

end Cache

theorem process_cached (agent : Agent) (turn : Turn) (env : TurnEnv) :
    CachedBy agent.toAgentConfig turn agent.cachedToolSpecsJson
      (agentProcessMessage agent turn env).1.cachedToolSpecsJson := by
  unfold agentProcessMessage
  split
  · exact Or.inl rfl
  · rw [(Agent.setHistory_config _ _ _).2]
    exact runTurn_cached _

theorem process_cacheOk {agent : Agent} (turn : Turn) (env : TurnEnv)
    (h : CacheOk agent.toAgentConfig agent.cachedToolSpecsJson) :
    CacheOk agent.toAgentConfig (agentProcessMessage agent turn env).1.cachedToolSpecsJson := by
  rcases process_cached agent turn env with hleft | ⟨-, hfilled⟩
  · rwa [hleft]
  · exact Or.inr hfilled

/-- On the same history and the same cached tool list the tool list is cached alike. -/
theorem process_cached_congr {agent agent' : Agent} (turn : Turn) (env : TurnEnv)
    (hconfig : agent.toAgentConfig = agent'.toAgentConfig)
    (hhistory : agent.historyFor turn.sessionId = agent'.historyFor turn.sessionId)
    (hcache : agent.cachedToolSpecsJson = agent'.cachedToolSpecsJson) :
    (agentProcessMessage agent turn env).1.cachedToolSpecsJson =
      (agentProcessMessage agent' turn env).1.cachedToolSpecsJson := by
  unfold agentProcessMessage
  split
  · exact hcache
  · rw [(Agent.setHistory_config _ _ _).2, (Agent.setHistory_config _ _ _).2, hconfig, hhistory, hcache]

end SmolClaw.Runtime
