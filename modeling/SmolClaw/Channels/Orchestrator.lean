/-
  What happens to a message that a channel hands over (`sc_channel_orchestrator_process`,
  `src/channels/orchestrator.c`).

  1. **Program** — a message seen before is dropped; its identifier is remembered; the rules of the
     channel and the list of senders may deny it; then its history is opened, the agent takes a turn,
     the answer is sent, and input and output go into the history and, if sessions are persistent, into
     the session table.

  2. **Three memories** — the list of identifiers is one for all channels; the history of the
     orchestrator is kept by channel, sender and thread; that of the agent by thread or conversation
     alone.

  What the channel, the transcriber, the agent's surroundings and the database answer is `MessageEnv`.
-/
import Mathlib.Data.List.Infix
import SmolClaw.Channels.Inbound
import SmolClaw.Runtime.Agent

namespace SmolClaw.Channels

open Lib.Table Lib.Window
open SmolClaw.Runtime

/-! ## The rules of a channel -/

/-- `channel_common_rule`: what the orchestrator reads of it before a turn. -/
structure CommonRule where
  channelName : Bytes
  enabledSet : Bool := false
  enabled : Bool := false
  allowedUsers : List Bytes := []
  allowedDestinations : List Bytes := []
  replyToMentionsOnly : Bool := false
  mentionToken : Bytes := []
  pairingRequired : Bool := false
  paired : Bool := false
  autonomyLevelSet : Bool := false
  toolsAllow : List Bytes := []
  toolsDeny : List Bytes := []

/-- `text_contains` -/
def textContains (text needle : Bytes) : Bool := decide (needle ≠ [] ∧ needle <:+: text)

/-- `common_config_allows_values`, for a rule -/
def commonConfigAllows (rule : CommonRule) (event : ChannelInbound) : Bool :=
  !(rule.enabledSet && !rule.enabled) && !(rule.pairingRequired && !rule.paired) &&
    stringVecContainsWildcardOrValue rule.allowedUsers event.senderId &&
    stringVecContainsWildcardOrValue rule.allowedDestinations event.conversationId &&
    (!rule.replyToMentionsOnly || textContains event.text rule.mentionToken)

/-! ## The orchestrator -/

/-- `history_scope` -/
structure HistoryScope where
  channelName : Bytes
  senderId : Bytes
  threadId : Bytes
  messages : List HistoryMessage := []
  deriving DecidableEq, Repr

/-- What a history is kept by. -/
abbrev ScopeKey := Bytes × Bytes × Bytes

def HistoryScope.key (scope : HistoryScope) : ScopeKey :=
  (scope.channelName, scope.senderId, scope.threadId)

/-- A row of the table `sessions`; the rows stand in the order of their `id`. -/
structure SessionRow where
  sessionKey : Bytes
  role : Bytes
  content : Bytes
  deriving DecidableEq, Repr

/-- `sc_channel_orchestrator_options`, as `sc_channel_orchestrator_new` copies them. -/
structure OrchestratorConfig where
  allowedSenders : List Bytes := []
  commonRules : List CommonRule := []
  hasTranscriber : Bool := false
  maxHistoryMessages : Nat := 16
  maxSeenMessageIds : Nat := 1024
  sessionPersistence : Bool := false
  sessionDbPath : Bytes := []
  /-- A bound of 0 stands for the default. -/
  history_pos : 0 < maxHistoryMessages := by decide
  seen_pos : 0 < maxSeenMessageIds := by decide

/-- `sc_channel_orchestrator`, and the table `sessions` of its database. -/
structure Orchestrator extends OrchestratorConfig where
  agent : Agent
  seenMessageIds : List Bytes := []
  histories : List HistoryScope := []
  sessions : List SessionRow := []

/-- `message_seen` -/
def messageSeen (o : Orchestrator) (messageId : Bytes) : Bool :=
  decide (messageId ≠ [] ∧ messageId ∈ o.seenMessageIds)

/-- `remember_message` -/
def rememberMessage (o : Orchestrator) (messageId : Bytes) : Orchestrator :=
  if messageId = [] then o
  else { o with seenMessageIds := push o.maxSeenMessageIds o.seenMessageIds messageId }

/-- `common_rule_for` -/
def commonRuleFor (config : OrchestratorConfig) (channelName : Bytes) : Option CommonRule :=
  if channelName = [] then none else config.commonRules.find? fun rule => rule.channelName == channelName

/-- `sender_allowed` -/
def senderAllowed (config : OrchestratorConfig) (senderId : Bytes) : Bool :=
  config.allowedSenders.isEmpty || config.allowedSenders.contains senderId

/-- The rule of the channel and the list of senders let the message pass. -/
def admits (config : OrchestratorConfig) (message : ChannelInbound) : Bool :=
  (match commonRuleFor config message.channelName with
    | some rule => commonConfigAllows rule message
    | none => true) && senderAllowed config message.senderId

/-- The thread of a message: its conversation when it names none. -/
def threadKey (message : ChannelInbound) : Bytes :=
  if message.threadId = [] then message.conversationId else message.threadId

/-- The scope of `history_for`. -/
def scopeOf (message : ChannelInbound) : ScopeKey :=
  (if message.channelName = [] then str "unknown" else message.channelName, message.senderId,
    threadKey message)

/-- The messages of a scope; none when there is no such scope. -/
def messagesIn (histories : List HistoryScope) (key : ScopeKey) : List HistoryMessage :=
  ((lookup HistoryScope.key key histories).map HistoryScope.messages).getD []

/-- The scopes after the messages of one have been replaced, or a new one has been opened. -/
def setMessages (histories : List HistoryScope) (key : ScopeKey) (messages : List HistoryMessage) :
    List HistoryScope :=
  upsert HistoryScope.key ⟨key.1, key.2.1, key.2.2, messages⟩ histories

/-- `history_for_values`: a scope that is not there yet is opened. -/
def openHistory (histories : List HistoryScope) (key : ScopeKey) : List HistoryScope :=
  setMessages histories key (messagesIn histories key)

/-! ## One message -/

/-- What the surroundings of a message answer. -/
structure MessageEnv where
  /-- The draft, and the choice of the model and the tools. -/
  announce : Res Unit
  /-- The transcript of an audio attachment. -/
  transcript : Res Bytes
  turn : TurnEnv
  /-- Sending the reply and its attachment. -/
  reply : Bytes → Res Unit
  /-- `persist_session_jsonl` and `persist_session_sqlite`, for the input and for the output. -/
  persistInput : Res Unit
  persistOutput : Res Unit
  /-- The event that the message has been processed. -/
  emit : Res Unit

/-- `sc_channel_process_result` -/
structure ProcessResult where
  duplicate : Bool := false
  denied : Bool := false
  cancelledPrevious : Bool := false
  processed : Bool := false
  reply : Bytes := []
  deriving DecidableEq, Repr

/-- `sc_media_content_type_is_audio` -/
def contentTypeIsAudio (contentType : Bytes) : Bool :=
  [str "audio/wav", str "audio/x-wav", str "audio/mpeg", str "audio/ogg", str "audio/opus",
    str "audio/webm", str "audio/mp4", str "audio/flac", str "audio/aac"].contains contentType

/-- `build_agent_input_for_message` -/
def buildAgentInput (hasTranscriber : Bool) (message : ChannelInbound) (transcript : Res Bytes) :
    Res Bytes :=
  if !hasTranscriber || !contentTypeIsAudio message.attachmentMediaType ||
      message.attachmentStoragePath.isEmpty then .ok message.text
  else do
    let transcript ← transcript
    .ok (if message.text = [] then transcript
      else str "User text: " ++ message.text ++ str "\nMedia transcript: " ++ transcript)

/-- The turn of a message: `turn_uses_default_tool_specs` looks at the rule of its channel. -/
def turnFor (config : OrchestratorConfig) (message : ChannelInbound) (input : Bytes) : Turn where
  input := input
  sessionId := threadKey message
  defaultToolSpecs :=
    !message.disableMemory &&
      match commonRuleFor config message.channelName with
      | some rule => rule.toolsAllow.isEmpty && rule.toolsDeny.isEmpty && !rule.autonomyLevelSet
      | none => true

/-- `build_session_key` -/
def buildSessionKey (message : ChannelInbound) : Bytes :=
  message.channelName ++ chr '_' :: (message.conversationId ++ chr '_' :: message.senderId)

/-- A message goes into the history of the scope, then into the session table. -/
def keepMessage (o : Orchestrator) (message : ChannelInbound) (role content : Bytes)
    (persisted : Res Unit) : Orchestrator × Res Unit :=
  let messages := historyTrim o.maxHistoryMessages
    (messagesIn o.histories (scopeOf message) ++ [⟨role, content⟩])
  let o := { o with histories := setMessages o.histories (scopeOf message) messages }
  if !o.sessionPersistence then (o, .ok ())
  else
    match persisted with
    | .error e => (o, .error e)
    | .ok () =>
        if o.sessionDbPath = [] then (o, .ok ())
        else ({ o with sessions := o.sessions ++ [⟨buildSessionKey message, role, content⟩] }, .ok ())

/-- An answered message is kept: input, then output. -/
def keepExchange (o : Orchestrator) (message : ChannelInbound) (env : MessageEnv) (input output : Bytes) :
    Orchestrator × Res Unit :=
  match keepMessage o message (str "user") input env.persistInput with
  | (o, .error e) => (o, .error e)
  | (o, .ok ()) => keepMessage o message (str "assistant") output env.persistOutput

/-- What is left of a message, and what could be seen of its turn, if there was one. -/
structure Processed where
  orchestrator : Orchestrator
  turn : Option (Turn × Answer) := none
  result : Res ProcessResult

/-- A message that was let pass, with its history open. -/
def answerMessage (o : Orchestrator) (message : ChannelInbound) (env : MessageEnv) : Processed :=
  let cancelled := message.cancelPrevious && !(messagesIn o.histories (scopeOf message)).isEmpty
  match env.announce >>= fun _ => buildAgentInput o.hasTranscriber message env.transcript with
  | .error e => ⟨o, none, .error e⟩
  | .ok input =>
      let turn := turnFor o.toOrchestratorConfig message input
      let (agent, answer) := agentProcessMessage o.agent turn env.turn
      let o := { o with agent := agent }
      match answer.result >>= fun output => (env.reply output).map fun _ => output with
      | .error e => ⟨o, some (turn, answer), .error e⟩
      | .ok output =>
          match keepExchange o message env input output with
          | (o, .error e) => ⟨o, some (turn, answer), .error e⟩
          | (o, .ok ()) =>
              ⟨o, some (turn, answer), env.emit.map fun _ =>
                { cancelledPrevious := cancelled, processed := true, reply := output }⟩

/-- `sc_channel_orchestrator_process` -/
def orchestratorProcess (o : Orchestrator) (message : ChannelInbound) (env : MessageEnv) : Processed :=
  if messageSeen o message.messageId then ⟨o, none, .ok { duplicate := true }⟩
  else
    let o := rememberMessage o message.messageId
    if !admits o.toOrchestratorConfig message then ⟨o, none, .ok { denied := true }⟩
    else answerMessage { o with histories := openHistory o.histories (scopeOf message) } message env

/-- A message with its surroundings. -/
structure Delivery where
  message : ChannelInbound
  env : MessageEnv

/-- The orchestrator after one more message. -/
def deliver (o : Orchestrator) (d : Delivery) : Orchestrator :=
  (orchestratorProcess o d.message d.env).orchestrator

/-! ## What a message leaves alone -/

theorem keepMessage_keeps (o : Orchestrator) (message : ChannelInbound) (role content : Bytes)
    (persisted : Res Unit) :
    (keepMessage o message role content persisted).1.toOrchestratorConfig = o.toOrchestratorConfig ∧
      (keepMessage o message role content persisted).1.seenMessageIds = o.seenMessageIds ∧
      (keepMessage o message role content persisted).1.agent = o.agent := by
  unfold keepMessage
  simp only
  split
  · exact ⟨rfl, rfl, rfl⟩
  · split
    · exact ⟨rfl, rfl, rfl⟩
    · split
      · exact ⟨rfl, rfl, rfl⟩
      · exact ⟨rfl, rfl, rfl⟩

theorem keepExchange_keeps (o : Orchestrator) (message : ChannelInbound) (env : MessageEnv)
    (input output : Bytes) :
    (keepExchange o message env input output).1.toOrchestratorConfig = o.toOrchestratorConfig ∧
      (keepExchange o message env input output).1.seenMessageIds = o.seenMessageIds ∧
      (keepExchange o message env input output).1.agent = o.agent := by
  have hfirst := keepMessage_keeps o message (str "user") input env.persistInput
  unfold keepExchange
  split
  next after e hafter =>
    rw [hafter] at hfirst
    exact hfirst
  next after hafter =>
    rw [hafter] at hfirst
    obtain ⟨hconfig, hseen, hagent⟩ := keepMessage_keeps after message (str "assistant") output env.persistOutput
    exact ⟨hconfig.trans hfirst.1, hseen.trans hfirst.2.1, hagent.trans hfirst.2.2⟩

/-- The turn of a message that was let pass; none when the draft or the transcript fails. -/
def turnOf (config : OrchestratorConfig) (message : ChannelInbound) (env : MessageEnv) : Option Turn :=
  match env.announce >>= fun _ => buildAgentInput config.hasTranscriber message env.transcript with
  | .error _ => none
  | .ok input => some (turnFor config message input)

/-- The agent after the turn of a message, if there is one. -/
def agentAfter (agent : Agent) (turn : Option Turn) (env : MessageEnv) : Agent :=
  match turn with
  | none => agent
  | some turn => (agentProcessMessage agent turn env.turn).1

/-- **What an answered message does** besides its history: one turn of the agent. -/
theorem answerMessage_agent (o : Orchestrator) (message : ChannelInbound) (env : MessageEnv) :
    (answerMessage o message env).orchestrator.toOrchestratorConfig = o.toOrchestratorConfig ∧
      (answerMessage o message env).orchestrator.seenMessageIds = o.seenMessageIds ∧
      (answerMessage o message env).turn = (turnOf o.toOrchestratorConfig message env).map (fun turn =>
        (turn, (agentProcessMessage o.agent turn env.turn).2)) ∧
      (answerMessage o message env).orchestrator.agent =
        agentAfter o.agent (turnOf o.toOrchestratorConfig message env) env := by
  unfold answerMessage turnOf
  simp only
  split
  · exact ⟨rfl, rfl, rfl, rfl⟩
  next input _ =>
    split
    · exact ⟨rfl, rfl, rfl, rfl⟩
    next output _ =>
      have hkeeps := keepExchange_keeps
        { o with agent := (agentProcessMessage o.agent (turnFor o.toOrchestratorConfig message input)
            env.turn).1 } message env input output
      split
      next after e hafter =>
        rw [hafter] at hkeeps
        exact ⟨hkeeps.1, hkeeps.2.1, rfl, hkeeps.2.2⟩
      next after hafter =>
        rw [hafter] at hkeeps
        exact ⟨hkeeps.1, hkeeps.2.1, rfl, hkeeps.2.2⟩

theorem rememberMessage_keeps (o : Orchestrator) (messageId : Bytes) :
    (rememberMessage o messageId).toOrchestratorConfig = o.toOrchestratorConfig ∧
      (rememberMessage o messageId).agent = o.agent := by
  unfold rememberMessage
  split
  · exact ⟨rfl, rfl⟩
  · exact ⟨rfl, rfl⟩

/-- The turn a message comes to: none when it was seen before or is denied. -/
def turnAt (o : Orchestrator) (message : ChannelInbound) (env : MessageEnv) : Option Turn :=
  if messageSeen o message.messageId then none
  else if !admits o.toOrchestratorConfig message then none
  else turnOf o.toOrchestratorConfig message env

/-- **What a message does** besides its history: its identifier is remembered, and the agent takes the
    turn it comes to. -/
theorem orchestratorProcess_agent (o : Orchestrator) (message : ChannelInbound) (env : MessageEnv) :
    (orchestratorProcess o message env).orchestrator.toOrchestratorConfig = o.toOrchestratorConfig ∧
      (orchestratorProcess o message env).orchestrator.seenMessageIds =
        (if messageSeen o message.messageId then o else rememberMessage o message.messageId).seenMessageIds ∧
      (orchestratorProcess o message env).turn = (turnAt o message env).map (fun turn =>
        (turn, (agentProcessMessage o.agent turn env.turn).2)) ∧
      (orchestratorProcess o message env).orchestrator.agent =
        agentAfter o.agent (turnAt o message env) env := by
  obtain ⟨hconfig, hagent⟩ := rememberMessage_keeps o message.messageId
  unfold orchestratorProcess turnAt
  cases messageSeen o message.messageId with
  | true => exact ⟨rfl, rfl, rfl, rfl⟩
  | false =>
    simp only [Bool.false_eq_true, if_false]
    rw [hconfig]
    split
    · exact ⟨hconfig, rfl, rfl, hagent⟩
    · obtain ⟨hanswer, hids, hturn, hafter⟩ := answerMessage_agent
        { rememberMessage o message.messageId with
          histories := openHistory (rememberMessage o message.messageId).histories (scopeOf message) }
        message env
      simp only [hconfig, hagent] at hanswer hids hturn hafter ⊢
      exact ⟨hanswer, hids, hturn, hafter⟩

/-- A turn works on the history of the message's thread. -/
theorem turnAt_sessionId {o : Orchestrator} {message : ChannelInbound} {env : MessageEnv} {turn : Turn}
    (h : turnAt o message env = some turn) : turn.sessionId = threadKey message := by
  unfold turnAt turnOf at h
  split at h
  · exact nomatch h
  · split at h
    · exact nomatch h
    · split at h
      · exact nomatch h
      · cases h
        rfl

/-- The turn depends on the configuration and the list of identifiers only. -/
theorem turnAt_congr {o o' : Orchestrator} (hconfig : o.toOrchestratorConfig = o'.toOrchestratorConfig)
    (hseen : o.seenMessageIds = o'.seenMessageIds) (message : ChannelInbound) (env : MessageEnv) :
    turnAt o message env = turnAt o' message env := by
  unfold turnAt messageSeen
  rw [hconfig, hseen]

end SmolClaw.Channels
