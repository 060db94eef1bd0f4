/-
  Which texts the agent is shown for a message (`sc_channel_orchestrator_process`,
  `src/channels/orchestrator.c`, with `agent_history_for_turn`, `src/runtime/agent.c`).

  1. **Program** — the orchestrator keeps its own history by channel, sender and thread, but the agent,
     whose history goes into the prompt, is handed the thread or the conversation alone.

  2. **Specification** — `OwnTexts`: a prompt shows only what was said before over the same channel in
     the same thread.  `ApartFrom`: what other channels say makes no difference to the prompts.

  3. **Defect** — threads of two channels that bear the same name share one history.  A second leak is
     the length of the tool list: it counts against the budget of the history, and whether it is known
     or guessed depends on whether some channel has had it serialized before.

  4. **Result** — `conversations_apart`: both hold of every run in which no message reaches a thread in
     which another channel has spoken, and in which no history is used while it depends on another
     channel whether the tool list is known (`Isolated`).
-/
import SmolClaw.Channels.Duplicates
import SmolClaw.Lib.Run

namespace SmolClaw.Channels

open Lib.Run
open SmolClaw.Runtime

/-! ## What was said -/

/-- A message of the agent's history, and where it was said. -/
structure Utterance where
  channelName : Bytes
  threadKey : Bytes
  message : HistoryMessage

/-- What a message adds: its input and the recorded output, if its turn came to one. -/
def saidBy (message : ChannelInbound) : Option (Turn × Answer) → List Utterance
  | some (turn, { recorded := some output, .. }) =>
      [⟨message.channelName, threadKey message, ⟨str "user", turn.input⟩⟩,
        ⟨message.channelName, threadKey message, ⟨str "assistant", output⟩⟩]
  | _ => []

/-- The orchestrator under observation: what was delivered to it, and what has been said. -/
structure Overheard where
  orchestrator : Orchestrator
  delivered : List ChannelInbound := []
  said : List Utterance := []

/-- One more message. -/
def overhear (w : Overheard) (d : Delivery) : Overheard where
  orchestrator := deliver w.orchestrator d
  delivered := w.delivered ++ [d.message]
  said := w.said ++ saidBy d.message (orchestratorProcess w.orchestrator d.message d.env).turn

/-- What was said over a channel in a thread. -/
def Overheard.SaidIn (w : Overheard) (channelName key : Bytes) (m : HistoryMessage) : Prop :=
  ∃ u ∈ w.said, u.channelName = channelName ∧ u.threadKey = key ∧ u.message = m

/-- The histories shown to the provider for a message. -/
def promptsOf (o : Orchestrator) (d : Delivery) : List (List HistoryMessage) :=
  match (orchestratorProcess o d.message d.env).turn with
  | some (_, answer) => answer.prompts
  | none => []

/-- The histories shown for the messages of a channel and a thread, in order. -/
def promptsFor (channelName key : Bytes) : Orchestrator → List Delivery → List (List (List HistoryMessage))
  | _, [] => []
  | o, d :: ds =>
      if d.message.channelName = channelName ∧ threadKey d.message = key then
        promptsOf o d :: promptsFor channelName key (deliver o d) ds
      else promptsFor channelName key (deliver o d) ds

/-- **A prompt shows only the texts of its own conversation**, or summaries of them. -/
def OwnTexts (o : Orchestrator) (ds : List Delivery) : Prop :=
  ∀ before d after, ds = before ++ d :: after →
    ∀ shown ∈ promptsOf (run deliver o before) d,
      AllMade ((run overhear ⟨o, [], []⟩ before).SaidIn d.message.channelName (threadKey d.message)) shown

/-- Two deliveries that a channel cannot tell apart: the same, or a message of another channel with
    another text, whatever came of it. -/
inductive AlikeBut (channelName : Bytes) : Delivery → Delivery → Prop where
  | same (d : Delivery) : AlikeBut channelName d d
  | other {d d' : Delivery} : d.message.channelName ≠ channelName →
      d'.message = { d.message with text := d'.message.text } → AlikeBut channelName d d'

/-! ## The condition -/

/-- `turn_uses_default_tool_specs`, for the turn of a message. -/
def seesAllTools (config : OrchestratorConfig) (message : ChannelInbound) : Bool :=
  (turnFor config message []).defaultToolSpecs

/-- Whether the tool list is known may depend on another channel. -/
def Overheard.ToolsForeign (w : Overheard) (channelName : Bytes) : Prop :=
  ∃ m ∈ w.delivered, m.channelName ≠ channelName ∧
    seesAllTools w.orchestrator.toOrchestratorConfig m = true

/-- Another channel has spoken in the thread. -/
def Overheard.SharedWith (w : Overheard) (channelName key : Bytes) : Prop :=
  ∃ u ∈ w.said, u.threadKey = key ∧ u.channelName ≠ channelName

/-- **What keeps conversations apart**: a message that reaches the agent belongs to a thread in which no
    other channel has spoken; and if there is a history to cut, the tool list is known already, or has
    had no chance to become known through another channel. -/
def Isolated (w : Overheard) (d : Delivery) : Prop :=
  (turnAt w.orchestrator d.message d.env).isSome →
    ¬ w.SharedWith d.message.channelName (threadKey d.message) ∧
      (w.orchestrator.agent.historyFor (threadKey d.message) ≠ [] →
        w.orchestrator.agent.cachedToolSpecsJson ≠ [] ∨ ¬ w.ToolsForeign d.message.channelName)

instance (w : Overheard) (channelName key : Bytes) : Decidable (w.SharedWith channelName key) :=
  inferInstanceAs (Decidable (∃ u ∈ w.said, u.threadKey = key ∧ u.channelName ≠ channelName))

instance (w : Overheard) (channelName : Bytes) : Decidable (w.ToolsForeign channelName) :=
  inferInstanceAs (Decidable (∃ m ∈ w.delivered, m.channelName ≠ channelName ∧
    seesAllTools w.orchestrator.toOrchestratorConfig m = true))

instance (w : Overheard) (d : Delivery) : Decidable (Isolated w d) :=
  inferInstanceAs (Decidable ((turnAt w.orchestrator d.message d.env).isSome →
    ¬ w.SharedWith d.message.channelName (threadKey d.message) ∧
      (w.orchestrator.agent.historyFor (threadKey d.message) ≠ [] →
        w.orchestrator.agent.cachedToolSpecsJson ≠ [] ∨ ¬ w.ToolsForeign d.message.channelName)))

/-! ## One run -/

/-- Listening does not change what happens. -/
theorem run_overhear_orchestrator (ds : List Delivery) (w : Overheard) :
    (run overhear w ds).orchestrator = run deliver w.orchestrator ds := by
  induction ds generalizing w with
  | nil => rfl
  | cons d ds ih => exact ih (overhear w d)

/-- What holds of every state overheard: a history is made from what was said in its thread, and the tool
    list is cached as it is serialized. -/
structure Attributed (w : Overheard) : Prop where
  made : ∀ key, AllMade (fun m => ∃ u ∈ w.said, u.threadKey = key ∧ u.message = m)
    (w.orchestrator.agent.historyFor key)
  cached : CacheOk w.orchestrator.agent.toAgentConfig w.orchestrator.agent.cachedToolSpecsJson

/-- An orchestrator with a new agent. -/
def Fresh (o : Orchestrator) : Prop := o.agent = { toAgentConfig := o.agent.toAgentConfig }

theorem Fresh.historyFor {o : Orchestrator} (h : Fresh o) (key : Bytes) : o.agent.historyFor key = [] := by
  rw [h]
  unfold Agent.historyFor
  split
  · rfl
  · rfl

theorem Fresh.attributed {o : Orchestrator} (h : Fresh o) : Attributed ⟨o, [], []⟩ where
  made key := by
    show AllMade _ (o.agent.historyFor key)
    rw [h.historyFor]
    intro m hm
    exact absurd hm List.not_mem_nil
  cached := by
    show CacheOk _ o.agent.cachedToolSpecsJson
    rw [h]
    exact Or.inl rfl

/-- What a turn records has been said. -/
theorem saidBy_recorded {message : ChannelInbound} {turn : Turn} {answer : Answer} {m : HistoryMessage}
    (h : Recorded turn.input answer.recorded m) :
    ⟨message.channelName, threadKey message, m⟩ ∈ saidBy message (some (turn, answer)) := by
  obtain ⟨output, hrecorded, hm⟩ := h
  obtain ⟨prompts, recorded, result⟩ := answer
  cases hrecorded
  rcases hm with rfl | rfl
  · exact List.mem_cons_self
  · exact List.mem_cons_of_mem _ List.mem_cons_self

/-- What a message says, it says over its channel in its thread. -/
theorem saidBy_where {message : ChannelInbound} {turn : Option (Turn × Answer)} {u : Utterance}
    (h : u ∈ saidBy message turn) :
    u.channelName = message.channelName ∧ u.threadKey = threadKey message := by
  unfold saidBy at h
  split at h
  · rcases List.mem_pair.mp h with rfl | rfl
    · exact ⟨rfl, rfl⟩
    · exact ⟨rfl, rfl⟩
  · exact absurd h List.not_mem_nil

/-- The agent after a message. -/
theorem overhear_agent (w : Overheard) (d : Delivery) :
    (overhear w d).orchestrator.agent =
      agentAfter w.orchestrator.agent (turnAt w.orchestrator d.message d.env) d.env :=
  (orchestratorProcess_agent w.orchestrator d.message d.env).2.2.2

/-- What has been said after a message. -/
theorem overhear_said (w : Overheard) (d : Delivery) :
    (overhear w d).said = w.said ++ saidBy d.message
      ((turnAt w.orchestrator d.message d.env).map fun turn =>
        (turn, (agentProcessMessage w.orchestrator.agent turn d.env.turn).2)) := by
  show w.said ++ saidBy d.message (orchestratorProcess w.orchestrator d.message d.env).turn = _
  rw [(orchestratorProcess_agent w.orchestrator d.message d.env).2.2.1]

theorem agentAfter_config (agent : Agent) (turn : Option Turn) (env : MessageEnv) :
    (agentAfter agent turn env).toAgentConfig = agent.toAgentConfig := by
  cases turn with
  | none => rfl
  | some turn => exact process_config agent turn env.turn

/-- **A message touches its own thread only.** -/
theorem overhear_other (w : Overheard) (d : Delivery) {key : Bytes} (h : key ≠ threadKey d.message) :
    (overhear w d).orchestrator.agent.historyFor key = w.orchestrator.agent.historyFor key := by
  rw [overhear_agent]
  cases hturn : turnAt w.orchestrator d.message d.env with
  | none => rfl
  | some turn => exact process_other _ turn _ (by rwa [turnAt_sessionId hturn])

/-- **One message keeps the attribution.** -/
theorem Attributed.step {w : Overheard} (h : Attributed w) (d : Delivery) : Attributed (overhear w d) where
  made key := by
    have hkept : ∀ m, (∃ u ∈ w.said, u.threadKey = key ∧ u.message = m) →
        ∃ u ∈ (overhear w d).said, u.threadKey = key ∧ u.message = m := by
      rintro m ⟨u, hu, hkey, rfl⟩
      exact ⟨u, List.mem_append_left _ hu, hkey, rfl⟩
    by_cases hkey : key = threadKey d.message
    · rw [overhear_agent]
      cases hturn : turnAt w.orchestrator d.message d.env with
      | none => exact (h.made key).mono hkept
      | some turn =>
        have hsession : turn.sessionId = key := (turnAt_sessionId hturn).trans hkey.symm
        have hconfined : Confined _ turn.input _ _
            ((agentProcessMessage w.orchestrator.agent turn d.env.turn).1.historyFor turn.sessionId) :=
          process_made (h.made turn.sessionId)
        rw [hsession] at hconfined
        refine hconfined.kept.mono fun m hm => ?_
        rcases hm with hm | hm
        · exact hkept m hm
        · -- a recorded message is what the delivery has said
          refine ⟨⟨d.message.channelName, threadKey d.message, m⟩, ?_, hkey.symm, rfl⟩
          rw [overhear_said, hturn]
          exact List.mem_append_right _ (saidBy_recorded hm)
    · rw [overhear_other w d hkey]
      exact (h.made key).mono hkept
  cached := by
    rw [overhear_agent, agentAfter_config]
    cases turnAt w.orchestrator d.message d.env with
    | none => exact h.cached
    | some turn => exact process_cacheOk turn d.env.turn h.cached

/-- In an isolated step the prompts show the conversation's own texts. -/
theorem Attributed.shows {w : Overheard} (h : Attributed w) {d : Delivery} (hd : Isolated w d) :
    ∀ shown ∈ promptsOf w.orchestrator d,
      AllMade (w.SaidIn d.message.channelName (threadKey d.message)) shown := by
  intro shown hshown
  unfold promptsOf at hshown
  rw [(orchestratorProcess_agent w.orchestrator d.message d.env).2.2.1] at hshown
  cases hturn : turnAt w.orchestrator d.message d.env with
  | none =>
    rw [hturn] at hshown
    exact absurd hshown List.not_mem_nil
  | some turn =>
    rw [hturn] at hshown
    have hmade := h.made turn.sessionId
    refine ((process_made hmade).shown shown hshown).mono ?_
    rintro m ⟨u, hu, hkey, hm⟩
    rw [turnAt_sessionId hturn] at hkey
    refine ⟨u, hu, ?_, hkey, hm⟩
    by_contra hchannel
    exact (hd (by rw [hturn]; rfl)).1 ⟨u, hu, hkey, hchannel⟩

/-! ## Two runs -/

/-- The tools a turn sees do not depend on its input. -/
theorem turnAt_defaultToolSpecs {o : Orchestrator} {message : ChannelInbound} {env : MessageEnv}
    {turn : Turn} (h : turnAt o message env = some turn) :
    turn.defaultToolSpecs = seesAllTools o.toOrchestratorConfig message := by
  unfold turnAt turnOf at h
  split at h
  · exact nomatch h
  · split at h
    · exact nomatch h
    · split at h
      · exact nomatch h
      · cases h
        rfl

theorem overhear_config (w : Overheard) (d : Delivery) :
    (overhear w d).orchestrator.toOrchestratorConfig = w.orchestrator.toOrchestratorConfig :=
  (orchestratorProcess_agent w.orchestrator d.message d.env).1

theorem overhear_seen (w : Overheard) (d : Delivery) :
    (overhear w d).orchestrator.seenMessageIds =
      (if messageSeen w.orchestrator d.message.messageId then w.orchestrator
        else rememberMessage w.orchestrator d.message.messageId).seenMessageIds :=
  (orchestratorProcess_agent w.orchestrator d.message d.env).2.1

/-- Whether another channel could have made the tool list known, after one more message. -/
theorem toolsForeign_overhear (w : Overheard) (d : Delivery) (channelName : Bytes) :
    (overhear w d).ToolsForeign channelName ↔ w.ToolsForeign channelName ∨
      d.message.channelName ≠ channelName ∧
        seesAllTools w.orchestrator.toOrchestratorConfig d.message = true := by
  unfold Overheard.ToolsForeign
  rw [overhear_config]
  show (∃ m ∈ w.delivered ++ [d.message], _) ↔ _
  simp only [List.mem_append, List.mem_singleton, or_and_right, exists_or, exists_eq_left]

theorem sharedWith_overhear {w : Overheard} {channelName key : Bytes} (h : w.SharedWith channelName key)
    (d : Delivery) : (overhear w d).SharedWith channelName key := by
  obtain ⟨u, hu, hwhere⟩ := h
  exact ⟨u, List.mem_append_left _ hu, hwhere⟩

/-- A history without a speaker is empty. -/
theorem Attributed.historyFor_nil {w : Overheard} (h : Attributed w) {key : Bytes}
    (hnone : ∀ u ∈ w.said, u.threadKey ≠ key) : w.orchestrator.agent.historyFor key = [] := by
  refine List.eq_nil_iff_forall_not_mem.mpr fun m hm => ?_
  obtain ⟨_, u, hu, hkey, -⟩ := (h.made key m hm).source
  exact hnone u hu hkey

/-- **What a message of another channel can do to a thread**: take it over, or leave its history as it
    is. -/
theorem Attributed.foreign_step {w : Overheard} (h : Attributed w) {d : Delivery} (hd : Isolated w d)
    {channelName : Bytes} (hforeign : d.message.channelName ≠ channelName) (key : Bytes) :
    (overhear w d).SharedWith channelName key ∨
      (overhear w d).orchestrator.agent.historyFor key = w.orchestrator.agent.historyFor key := by
  by_cases hkey : key = threadKey d.message
  · subst hkey
    by_cases hsaid : ∃ u ∈ (overhear w d).said, u.threadKey = threadKey d.message
    · -- someone has spoken in the thread: if it was not this channel, the message could not reach it
      obtain ⟨u, hu, hkey⟩ := hsaid
      cases hturn : turnAt w.orchestrator d.message d.env with
      | none =>
        refine Or.inr ?_
        rw [overhear_agent, hturn]
        rfl
      | some turn =>
        refine Or.inl ⟨u, hu, hkey, fun hchannel => ?_⟩
        rcases List.mem_append.mp hu with hold | hnew
        · exact (hd (by rw [hturn]; rfl)).1 ⟨u, hold, hkey, by rw [hchannel]; exact Ne.symm hforeign⟩
        · exact hforeign ((saidBy_where hnew).1.symm.trans hchannel)
    · refine Or.inr ?_
      have hnone : ∀ u ∈ (overhear w d).said, u.threadKey ≠ threadKey d.message :=
        fun u hu hkey => hsaid ⟨u, hu, hkey⟩
      rw [(h.step d).historyFor_nil hnone,
        h.historyFor_nil fun u hu => hnone u (List.mem_append_left _ hu)]
  · exact Or.inr (overhear_other w d hkey)

/-- A message of another channel that does not see all tools does not make the tool list known. -/
theorem foreign_cached {w : Overheard} {d : Delivery} {channelName : Bytes}
    (hforeign : d.message.channelName ≠ channelName) :
    (overhear w d).ToolsForeign channelName ∨
      (overhear w d).orchestrator.agent.cachedToolSpecsJson =
        w.orchestrator.agent.cachedToolSpecsJson := by
  cases htools : seesAllTools w.orchestrator.toOrchestratorConfig d.message with
  | true => exact Or.inl ((toolsForeign_overhear w d channelName).mpr (Or.inr ⟨hforeign, htools⟩))
  | false =>
    refine Or.inr ?_
    rw [overhear_agent]
    cases hturn : turnAt w.orchestrator d.message d.env with
    | none => rfl
    | some turn =>
      rcases process_cached w.orchestrator.agent turn d.env.turn with hleft | ⟨hdefault, -⟩
      · exact hleft
      · rw [turnAt_defaultToolSpecs hturn, htools] at hdefault
        exact absurd hdefault Bool.false_ne_true

/-- **Two states that a channel cannot tell apart**: its threads have the same history in both, unless
    another channel has spoken there in one of them, and the tool list is known in both or in neither,
    unless another channel could have made it known. -/
structure Alike (channelName : Bytes) (w w' : Overheard) : Prop where
  config : w.orchestrator.toOrchestratorConfig = w'.orchestrator.toOrchestratorConfig
  seen : w.orchestrator.seenMessageIds = w'.orchestrator.seenMessageIds
  agentConfig : w.orchestrator.agent.toAgentConfig = w'.orchestrator.agent.toAgentConfig
  tools : w.ToolsForeign channelName ↔ w'.ToolsForeign channelName
  cached : w.ToolsForeign channelName ∨
    w.orchestrator.agent.cachedToolSpecsJson = w'.orchestrator.agent.cachedToolSpecsJson
  histories : ∀ key, w.SharedWith channelName key ∨ w'.SharedWith channelName key ∨
    w.orchestrator.agent.historyFor key = w'.orchestrator.agent.historyFor key

theorem Alike.refl (channelName : Bytes) (w : Overheard) : Alike channelName w w :=
  ⟨rfl, rfl, rfl, Iff.rfl, Or.inr rfl, fun _ => Or.inr (Or.inr rfl)⟩

section Step

variable {channelName : Bytes} {w w' : Overheard} {d d' : Delivery}

theorem Alike.agentConfig_step (h : Alike channelName w w') :
    (overhear w d).orchestrator.agent.toAgentConfig =
      (overhear w' d').orchestrator.agent.toAgentConfig := by
  rw [overhear_agent, overhear_agent, agentAfter_config, agentAfter_config]
  exact h.agentConfig

/-- The list of identifiers is the same after messages with the same identifier. -/
theorem Alike.seen_step (h : Alike channelName w w')
    (hid : d'.message.messageId = d.message.messageId) :
    (overhear w d).orchestrator.seenMessageIds = (overhear w' d').orchestrator.seenMessageIds := by
  rw [overhear_seen, overhear_seen, hid]
  unfold messageSeen rememberMessage
  rw [h.seen, show w.orchestrator.maxSeenMessageIds = w'.orchestrator.maxSeenMessageIds from
    congrArg OrchestratorConfig.maxSeenMessageIds h.config]
  split
  · exact h.seen
  · split
    · exact h.seen
    · rfl

/-- **A message of another channel** leaves the states alike, whatever its text. -/
theorem Alike.other (h : Alike channelName w w') (hw : Attributed w) (hw' : Attributed w')
    (hd : Isolated w d) (hd' : Isolated w' d') (hforeign : d.message.channelName ≠ channelName)
    (htext : d'.message = { d.message with text := d'.message.text }) :
    Alike channelName (overhear w d) (overhear w' d') := by
  have hforeign' : d'.message.channelName ≠ channelName := by
    rw [htext]
    exact hforeign
  have htools : (overhear w d).ToolsForeign channelName ↔ (overhear w' d').ToolsForeign channelName := by
    rw [toolsForeign_overhear, toolsForeign_overhear, h.tools, h.config, htext]
    exact Iff.rfl
  refine ⟨?_, h.seen_step (by rw [htext]), h.agentConfig_step, htools, ?_, fun key => ?_⟩
  · rw [overhear_config, overhear_config]
    exact h.config
  · rcases foreign_cached (w := w) hforeign with hknown | hcached
    · exact Or.inl hknown
    · rcases foreign_cached (w := w') hforeign' with hknown | hcached'
      · exact Or.inl (htools.mpr hknown)
      · rw [hcached, hcached']
        exact h.cached.imp (fun hknown => (toolsForeign_overhear w d channelName).mpr (Or.inl hknown)) id
  · rcases h.histories key with hshared | hshared | hsame
    · exact Or.inl (sharedWith_overhear hshared d)
    · exact Or.inr (Or.inl (sharedWith_overhear hshared d'))
    · rcases hw.foreign_step hd hforeign key with hshared | hkept
      · exact Or.inl hshared
      · rcases hw'.foreign_step hd' hforeign' key with hshared | hkept'
        · exact Or.inr (Or.inl hshared)
        · exact Or.inr (Or.inr (hkept.trans (hsame.trans hkept'.symm)))

/-- When a message of the channel reaches its thread, the turn is the same in both. -/
theorem Alike.own_turn (h : Alike channelName w w') (hw : Attributed w) (hw' : Attributed w')
    (hd : Isolated w d) (hd' : Isolated w' d) (hown : d.message.channelName = channelName) {turn : Turn}
    (hturn : turnAt w.orchestrator d.message d.env = some turn) :
    w.orchestrator.agent.historyFor turn.sessionId = w'.orchestrator.agent.historyFor turn.sessionId ∧
      (w.orchestrator.agent.historyFor turn.sessionId = [] ∨
        w.orchestrator.agent.cachedToolSpecsJson = w'.orchestrator.agent.cachedToolSpecsJson) := by
  have hturn' : turnAt w'.orchestrator d.message d.env = some turn :=
    (turnAt_congr h.config h.seen d.message d.env).symm.trans hturn
  obtain ⟨hshared, hknown⟩ := hd (by rw [hturn]; rfl)
  obtain ⟨hshared', hknown'⟩ := hd' (by rw [hturn']; rfl)
  rw [hown] at hshared hknown hshared' hknown'
  rw [turnAt_sessionId hturn]
  have hsame : w.orchestrator.agent.historyFor (threadKey d.message) =
      w'.orchestrator.agent.historyFor (threadKey d.message) :=
    ((h.histories _).resolve_left hshared).resolve_left hshared'
  refine ⟨hsame, ?_⟩
  by_cases hempty : w.orchestrator.agent.historyFor (threadKey d.message) = []
  · exact Or.inl hempty
  · refine Or.inr ?_
    by_cases hforeign : w.ToolsForeign channelName
    · -- another channel could have filled the cache: then it is filled in both runs
      have hfull := (hknown hempty).resolve_right (not_not.mpr hforeign)
      have hfull' := (hknown' (hsame ▸ hempty)).resolve_right (not_not.mpr (h.tools.mp hforeign))
      rw [hw.cached.resolve_left hfull, hw'.cached.resolve_left hfull', h.agentConfig]
    · exact h.cached.resolve_left hforeign

/-- The prompts for a message of the channel are the same in both. -/
theorem Alike.own_prompts (h : Alike channelName w w') (hw : Attributed w) (hw' : Attributed w')
    (hd : Isolated w d) (hd' : Isolated w' d) (hown : d.message.channelName = channelName) :
    promptsOf w.orchestrator d = promptsOf w'.orchestrator d := by
  unfold promptsOf
  rw [(orchestratorProcess_agent w.orchestrator d.message d.env).2.2.1,
    (orchestratorProcess_agent w'.orchestrator d.message d.env).2.2.1,
    ← turnAt_congr h.config h.seen d.message d.env]
  cases hturn : turnAt w.orchestrator d.message d.env with
  | none => rfl
  | some turn =>
    obtain ⟨hhistory, hcache⟩ := h.own_turn hw hw' hd hd' hown hturn
    show (agentProcessMessage w.orchestrator.agent turn d.env.turn).2.prompts =
      (agentProcessMessage w'.orchestrator.agent turn d.env.turn).2.prompts
    rw [(process_congr turn d.env.turn h.agentConfig hhistory hcache).1]

/-- **A message of the channel itself** leaves the states alike. -/
theorem Alike.own (h : Alike channelName w w') (hw : Attributed w) (hw' : Attributed w')
    (hd : Isolated w d) (hd' : Isolated w' d) (hown : d.message.channelName = channelName) :
    Alike channelName (overhear w d) (overhear w' d) := by
  have hsameTurn := turnAt_congr h.config h.seen d.message d.env
  have htools : ∀ v : Overheard, (overhear v d).ToolsForeign channelName ↔ v.ToolsForeign channelName := by
    intro v
    rw [toolsForeign_overhear]
    exact or_iff_left fun hforeign => hforeign.1 hown
  refine ⟨?_, h.seen_step rfl, h.agentConfig_step, (htools w).trans (h.tools.trans (htools w').symm),
    ?_, fun key => ?_⟩
  · rw [overhear_config, overhear_config]
    exact h.config
  · rw [htools]
    refine h.cached.imp_right fun hcached => ?_
    rw [overhear_agent, overhear_agent, ← hsameTurn]
    cases hturn : turnAt w.orchestrator d.message d.env with
    | none => exact hcached
    | some turn =>
      obtain ⟨hhistory, -⟩ := h.own_turn hw hw' hd hd' hown hturn
      exact process_cached_congr turn d.env.turn h.agentConfig hhistory hcached
  · rcases h.histories key with hshared | hshared | hsame
    · exact Or.inl (sharedWith_overhear hshared d)
    · exact Or.inr (Or.inl (sharedWith_overhear hshared d))
    · refine Or.inr (Or.inr ?_)
      by_cases hkey : key = threadKey d.message
      · rw [overhear_agent, overhear_agent, ← hsameTurn]
        cases hturn : turnAt w.orchestrator d.message d.env with
        | none => exact hsame
        | some turn =>
          obtain ⟨hhistory, hcache⟩ := h.own_turn hw hw' hd hd' hown hturn
          rw [hkey, ← turnAt_sessionId hturn]
          exact (process_congr turn d.env.turn h.agentConfig hhistory hcache).2
      · rw [overhear_other w d hkey, overhear_other w' d hkey]
        exact hsame

end Step

/-- **Two runs alike but for other channels show the same prompts.** -/
theorem Alike.promptsFor {channelName : Bytes} (key : Bytes) {ds ds' : List Delivery}
    (hds : List.Forall₂ (AlikeBut channelName) ds ds') :
    ∀ {w w' : Overheard}, Alike channelName w w' → Attributed w → Attributed w' →
      EachStep overhear Isolated w ds → EachStep overhear Isolated w' ds' →
      Channels.promptsFor channelName key w.orchestrator ds =
        Channels.promptsFor channelName key w'.orchestrator ds' := by
  induction hds with
  | nil => intro w w' _ _ _ _ _; rfl
  | @cons d d' ds ds' hd _ ih =>
    intro w w' h hw hw' hrun hrun'
    cases hd with
    | same =>
      by_cases hown : d.message.channelName = channelName
      · have hprompts := h.own_prompts hw hw' hrun.1 hrun'.1 hown
        have hrest := ih (h.own hw hw' hrun.1 hrun'.1 hown) (hw.step d) (hw'.step d) hrun.2 hrun'.2
        rw [Channels.promptsFor, Channels.promptsFor, hprompts,
          show Channels.promptsFor channelName key (deliver w.orchestrator d) ds = _ from hrest]
        rfl
      · have hrest := ih (h.other hw hw' hrun.1 hrun'.1 hown rfl) (hw.step d) (hw'.step d)
          hrun.2 hrun'.2
        rw [Channels.promptsFor, Channels.promptsFor, if_neg fun hkey => hown hkey.1,
          if_neg fun hkey => hown hkey.1]
        exact hrest
    | other hforeign htext =>
      have hforeign' : d'.message.channelName ≠ channelName := by
        rw [htext]
        exact hforeign
      have hrest := ih (h.other hw hw' hrun.1 hrun'.1 hforeign htext) (hw.step d) (hw'.step d')
        hrun.2 hrun'.2
      rw [Channels.promptsFor, Channels.promptsFor, if_neg fun hkey => hforeign hkey.1,
        if_neg fun hkey => hforeign' hkey.1]
      exact hrest

/-- **One run shows own texts**, from any attributed state on. -/
theorem ownTexts_of_isolated {o : Orchestrator} (hfresh : Fresh o) {ds : List Delivery}
    (h : EachStep overhear Isolated ⟨o, [], []⟩ ds) : OwnTexts o ds := by
  intro before d after hsplit
  have hattributed : Attributed (run overhear ⟨o, [], []⟩ before) :=
    run_preserves (fun w d hw => hw.step d) before _ hfresh.attributed
  have hlast : EachStep overhear Isolated ⟨o, [], []⟩ (before ++ [d]) :=
    h.of_initial ⟨after, by rw [hsplit, List.append_assoc, List.singleton_append]⟩
  have hshows := hattributed.shows hlast.last
  rw [run_overhear_orchestrator] at hshows
  exact hshows

/-- **When conversations do not leak**: in every run whose steps are isolated a prompt shows its own
    conversation, and two such runs that differ in the texts of other channels only show a channel's
    threads the same. -/
theorem conversations_apart {o : Orchestrator} (hfresh : Fresh o) :
    (∀ ds, EachStep overhear Isolated ⟨o, [], []⟩ ds → OwnTexts o ds) ∧
      ∀ channelName key ds ds', List.Forall₂ (AlikeBut channelName) ds ds' →
        EachStep overhear Isolated ⟨o, [], []⟩ ds → EachStep overhear Isolated ⟨o, [], []⟩ ds' →
        promptsFor channelName key o ds = promptsFor channelName key o ds' := by
  constructor
  · intro ds h
    exact ownTexts_of_isolated hfresh h
  · intro channelName key ds ds' halike h h'
    exact (Alike.refl channelName ⟨o, [], []⟩).promptsFor key halike hfresh.attributed hfresh.attributed h h'

/-! ## Two channels -/

/-- A message over a channel, in a conversation. -/
def spoken (channelName conversationId text : Bytes) : Delivery where
  message := { channelName := channelName, conversationId := conversationId, text := text }
  env := quietEnv

/-- Conversations that bear different names stay apart. -/
theorem conversations_apart_named :
    OwnTexts { agent := {} } [spoken (str "irc") (str "c") (str "a"), spoken (str "sms") (str "d") (str "b"),
        spoken (str "sms") (str "d") (str "b")] ∧
      promptsFor (str "sms") (str "d") { agent := {} }
          [spoken (str "irc") (str "c") (str "a"), spoken (str "sms") (str "d") (str "b"),
            spoken (str "sms") (str "d") (str "b")] =
        promptsFor (str "sms") (str "d") { agent := {} }
          [spoken (str "irc") (str "c") (str "x"), spoken (str "sms") (str "d") (str "b"),
            spoken (str "sms") (str "d") (str "b")] := by
  have hfresh : Fresh { agent := {} } := rfl
  have hrun : ∀ text ∈ [str "a", str "x"], EachStep overhear Isolated ⟨{ agent := {} }, [], []⟩
      [spoken (str "irc") (str "c") text, spoken (str "sms") (str "d") (str "b"),
        spoken (str "sms") (str "d") (str "b")] := by
    intro text htext
    rcases List.mem_pair.mp htext with rfl | rfl
    · exact ⟨by decide, by decide, by decide, trivial⟩
    · exact ⟨by decide, by decide, by decide, trivial⟩
  have ha := hrun _ List.mem_cons_self
  have hx := hrun _ (List.mem_cons_of_mem _ List.mem_cons_self)
  refine ⟨(conversations_apart hfresh).1 _ ha, (conversations_apart hfresh).2 _ _ _ _ ?_ ha hx⟩
  exact .cons (.other (by decide) rfl) (.cons (.same _) (.cons (.same _) .nil))

/-- **A conversation leaks** into one of the same name on another channel. -/
theorem conversation_leaks :
    ¬ OwnTexts { agent := {} }
        [spoken (str "irc") (str "c") (str "a"), spoken (str "sms") (str "c") (str "b")] ∧
      promptsFor (str "sms") (str "c") { agent := {} }
          [spoken (str "irc") (str "c") (str "a"), spoken (str "sms") (str "c") (str "b")] ≠
        promptsFor (str "sms") (str "c") { agent := {} }
          [spoken (str "irc") (str "c") (str "x"), spoken (str "sms") (str "c") (str "b")] := by
  constructor
  · intro h
    have hshown := h [spoken (str "irc") (str "c") (str "a")] (spoken (str "sms") (str "c") (str "b")) [] rfl
      [⟨str "user", str "a"⟩, ⟨str "assistant", str "ok"⟩] (by decide)
    obtain ⟨m, u, hu, hchannel, -⟩ := (hshown _ List.mem_cons_self).source
    -- nothing has been said over `sms` before
    have hnone : ∀ u ∈ (run overhear ⟨{ agent := {} }, [], []⟩
        [spoken (str "irc") (str "c") (str "a")]).said, u.channelName ≠ str "sms" := by decide
    exact hnone u hu hchannel
  · decide

end SmolClaw.Channels
