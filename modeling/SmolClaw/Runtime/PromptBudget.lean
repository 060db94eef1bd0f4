/-
  Whether the user's message reaches the model: the budget of the history and the prompt it is computed
  for (`agent_history_prompt_budget` and `build_prompt`, `src/runtime/agent.c`).

  1. **Program** — the budget is what the bound of the prompt leaves once a fixed reserve and the lengths
     of some of its parts are taken off; the history is cut to it, and the prompt is built section by
     section, the user's message last.

  2. **Room** — a builder that has room for more has written every section in full (`run_room_iff`), so
     the last section is complete exactly if all of them fit (`userMessage_whole_iff`).
-/
import Mathlib.Algebra.GroupWithZero.Nat
import SmolClaw.Runtime.Agent
import SmolClaw.Runtime.HistoryBounds
import SmolClaw.Runtime.Prompt

namespace SmolClaw.Runtime

open Lib.Run

/-! ## The agent and its prompt -/

/-- What `build_prompt` reads of a policy. -/
structure PromptPolicy where
  workspaceRoot : Bytes := []
  receiptsEnabled : Bool := false
  receiptsInjectSystemPrompt : Bool := false

/-- What the prompt and its budget read of an agent; the serialized tool list is kept with the number of
    tools it was made of. -/
structure PromptAgent where
  maxPromptBytes : Nat
  identity : Bytes
  workspace : Bytes := []
  runtimeEnvironment : Bytes
  policy : Option PromptPolicy := none
  includeWallTime : Bool := false
  toolCount : Nat := 0
  cachedToolSpecsJson : Option Bytes := none
  cachedToolSpecsToolCount : Nat := 0

/-- What they read of a turn. -/
structure PromptTurn where
  input : Bytes
  mediaContext : Bytes := []
  defaultToolSpecs : Bool := true

/-- What the surroundings answer: the formatted time, and the tools of the turn, serialized. -/
structure PromptEnv where
  now : Res Bytes
  serializedTools : Res Bytes

/-- What `agent_history_prompt_budget` reserves for the tool list. -/
def PromptAgent.toolBudget (agent : PromptAgent) : Nat :=
  let cached := (agent.cachedToolSpecsJson.getD []).length
  if cached = 0 then min (agent.toolCount * 384) sizeMax else cached

/-- What `agent_history_prompt_budget` reserves. -/
def reservedForPrompt (agent : PromptAgent) (turn : PromptTurn) (memoryContext : Bytes) : Nat :=
  [agent.identity.length, agent.workspace.length, agent.runtimeEnvironment.length, agent.toolBudget,
    turn.input.length, turn.mediaContext.length, memoryContext.length].foldl sizeAddSaturating 1024

/-- `agent_history_prompt_budget` -/
def agentHistoryPromptBudget (agent : PromptAgent) (turn : PromptTurn) (memoryContext : Bytes) : Nat :=
  if agent.maxPromptBytes = 0 then 0
  else
    let reserved := reservedForPrompt agent turn memoryContext
    if agent.maxPromptBytes ≤ reserved then 0
    else min (agent.maxPromptBytes - reserved) (agent.maxPromptBytes / 2)

/-- The workspace `build_prompt` shows: that of the agent, else the root of its policy. -/
def PromptAgent.shownWorkspace (agent : PromptAgent) : Bytes :=
  if agent.workspace = [] then (agent.policy.map PromptPolicy.workspaceRoot).getD [] else agent.workspace

/-- The policy asks for the section about receipts. -/
def PromptAgent.injectsReceipts (agent : PromptAgent) : Bool :=
  agent.policy.any fun policy => policy.receiptsEnabled && policy.receiptsInjectSystemPrompt

/-- `tool_specs_json_for_turn` -/
def toolSpecsJsonForTurn (agent : PromptAgent) (turn : PromptTurn) (env : PromptEnv) : Res Bytes :=
  match turn.defaultToolSpecs && agent.cachedToolSpecsToolCount == agent.toolCount,
    agent.cachedToolSpecsJson with
  | true, some cached => .ok cached
  | _, _ => env.serializedTools

/-- `append_line` for a message of the history. -/
def historyLine (m : HistoryMessage) : Bytes := m.role ++ str ": " ++ m.content ++ str "\n"

/-- What `sc_history_append_to_prompt` writes: the messages without orphans. -/
def historyText (history : List HistoryMessage) : Bytes := (pruneOrphans history).flatMap historyLine

/-- The time `append_date_time_section` shows, if the agent shows one. -/
def shownTime (agent : PromptAgent) (env : PromptEnv) : Res (Option Bytes) :=
  if agent.includeWallTime then env.now.map some else .ok none

/-- The sections of a prompt before the user's message, with the time and the tool list. -/
def promptSections (agent : PromptAgent) (history : List HistoryMessage) (memoryContext : Bytes)
    (time : Option Bytes) (specs : Bytes) : List PromptSection :=
  [⟨str "Identity", agent.identity⟩,
    ⟨str "Safety and autonomy", str "Follow security policy, approvals, and emergency stop state."⟩,
    ⟨str "Tool honesty", str "Only claim tool results that are present in the turn context."⟩] ++
  (if agent.injectsReceipts then [⟨str "Tool receipts",
    str "Use tool results, but do not include receipt tokens in user-visible responses."⟩] else []) ++
  [⟨str "Workspace", agent.shownWorkspace⟩,
    ⟨str "Runtime environment", agent.runtimeEnvironment⟩,
    ⟨str "Memory context", memoryContext⟩,
    ⟨str "Skills", str "No skills loaded."⟩,
    ⟨str "Channel and media", str "Text channel only."⟩] ++
  (time.map fun formatted => ⟨str "Date and time", formatted⟩).toList ++
  [⟨str "Tools", specs⟩, ⟨str "Recent history", historyText history⟩]

/-- The sections `build_prompt` writes before the user's message, if it can. -/
def sectionsBefore (agent : PromptAgent) (turn : PromptTurn) (history : List HistoryMessage)
    (memoryContext : Bytes) (env : PromptEnv) : Res (List PromptSection) := do
  let time ← shownTime agent env
  let specs ← toolSpecsJsonForTurn agent turn env
  return promptSections agent history memoryContext time specs

/-- The section with the user's message. -/
def userSection (turn : PromptTurn) : PromptSection := ⟨str "User message", turn.input⟩

/-- `build_prompt`, with the text it makes. -/
def buildPromptText (agent : PromptAgent) (turn : PromptTurn) (history : List HistoryMessage)
    (memoryContext : Bytes) (env : PromptEnv) : Res Bytes := do
  let sections ← sectionsBefore agent turn history memoryContext env
  let builder ← runOk PromptBuilder.appendSection (.init agent.maxPromptBytes)
    (sections ++ [userSection turn])
  return builder.finish

/-- The history `prune_history_for_prompt_budget` leaves. -/
def prunedForPrompt (agent : PromptAgent) (turn : PromptTurn) (history : List HistoryMessage)
    (memoryContext : Bytes) : List HistoryMessage :=
  pruneToBudget history (agentHistoryPromptBudget agent turn memoryContext)

/-! ## Room -/

/-- How long a section is, its heading included. -/
def PromptSection.size (s : PromptSection) : Nat := s.title.length + s.body.length + 6

/-- How long sections are together. -/
def promptSize (sections : List PromptSection) : Nat := (sections.map PromptSection.size).sum

/-- There is room for `more` bytes, and the two that a builder keeps to spare. -/
def PromptBuilder.Spare (builder : PromptBuilder) (more : Nat) : Prop :=
  builder.text.length + more + 2 ≤ builder.maxBytes

/-- **A call that leaves room for more has written the whole section**: a section that is cut takes all but
    the two bytes to spare. -/
theorem PromptBuilder.next_room_iff {builder : PromptBuilder} {s : PromptSection} (htitle : s.title ≠ [])
    {more : Nat} (hmore : 0 < more) : (builder.next s).Spare more ↔ builder.Spare (s.size + more) := by
  unfold Spare PromptSection.size
  rw [next_maxBytes, next_eq]
  by_cases hwrites : builder.Writes s
  · rw [if_pos hwrites]
    show (builder.text ++ sectionText s.title _).length + more + 2 ≤ builder.maxBytes ↔ _
    rw [List.length_append, sectionText_length, List.length_take]
    unfold writtenBody bodyLength
    split
    · omega
    · split
      · split
        · omega
        · omega
      · omega
  · rw [if_neg hwrites]
    have hfull : builder.maxBytes ≤ builder.text.length := by
      by_contra hroom
      exact hwrites ⟨htitle, .inr (by omega)⟩
    constructor
    · intro h
      omega
    · intro h
      omega

/-- A section for which there is room is written in full. -/
theorem PromptBuilder.next_whole {builder : PromptBuilder} {s : PromptSection} (htitle : s.title ≠ [])
    (hroom : builder.Spare s.size) : (builder.next s).text = builder.text ++ sectionText s.title s.body := by
  unfold Spare PromptSection.size at hroom
  have hwrites : builder.Writes s := ⟨htitle, .inr (by omega)⟩
  have hbody : builder.writtenBody s = s.body.length := by
    unfold writtenBody bodyLength
    split
    · rfl
    · exact if_neg (by omega)
  rw [next_eq, if_pos hwrites, hbody, List.take_length]

/-- A section that is not empty is written in full only where there is room for it. -/
theorem PromptBuilder.room_of_whole {builder : PromptBuilder} {s : PromptSection} (hmax : 0 < builder.maxBytes)
    (hbody : s.body ≠ []) (h : (builder.next s).text = builder.text ++ sectionText s.title s.body) :
    builder.Spare s.size := by
  have hlen := congrArg List.length h
  have hpos := List.length_pos_iff.mpr hbody
  rw [next_eq] at hlen
  rw [List.length_append, sectionText_length] at hlen
  by_cases hwrites : builder.Writes s
  · rw [if_pos hwrites, List.length_append, sectionText_length, List.length_take] at hlen
    unfold writtenBody bodyLength at hlen
    unfold Spare PromptSection.size
    split at hlen
    · omega
    · split at hlen
      · split at hlen
        · omega
        · omega
      · obtain ⟨-, h | h⟩ := hwrites
        · omega
        · omega
  · rw [if_neg hwrites] at hlen
    omega

/-- **A run that leaves room for more has written every section in full.** -/
theorem PromptBuilder.run_room_iff {more : Nat} (hmore : 0 < more) (sections : List PromptSection) :
    ∀ builder : PromptBuilder, (∀ s ∈ sections, s.title ≠ []) →
      ((run next builder sections).Spare more ↔ builder.Spare (promptSize sections + more)) := by
  induction sections with
  | nil =>
    intro builder _
    rw [promptSize, List.map_nil, List.sum_nil, Nat.zero_add]
    exact Iff.rfl
  | cons s sections ih =>
    intro builder htitles
    have hsize : promptSize (s :: sections) + more = s.size + (promptSize sections + more) :=
      Nat.add_assoc _ _ _
    have hrest := ih (builder.next s) fun r hr => htitles r (List.mem_cons_of_mem s hr)
    rw [hsize, ← builder.next_room_iff (htitles s List.mem_cons_self) (by omega)]
    exact hrest

/-- A builder that accepts every title takes the sections one after the other. -/
theorem runOk_appendSection (sections : List PromptSection) :
    ∀ builder : PromptBuilder, (∀ s ∈ sections, s.title ≠ []) →
      runOk PromptBuilder.appendSection builder sections = .ok (run PromptBuilder.next builder sections) := by
  induction sections with
  | nil => intro builder _; rfl
  | cons s sections ih =>
    intro builder htitles
    have hstep : builder.appendSection s = .ok (builder.next s) := by
      unfold PromptBuilder.next PromptBuilder.appendSection
      rw [if_neg (htitles s List.mem_cons_self)]
      split
      · rfl
      · split
        · rfl
        · rfl
    rw [runOk, hstep]
    exact ih (builder.next s) fun r hr => htitles r (List.mem_cons_of_mem s hr)

/-! ## The user's message -/

theorem promptSections_titles {agent : PromptAgent} {history : List HistoryMessage} {memoryContext : Bytes}
    {time : Option Bytes} {specs : Bytes} :
    ∀ s ∈ promptSections agent history memoryContext time specs, s.title ≠ [] := by
  have htitle : ∀ word : String, word.toList ≠ [] → str word ≠ [] := fun word hne hnil =>
    hne (List.map_eq_nil_iff.mp hnil)
  intro s hs
  simp only [promptSections, List.append_assoc, List.mem_append, List.mem_cons, List.not_mem_nil, or_false,
    List.mem_ite_nil_right, Option.mem_toList, Option.map_eq_some_iff] at hs
  rcases hs with (rfl | rfl | rfl) | ⟨-, rfl⟩ | (rfl | rfl | rfl | rfl | rfl) | ⟨_, -, rfl⟩ | rfl | rfl
  all_goals exact htitle _ (by decide)

theorem sectionsBefore_eq_ok {agent : PromptAgent} {turn : PromptTurn} {history : List HistoryMessage}
    {memoryContext : Bytes} {env : PromptEnv} {sections : List PromptSection}
    (h : sectionsBefore agent turn history memoryContext env = .ok sections) :
    ∃ time specs, shownTime agent env = .ok time ∧ toolSpecsJsonForTurn agent turn env = .ok specs ∧
      sections = promptSections agent history memoryContext time specs := by
  unfold sectionsBefore at h
  obtain ⟨time, htime, h⟩ := Res.bind_eq_ok.mp h
  obtain ⟨specs, hspecs, h⟩ := Res.bind_eq_ok.mp h
  exact ⟨time, specs, htime, hspecs, (Except.ok.inj h).symm⟩

/-- A prompt is the text of its sections. -/
theorem buildPromptText_eq {agent : PromptAgent} {turn : PromptTurn} {history : List HistoryMessage}
    {memoryContext : Bytes} {env : PromptEnv} {sections : List PromptSection}
    (hsections : sectionsBefore agent turn history memoryContext env = .ok sections) :
    buildPromptText agent turn history memoryContext env =
      .ok (run PromptBuilder.next (.init agent.maxPromptBytes) (sections ++ [userSection turn])).finish := by
  have htitles : ∀ s ∈ sections ++ [userSection turn], s.title ≠ [] := by
    obtain ⟨time, specs, -, -, rfl⟩ := sectionsBefore_eq_ok hsections
    intro s hs
    rcases List.mem_append.mp hs with hs | hs
    · exact promptSections_titles s hs
    · rw [List.mem_singleton.mp hs]
      show str "User message" ≠ []
      decide
  show Except.bind (sectionsBefore _ _ _ _ _) _ = _
  rw [hsections]
  show Except.bind (runOk _ _ _) _ = _
  rw [runOk_appendSection _ _ htitles]
  rfl

/-- **When the user's message reaches the model**: with a budget for the history, the prompt ends with the
    complete section of a message exactly if all sections together leave two bytes to spare. -/
theorem userMessage_whole_iff {agent : PromptAgent} {turn : PromptTurn} {history : List HistoryMessage}
    {memoryContext : Bytes} {env : PromptEnv} {sections : List PromptSection} (hinput : turn.input ≠ [])
    (hbudget : agentHistoryPromptBudget agent turn memoryContext ≠ 0)
    (hsections : sectionsBefore agent turn (prunedForPrompt agent turn history memoryContext)
      memoryContext env = .ok sections) :
    buildPromptText agent turn (prunedForPrompt agent turn history memoryContext) memoryContext env =
        .ok ((run PromptBuilder.next (.init agent.maxPromptBytes) sections).finish ++
          sectionText (str "User message") turn.input) ↔
      promptSize (sections ++ [userSection turn]) + 2 ≤ agent.maxPromptBytes := by
  have htitles : ∀ s ∈ sections, s.title ≠ [] := by
    obtain ⟨time, specs, -, -, rfl⟩ := sectionsBefore_eq_ok hsections
    exact promptSections_titles
  have huser : (userSection turn).title ≠ [] := by
    show str "User message" ≠ []
    decide
  have hmax : 0 < agent.maxPromptBytes := by
    by_contra hzero
    exact hbudget (if_pos (by omega))
  have hbuilt : buildPromptText agent turn (prunedForPrompt agent turn history memoryContext)
      memoryContext env =
        .ok ((run PromptBuilder.next (.init agent.maxPromptBytes) sections).next (userSection turn)).finish := by
    rw [buildPromptText_eq hsections, run_concat]
  have hkeep : (run PromptBuilder.next (.init agent.maxPromptBytes) sections).maxBytes = agent.maxPromptBytes :=
    run_preserves (I := fun b : PromptBuilder => b.maxBytes = agent.maxPromptBytes)
      (fun b s hb => (b.next_maxBytes s).trans hb) sections (PromptBuilder.init agent.maxPromptBytes) rfl
  have hpos : 0 < (userSection turn).size := Nat.succ_pos _
  have hroom := PromptBuilder.run_room_iff hpos sections (.init agent.maxPromptBytes) htitles
  have hsize : promptSize (sections ++ [userSection turn]) = promptSize sections + (userSection turn).size := by
    unfold promptSize
    rw [List.map_append, List.sum_append]
    rfl
  have hgoal : promptSize (sections ++ [userSection turn]) + 2 ≤ agent.maxPromptBytes ↔
      (PromptBuilder.init agent.maxPromptBytes).Spare (promptSize sections + (userSection turn).size) := by
    unfold PromptBuilder.Spare
    rw [hsize, List.length_nil, Nat.zero_add]
  rw [hbuilt, hgoal, ← hroom]
  constructor
  · intro h
    exact PromptBuilder.room_of_whole (by omega) hinput (Except.ok.inj h)
  · intro h
    exact congrArg Except.ok (PromptBuilder.next_whole huser h)

/-- A narrow bound, no tools, and the workspace named by the policy alone. -/
def narrowAgent (workspaceRoot : Bytes) : PromptAgent :=
  { maxPromptBytes := 1100, identity := str "a", runtimeEnvironment := str "r",
    policy := some { workspaceRoot } }

/-- Nothing fails, and there are no tools to list. -/
def plainEnv : PromptEnv := ⟨.ok [], .ok (str "[]")⟩

/-- A short workspace leaves room for the message. -/
theorem userMessage_whole_iff_short :
    buildPromptText (narrowAgent (str "/w")) { input := str "hi" }
        (prunedForPrompt (narrowAgent (str "/w")) { input := str "hi" } [] []) [] plainEnv =
        .ok ((run PromptBuilder.next (.init 1100)
            (promptSections (narrowAgent (str "/w")) [] [] none (str "[]"))).finish ++
          sectionText (str "User message") (str "hi")) ↔
      promptSize (promptSections (narrowAgent (str "/w")) [] [] none (str "[]") ++
        [userSection { input := str "hi" }]) + 2 ≤ 1100 :=
  @userMessage_whole_iff (narrowAgent (str "/w")) { input := str "hi" } [] [] plainEnv _ (by decide)
    (by decide) rfl

/-- A policy with a workspace root of 800 bytes, for which nothing is reserved, leaves none. -/
theorem not_whole_workspaceRoot :
    ¬ ∀ (agent : PromptAgent) (turn : PromptTurn) (history : List HistoryMessage) (memoryContext : Bytes)
        (env : PromptEnv) (prompt : Bytes), turn.input ≠ [] →
        agentHistoryPromptBudget agent turn memoryContext ≠ 0 →
        buildPromptText agent turn (prunedForPrompt agent turn history memoryContext) memoryContext env =
          .ok prompt → sectionText (str "User message") turn.input <:+ prompt := by
  intro h
  have hwhole := h (narrowAgent (List.replicate 800 (chr 'w'))) { input := str "hi" } [] [] plainEnv _
    (by decide) (by decide) (buildPromptText_eq rfl)
  exact absurd hwhole (by decide +kernel)

end SmolClaw.Runtime
