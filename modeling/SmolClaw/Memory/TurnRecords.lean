/-
  Turns kept in memory (`persist_turn`, `src/runtime/agent.c`, on the store of
  `src/memory/memory_common.c`).

  1. **Program** — a turn that succeeded is put into the agent's turn namespace, under a key made of the
     agent's counter of such turns.  `sc_agent_new` starts that counter at zero.

  2. **Runs** — any number of agents over one store, in any number of processes: `Step` is a new agent, a turn
     of an agent that is running, or a restart, behind which the memory holds the same entries again (as one
     in a Markdown file does: `restart_markdown`).

  3. **Specification** — `TurnsKept`: beside the entries of the beginning there is one entry for each turn.

  4. **Defect** — the next agent counts from one again, and the store replaces the entry of an equal namespace
     and key: the second process writes its turns over those of the first one.

  5. **Result** — `turnsKept_iff`: a run keeps its turns exactly if no two of them have one namespace and one
     number, and no key was taken in the beginning (`Numbered`).
-/
import SmolClaw.Core.WholeNumber
import SmolClaw.Memory.Markdown

namespace SmolClaw.Memory

open Lib.Table

/-! ## Program -/

/-- What `persist_turn` uses of `sc_agent`; the counter has 64 bits. -/
structure TurnAgent where
  turnNamespace : Bytes
  turnCounter : Nat := 0

/-- `sc_agent_new`: the option `turn_namespace`, or the default. -/
def agentNew (turnNamespace : Bytes) : TurnAgent :=
  { turnNamespace := if turnNamespace = [] then str "smolclaw.turns" else turnNamespace }

/-- What `persist_turn` uses of `sc_turn`. -/
structure AgentTurn where
  input : Bytes
  sessionId : Bytes := []
  disableMemory : Bool := false

/-- `append_line` -/
def appendLine (left right : Bytes) : Bytes := left ++ str ": " ++ right ++ str "\n"

/-- What is kept of a turn. -/
def turnContent (input output : Bytes) : Bytes :=
  appendLine (str "user") input ++ appendLine (str "assistant") output

/-- `"turn-%llu"` -/
def turnKey (number : Nat) : Bytes := str "turn-" ++ decimal number

/-- The number of the agent's next turn: `++agent->turn_counter`. -/
def TurnAgent.nextNumber (agent : TurnAgent) : Nat := (agent.turnCounter + 1) % 2 ^ 64

/-- The record of a turn. -/
def turnRecord (agent : TurnAgent) (turn : AgentTurn) (output : Bytes) : MemoryRecord :=
  { id := [], namespaceName := agent.turnNamespace, sessionId := turn.sessionId, category := str "turn"
    key := turnKey agent.nextNumber, value := turnContent turn.input output, score := ⟨0x3FF0000000000000⟩
    importance := 1, supersededById := [], source := [], metadataJson := [], redactionState := 0
    contentRef := [], allowSensitiveContent := false }

/-- `persist_turn`, for an agent with a memory: the agent afterwards, and the store or the failure. -/
def persistTurn (agent : TurnAgent) (store : MemoryStore) (turn : AgentTurn) (output : Bytes) (env : PutEnv) :
    TurnAgent × Res MemoryStore :=
  if turn.disableMemory then (agent, .ok store)
  else
    ({ agent with turnCounter := agent.nextNumber },
      if 64 ≤ (turnKey agent.nextNumber).length then Status.io "sc.agent.persist.key_failed"
      else storePut store env (turnRecord agent turn output))

/-! ## Runs -/

/-- The agents made so far, how many of them belong to processes that are over, and the store. -/
structure World where
  agents : List TurnAgent := []
  ended : Nat := 0
  store : MemoryStore := []

/-- A turn that was persisted: the agent that did it, by its place, and what it did. -/
structure PersistedTurn where
  agent : Nat
  namespaceName : Bytes
  number : Nat
  input : Bytes
  output : Bytes

/-- The entry of a turn, by its namespace and key. -/
def PersistedTurn.slot (t : PersistedTurn) : Bytes × Bytes := (t.namespaceName, turnKey t.number)

/-- What the entry of a turn should say. -/
def PersistedTurn.entry (t : PersistedTurn) : Bytes × Bytes := (t.namespaceName, turnContent t.input t.output)

/-- What an entry says. -/
def MemoryEntry.said (e : MemoryEntry) : Bytes × Bytes := (e.namespaceName, e.content)

/-- A memory that was opened again holds the entries that it held. -/
def Reopened (store reopened : MemoryStore) : Prop :=
  (reopened.map MemoryEntry.asRecord).Perm (store.map MemoryEntry.asRecord)

/-- One step, and the turn that it persists. -/
inductive Step : World → Option PersistedTurn → World → Prop
  | newAgent (w : World) (turnNamespace : Bytes) :
      Step w none { w with agents := w.agents ++ [agentNew turnNamespace] }
  | restart (w : World) {reopened : MemoryStore} (h : Reopened w.store reopened) :
      Step w none { w with ended := w.agents.length, store := reopened }
  | turn (w : World) {i : Nat} {agent after : TurnAgent} {turn : AgentTurn} {output : Bytes} {env : PutEnv}
      {store : MemoryStore} (running : w.ended ≤ i) (hagent : w.agents[i]? = some agent)
      (memory : turn.disableMemory = false)
      (h : persistTurn agent w.store turn output env = (after, .ok store)) :
      Step w (some ⟨i, agent.turnNamespace, agent.nextNumber, turn.input, output⟩)
        { w with agents := w.agents.set i after, store := store }
  | refused (w : World) {i : Nat} {agent after : TurnAgent} {turn : AgentTurn} {output : Bytes} {env : PutEnv}
      {e : ScError} (running : w.ended ≤ i) (hagent : w.agents[i]? = some agent)
      (h : persistTurn agent w.store turn output env = (after, .error e)) :
      Step w none { w with agents := w.agents.set i after }

/-- A run, with the turns that it persists in their order. -/
inductive Run (start : World) : List PersistedTurn → World → Prop
  | start : Run start [] start
  | step {turns : List PersistedTurn} {w w' : World} {persisted : Option PersistedTurn}
      (h : Run start turns w) (hstep : Step w persisted w') : Run start (turns ++ persisted.toList) w'

/-! ## Specification -/

/-- **Turns are kept**: every entry of the beginning is there, and one entry for each turn, with its input and
    its output. -/
def TurnsKept (before : MemoryStore) (turns : List PersistedTurn) (after : MemoryStore) : Prop :=
  (after.map MemoryEntry.said).Perm (before.map MemoryEntry.said ++ turns.map PersistedTurn.entry)

/-- No number is used twice in one namespace, and none whose key was taken. -/
structure Numbered (before : MemoryStore) (turns : List PersistedTurn) : Prop where
  numbers : (turns.map fun t => (t.namespaceName, t.number)).Nodup
  unused : ∀ t ∈ turns, t.slot ∉ before.map MemoryEntry.slot

/-! ## One step -/

theorem turnKey_injective {m n : Nat} (h : turnKey m = turnKey n) : m = n := by
  have hdigits : decimal m = decimal n := List.append_cancel_left h
  rw [← decimalValue_decimal m, hdigits, decimalValue_decimal]

theorem slot_eq_iff {t u : PersistedTurn} :
    t.slot = u.slot ↔ (t.namespaceName, t.number) = (u.namespaceName, u.number) := by
  rw [PersistedTurn.slot, PersistedTurn.slot, Prod.mk.injEq, Prod.mk.injEq]
  exact and_congr_right fun _ => ⟨turnKey_injective, congrArg turnKey⟩

/-- A slot is taken exactly by the number in the namespace. -/
theorem mem_slots {turns : List PersistedTurn} {t : PersistedTurn} :
    t.slot ∈ turns.map PersistedTurn.slot ↔
      (t.namespaceName, t.number) ∈ turns.map fun t => (t.namespaceName, t.number) := by
  rw [List.mem_map, List.mem_map]
  exact exists_congr fun u => and_congr_right fun _ => slot_eq_iff

/-- **What a turn does to the store**: it puts its entry into its slot. -/
theorem persistTurn_ok {agent after : TurnAgent} {store store' : MemoryStore} {turn : AgentTurn}
    {output : Bytes} {env : PutEnv} (hmemory : turn.disableMemory = false)
    (h : persistTurn agent store turn output env = (after, .ok store')) :
    ∃ e : MemoryEntry, e.slot = (agent.turnNamespace, turnKey agent.nextNumber) ∧
      e.said = (agent.turnNamespace, turnContent turn.input output) ∧
      store' = upsert MemoryEntry.slot e store := by
  rw [persistTurn, hmemory, if_neg Bool.false_ne_true] at h
  have hput := congrArg Prod.snd h
  dsimp only at hput
  split at hput
  · exact absurd hput (Status.io_ne_ok _ _)
  · obtain ⟨id, now, -, -, rfl⟩ := storePut_ok hput
    exact ⟨_, rfl, rfl, rfl⟩

/-- What holds of every run: the slots that are taken, and whether an entry was lost. -/
structure Tracked (before : MemoryStore) (turns : List PersistedTurn) (after : MemoryStore) : Prop where
  slots : ∀ s, s ∈ after.map MemoryEntry.slot ↔
    s ∈ before.map MemoryEntry.slot ∨ s ∈ turns.map PersistedTurn.slot
  length_le : after.length ≤ before.length + turns.length
  kept : Numbered before turns → TurnsKept before turns after
  numbered : after.length = before.length + turns.length → Numbered before turns

theorem tracked_start (before : MemoryStore) : Tracked before [] before where
  slots s := by rw [List.map_nil]; exact (or_iff_left List.not_mem_nil).symm
  length_le := Nat.le_refl _
  kept _ := by rw [TurnsKept, List.map_nil, List.append_nil]
  numbered _ := ⟨List.nodup_nil, fun _ h => absurd h List.not_mem_nil⟩

/-- Opening the memory again loses nothing. -/
theorem Tracked.reopened {before after reopened : MemoryStore} {turns : List PersistedTurn}
    (h : Tracked before turns after) (hsame : Reopened after reopened) : Tracked before turns reopened := by
  have hlen : reopened.length = after.length := by simpa using hsame.length_eq
  have hslots : (reopened.map MemoryEntry.slot).Perm (after.map MemoryEntry.slot) := by
    have hview := hsame.map fun r => (r.namespaceName, r.key)
    rwa [List.map_map, List.map_map] at hview
  have hsaid : (reopened.map MemoryEntry.said).Perm (after.map MemoryEntry.said) := by
    have hview := hsame.map fun r => (r.namespaceName, r.value)
    rwa [List.map_map, List.map_map] at hview
  exact {
    slots := fun s => hslots.mem_iff.trans (h.slots s)
    length_le := hlen ▸ h.length_le
    kept := fun hnumbered => hsaid.trans (h.kept hnumbered)
    numbered := fun hcount => h.numbered (hlen ▸ hcount) }

/-- A turn under a new key adds its entry. -/
theorem Tracked.added {before after : MemoryStore} {turns : List PersistedTurn}
    (h : Tracked before turns after) {t : PersistedTurn} {e : MemoryEntry} (hslot : e.slot = t.slot)
    (hsaid : e.said = t.entry) (hnew : t.slot ∉ after.map MemoryEntry.slot) :
    Tracked before (turns ++ [t]) (after ++ [e]) where
  slots s := by
    rw [List.map_append, List.map_append, List.mem_append, List.mem_append, h.slots s, List.map_singleton,
      List.map_singleton, hslot, or_assoc]
  length_le := by
    have hle := h.length_le
    rw [List.length_append, List.length_append, List.length_singleton, List.length_singleton]
    omega
  kept hnumbered := by
    have hbefore : Numbered before turns := by
      refine ⟨?_, fun u hu => hnumbered.unused u (List.mem_append_left _ hu)⟩
      have hnodup := hnumbered.numbers
      rw [List.map_append] at hnodup
      exact hnodup.of_append_left
    have hkept := (h.kept hbefore).append_right [t.entry]
    rwa [TurnsKept, List.map_append, List.map_append, List.map_singleton, List.map_singleton, hsaid,
      ← List.append_assoc]
  numbered hcount := by
    rw [List.length_append, List.length_append, List.length_singleton, List.length_singleton] at hcount
    have hnumbered := h.numbered (by omega)
    rw [h.slots, not_or] at hnew
    constructor
    · rw [List.map_append, List.map_singleton, ← List.concat_eq_append]
      exact hnumbered.numbers.concat fun hmem => hnew.2 (mem_slots.mpr hmem)
    · intro u hu
      rcases List.mem_append.mp hu with hu | hu
      · exact hnumbered.unused u hu
      · rw [List.mem_singleton.mp hu]
        exact hnew.1

/-- A turn under a key that is taken replaces an entry, for good. -/
theorem Tracked.replaced {before after : MemoryStore} {turns : List PersistedTurn}
    (h : Tracked before turns after) {t : PersistedTurn} {e : MemoryEntry} (hslot : e.slot = t.slot)
    (htaken : t.slot ∈ after.map MemoryEntry.slot) :
    Tracked before (turns ++ [t]) (upsert MemoryEntry.slot e after) := by
  have htaken' : e.slot ∈ after.map MemoryEntry.slot := by
    rw [hslot]
    exact htaken
  have hslots := map_key_upsert htaken'
  have hlen : (upsert MemoryEntry.slot e after).length = after.length := by
    simpa using congrArg List.length hslots
  have hle := h.length_le
  exact {
    slots := fun s => by
      rw [hslots, h.slots s, List.map_append, List.mem_append, List.map_singleton, List.mem_singleton]
      constructor
      · rintro (hs | hs)
        · exact Or.inl hs
        · exact Or.inr (Or.inl hs)
      · rintro (hs | hs | rfl)
        · exact Or.inl hs
        · exact Or.inr hs
        · exact (h.slots t.slot).mp htaken
    length_le := by
      rw [hlen, List.length_append]
      omega
    kept := fun hnumbered => by
      -- the key was taken in the beginning, or by an earlier turn
      rcases (h.slots t.slot).mp htaken with hbefore | hturn
      · exact absurd hbefore (hnumbered.unused t (List.mem_append_right _ List.mem_cons_self))
      · have hnodup := hnumbered.numbers
        rw [List.map_append, List.map_singleton] at hnodup
        exact absurd (List.mem_singleton_self _) (List.disjoint_of_nodup_append hnodup (mem_slots.mp hturn))
    numbered := fun hcount => by
      rw [hlen, List.length_append, List.length_singleton] at hcount
      omega }

/-! ## Runs -/

/-- **One step keeps track.** -/
theorem Tracked.step {before : MemoryStore} {turns : List PersistedTurn} {w w' : World}
    {persisted : Option PersistedTurn} (h : Tracked before turns w.store) (hstep : Step w persisted w') :
    Tracked before (turns ++ persisted.toList) w'.store := by
  cases hstep with
  | newAgent turnNamespace =>
    rw [Option.toList_none, List.append_nil]
    exact h
  | restart hsame =>
    rw [Option.toList_none, List.append_nil]
    exact h.reopened hsame
  | turn running hagent memory hpersist =>
    obtain ⟨e, hslot, hsaid, rfl⟩ := persistTurn_ok memory hpersist
    rw [Option.toList_some]
    by_cases htaken : e.slot ∈ w.store.map MemoryEntry.slot
    · refine h.replaced hslot ?_
      rw [hslot] at htaken
      exact htaken
    · show Tracked before _ (upsert MemoryEntry.slot e w.store)
      rw [upsert_of_not_mem htaken]
      rw [hslot] at htaken
      exact h.added hslot hsaid htaken
  | refused running hagent hpersist =>
    rw [Option.toList_none, List.append_nil]
    exact h

theorem Run.tracked {start w : World} {turns : List PersistedTurn} (h : Run start turns w) :
    Tracked start.store turns w.store := by
  induction h with
  | start => exact tracked_start start.store
  | step _ hstep ih => exact ih.step hstep

/-- **A run keeps its turns exactly if their numbers are all different**, within each namespace, and none
    belongs to an entry of the beginning. -/
theorem turnsKept_iff {start w : World} {turns : List PersistedTurn} (h : Run start turns w) :
    TurnsKept start.store turns w.store ↔ Numbered start.store turns := by
  have htracked := h.tracked
  constructor
  · intro hkept
    refine htracked.numbered ?_
    have hlen := hkept.length_eq
    rwa [List.length_append, List.length_map, List.length_map, List.length_map] at hlen
  · exact htracked.kept

/-- **A memory in a Markdown file restarts.** -/
theorem restart_markdown {m reopened : MarkdownMemory} {text : Bytes} (hm : MarkdownOk m)
    (hwritten : m.written = some text) (hbytes : text.length ≤ importMaxBytes)
    (hlen : m.store.length ≤ importMaxRecords) {env : Nat → PutEnv} {path : Bytes}
    (hclock : ∀ i, ∃ now, (env i).clock = .ok now) (hpath : path ≠ [])
    (hopen : markdownOpen env path (some text) = .ok reopened) (agents : List TurnAgent) (ended : Nat) :
    Step ⟨agents, ended, m.store⟩ none ⟨agents, agents.length, reopened.store⟩ := by
  obtain ⟨m', hagain, hperm, -⟩ := hm.survives text hwritten hbytes hlen env path hclock hpath
  obtain rfl := Except.ok.inj (hopen.symm.trans hagain)
  exact Step.restart ⟨agents, ended, m.store⟩ hperm

/-! ## Two processes -/

/-- A turn whose texts are short ASCII. -/
def firstTurn : AgentTurn := { input := str "hi" }

section FirstTurn

variable {namespaceName : Bytes}

theorem firstKey : turnKey (agentNew namespaceName).nextNumber = str "turn-1" := by
  rw [turnKey, show (agentNew namespaceName).nextNumber = 1 from rfl, decimal_of_lt (by decide)]
  rfl

theorem firstRecord_ok (hname : namespaceName = [] ∨ namespaceName = str "notes") :
    (turnRecord (agentNew namespaceName) firstTurn (str "yo")).Ok := by
  have htext : ∀ {s : Bytes} {n : Nat}, s.all (fun b => decide (b ≤ 0x7F)) = true → s.length ≤ n →
      TextOk s n :=
    fun hs hlen => ⟨hlen, utf8_ascii fun b hb => of_decide_eq_true (List.all_eq_true.mp hs b hb)⟩
  have hkey : (turnRecord (agentNew namespaceName) firstTurn (str "yo")).key = str "turn-1" := firstKey
  rcases hname with rfl | rfl <;> exact {
    namespaceName_ne := by decide
    key_ne := by rw [hkey]; decide
    key_free := by rw [hkey]; decide
    key_plain := Or.inr (by rw [hkey]; decide)
    state := rfl
    namespaceName := htext (by decide) (by decide)
    sessionId := htext (by decide) (by decide)
    category := htext (by decide) (by decide)
    key := by rw [hkey]; exact htext (by decide) (by decide)
    value := htext (by decide) (by decide)
    source := htext (by decide) (by decide)
    metadataJson := htext (by decide) (by decide)
    metadata_object := rfl }

/-- The first turn of an agent. -/
def PersistedTurn.first (i : Nat) (namespaceName : Bytes) : PersistedTurn :=
  ⟨i, (agentNew namespaceName).turnNamespace, 1, str "hi", str "yo"⟩

/-- Behind the first turn of an agent. -/
def World.afterFirst (w : World) (i : Nat) (namespaceName : Bytes) : World :=
  { w with
    agents := w.agents.set i { agentNew namespaceName with turnCounter := 1 }
    store := upsert MemoryEntry.slot
      ((turnRecord (agentNew namespaceName) firstTurn (str "yo")).toEntry (uuidV4 (Vector.replicate 16 0)) 11)
      w.store }

/-- Every agent persists its first turn under the number one. -/
theorem firstTurn_step {w : World} {i : Nat} (hname : namespaceName = [] ∨ namespaceName = str "notes")
    (running : w.ended ≤ i) (hagent : w.agents[i]? = some (agentNew namespaceName)) :
    Step w (some (.first i namespaceName)) (w.afterFirst i namespaceName) := by
  have hpersist : persistTurn (agentNew namespaceName) w.store firstTurn (str "yo") (steadyEnv 0) =
      ({ agentNew namespaceName with turnCounter := 1 }, .ok (w.afterFirst i namespaceName).store) := by
    rw [persistTurn, if_neg (by decide), firstKey, if_neg (by decide),
      storePut_of_ok (firstRecord_ok hname) rfl rfl]
    rfl
  exact Step.turn w running hagent rfl hpersist

end FirstTurn

/-- One process with one turn. -/
theorem first_run : Run {} [.first 0 []] (World.afterFirst { agents := [agentNew []] } 0 []) :=
  (Run.start.step (Step.newAgent {} [])).step (firstTurn_step (.inl rfl) (Nat.zero_le 0) rfl)

/-- Behind it, the process is over. -/
theorem restarted_run : Run {} [.first 0 []]
    { World.afterFirst { agents := [agentNew []] } 0 [] with ended := 1 } :=
  first_run.step (Step.restart _ (.refl _))

/-- Another namespace in the second process. -/
theorem other_namespace_kept : ∃ w : World, w.ended = 1 ∧
    Run {} [.first 0 [], .first 1 (str "notes")] w ∧ TurnsKept [] [.first 0 [], .first 1 (str "notes")] w.store := by
  have hrun : Run {} [.first 0 [], .first 1 (str "notes")] _ :=
    (restarted_run.step (Step.newAgent _ (str "notes"))).step
      (firstTurn_step (i := 1) (.inr rfl) (Nat.le_refl 1) rfl)
  exact ⟨_, rfl, hrun, (turnsKept_iff hrun).mpr ⟨by decide, fun _ _ => List.not_mem_nil⟩⟩

/-- **The first turn of the second process replaces that of the first one.** -/
theorem turn_replaced : ¬ ∀ (start w : World) (turns : List PersistedTurn), start.store = [] →
    Run start turns w → TurnsKept start.store turns w.store := by
  intro h
  have hagain : Run {} [.first 0 [], .first 1 []] _ :=
    (restarted_run.step (Step.newAgent _ [])).step (firstTurn_step (i := 1) (.inl rfl) (Nat.le_refl 1) rfl)
  have hlen := (h {} _ _ rfl hagain).length_eq
  rw [List.length_append, List.length_map, List.length_map, List.length_map] at hlen
  have hnumbers := (hagain.tracked.numbered hlen).numbers
  exact (List.nodup_cons.mp hnumbers).1 List.mem_cons_self

end SmolClaw.Memory
