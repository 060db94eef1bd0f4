/-
  How the histories of the orchestrator come back after a restart (`load_session_history_sqlite` and
  `history_from_session_key`, `src/channels/orchestrator.c`).

  1. **Program** — every message kept is a row of the table `sessions`, under a key that joins channel,
     conversation and sender with `_`.  A new orchestrator reads the rows key by key, splits the key at
     its first and last `_`, and appends the row to the history of that scope.

  2. **Specification** — `Survives`: the histories of a new orchestrator are those of the one before.

  3. **Defect** — a `_` in the channel or the sender is taken for a separator, and the key holds the
     conversation where the scope holds the thread.

  4. **Result** — `sessions_survive`: over any run with any restarts in between, the histories survive if
     no channel and no sender has a `_` and every thread named is the conversation (`Separable`).  This
     is what it takes for one message: `historyFromSessionKey_iff`.
-/
import Mathlib.Data.List.Induction
import Mathlib.Data.List.TakeWhile
import SmolClaw.Channels.Duplicates
import SmolClaw.Lib.Run

namespace SmolClaw.Channels

open Lib.Run Lib.Table
open SmolClaw.Runtime

/-! ## Loading -/

/-- A column read as a C string. -/
def columnText (text : Bytes) : Bytes := text.takeWhile (· ≠ 0)

/-- `history_from_session_key`: the scope of a row; none when the key is no session key. -/
def historyFromSessionKey (sessionKey : Bytes) : Option ScopeKey :=
  let first := sessionKey.idxOf (chr '_')
  let last := sessionKey.length - 1 - sessionKey.reverse.idxOf (chr '_')
  if chr '_' ∉ sessionKey ∨ last = first ∨ first = 0 ∨ sessionKey.length ≤ last + 1 then none
  else some (sessionKey.take first, sessionKey.drop (last + 1), (sessionKey.take last).drop (first + 1))

/-- The scope a row is read into. -/
def SessionRow.scope (row : SessionRow) : Option ScopeKey :=
  historyFromSessionKey (columnText row.sessionKey)

/-- The loop of `load_session_history_sqlite`, for one row: a row without a scope is skipped. -/
def loadRow (maxHistoryMessages : Nat) (histories : List HistoryScope) (row : SessionRow) :
    Res (List HistoryScope) :=
  match row.scope with
  | none => .ok histories
  | some key => do
      let messages ← historyAppend maxHistoryMessages (messagesIn histories key) (columnText row.role)
        (columnText row.content)
      .ok (setMessages histories key messages)

/-- `SELECT … ORDER BY session_key ASC, id ASC` -/
def orderRows (rows : List SessionRow) : List SessionRow :=
  rows.insertionSort fun a b => a.sessionKey ≤ b.sessionKey

/-- `load_session_history_sqlite` -/
def loadSessionHistorySqlite (maxHistoryMessages : Nat) (rows : List SessionRow) :
    Res (List HistoryScope) :=
  (orderRows rows).foldlM (loadRow maxHistoryMessages) []

/-- `load_session_history` -/
def loadSessionHistory (config : OrchestratorConfig) (rows : List SessionRow) : Res (List HistoryScope) :=
  if !config.sessionPersistence || config.sessionDbPath.isEmpty then .ok []
  else loadSessionHistorySqlite config.maxHistoryMessages rows

/-- `sc_channel_orchestrator_new`, on the table of an earlier orchestrator. -/
def orchestratorNew (config : OrchestratorConfig) (agent : Agent) (rows : List SessionRow) :
    Res Orchestrator := do
  let histories ← loadSessionHistory config rows
  .ok { toOrchestratorConfig := config, agent := agent, histories := histories, sessions := rows }

/-! ## Restarts -/

/-- What happens to an orchestrator, and to the one that takes its place. -/
inductive SessionEvent where
  | message (d : Delivery)
  | restart (agent : Agent)

/-- One event; an orchestrator that cannot be made does not take the other's place. -/
def sessionStep (o : Orchestrator) : SessionEvent → Orchestrator
  | .message d => deliver o d
  | .restart agent =>
      match orchestratorNew o.toOrchestratorConfig agent o.sessions with
      | .ok restarted => restarted
      | .error _ => o

/-- **The histories survive a restart**: a new orchestrator has the same scopes with the same messages,
    in whatever order the scopes stand. -/
def Survives (o : Orchestrator) : Prop :=
  ∀ agent, ∃ restarted, orchestratorNew o.toOrchestratorConfig agent o.sessions = .ok restarted ∧
    restarted.histories.Perm o.histories

/-- A message whose key can be taken apart again. -/
structure Separable (message : ChannelInbound) : Prop where
  channelName : chr '_' ∉ message.channelName
  senderId : chr '_' ∉ message.senderId
  thread : message.threadId = [] ∨ message.threadId = message.conversationId

/-- A message that has been processed, of C strings. -/
structure Handled (o : Orchestrator) (d : Delivery) : Prop where
  ok : ∃ result, (orchestratorProcess o d.message d.env).result = .ok result
  channelName_ne : d.message.channelName ≠ []
  senderId_ne : d.message.senderId ≠ []
  key : 0 ∉ d.message.channelName ∧ 0 ∉ d.message.conversationId ∧ 0 ∉ d.message.senderId
  texts : ∀ turn answer, (orchestratorProcess o d.message d.env).turn = some (turn, answer) →
    0 ∉ turn.input ∧ ∀ output, answer.result = .ok output → 0 ∉ output

/-- An event of a run whose histories survive. -/
def Kept (o : Orchestrator) : SessionEvent → Prop
  | .message d => Handled o d ∧ Separable d.message
  | .restart _ => True

/-! ## The session key -/

theorem columnText_of_not_mem {text : Bytes} (h : 0 ∉ text) : columnText text = text :=
  List.takeWhile_eq_self_iff.mpr fun _ hc => decide_eq_true fun h0 => h (h0 ▸ hc)

/-- **A key is split where it was joined**, if the outer parts have no separator. -/
theorem historyFromSessionKey_joined {channelName thread senderId : Bytes} (hchannel : channelName ≠ [])
    (hsender : senderId ≠ []) (hc : chr '_' ∉ channelName) (hs : chr '_' ∉ senderId) :
    historyFromSessionKey (channelName ++ chr '_' :: (thread ++ chr '_' :: senderId)) =
      some (channelName, senderId, thread) := by
  have hlen : (channelName ++ chr '_' :: (thread ++ chr '_' :: senderId)).length =
      channelName.length + 1 + thread.length + 1 + senderId.length := by
    simp only [List.length_append, List.length_cons]
    omega
  have hfirst : (channelName ++ chr '_' :: (thread ++ chr '_' :: senderId)).idxOf (chr '_') =
      channelName.length := by
    rw [List.idxOf_append_of_notMem hc, List.idxOf_cons_self, Nat.add_zero]
  have hreverse : (channelName ++ chr '_' :: (thread ++ chr '_' :: senderId)).reverse =
      senderId.reverse ++ chr '_' :: (channelName ++ chr '_' :: thread).reverse := by
    simp only [List.reverse_append, List.reverse_cons, List.append_assoc, List.cons_append,
      List.nil_append]
  have hlast : (channelName ++ chr '_' :: (thread ++ chr '_' :: senderId)).reverse.idxOf (chr '_') =
      senderId.length := by
    rw [hreverse, List.idxOf_append_of_notMem (fun h => hs (List.mem_reverse.mp h)), List.idxOf_cons_self,
      Nat.add_zero, List.length_reverse]
  have hchannelLen := List.length_pos_of_ne_nil hchannel
  have hsenderLen := List.length_pos_of_ne_nil hsender
  unfold historyFromSessionKey
  simp only [hlen, hfirst, hlast]
  rw [if_neg]
  · have hpos : channelName.length + 1 + thread.length + 1 + senderId.length - 1 - senderId.length =
        (channelName ++ chr '_' :: thread).length := by
      rw [List.length_append, List.length_cons]
      omega
    have hwhole : channelName ++ chr '_' :: (thread ++ chr '_' :: senderId) =
        (channelName ++ chr '_' :: thread) ++ chr '_' :: senderId := by
      rw [List.append_assoc, List.cons_append]
    rw [hpos, List.take_left' rfl, hwhole, List.take_left' rfl, List.drop_length_add_append,
      List.drop_length_add_append]
    rfl
  · rintro (h | h | h | h)
    · exact h (List.mem_append_right _ List.mem_cons_self)
    · omega
    · omega
    · omega

/-- Nothing stands before its first occurrence. -/
theorem not_mem_take_idxOf (c : UInt8) (text : Bytes) : c ∉ text.take (text.idxOf c) := by
  intro h
  have hlt := (List.mem_take_iff_idxOf_lt (List.mem_of_mem_take h)).mp h
  omega

/-- **The outer parts of a key have no separator.** -/
theorem historyFromSessionKey_outer {sessionKey channelName senderId thread : Bytes}
    (h : historyFromSessionKey sessionKey = some (channelName, senderId, thread)) :
    chr '_' ∉ channelName ∧ chr '_' ∉ senderId := by
  unfold historyFromSessionKey at h
  simp only at h
  split at h
  · exact nomatch h
  next hkey =>
    simp only [Option.some.injEq, Prod.mk.injEq] at h
    obtain ⟨rfl, rfl, -⟩ := h
    refine ⟨not_mem_take_idxOf _ _, fun hmem => ?_⟩
    have hin : chr '_' ∈ sessionKey := Decidable.byContradiction fun hout => hkey (Or.inl hout)
    have hlt := List.idxOf_lt_length_of_mem (List.mem_reverse.mpr hin)
    rw [List.length_reverse] at hlt
    -- the last separator is the first one from behind
    have hbehind := not_mem_take_idxOf (chr '_') sessionKey.reverse
    rw [List.take_reverse, List.mem_reverse] at hbehind
    rw [show sessionKey.length - 1 - sessionKey.reverse.idxOf (chr '_') + 1 =
      sessionKey.length - sessionKey.reverse.idxOf (chr '_') by omega] at hmem
    exact hbehind hmem

/-- A text around one of its bytes. -/
theorem split_at {text : Bytes} {i : Nat} {c : UInt8} (h : text[i]? = some c) :
    text = text.take i ++ c :: text.drop (i + 1) := by
  obtain ⟨hi, rfl⟩ := List.getElem?_eq_some_iff.mp h
  rw [← List.drop_eq_getElem_cons hi, List.take_append_drop]

/-- **A scope determines the key it was read from.** -/
theorem historyFromSessionKey_sound {sessionKey channelName senderId thread : Bytes}
    (h : historyFromSessionKey sessionKey = some (channelName, senderId, thread)) :
    sessionKey = channelName ++ chr '_' :: (thread ++ chr '_' :: senderId) := by
  unfold historyFromSessionKey at h
  simp only at h
  split at h
  · exact nomatch h
  next hkey =>
    simp only [Option.some.injEq, Prod.mk.injEq] at h
    obtain ⟨rfl, rfl, rfl⟩ := h
    have hin : chr '_' ∈ sessionKey := Decidable.byContradiction fun hout => hkey (Or.inl hout)
    have hlt := List.idxOf_lt_length_of_mem (List.mem_reverse.mpr hin)
    have hlen : sessionKey.reverse.length = sessionKey.length := List.length_reverse
    have hfirst : sessionKey[sessionKey.idxOf (chr '_')]? = some (chr '_') := List.getElem?_idxOf hin
    have hlast : sessionKey[sessionKey.length - 1 - sessionKey.reverse.idxOf (chr '_')]? =
        some (chr '_') := by
      rw [← List.getElem?_reverse (hlen ▸ hlt)]
      exact List.getElem?_idxOf (List.mem_reverse.mpr hin)
    generalize sessionKey.length - 1 - sessionKey.reverse.idxOf (chr '_') = last at hkey hlast ⊢
    have hbefore : sessionKey.idxOf (chr '_') < last := by
      refine Nat.lt_of_le_of_ne (Nat.le_of_not_lt fun hless => ?_) fun heq =>
        hkey (Or.inr (Or.inl heq.symm))
      refine not_mem_take_idxOf (chr '_') sessionKey (List.mem_iff_getElem?.mpr ⟨last, ?_⟩)
      rw [List.getElem?_take_of_lt hless, hlast]
    have hmiddle := split_at (show (sessionKey.take last)[sessionKey.idxOf (chr '_')]? = some (chr '_') by
      rw [List.getElem?_take_of_lt hbefore, hfirst])
    rw [List.take_take, Nat.min_eq_left (Nat.le_of_lt hbefore)] at hmiddle
    rw [← List.cons_append, ← List.append_assoc, ← hmiddle]
    exact split_at hlast

/-- The thread of a scope is the conversation exactly when no other thread is named. -/
theorem threadKey_eq_conversation (message : ChannelInbound) :
    threadKey message = message.conversationId ↔
      message.threadId = [] ∨ message.threadId = message.conversationId := by
  unfold threadKey
  split
  next h => simp [h]
  next h => simp [h]

/-- **A message is read back into its own scope exactly when its key can be taken apart.** -/
theorem historyFromSessionKey_iff {message : ChannelInbound} (hchannel : message.channelName ≠ [])
    (hsender : message.senderId ≠ []) :
    historyFromSessionKey (buildSessionKey message) = some (scopeOf message) ↔ Separable message := by
  have hscope : scopeOf message = (message.channelName, message.senderId, threadKey message) := by
    rw [scopeOf, if_neg hchannel]
  rw [hscope]
  constructor
  · intro h
    obtain ⟨hc, hs⟩ := historyFromSessionKey_outer h
    rw [buildSessionKey, historyFromSessionKey_joined hchannel hsender hc hs] at h
    have hthread := congrArg (fun key : ScopeKey => key.2.2) (Option.some.inj h)
    exact ⟨hc, hs, (threadKey_eq_conversation message).mp hthread.symm⟩
  · intro h
    rw [buildSessionKey, historyFromSessionKey_joined hchannel hsender h.channelName h.senderId,
      (threadKey_eq_conversation message).mpr h.thread]

/-! ## What a table says of a scope -/

/-- The rows of a scope. -/
def rowsOf (rows : List SessionRow) (key : ScopeKey) : List SessionRow :=
  rows.filter fun row => row.scope = some key

/-- A row appended to a history. -/
def appendRow (maxHistoryMessages : Nat) (messages : List HistoryMessage) (row : SessionRow) :
    List HistoryMessage :=
  historyTrim maxHistoryMessages (messages ++ [⟨columnText row.role, columnText row.content⟩])

/-- **The scope a table holds under a key**: none without a row, else its rows one after the other. -/
def scopeIn (maxHistoryMessages : Nat) (rows : List SessionRow) (key : ScopeKey) : Option HistoryScope :=
  if rowsOf rows key = [] then none
  else some ⟨key.1, key.2.1, key.2.2, (rowsOf rows key).foldl (appendRow maxHistoryMessages) []⟩

/-- A row as the orchestrator writes it: of C strings, with a role. -/
structure SessionRow.Valid (row : SessionRow) : Prop where
  key : 0 ∉ row.sessionKey
  role : columnText row.role ≠ []

section Table

variable {maxHistoryMessages : Nat} {rows : List SessionRow} {row : SessionRow} {key : ScopeKey}

theorem lookup_setMessages (histories : List HistoryScope) (other : ScopeKey)
    (messages : List HistoryMessage) :
    lookup HistoryScope.key other (setMessages histories key messages) =
      if key = other then some ⟨key.1, key.2.1, key.2.2, messages⟩
      else lookup HistoryScope.key other histories :=
  lookup_upsert other _ histories

/-- One more row goes to its own scope. -/
theorem scopeIn_append :
    scopeIn maxHistoryMessages (rows ++ [row]) key =
      if row.scope = some key then
        some ⟨key.1, key.2.1, key.2.2, appendRow maxHistoryMessages
          (((scopeIn maxHistoryMessages rows key).map HistoryScope.messages).getD []) row⟩
      else scopeIn maxHistoryMessages rows key := by
  have hrows : rowsOf (rows ++ [row]) key =
      rowsOf rows key ++ if row.scope = some key then [row] else [] := by
    rw [rowsOf, List.filter_append]
    split
    next hmine =>
      rw [List.filter_cons_of_pos (by simpa using hmine)]
      rfl
    next hother =>
      rw [List.filter_cons_of_neg (by simpa using hother)]
      rfl
  unfold scopeIn
  rw [hrows]
  split
  next hmine =>
    rw [if_neg (List.append_ne_nil_of_right_ne_nil _ (List.cons_ne_nil _ _)), List.foldl_append]
    split
    next hnone =>
      rw [hnone]
      rfl
    next => rfl
  next => rw [List.append_nil]

/-- **Sorting the rows by their keys does not matter.** -/
theorem scopeIn_orderRows (hvalid : ∀ row ∈ rows, row.Valid) :
    scopeIn maxHistoryMessages (orderRows rows) key = scopeIn maxHistoryMessages rows key := by
  have hrows : rowsOf (orderRows rows) key = rowsOf rows key := by
    refine filter_sorted (r := fun a b : Bytes => a ≤ b) List.le_refl fun a ha b hb hkeyA hkeyB => ?_
    have hread : ∀ row ∈ rows, row.scope = some key →
        row.sessionKey = key.1 ++ chr '_' :: (key.2.2 ++ chr '_' :: key.2.1) := by
      intro row hrow hscope
      rw [SessionRow.scope, columnText_of_not_mem (hvalid row hrow).key] at hscope
      exact historyFromSessionKey_sound hscope
    rw [hread a ha (of_decide_eq_true hkeyA), hread b hb (of_decide_eq_true hkeyB)]
  unfold scopeIn
  rw [hrows]

/-- A row of a scope is appended to its history. -/
theorem loadRow_of_some (histories : List HistoryScope) (hrole : columnText row.role ≠ [])
    (h : row.scope = some key) :
    loadRow maxHistoryMessages histories row =
      .ok (setMessages histories key (appendRow maxHistoryMessages (messagesIn histories key) row)) := by
  rw [loadRow, h]
  simp only
  rw [historyAppend, if_neg hrole]
  rfl

/-- **Loading gives every scope what the table holds of it.** -/
theorem loadRows (maxHistoryMessages : Nat) (hvalid : ∀ row ∈ rows, row.Valid) :
    ∃ histories, rows.foldlM (loadRow maxHistoryMessages) [] = .ok histories ∧
      Keyed HistoryScope.key histories ∧
      ∀ key, lookup HistoryScope.key key histories = scopeIn maxHistoryMessages rows key := by
  induction rows using List.reverseRecOn with
  | nil => exact ⟨[], rfl, Keyed.nil, fun _ => rfl⟩
  | append_singleton rows row ih =>
    obtain ⟨histories, hload, hkeyed, hsame⟩ := ih fun r hr => hvalid r (List.mem_append_left _ hr)
    have hrow := hvalid row (List.mem_append_right _ List.mem_cons_self)
    have hlast : ∀ after, loadRow maxHistoryMessages histories row = .ok after →
        (rows ++ [row]).foldlM (loadRow maxHistoryMessages) [] = .ok after := by
      intro after hafter
      rw [List.foldlM_append, hload]
      show (loadRow maxHistoryMessages histories row >>= pure) = _
      rw [hafter]
      rfl
    cases hscope : row.scope with
    | none =>
      refine ⟨histories, hlast _ (by rw [loadRow, hscope]), hkeyed, fun key => ?_⟩
      rw [scopeIn_append, hscope, if_neg nofun]
      exact hsame key
    | some own =>
      refine ⟨_, hlast _ (loadRow_of_some histories hrow.role hscope), hkeyed.upsert _, fun key => ?_⟩
      rw [lookup_setMessages, scopeIn_append, hscope, messagesIn, hsame own]
      by_cases hkey : own = key
      · rw [if_pos hkey, if_pos (congrArg some hkey), hkey]
      · rw [if_neg hkey, if_neg fun h => hkey (Option.some.inj h)]
        exact hsame key

theorem orderRows_perm : (orderRows rows).Perm rows := List.perm_insertionSort _ rows

/-- What a new orchestrator finds. -/
theorem loadSessionHistorySqlite_spec (maxHistoryMessages : Nat) (hvalid : ∀ row ∈ rows, row.Valid) :
    ∃ histories, loadSessionHistorySqlite maxHistoryMessages rows = .ok histories ∧
      Keyed HistoryScope.key histories ∧
      ∀ key, lookup HistoryScope.key key histories = scopeIn maxHistoryMessages rows key := by
  have hordered : ∀ row ∈ orderRows rows, row.Valid :=
    fun row hrow => hvalid row (orderRows_perm.mem_iff.mp hrow)
  obtain ⟨histories, hload, hkeyed, hsame⟩ := loadRows maxHistoryMessages hordered
  exact ⟨histories, hload, hkeyed, fun key => (hsame key).trans (scopeIn_orderRows hvalid)⟩

end Table

/-! ## What a message does to histories and table -/

section Message

variable {o : Orchestrator} {message : ChannelInbound} {env : MessageEnv}

/-- Keeping a message, with sessions. -/
theorem keepMessage_ok {o : Orchestrator} (hsession : o.sessionPersistence = true)
    (hdb : o.sessionDbPath ≠ []) {role content : Bytes} {persisted : Res Unit} {u : Unit}
    (h : (keepMessage o message role content persisted).2 = .ok u) :
    (keepMessage o message role content persisted).1 =
      { o with
        histories := setMessages o.histories (scopeOf message) (historyTrim o.maxHistoryMessages
          (messagesIn o.histories (scopeOf message) ++ [⟨role, content⟩]))
        sessions := o.sessions ++ [⟨buildSessionKey message, role, content⟩] } := by
  unfold keepMessage at h ⊢
  simp only [hsession, Bool.not_true, Bool.false_eq_true, if_false, if_neg hdb] at h ⊢
  cases persisted with
  | error e => exact nomatch h
  | ok u => rfl

/-- The rows of an exchange. -/
def exchangeRows (message : ChannelInbound) (input output : Bytes) : List SessionRow :=
  [⟨buildSessionKey message, str "user", input⟩, ⟨buildSessionKey message, str "assistant", output⟩]

/-- The history with an exchange. -/
def withExchange (maxHistoryMessages : Nat) (messages : List HistoryMessage) (input output : Bytes) :
    List HistoryMessage :=
  historyTrim maxHistoryMessages
    (historyTrim maxHistoryMessages (messages ++ [⟨str "user", input⟩]) ++ [⟨str "assistant", output⟩])

theorem messagesIn_setMessages (histories : List HistoryScope) (key : ScopeKey)
    (messages : List HistoryMessage) : messagesIn (setMessages histories key messages) key = messages := by
  rw [messagesIn, lookup_setMessages, if_pos rfl]
  rfl

/-- **What a processed message does**: its exchange goes into the table and into the history of its
    scope. -/
structure KeepsExchange (o after : Orchestrator) (message : ChannelInbound) (input output : Bytes) :
    Prop where
  sessions : after.sessions = o.sessions ++ exchangeRows message input output
  keyed : Keyed HistoryScope.key o.histories → Keyed HistoryScope.key after.histories
  histories : ∀ key, lookup HistoryScope.key key after.histories =
    if scopeOf message = key then some ⟨key.1, key.2.1, key.2.2,
      withExchange o.maxHistoryMessages (messagesIn o.histories key) input output⟩
    else lookup HistoryScope.key key o.histories

/-- Keeping an exchange, with sessions. -/
theorem keepExchange_ok (hsession : o.sessionPersistence = true) (hdb : o.sessionDbPath ≠ [])
    {input output : Bytes} {u : Unit} (h : (keepExchange o message env input output).2 = .ok u) :
    KeepsExchange o (keepExchange o message env input output).1 message input output := by
  unfold keepExchange at h ⊢
  have hinput : ∀ {u : Unit}, (keepMessage o message (str "user") input env.persistInput).2 = .ok u → _ :=
    keepMessage_ok hsession hdb
  cases hfirst : keepMessage o message (str "user") input env.persistInput with
  | mk between result =>
    cases result with
    | error e =>
      rw [hfirst] at h
      exact nomatch h
    | ok first =>
      rw [hfirst] at h hinput
      simp only at h ⊢
      have hbetween := hinput rfl
      simp only at hbetween
      subst hbetween
      rw [keepMessage_ok (by exact hsession) (by exact hdb) h]
      refine ⟨?_, fun hkeyed => (hkeyed.upsert _).upsert _, fun key => ?_⟩
      · show o.sessions ++ _ ++ _ = _
        rw [List.append_assoc]
        rfl
      · show lookup HistoryScope.key key (setMessages _ _ _) = _
        rw [lookup_setMessages, messagesIn_setMessages, lookup_setMessages]
        split
        next hkey =>
          rw [hkey]
          rfl
        next => rfl

/-- Opening a scope does not change its messages. -/
theorem messagesIn_openHistory (histories : List HistoryScope) (own key : ScopeKey) :
    messagesIn (openHistory histories own) key = messagesIn histories key := by
  rw [messagesIn, openHistory, lookup_setMessages]
  split
  next hkey =>
    rw [hkey]
    rfl
  next => rfl

/-- A message that was let pass and went well. -/
theorem answerMessage_ok (hsession : o.sessionPersistence = true) (hdb : o.sessionDbPath ≠ [])
    {result : ProcessResult} (h : (answerMessage o message env).result = .ok result) :
    ∃ turn answer output, (answerMessage o message env).turn = some (turn, answer) ∧
      answer.result = .ok output ∧
      KeepsExchange o (answerMessage o message env).orchestrator message turn.input output := by
  unfold answerMessage at h ⊢
  simp only at h ⊢
  split
  next e hinput =>
    rw [hinput] at h
    exact nomatch h
  next input hinput =>
    rw [hinput] at h
    simp only at h ⊢
    generalize agentProcessMessage o.agent (turnFor o.toOrchestratorConfig message input) env.turn =
      processed at h ⊢
    obtain ⟨agent, answer⟩ := processed
    simp only at h ⊢
    cases houtput : answer.result with
    | error e =>
      rw [houtput] at h
      exact nomatch h
    | ok output =>
      rw [houtput] at h
      simp only [Except.bind, bind] at h ⊢
      cases hreply : env.reply output with
      | error e =>
        rw [hreply] at h
        exact nomatch h
      | ok sent =>
        rw [hreply] at h
        simp only [Except.map] at h ⊢
        have hkeeps : ∀ {u : Unit},
            (keepExchange { o with agent := agent } message env input output).2 = .ok u → _ :=
          keepExchange_ok (by exact hsession) (by exact hdb)
        cases hkept : keepExchange { o with agent := agent } message env input output with
        | mk after kept =>
          cases kept with
          | error e =>
            rw [hkept] at h
            exact nomatch h
          | ok u =>
            rw [hkept] at hkeeps
            obtain ⟨hsessions, hkeyed, hhistories⟩ := hkeeps rfl
            exact ⟨_, answer, output, rfl, houtput, hsessions, hkeyed, hhistories⟩

/-- **A message that went well** was set aside without a trace, or is kept. -/
theorem orchestratorProcess_ok (hsession : o.sessionPersistence = true) (hdb : o.sessionDbPath ≠ [])
    {result : ProcessResult} (h : (orchestratorProcess o message env).result = .ok result) :
    ((orchestratorProcess o message env).orchestrator.histories = o.histories ∧
        (orchestratorProcess o message env).orchestrator.sessions = o.sessions) ∨
      ∃ turn answer output, (orchestratorProcess o message env).turn = some (turn, answer) ∧
        answer.result = .ok output ∧
        KeepsExchange o (orchestratorProcess o message env).orchestrator message turn.input output := by
  obtain ⟨hconfig, -⟩ := rememberMessage_keeps o message.messageId
  have hremember : (rememberMessage o message.messageId).histories = o.histories ∧
      (rememberMessage o message.messageId).sessions = o.sessions := by
    unfold rememberMessage
    split
    · exact ⟨rfl, rfl⟩
    · exact ⟨rfl, rfl⟩
  unfold orchestratorProcess at h ⊢
  split at h
  next hseen =>
    rw [if_pos hseen]
    exact Or.inl ⟨rfl, rfl⟩
  next hseen =>
    rw [if_neg hseen]
    simp only at h ⊢
    split at h
    next hdenied =>
      rw [if_pos hdenied]
      exact Or.inl hremember
    next hadmitted =>
      rw [if_neg hadmitted]
      have hsame : ∀ {config : OrchestratorConfig}, config = o.toOrchestratorConfig →
          config.sessionPersistence = true ∧ config.sessionDbPath ≠ [] ∧
            config.maxHistoryMessages = o.maxHistoryMessages := by
        rintro _ rfl
        exact ⟨hsession, hdb, rfl⟩
      obtain ⟨hsession', hdb', hmax⟩ := hsame hconfig
      obtain ⟨turn, answer, output, hturn, houtput, hkeeps⟩ :=
        answerMessage_ok (by exact hsession') (by exact hdb') h
      refine Or.inr ⟨turn, answer, output, hturn, houtput, ?_, ?_, fun key => ?_⟩
      · rw [hkeeps.sessions]
        exact congrArg (· ++ _) hremember.2
      · intro hkeyed
        refine hkeeps.keyed ?_
        show Keyed _ (openHistory (rememberMessage o message.messageId).histories _)
        rw [hremember.1]
        exact hkeyed.upsert _
      · rw [hkeeps.histories key]
        show (if scopeOf message = key then some (HistoryScope.mk _ _ _ (withExchange
            (rememberMessage o message.messageId).maxHistoryMessages
            (messagesIn (openHistory (rememberMessage o message.messageId).histories _) key) _ _))
          else lookup _ key (openHistory (rememberMessage o message.messageId).histories _)) = _
        rw [hremember.1, messagesIn_openHistory, hmax]
        split
        · rfl
        next hkey => rw [openHistory, lookup_setMessages, if_neg hkey]

end Message

/-! ## Whole runs -/

/-- What holds of every orchestrator of a run: its histories are what the table says. -/
structure Restorable (o : Orchestrator) : Prop where
  session : o.sessionPersistence = true
  db : o.sessionDbPath ≠ []
  valid : ∀ row ∈ o.sessions, row.Valid
  keyed : Keyed HistoryScope.key o.histories
  same : ∀ key, lookup HistoryScope.key key o.histories = scopeIn o.maxHistoryMessages o.sessions key

/-- The key of a message of C strings is one. -/
theorem zero_not_mem_buildSessionKey {message : ChannelInbound}
    (h : 0 ∉ message.channelName ∧ 0 ∉ message.conversationId ∧ 0 ∉ message.senderId) :
    0 ∉ buildSessionKey message := by
  have hsep : (0 : UInt8) ≠ chr '_' := by decide
  simp only [buildSessionKey, List.mem_append, List.mem_cons, not_or]
  exact ⟨h.1, hsep, h.2.1, hsep, h.2.2⟩

/-- The rows of an exchange add it to its own scope, if the key can be taken apart. -/
theorem scopeIn_exchange {maxHistoryMessages : Nat} {rows : List SessionRow} {message : ChannelInbound}
    {input output : Bytes} (hscope : historyFromSessionKey (columnText (buildSessionKey message)) =
      some (scopeOf message)) (hinput : 0 ∉ input) (houtput : 0 ∉ output) (key : ScopeKey) :
    scopeIn maxHistoryMessages (rows ++ exchangeRows message input output) key =
      if scopeOf message = key then some ⟨key.1, key.2.1, key.2.2, withExchange maxHistoryMessages
        (((scopeIn maxHistoryMessages rows key).map HistoryScope.messages).getD []) input output⟩
      else scopeIn maxHistoryMessages rows key := by
  have hsplit : rows ++ exchangeRows message input output =
      (rows ++ [⟨buildSessionKey message, str "user", input⟩]) ++
        [⟨buildSessionKey message, str "assistant", output⟩] := by
    rw [List.append_assoc]
    rfl
  have hrow : ∀ role content, SessionRow.scope ⟨buildSessionKey message, role, content⟩ =
      some (scopeOf message) := fun _ _ => hscope
  have huser : columnText (str "user") = str "user" := by decide
  have hassistant : columnText (str "assistant") = str "assistant" := by decide
  rw [hsplit, scopeIn_append, scopeIn_append, hrow, hrow]
  by_cases hkey : scopeOf message = key
  · rw [if_pos (congrArg some hkey), if_pos (congrArg some hkey), if_pos hkey]
    simp only [Option.map_some, Option.getD_some, appendRow, withExchange, huser, hassistant,
      columnText_of_not_mem hinput, columnText_of_not_mem houtput]
  · have hne : some (scopeOf message) ≠ some key := fun h => hkey (Option.some.inj h)
    rw [if_neg hne, if_neg hne, if_neg hkey]

/-- **One message** keeps histories and table together. -/
theorem Restorable.deliver {o : Orchestrator} (h : Restorable o) {d : Delivery} (hd : Handled o d)
    (hsep : Separable d.message) : Restorable (deliver o d) := by
  obtain ⟨result, hresult⟩ := hd.ok
  have hconfig := (orchestratorProcess_agent o d.message d.env).1
  have hmax : (Channels.deliver o d).maxHistoryMessages = o.maxHistoryMessages :=
    congrArg OrchestratorConfig.maxHistoryMessages hconfig
  have hsession : (Channels.deliver o d).sessionPersistence = true :=
    (congrArg OrchestratorConfig.sessionPersistence hconfig).trans h.session
  have hdb : (Channels.deliver o d).sessionDbPath ≠ [] := by
    rw [show (Channels.deliver o d).sessionDbPath = o.sessionDbPath from
      congrArg OrchestratorConfig.sessionDbPath hconfig]
    exact h.db
  rcases orchestratorProcess_ok h.session h.db hresult with ⟨hhistories, hsessions⟩ |
    ⟨turn, answer, output, hturn, houtput, hkeeps⟩
  · have hrows : (Channels.deliver o d).sessions = o.sessions := hsessions
    have hscopes : (Channels.deliver o d).histories = o.histories := hhistories
    refine ⟨hsession, hdb, ?_, ?_, fun key => ?_⟩
    · rw [hrows]
      exact h.valid
    · rw [hscopes]
      exact h.keyed
    · rw [hrows, hscopes, hmax]
      exact h.same key
  · obtain ⟨hinput, hout⟩ := hd.texts turn answer hturn
    have hnul := zero_not_mem_buildSessionKey hd.key
    have hscope : historyFromSessionKey (columnText (buildSessionKey d.message)) =
        some (scopeOf d.message) := by
      rw [columnText_of_not_mem hnul]
      exact (historyFromSessionKey_iff hd.channelName_ne hd.senderId_ne).mpr hsep
    have hrows : (Channels.deliver o d).sessions = o.sessions ++ exchangeRows d.message turn.input output :=
      hkeeps.sessions
    refine ⟨hsession, hdb, ?_, hkeeps.keyed h.keyed, fun key => ?_⟩
    · rw [hrows]
      intro row hrow
      rcases List.mem_append.mp hrow with hold | hnew
      · exact h.valid row hold
      · rcases List.mem_pair.mp hnew with rfl | rfl
        · exact ⟨hnul, show columnText (str "user") ≠ [] by decide⟩
        · exact ⟨hnul, show columnText (str "assistant") ≠ [] by decide⟩
    · rw [hrows, hmax, scopeIn_exchange hscope hinput (hout output houtput), ← h.same key]
      exact hkeeps.histories key

/-- **A new orchestrator on the table** has the same histories, and is restorable again. -/
theorem Restorable.restart {o : Orchestrator} (h : Restorable o) (agent : Agent) :
    ∃ restarted, orchestratorNew o.toOrchestratorConfig agent o.sessions = .ok restarted ∧
      restarted.histories.Perm o.histories ∧ Restorable restarted := by
  obtain ⟨histories, hload, hkeyed, hsame⟩ :=
    loadSessionHistorySqlite_spec o.maxHistoryMessages h.valid
  have hnew : loadSessionHistory o.toOrchestratorConfig o.sessions = .ok histories := by
    unfold loadSessionHistory
    rw [h.session, List.isEmpty_eq_false_iff.mpr h.db]
    exact hload
  unfold orchestratorNew
  rw [hnew]
  refine ⟨_, rfl, hkeyed.perm_of_lookup h.keyed fun key => (hsame key).trans (h.same key).symm, ?_⟩
  exact ⟨h.session, h.db, h.valid, hkeyed, hsame⟩

/-- **One event** keeps histories and table together. -/
theorem Restorable.step {o : Orchestrator} {event : SessionEvent} (h : Restorable o) (he : Kept o event) :
    Restorable (sessionStep o event) := by
  cases event with
  | message d => exact h.deliver he.1 he.2
  | restart agent =>
    obtain ⟨restarted, hnew, -, hrestorable⟩ := h.restart agent
    rw [sessionStep, hnew]
    exact hrestorable

/-- **When session histories survive a restart**: after every run of messages and restarts that begins
    with an empty table and whose messages can be read back. -/
theorem sessions_survive {o : Orchestrator} (hsession : o.sessionPersistence = true)
    (hdb : o.sessionDbPath ≠ []) (hempty : o.histories = [] ∧ o.sessions = [])
    (events : List SessionEvent) (h : EachStep sessionStep Kept o events) :
    Survives (run sessionStep o events) := by
  have hnew : Restorable o := by
    refine ⟨hsession, hdb, ?_, ?_, fun key => ?_⟩
    · rw [hempty.2]
      exact fun row hrow => absurd hrow List.not_mem_nil
    · rw [hempty.1]
      exact Keyed.nil
    · rw [hempty.1, hempty.2]
      rfl
  have hlast := run_invariant (fun o event => Restorable.step) events o hnew h
  intro agent
  obtain ⟨restarted, hrestarted, hperm, -⟩ := hlast.restart agent
  exact ⟨restarted, hrestarted, hperm⟩

/-! ## Messages that come back elsewhere -/

theorem defaultHistory_pos : 0 < 16 := by decide

/-- An orchestrator with sessions. -/
def withSessions : Orchestrator where
  agent := {}
  history_pos := defaultHistory_pos
  sessionPersistence := true
  sessionDbPath := str "s"

/-- A message over `irc`. -/
def posted (threadId senderId : Bytes) : Delivery where
  message := {
    channelName := str "irc"
    conversationId := str "c"
    threadId := threadId
    senderId := senderId
    text := str "a" }
  env := quietEnv

/-- The provider says `ok`, which is a C string. -/
theorem texts_ok {o : Orchestrator} {d : Delivery} {turn : Turn} {answer : Answer}
    (hturn : (orchestratorProcess o d.message d.env).turn = some (turn, answer)) (hinput : 0 ∉ turn.input)
    (houtput : answer.result = .ok (str "ok")) :
    ∀ turn answer, (orchestratorProcess o d.message d.env).turn = some (turn, answer) →
      0 ∉ turn.input ∧ ∀ output, answer.result = .ok output → 0 ∉ output := by
  intro turn' answer' hturn'
  cases hturn.symm.trans hturn'
  refine ⟨hinput, fun output h => ?_⟩
  cases houtput.symm.trans h
  decide

/-- A conversation, a restart, and the conversation goes on. -/
theorem sessions_survive_irc : Survives (run sessionStep withSessions
    [.message (posted [] (str "u")), .restart {}, .message (posted (str "c") (str "u"))]) :=
  sessions_survive rfl (by decide) ⟨rfl, rfl⟩ _
    ⟨⟨⟨⟨_, rfl⟩, by decide, by decide, by decide, texts_ok rfl (by decide) rfl⟩,
        by decide, by decide, Or.inl rfl⟩, trivial,
      ⟨⟨⟨_, rfl⟩, by decide, by decide, by decide, texts_ok rfl (by decide) rfl⟩,
        by decide, by decide, Or.inr rfl⟩, trivial⟩

/-- What survives is what is loaded. -/
theorem Survives.scope {o : Orchestrator} (h : Survives o) (histories : List HistoryScope)
    (hload : loadSessionHistory o.toOrchestratorConfig o.sessions = .ok histories) {scope : HistoryScope}
    (hscope : scope ∈ o.histories) : scope ∈ histories := by
  obtain ⟨restarted, hnew, hperm⟩ := h {}
  rw [orchestratorNew, hload] at hnew
  cases hnew
  exact hperm.mem_iff.mpr hscope

/-- **A history is lost at the restart**: that of a thread comes back as that of its conversation, and
    that of a sender with a `_` as another sender's. -/
theorem history_misplaced :
    (Handled withSessions (posted (str "t") (str "u")) ∧
        ¬ Survives (run sessionStep withSessions [.message (posted (str "t") (str "u"))])) ∧
      Handled withSessions (posted [] (str "u_v")) ∧
        ¬ Survives (run sessionStep withSessions [.message (posted [] (str "u_v"))]) := by
  refine ⟨⟨⟨⟨_, rfl⟩, by decide, by decide, by decide, texts_ok rfl (by decide) rfl⟩, fun h => ?_⟩,
    ⟨⟨_, rfl⟩, by decide, by decide, by decide, texts_ok rfl (by decide) rfl⟩, fun h => ?_⟩
  · have hscope := h.scope [⟨str "irc", str "u", str "c",
        [⟨str "user", str "a"⟩, ⟨str "assistant", str "ok"⟩]⟩] rfl List.mem_cons_self
    exact absurd hscope (by decide)
  · have hscope := h.scope [⟨str "irc", str "v", str "c_u",
        [⟨str "user", str "a"⟩, ⟨str "assistant", str "ok"⟩]⟩] rfl List.mem_cons_self
    exact absurd hscope (by decide)

end SmolClaw.Channels
