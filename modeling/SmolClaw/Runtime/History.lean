/-
  The message history of a conversation (`sc_history_*`, `src/runtime/agent.c`).

  1. **Program** — messages are appended and the oldest ones dropped; before a prompt is built the
     history is cut to a budget, the part that does not fit is compressed into one message of the role
     `system` that quotes the beginning of each.

  2. **Provenance** — `Made P m`: the message `m` satisfies `P`, or is such a summary of messages that
     are themselves made from `P`.  No operation puts anything else into a history (`AllMade`), and
     nothing is made from nothing (`Made.source`).
-/
import SmolClaw.Core.Status
import SmolClaw.Lib.Window

namespace SmolClaw.Runtime

open Lib.Window

/-! ## Messages -/

/-- `sc_history_message` -/
structure HistoryMessage where
  role : Bytes
  content : Bytes
  deriving DecidableEq, Repr

/-- `SIZE_MAX` -/
def sizeMax : Nat := 2 ^ 64 - 1

/-- `size_add_saturating` -/
def sizeAddSaturating (a b : Nat) : Nat := min (a + b) sizeMax

/-- `history_message_estimated_chars` -/
def messageEstimatedChars (message : HistoryMessage) : Nat :=
  sizeAddSaturating (sizeAddSaturating message.role.length message.content.length) 2

/-- `sc_history_estimated_chars` -/
def historyEstimatedChars (messages : List HistoryMessage) : Nat :=
  messages.foldl (fun total message => sizeAddSaturating total (messageEstimatedChars message)) 0

/-- `history_role_is_tool_result` -/
def roleIsToolResult (role : Bytes) : Bool := role == str "tool" || role == str "tool_result"

/-- A message of this role may be followed by a tool result. -/
def roleAllowsToolResult (role : Bytes) : Bool := role == str "assistant" || roleIsToolResult role

/-! ## Trimming -/

/-- The loop of `sc_history_prune_orphans`, and of `sc_history_append_to_prompt`, which skips the same
    messages: tool results that follow no request. -/
def pruneOrphansFrom : Bool → List HistoryMessage → List HistoryMessage
  | _, [] => []
  | previousAllows, message :: rest =>
      if roleIsToolResult message.role && !previousAllows then pruneOrphansFrom previousAllows rest
      else message :: pruneOrphansFrom (roleAllowsToolResult message.role) rest

/-- `sc_history_prune_orphans` -/
def pruneOrphans (messages : List HistoryMessage) : List HistoryMessage := pruneOrphansFrom false messages

/-- `sc_history_trim`; 0 is no bound. -/
def historyTrim (maxMessages : Nat) (messages : List HistoryMessage) : List HistoryMessage :=
  if maxMessages = 0 then messages else trimFront maxMessages (pruneOrphans messages)

/-- `sc_history_append` -/
def historyAppend (maxMessages : Nat) (messages : List HistoryMessage) (role content : Bytes) :
    Res (List HistoryMessage) :=
  if role = [] then Status.invalidArgument "sc.history.invalid_argument"
  else .ok (historyTrim maxMessages (messages ++ [⟨role, content⟩]))

/-! ## Compression -/

/-- How much of a message is quoted when `room` is left. -/
def quotedLength (maxSummaryChars room : Nat) (message : HistoryMessage) : Nat :=
  let length := min message.content.length 180
  if 0 < maxSummaryChars ∧ room < length + message.role.length + 8 then room - (message.role.length + 8)
  else length

/-- A line of the summary. -/
def summaryLine (maxSummaryChars room : Nat) (message : HistoryMessage) : Bytes :=
  str "- " ++ message.role ++ str ": " ++
    message.content.take (quotedLength maxSummaryChars room message) ++ str "\n"

/-- The loop that quotes messages, with the bytes used so far; it stops when no room is left. -/
def summaryLines (maxSummaryChars : Nat) : Nat → List HistoryMessage → Bytes
  | _, [] => []
  | used, message :: rest =>
      let room := maxSummaryChars - used
      if 0 < maxSummaryChars ∧ room ≤ 8 then []
      else
        let line := summaryLine maxSummaryChars room message
        line ++ summaryLines maxSummaryChars (used + line.length) rest

/-- The first line of a summary. -/
def summaryHeader : Bytes :=
  str "Compressed earlier context. Keep these facts as background, but prefer newer messages:\n"

/-- The summary of the messages that are compressed. -/
def summaryOf (maxSummaryChars : Nat) (messages : List HistoryMessage) : HistoryMessage :=
  ⟨str "system", summaryHeader ++ summaryLines maxSummaryChars summaryHeader.length messages⟩

/-- `sc_history_compress_to_recent`: the summary stands first, before the recent messages. -/
def compressToRecent (messages : List HistoryMessage) (recentMessages maxSummaryChars : Nat) :
    List HistoryMessage :=
  let messages := pruneOrphans messages
  let recentMessages := max recentMessages 1
  if messages.length ≤ recentMessages then messages
  else
    let compressCount := messages.length - recentMessages
    pruneOrphans (summaryOf maxSummaryChars (messages.take compressCount) :: messages.drop compressCount)

/-- The loop of `history_recent_messages_for_budget`, from the newest message on. -/
def countRecent (maxChars : Nat) : Nat → Nat → List HistoryMessage → Nat
  | count, _, [] => count
  | count, used, message :: rest =>
      let next := sizeAddSaturating used (messageEstimatedChars message)
      if 0 < count ∧ 0 < maxChars ∧ maxChars < next then count
      else if maxChars = 0 then count + 1
      else countRecent maxChars (count + 1) next rest

/-- `history_recent_messages_for_budget` -/
def recentMessagesForBudget (messages : List HistoryMessage) (maxChars : Nat) : Nat :=
  if messages = [] then 0 else max (countRecent maxChars 0 0 messages.reverse) 1

/-- The loop that drops messages from the front while they are too many for the budget. -/
def dropToBudget (maxChars : Nat) : List HistoryMessage → List HistoryMessage
  | [] => []
  | message :: rest =>
      if maxChars < historyEstimatedChars (message :: rest) then dropToBudget maxChars rest
      else message :: rest

/-- `sc_history_prune_to_budget` -/
def pruneToBudget (messages : List HistoryMessage) (maxChars : Nat) : List HistoryMessage :=
  let messages := pruneOrphans messages
  if historyEstimatedChars messages ≤ maxChars then messages
  else if maxChars = 0 then []
  else
    let messages :=
      if 1 < messages.length then
        let recentBudget := maxChars - maxChars / 4
        let recentMessages := min (recentMessagesForBudget messages recentBudget) (messages.length - 1)
        let summaryBudget := if maxChars / 4 < 128 ∧ 128 ≤ maxChars then 128 else maxChars / 4
        compressToRecent messages recentMessages summaryBudget
      else messages
    pruneOrphans (dropToBudget maxChars messages)

/-- What `compact_history_for_overflow_retry` makes of a history, with the budget of the prompt. -/
def compactForOverflow (messages : List HistoryMessage) (budget : Nat) : List HistoryMessage :=
  if messages = [] then []
  else
    let overflowBudget := if budget / 2 = 0 ∧ 0 < budget then 1 else budget / 2
    let messages :=
      if 1 < messages.length then
        let recentMessages :=
          min (recentMessagesForBudget messages (overflowBudget / 2)) (messages.length - 1)
        compressToRecent messages recentMessages (overflowBudget / 4)
      else messages
    pruneToBudget messages overflowBudget

/-! ## Provenance -/

/-- **A message made from those that satisfy `P`**: one of them, or a summary of some messages made from
    them. -/
inductive Made (P : HistoryMessage → Prop) : HistoryMessage → Prop where
  | said {m : HistoryMessage} : P m → Made P m
  | summary {parts : List HistoryMessage} (maxSummaryChars : Nat) : parts ≠ [] →
      (∀ part ∈ parts, Made P part) → Made P (summaryOf maxSummaryChars parts)

/-- Every message of a history is made from those that satisfy `P`. -/
def AllMade (P : HistoryMessage → Prop) (messages : List HistoryMessage) : Prop :=
  ∀ m ∈ messages, Made P m

theorem Made.mono {P Q : HistoryMessage → Prop} (h : ∀ m, P m → Q m) {m : HistoryMessage}
    (hm : Made P m) : Made Q m := by
  induction hm with
  | said hp => exact .said (h _ hp)
  | summary limit hne _ ih => exact .summary limit hne ih

/-- **Nothing is made from nothing.** -/
theorem Made.source {P : HistoryMessage → Prop} {m : HistoryMessage} (hm : Made P m) : ∃ m, P m := by
  induction hm with
  | said hp => exact ⟨_, hp⟩
  | summary limit hne _ ih =>
    obtain ⟨part, hpart⟩ := List.exists_mem_of_ne_nil _ hne
    exact ih part hpart

theorem AllMade.mono {P Q : HistoryMessage → Prop} (h : ∀ m, P m → Q m) {messages : List HistoryMessage}
    (hm : AllMade P messages) : AllMade Q messages := fun m hmem => (hm m hmem).mono h

theorem pruneOrphansFrom_sublist (previousAllows : Bool) (messages : List HistoryMessage) :
    (pruneOrphansFrom previousAllows messages).Sublist messages := by
  induction messages generalizing previousAllows with
  | nil => exact List.Sublist.refl _
  | cons message rest ih =>
    rw [pruneOrphansFrom]
    split
    · exact (ih previousAllows).cons message
    · exact (ih _).cons_cons message

section Provenance

variable {P : HistoryMessage → Prop} {messages : List HistoryMessage}

theorem AllMade.subset {fewer : List HistoryMessage} (h : AllMade P messages) (hsub : fewer ⊆ messages) :
    AllMade P fewer := fun m hm => h m (hsub hm)

theorem AllMade.pruneOrphans (h : AllMade P messages) : AllMade P (pruneOrphans messages) :=
  h.subset (pruneOrphansFrom_sublist false messages).subset

theorem AllMade.historyTrim (h : AllMade P messages) (maxMessages : Nat) :
    AllMade P (historyTrim maxMessages messages) := by
  unfold Runtime.historyTrim
  split
  · exact h
  · exact h.pruneOrphans.subset (trimFront_suffix _ _).subset

theorem AllMade.compressToRecent (h : AllMade P messages) (recentMessages maxSummaryChars : Nat) :
    AllMade P (compressToRecent messages recentMessages maxSummaryChars) := by
  have hpruned := h.pruneOrphans
  unfold Runtime.compressToRecent
  simp only
  split
  · exact hpruned
  next hmany =>
    refine AllMade.pruneOrphans fun m hm => ?_
    rcases List.mem_cons.mp hm with rfl | hm
    · refine .summary maxSummaryChars (fun hnil => hmany ?_) fun part hpart =>
        hpruned part (List.mem_of_mem_take hpart)
      -- a summary of nothing would mean that there was nothing to compress
      have hlen := congrArg List.length hnil
      rw [List.length_take, List.length_nil] at hlen
      omega
    · exact hpruned m (List.mem_of_mem_drop hm)

theorem dropToBudget_suffix (maxChars : Nat) (messages : List HistoryMessage) :
    dropToBudget maxChars messages <:+ messages := by
  induction messages with
  | nil => exact List.suffix_refl _
  | cons message rest ih =>
    rw [dropToBudget]
    split
    · exact ih.trans (List.suffix_cons _ _)
    · exact List.suffix_refl _

theorem AllMade.pruneToBudget (h : AllMade P messages) (maxChars : Nat) :
    AllMade P (pruneToBudget messages maxChars) := by
  have hpruned := h.pruneOrphans
  unfold Runtime.pruneToBudget
  simp only
  split
  · exact hpruned
  · split
    · intro m hm
      exact absurd hm List.not_mem_nil
    · have hdrop : ∀ {ms : List HistoryMessage}, AllMade P ms →
          AllMade P (Runtime.pruneOrphans (dropToBudget maxChars ms)) :=
        fun hms => (hms.subset (dropToBudget_suffix _ _).subset).pruneOrphans
      split
      · exact hdrop (hpruned.compressToRecent _ _)
      · exact hdrop hpruned

theorem AllMade.compactForOverflow (h : AllMade P messages) (budget : Nat) :
    AllMade P (compactForOverflow messages budget) := by
  unfold Runtime.compactForOverflow
  split
  · intro m hm
    exact absurd hm List.not_mem_nil
  · simp only
    split
    · exact (h.compressToRecent _ _).pruneToBudget _
    · exact h.pruneToBudget _

end Provenance

/-- A history without messages has nothing to cut. -/
theorem pruneToBudget_nil (maxChars : Nat) : pruneToBudget [] maxChars = [] := by
  unfold pruneToBudget
  exact if_pos (Nat.zero_le _)

end SmolClaw.Runtime
