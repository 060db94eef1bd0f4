/-
  Which messages are dropped as duplicates (`message_seen` and `remember_message`,
  `src/channels/orchestrator.c`).

  1. **Program** — one list of identifiers for all channels.  A webhook body without an identifier is
     called `webhook`, a mail without one `mail`.

  2. **Specification** — `SameMessage`: two messages are one when they came over the same channel with
     the same identifier, given by the sender.  `DropsDuplicates`: a message of a sequence is reported
     as duplicate exactly when it is one with an earlier message.

  3. **Defect** — channels share the list, and messages without an identifier share the fallback.

  4. **Result** — `dropsDuplicates_iff`: a sequence that fits into the list is treated right exactly
     when any two of its messages with equal identifiers are one message.
-/
import Mathlib.Data.List.Pairwise
import SmolClaw.Channels.Mail
import SmolClaw.Channels.Orchestrator
import SmolClaw.Channels.Webhook

namespace SmolClaw.Channels

open Lib.Run Lib.Window

/-! ## Where messages come from -/

section Arrivals

variable (jsonParseString : Bytes → Option ParsonObject)

/-- A message as a channel produces it, and the identifier its sender gave. -/
inductive Arrived : ChannelInbound → Option Bytes → Prop where
  | webhook {storeMedia : StoreMedia} {maxMediaBytes : Nat} {body remoteAddr nonce : Bytes}
      {timestamp : Int} {inbound : ChannelInbound} {object : ParsonObject} :
      jsonParseString (cString body) = some object →
      parseWebhookBody jsonParseString storeMedia maxMediaBytes body remoteAddr =
        .ok (inbound, nonce, timestamp) →
      Arrived inbound (given (object.getString "message_id"))
  | mail {raw inboxUrl : Bytes} {inbound : ChannelInbound} :
      mailParseMessage raw inboxUrl = .ok inbound →
      Arrived inbound (given (some (trimAscii (mailHeaderValue raw (str "Message-ID")))))
  | other {inbound : ChannelInbound} :
      inbound.messageId ≠ [] → Arrived inbound (some inbound.messageId)

/-- A message handed to the orchestrator. -/
structure Arrival where
  inbound : ChannelInbound
  env : MessageEnv
  givenId : Option Bytes
  arrived : Arrived jsonParseString inbound givenId

/-- Two messages are one: the same channel, and the same identifier given by the sender. -/
def SameMessage (a b : Arrival jsonParseString) : Prop :=
  a.inbound.channelName = b.inbound.channelName ∧ a.givenId = b.givenId ∧ a.givenId ≠ none

/-- The orchestrator takes the next message. -/
def takeArrival (o : Orchestrator) (a : Arrival jsonParseString) : Orchestrator :=
  (orchestratorProcess o a.inbound a.env).orchestrator

/-- The message is reported as a duplicate. -/
def reportsDuplicate : Res ProcessResult → Bool
  | .ok result => result.duplicate
  | .error _ => false

/-- **Every message is reported as a duplicate exactly when it is one with an earlier message.** -/
def DropsDuplicates (o : Orchestrator) (arrivals : List (Arrival jsonParseString)) : Prop :=
  ∀ before a after, arrivals = before ++ a :: after →
    (reportsDuplicate (orchestratorProcess (run (takeArrival jsonParseString) o before) a.inbound
      a.env).result = true ↔ ∃ b ∈ before, SameMessage jsonParseString b a)

end Arrivals

/-! ## Identifiers -/

section Identifiers

variable {jsonParseString : Bytes → Option ParsonObject}

theorem given_eq_some {value : Option Bytes} {text : Bytes} (h : given value = some text) :
    value = some text ∧ text ≠ [] := by
  obtain ⟨hvalue, hne⟩ := Option.filter_eq_some_iff.mp h
  exact ⟨hvalue, of_decide_eq_true hne⟩

/-- An identifier that was given is the message's, and no message goes without one. -/
theorem Arrived.messageId {inbound : ChannelInbound} {givenId : Option Bytes}
    (h : Arrived jsonParseString inbound givenId) :
    inbound.messageId ≠ [] ∧ ∀ id, givenId = some id → inbound.messageId = id := by
  cases h with
  | @webhook _ _ _ _ _ _ _ object hobject hparse =>
    obtain ⟨found, hfound, -, -, -, hid⟩ := parseWebhookBody_ok jsonParseString hparse
    obtain rfl : object = found := Option.some.inj (hobject.symm.trans hfound)
    cases hgiven : given (object.getString "message_id") with
    | none =>
      rw [hgiven] at hid
      rw [hid]
      exact ⟨by decide, fun id h => nomatch h⟩
    | some text =>
      rw [hgiven] at hid
      rw [hid]
      exact ⟨(given_eq_some hgiven).2, fun id h => Option.some.inj h⟩
  | @mail raw _ _ hparse =>
    rw [(mailParseMessage_ok hparse).1, orMail]
    by_cases hid : trimAscii (mailHeaderValue raw (str "Message-ID")) = []
    · rw [if_pos hid, hid]
      exact ⟨by decide, fun id h => nomatch h⟩
    · rw [if_neg hid]
      exact ⟨hid, fun id h => Option.some.inj (given_eq_some h).1⟩
  | other hid => exact ⟨hid, fun id h => Option.some.inj h⟩

theorem SameMessage.symm {a b : Arrival jsonParseString} (h : SameMessage jsonParseString a b) :
    SameMessage jsonParseString b a :=
  ⟨h.1.symm, h.2.1.symm, fun hb => h.2.2 (h.2.1.trans hb)⟩

theorem SameMessage.trans {a b c : Arrival jsonParseString} (h : SameMessage jsonParseString a b)
    (h' : SameMessage jsonParseString b c) : SameMessage jsonParseString a c :=
  ⟨h.1.trans h'.1, h.2.1.trans h'.2.1, h.2.2⟩

/-- One message has one identifier. -/
theorem SameMessage.messageId {a b : Arrival jsonParseString} (h : SameMessage jsonParseString a b) :
    a.inbound.messageId = b.inbound.messageId := by
  obtain ⟨-, hgiven, hsome⟩ := h
  obtain ⟨id, hid⟩ := Option.ne_none_iff_exists'.mp hsome
  rw [(a.arrived.messageId).2 id hid, (b.arrived.messageId).2 id (hgiven ▸ hid)]

end Identifiers

/-! ## The list of identifiers -/

/-- An answered message is no duplicate. -/
theorem answerMessage_no_duplicate (o : Orchestrator) (message : ChannelInbound) (env : MessageEnv) :
    reportsDuplicate (answerMessage o message env).result = false := by
  unfold answerMessage
  simp only
  split
  · rfl
  · split
    · rfl
    · split
      · rfl
      · cases env.emit with
        | error e => rfl
        | ok _ => rfl

/-- A message is reported as a duplicate when its identifier was seen. -/
theorem orchestratorProcess_duplicate (o : Orchestrator) (message : ChannelInbound) (env : MessageEnv) :
    reportsDuplicate (orchestratorProcess o message env).result = messageSeen o message.messageId := by
  unfold orchestratorProcess
  cases messageSeen o message.messageId with
  | true => rfl
  | false =>
    simp only [Bool.false_eq_true, if_false]
    split
    · rfl
    · exact answerMessage_no_duplicate _ _ _

section Runs

variable {jsonParseString : Bytes → Option ParsonObject}

/-- **While the list has room it holds the identifiers of all messages so far.** -/
theorem seen_run (o : Orchestrator) (hnew : o.seenMessageIds = []) :
    ∀ arrivals : List (Arrival jsonParseString), arrivals.length ≤ o.maxSeenMessageIds →
      (run (takeArrival jsonParseString) o arrivals).toOrchestratorConfig = o.toOrchestratorConfig ∧
        (run (takeArrival jsonParseString) o arrivals).seenMessageIds.length ≤ arrivals.length ∧
        ∀ id, id ∈ (run (takeArrival jsonParseString) o arrivals).seenMessageIds ↔
          ∃ a ∈ arrivals, a.inbound.messageId = id := by
  intro arrivals
  -- the last message is the one that is taken last
  induction arrivals using List.reverseRecOn with
  | nil =>
    intro _
    refine ⟨rfl, ?_, fun id => ?_⟩
    · show o.seenMessageIds.length ≤ 0
      rw [hnew]
      exact Nat.le_refl _
    · show id ∈ o.seenMessageIds ↔ _
      rw [hnew]
      simp
  | append_singleton arrivals a ih =>
    intro hlen
    rw [List.length_append, List.length_singleton] at hlen
    obtain ⟨hconfig, hcount, hids⟩ := ih (by omega)
    have hrun : run (takeArrival jsonParseString) o (arrivals ++ [a]) =
        takeArrival jsonParseString (run (takeArrival jsonParseString) o arrivals) a := by
      rw [run, List.foldl_append]
      rfl
    rw [hrun]
    generalize run (takeArrival jsonParseString) o arrivals = o' at hconfig hcount hids
    obtain ⟨hstep, hseen, -, -⟩ := orchestratorProcess_agent o' a.inbound a.env
    have hne := a.arrived.messageId.1
    have hlast : ∀ id, (∃ b ∈ arrivals ++ [a], b.inbound.messageId = id) ↔
        (∃ b ∈ arrivals, b.inbound.messageId = id) ∨ a.inbound.messageId = id := by
      intro id
      simp only [List.mem_append, List.mem_singleton, or_and_right, exists_or, exists_eq_left]
    refine ⟨hstep.trans hconfig, ?_⟩
    show (orchestratorProcess o' a.inbound a.env).orchestrator.seenMessageIds.length ≤ _ ∧
      ∀ id, id ∈ (orchestratorProcess o' a.inbound a.env).orchestrator.seenMessageIds ↔ _
    rw [hseen, List.length_append, List.length_singleton]
    by_cases hmem : a.inbound.messageId ∈ o'.seenMessageIds
    · have hdup : messageSeen o' a.inbound.messageId = true := decide_eq_true ⟨hne, hmem⟩
      rw [if_pos hdup]
      refine ⟨by omega, fun id => ?_⟩
      rw [hids id, hlast id]
      refine ⟨Or.inl, fun h => h.elim (fun hid => hid) fun hid => ?_⟩
      rw [← hid]
      exact (hids _).mp hmem
    · have hroom : o'.seenMessageIds.length < o'.maxSeenMessageIds := by
        rw [show o'.maxSeenMessageIds = o.maxSeenMessageIds from
          congrArg OrchestratorConfig.maxSeenMessageIds hconfig]
        omega
      rw [if_neg (fun h => hmem (of_decide_eq_true h).2), rememberMessage, if_neg hne]
      show (push o'.maxSeenMessageIds o'.seenMessageIds a.inbound.messageId).length ≤ _ ∧ _
      rw [push_of_lt hroom, List.length_append, List.length_singleton]
      refine ⟨by omega, fun id => ?_⟩
      show id ∈ o'.seenMessageIds ++ [a.inbound.messageId] ↔ _
      rw [List.mem_append, List.mem_singleton, hids id, hlast id, eq_comm]

/-- **A message is reported as a duplicate exactly when an earlier one has its identifier.** -/
theorem reportsDuplicate_iff {o : Orchestrator} (hnew : o.seenMessageIds = [])
    {before : List (Arrival jsonParseString)} (hlen : before.length ≤ o.maxSeenMessageIds)
    (a : Arrival jsonParseString) :
    reportsDuplicate (orchestratorProcess (run (takeArrival jsonParseString) o before) a.inbound
        a.env).result = true ↔
      ∃ b ∈ before, b.inbound.messageId = a.inbound.messageId := by
  obtain ⟨-, -, hids⟩ := seen_run o hnew before hlen
  rw [orchestratorProcess_duplicate, ← hids]
  exact decide_eq_true_iff.trans (and_iff_right a.arrived.messageId.1)

/-- If every message with a repeated identifier is one with an earlier message, all messages with equal
    identifiers are one. -/
theorem pairwise_of_repeats (arrivals : List (Arrival jsonParseString))
    (h : ∀ before a after, arrivals = before ++ a :: after →
      ((∃ b ∈ before, b.inbound.messageId = a.inbound.messageId) ↔
        ∃ b ∈ before, SameMessage jsonParseString b a)) :
    arrivals.Pairwise fun a b => a.inbound.messageId = b.inbound.messageId →
      SameMessage jsonParseString a b := by
  have hsymm : Std.Symm fun a b : Arrival jsonParseString =>
      a.inbound.messageId = b.inbound.messageId → SameMessage jsonParseString a b :=
    ⟨fun a b hab hid => (hab hid.symm).symm⟩
  induction arrivals using List.reverseRecOn with
  | nil => exact List.Pairwise.nil
  | append_singleton arrivals a ih =>
    have hearlier := ih fun before b after hsplit => h before b (after ++ [a]) (by
      rw [hsplit, List.append_assoc, List.cons_append])
    refine List.pairwise_append.mpr ⟨hearlier, List.pairwise_singleton _ _, ?_⟩
    intro b hb c hc hid
    rw [List.mem_singleton.mp hc] at hid ⊢
    obtain ⟨d, hd, hsame⟩ := (h arrivals a [] rfl).mp ⟨b, hb, hid⟩
    -- the earlier message that is one with `a` is also one with `b`
    by_cases hbd : b = d
    · rw [hbd]
      exact hsame
    · exact (hearlier.forall hb hd hbd (hid.trans hsame.messageId.symm)).trans hsame

/-- **When duplicates are dropped right**: in a sequence that fits into the list, exactly when any two
    messages with equal identifiers are one message. -/
theorem dropsDuplicates_iff {o : Orchestrator} (hnew : o.seenMessageIds = [])
    (arrivals : List (Arrival jsonParseString)) (hlen : arrivals.length ≤ o.maxSeenMessageIds) :
    DropsDuplicates jsonParseString o arrivals ↔
      arrivals.Pairwise fun a b => a.inbound.messageId = b.inbound.messageId →
        SameMessage jsonParseString a b := by
  have hlaw : ∀ before a after, arrivals = before ++ a :: after →
      (reportsDuplicate (orchestratorProcess (run (takeArrival jsonParseString) o before) a.inbound
        a.env).result = true ↔ ∃ b ∈ before, b.inbound.messageId = a.inbound.messageId) := by
    intro before a after h
    rw [h, List.length_append] at hlen
    exact reportsDuplicate_iff hnew (by omega) a
  constructor
  · intro h
    exact pairwise_of_repeats arrivals fun before a after hsplit =>
      (hlaw before a after hsplit).symm.trans (h before a after hsplit)
  · intro h before a after hsplit
    rw [hlaw before a after hsplit]
    rw [hsplit] at h
    obtain ⟨-, -, hcross⟩ := List.pairwise_append.mp h
    constructor
    · rintro ⟨b, hb, hid⟩
      exact ⟨b, hb, hcross b hb a List.mem_cons_self hid⟩
    · rintro ⟨b, hb, hsame⟩
      exact ⟨b, hb, hsame.messageId⟩

end Runs

/-! ## Two sequences -/

/-- Surroundings in which nothing fails and the provider repeats itself. -/
def quietEnv : MessageEnv where
  announce := .ok ()
  transcript := .ok []
  turn := {
    prepare := .ok []
    sections := fun _ => .ok ()
    built := fun _ => .ok ()
    provider := fun _ _ => .ok (str "ok")
    finish := .ok
    persist := fun _ => .ok () }
  reply _ := .ok ()
  persistInput := .ok ()
  persistOutput := .ok ()
  emit := .ok ()

/-- A message `1` over a channel. -/
def numberOne (channelName : Bytes) : Arrival fun _ => none where
  inbound := { messageId := str "1", channelName := channelName, conversationId := str "c", text := str "hi" }
  env := quietEnv
  givenId := some (str "1")
  arrived := .other (show str "1" ≠ [] by decide)

/-- A message sent twice is dropped the second time. -/
theorem dropsDuplicates_twice :
    DropsDuplicates (fun _ => none) { agent := {} } [numberOne (str "irc"), numberOne (str "irc")] ↔
      [numberOne (str "irc"), numberOne (str "irc")].Pairwise fun a b =>
        a.inbound.messageId = b.inbound.messageId → SameMessage (fun _ => none) a b :=
  dropsDuplicates_iff rfl _ (by decide)

/-- **The first message of the second channel is dropped** because the other channel counts from one
    too. -/
theorem first_message_dropped : ¬ ∀ arrivals : List (Arrival fun _ => none),
    arrivals.length ≤ 1024 → DropsDuplicates (fun _ => none) { agent := {} } arrivals := by
  intro h
  have hdup := h [numberOne (str "irc"), numberOne (str "sms")] (by decide) [numberOne (str "irc")]
    (numberOne (str "sms")) [] rfl
  obtain ⟨b, hb, hchannel, -⟩ := hdup.mp ((reportsDuplicate_iff rfl (by decide) _).mpr
    ⟨_, List.mem_cons_self, rfl⟩)
  rw [List.mem_singleton.mp hb] at hchannel
  exact absurd hchannel (by decide)

end SmolClaw.Channels
