/-
  Approvals over Telegram (`telegram_request_approval`, `src/channels/telegram.c`).

  1. **Program** — a request gets a number, sends two buttons with the number in their data, and polls the
     channel until the deadline.  What is handed on decides if it comes from the sender of the request and
     has one of the button's data or contains `approve`, `yes`, `deny` or `no`.

  2. **Specification** — `ApprovalBound`: what approves is an update that the server returned during the
     wait, from the sender of the request, in its conversation, and with the data of ITS OWN button or with
     the word `approve` or `yes` as the whole text.

  3. **Defect** — the data of the button is compared, but the test for the words next to it looks for them
     anywhere in the text (`sc:approve:1` and `do not approve` contain `approve`), and the conversation is
     not looked at.

  4. **Result** — `approvalBound_iff`: the specification is met exactly when the first message of the sender
     that contains one of the four words is bound so, or contains neither `approve` nor `yes`.
-/
import SmolClaw.Channels.TelegramPolling
import SmolClaw.Net.Url

namespace SmolClaw.Channels

open Lib.Run

/-! ## Program -/

/-- `sc_channel_approval_request`, as far as it is compared. -/
structure ApprovalRequest where
  senderId : Bytes
  conversationId : Bytes

/-- `sc_channel_approval_decision` -/
inductive ApprovalDecision
  | approved
  | denied
deriving DecidableEq

/-- `sc_channel_approval_response`, with the update that it was made from. -/
structure ApprovalResponse where
  decision : ApprovalDecision
  reason : Bytes
  decidedBy : Option TelegramUpdate

/-- The number of the next request. -/
def approvalId (telegram : TelegramChannel) : UInt64 :=
  if telegram.nextApprovalId = UInt64.ofNat (2 ^ 64 - 1) then 1 else telegram.nextApprovalId + 1

/-- The data of the two buttons. -/
def approveData (id : UInt64) : Bytes := str "sc:approve:" ++ decimal id.toNat
def denyData (id : UInt64) : Bytes := str "sc:deny:" ++ decimal id.toNat

/-- What a text decides, if it comes from the sender. -/
def textDecision (id : UInt64) (text : Bytes) : Option ApprovalDecision :=
  if text = approveData id ∨ strContainsCstr text (str "approve") ∨ strContainsCstr text (str "yes") then
    some .approved
  else if text = denyData id ∨ strContainsCstr text (str "deny") ∨ strContainsCstr text (str "no") then
    some .denied
  else none

/-- What a message decides. -/
def approvalDecision (request : ApprovalRequest) (id : UInt64) (inbound : ChannelInbound) :
    Option ApprovalDecision :=
  if inbound.senderId = request.senderId then textDecision id inbound.text else none

/-- The text that goes with a decision. -/
def decisionReason : ApprovalDecision → Bytes
  | .approved => str "approved by telegram"
  | .denied => str "denied by telegram"

/-- The loop of `telegram_request_approval`, over the calls of `telegram_listen` that start before the
    deadline. -/
def waitApproval (request : ApprovalRequest) (id : UInt64) :
    TelegramChannel → List TelegramPoll → TelegramChannel × Res ApprovalResponse
  | telegram, [] =>
      (telegram, .ok ⟨.denied, str "telegram approval timed out", none⟩)
  | telegram, poll :: polls =>
      match telegramListen telegram poll with
      | (telegram, .error e) =>
          if e.code = .timeout then waitApproval request id telegram polls else (telegram, .error e)
      | (telegram, .ok (update, inbound)) =>
          match approvalDecision request id inbound with
          | some decision => (telegram, .ok ⟨decision, decisionReason decision, some update⟩)
          | none => waitApproval request id telegram polls

/-- `telegram_request_approval`; `sent` is what came of the message with the buttons. -/
def telegramRequestApproval (telegram : TelegramChannel) (request : ApprovalRequest) (sent : Res Unit)
    (polls : List TelegramPoll) : TelegramChannel × Res ApprovalResponse :=
  let id := approvalId telegram
  let telegram := { telegram with nextApprovalId := id }
  match sent with
  | .error e => (telegram, .error e)
  | .ok () => waitApproval request id telegram polls

/-! ## Specification -/

/-- The updates in the answer to a poll. -/
def answered (telegram : TelegramChannel) (poll : TelegramPoll) : List Json :=
  match poll.getUpdates telegram.nextUpdateOffset with
  | .ok (some root) => (getArray root "result").getD []
  | _ => []

/-- The updates that the server returns during a wait. -/
def returned (request : ApprovalRequest) (id : UInt64) : TelegramChannel → List TelegramPoll → List Json
  | _, [] => []
  | telegram, poll :: polls =>
      answered telegram poll ++
        match telegramListen telegram poll with
        | (telegram, .error e) => if e.code = .timeout then returned request id telegram polls else []
        | (telegram, .ok (_, inbound)) =>
            match approvalDecision request id inbound with
            | some _ => []
            | none => returned request id telegram polls

/-- A text is a word, up to blanks around it. -/
def IsWord (text word : Bytes) : Prop :=
  ∃ before after, text = before ++ word ++ after ∧ before.all Net.isSpace = true ∧ after.all Net.isSpace = true

/-- **What may approve a request**: its sender, in its conversation, by its own button or by one of the two
    words. -/
structure Proper (request : ApprovalRequest) (id : UInt64) (update : TelegramUpdate) : Prop where
  sender : update.sender = request.senderId
  conversation : decimalInt update.chatId = request.conversationId
  text : update.text = approveData id ∨ IsWord update.text (str "approve") ∨ IsWord update.text (str "yes")

/-- **Bound to the request**: an approval was decided by an update that the server returned during the wait
    and that may approve it. -/
def ApprovalBound (telegram : TelegramChannel) (request : ApprovalRequest) (sent : Res Unit)
    (polls : List TelegramPoll) : Prop :=
  ∀ response, (telegramRequestApproval telegram request sent polls).2 = .ok response →
    response.decision = .approved →
      ∃ json ∈ returned request (approvalId telegram)
          { telegram with nextApprovalId := approvalId telegram } polls,
        ∃ update, telegramExtractUpdate json = some update ∧ response.decidedBy = some update ∧
          Proper request (approvalId telegram) update

/-- The messages that successive calls of `telegram_listen` hand on, up to the first that fails. -/
def heard : TelegramChannel → List TelegramPoll → List Handed
  | _, [] => []
  | telegram, poll :: polls =>
      match telegramListen telegram poll with
      | (telegram, .error e) => if e.code = .timeout then heard telegram polls else []
      | (telegram, .ok handed) => handed :: heard telegram polls

/-- A text that contains `approve` or `yes`, and one that contains any of the four words. -/
def SaysYes (text : Bytes) : Prop := str "approve" <:+: text ∨ str "yes" <:+: text

def SaysAny (text : Bytes) : Prop := SaysYes text ∨ str "deny" <:+: text ∨ str "no" <:+: text

instance (text : Bytes) : Decidable (SaysYes text) := inferInstanceAs (Decidable (_ ∨ _))
instance (text : Bytes) : Decidable (SaysAny text) := inferInstanceAs (Decidable (_ ∨ _))

/-- The first message of the sender that contains one of the four words. -/
def firstWord (request : ApprovalRequest) (messages : List Handed) : Option Handed :=
  messages.find? fun handed => handed.2.senderId = request.senderId ∧ SaysAny handed.2.text

/-! ## What a text decides -/

theorem approveData_contains (id : UInt64) : SaysYes (approveData id) := by
  refine Or.inl ⟨str "sc:", str ":" ++ decimal id.toNat, ?_⟩
  rw [approveData, ← List.append_assoc]
  rfl

theorem denyData_contains (id : UInt64) : str "deny" <:+: denyData id := by
  refine ⟨str "sc:", str ":" ++ decimal id.toNat, ?_⟩
  rw [denyData, ← List.append_assoc]
  rfl

/-- **The words decide**: the comparison with the data of a button adds nothing. -/
theorem textDecision_eq (id : UInt64) (text : Bytes) :
    textDecision id text =
      if SaysYes text then some .approved else if SaysAny text then some .denied else none := by
  have hyes : (text = approveData id ∨ strContainsCstr text (str "approve") ∨
      strContainsCstr text (str "yes")) ↔ SaysYes text := by
    simp only [strContainsCstr, decide_eq_true_eq]
    constructor
    · rintro (rfl | hcontains)
      · exact approveData_contains id
      · exact hcontains
    · exact Or.inr
  have hno : (text = denyData id ∨ strContainsCstr text (str "deny") ∨ strContainsCstr text (str "no")) ↔
      str "deny" <:+: text ∨ str "no" <:+: text := by
    simp only [strContainsCstr, decide_eq_true_eq]
    constructor
    · rintro (rfl | hcontains)
      · exact Or.inl (denyData_contains id)
      · exact hcontains
    · exact Or.inr
  rw [textDecision]
  by_cases hsays : SaysYes text
  · rw [if_pos (hyes.mpr hsays), if_pos hsays]
  · rw [if_neg (fun h => hsays (hyes.mp h)), if_neg hsays]
    by_cases hany : str "deny" <:+: text ∨ str "no" <:+: text
    · rw [if_pos (hno.mpr hany), if_pos (show SaysAny text from Or.inr hany)]
    · rw [if_neg (fun h => hany (hno.mp h)), if_neg (fun h : SaysAny text => h.elim hsays hany)]

theorem approvalDecision_eq (request : ApprovalRequest) (id : UInt64) (inbound : ChannelInbound) :
    approvalDecision request id inbound =
      if inbound.senderId = request.senderId ∧ SaysAny inbound.text then
        some (if SaysYes inbound.text then .approved else .denied)
      else none := by
  rw [approvalDecision, textDecision_eq]
  by_cases hsender : inbound.senderId = request.senderId
  · rw [if_pos hsender]
    by_cases hyes : SaysYes inbound.text
    · rw [if_pos hyes, if_pos ⟨hsender, Or.inl hyes⟩, if_pos hyes]
    · rw [if_neg hyes]
      by_cases hany : SaysAny inbound.text
      · rw [if_pos hany, if_pos ⟨hsender, hany⟩, if_neg hyes]
      · rw [if_neg hany, if_neg fun h => hany h.2]
  · rw [if_neg hsender, if_neg fun h => hsender h.1]

/-! ## What a call hands on -/

/-- What the loop over the updates hands on is an update of them that is shown, with its message. -/
theorem parseUpdates_ok {telegram after : TelegramChannel} {poll : TelegramPoll} {batch : List Json}
    {latestSeen nextOffset target : Int} {handed : Handed}
    (h : parseUpdates telegram poll batch latestSeen nextOffset = (after, .ok handed, target)) :
    ∃ json ∈ batch, shown telegram json = some handed.1 ∧ ∃ telegram' download,
      telegramUpdateToInbound telegram' handed.1 download = .ok handed.2 := by
  rcases skipped_or_shown telegram batch with hhidden | ⟨front, json, rest, update, rfl, hhidden, hshown⟩
  · have hskip := parseUpdates_skip poll [] batch latestSeen nextOffset hhidden
    rw [List.append_nil, h] at hskip
    cases hskip
  · rw [parseUpdates_skip _ _ _ _ _ hhidden, parseUpdates_shown hshown, handOn] at h
    rcases hcheck : telegramCheckRateLimit telegram poll.now with ⟨telegram', _ | _⟩
    · rw [hcheck] at h
      cases h
    · rw [hcheck] at h
      cases hinbound : telegramUpdateToInbound telegram' update poll.download with
      | error e =>
        simp only [hinbound] at h
        cases h
      | ok inbound =>
        simp only [hinbound] at h
        cases h
        exact ⟨json, List.mem_append_right _ List.mem_cons_self, hshown, _, poll.download, hinbound⟩

theorem toInbound_sender {telegram : TelegramChannel} {update : TelegramUpdate} {download : DownloadMedia}
    {inbound : ChannelInbound} (h : telegramUpdateToInbound telegram update download = .ok inbound) :
    inbound.senderId = update.sender := by
  unfold telegramUpdateToInbound at h
  by_cases hfile : update.media ∧ update.fileId.getD [] ≠ []
  · rw [if_pos hfile] at h
    cases hdownload : download update with
    | error e =>
      rw [hdownload] at h
      cases h
    | ok file =>
      rw [hdownload] at h
      cases h
      rfl
  · rw [if_neg hfile] at h
    cases h
    rfl

theorem telegramListen_ok {telegram after : TelegramChannel} {poll : TelegramPoll} {handed : Handed}
    (h : telegramListen telegram poll = (after, .ok handed)) :
    ∃ json ∈ answered telegram poll, telegramExtractUpdate json = some handed.1 ∧
      handed.2.senderId = handed.1.sender := by
  rw [telegramListen] at h
  split at h
  · cases h
  · rename_i root hroot
    rcases hparse : telegramParseFirstUpdate telegram poll root telegram.nextUpdateOffset with
      ⟨after', result, target⟩
    rw [hparse] at h
    cases result with
    | error e => cases h
    | ok handed' =>
      cases h
      unfold telegramParseFirstUpdate at hparse
      split at hparse
      · cases hparse
      · rename_i root
        split at hparse
        · rename_i batch _ hbatch
          obtain ⟨json, hjson, hshown, telegram', download, hinbound⟩ := parseUpdates_ok hparse
          refine ⟨json, ?_, (Option.filter_eq_some_iff.mp hshown).1, toInbound_sender hinbound⟩
          rw [answered, hroot]
          show json ∈ (getArray root "result").getD []
          rw [hbatch]
          exact hjson
        · cases hparse

/-! ## The wait -/

/-- The decision that the first such message brings. -/
def wordResponse (handed : Handed) : ApprovalResponse :=
  let decision := if SaysYes handed.2.text then .approved else .denied
  ⟨decision, decisionReason decision, some handed.1⟩

section Wait

variable {request : ApprovalRequest} (id : UInt64)

/-- The wait ends with the first message of the sender that has one of the words, or approves nothing. -/
theorem waitApproval_heard (polls : List TelegramPoll) :
    ∀ telegram, match firstWord request (heard telegram polls) with
      | some handed => (waitApproval request id telegram polls).2 = .ok (wordResponse handed)
      | none => ∀ response, (waitApproval request id telegram polls).2 = .ok response →
          response.decision = .denied := by
  induction polls with
  | nil => intro telegram response h; cases h; rfl
  | cons poll polls ih =>
    intro telegram
    rw [waitApproval, heard]
    rcases hlisten : telegramListen telegram poll with ⟨after, _ | ⟨update, inbound⟩⟩
    · rename_i e
      dsimp only
      by_cases htimeout : e.code = .timeout
      · rw [if_pos htimeout, if_pos htimeout]
        exact ih after
      · rw [if_neg htimeout, if_neg htimeout]
        intro response h
        cases h
    · dsimp only
      rw [approvalDecision_eq, firstWord]
      by_cases hword : inbound.senderId = request.senderId ∧ SaysAny inbound.text
      · rw [List.find?_cons_of_pos (by simpa using hword), if_pos hword]
        rfl
      · rw [List.find?_cons_of_neg (by simpa using hword), if_neg hword]
        exact ih after

/-- **The first message of the sender with one of the words decides.** -/
theorem waitApproval_first {handed : Handed} (polls : List TelegramPoll) (telegram : TelegramChannel)
    (h : firstWord request (heard telegram polls) = some handed) :
    (waitApproval request id telegram polls).2 = .ok (wordResponse handed) := by
  have hheard := @waitApproval_heard request id polls telegram
  rwa [h] at hheard

/-- Without such a message nothing approves. -/
theorem waitApproval_none {response : ApprovalResponse} (polls : List TelegramPoll) (telegram : TelegramChannel)
    (hnone : firstWord request (heard telegram polls) = none)
    (h : (waitApproval request id telegram polls).2 = .ok response) : response.decision = .denied := by
  have hheard := @waitApproval_heard request id polls telegram
  rw [hnone] at hheard
  exact hheard response h

/-- **The message that decides was returned during the wait**, from the sender of the request. -/
theorem firstWord_returned {handed : Handed} (polls : List TelegramPoll) :
    ∀ telegram, firstWord request (heard telegram polls) = some handed →
      ∃ json ∈ returned request id telegram polls, telegramExtractUpdate json = some handed.1 := by
  induction polls with
  | nil => intro telegram h; cases h
  | cons poll polls ih =>
    intro telegram h
    rw [returned]
    rw [heard] at h
    rcases hlisten : telegramListen telegram poll with ⟨after, _ | ⟨update, inbound⟩⟩
    · rename_i e
      simp only [hlisten] at h ⊢
      by_cases htimeout : e.code = .timeout
      · rw [if_pos htimeout] at h ⊢
        obtain ⟨json, hjson, hextract⟩ := ih after h
        exact ⟨json, List.mem_append_right _ hjson, hextract⟩
      · rw [if_neg htimeout] at h
        cases h
    · simp only [hlisten] at h ⊢
      rw [approvalDecision_eq]
      by_cases hword : inbound.senderId = request.senderId ∧ SaysAny inbound.text
      · rw [firstWord, List.find?_cons_of_pos (by simpa using hword)] at h
        obtain ⟨json, hjson, hextract, -⟩ := telegramListen_ok hlisten
        rw [← Option.some.inj h]
        exact ⟨json, List.mem_append_left _ hjson, hextract⟩
      · rw [firstWord, List.find?_cons_of_neg (by simpa using hword)] at h
        rw [if_neg hword]
        obtain ⟨json, hjson, hextract⟩ := ih after h
        exact ⟨json, List.mem_append_right _ hjson, hextract⟩

end Wait

/-! ## Result -/

/-- **Bound exactly when the first of the four words is**: the first message of the sender with one of them
    contains neither `approve` nor `yes`, or may approve the request. -/
theorem approvalBound_iff (telegram : TelegramChannel) (request : ApprovalRequest) (sent : Res Unit)
    (polls : List TelegramPoll) :
    ApprovalBound telegram request sent polls ↔
      (sent = .ok () → ∀ handed,
        firstWord request (heard { telegram with nextApprovalId := approvalId telegram } polls) = some handed →
          SaysYes handed.2.text → Proper request (approvalId telegram) handed.1) := by
  cases sent with
  | error e =>
    constructor
    · intro _ h
      cases h
    · intro _ response h
      cases h
  | ok _ =>
    constructor
    · intro h _ handed hfirst hyes
      have hresponse := waitApproval_first (approvalId telegram) polls _ hfirst
      obtain ⟨json, -, update, -, hdecided, hproper⟩ := h _ hresponse (if_pos hyes)
      rw [Option.some.inj hdecided]
      exact hproper
    · intro h response hresponse happroved
      cases hfirst : firstWord request
          (heard { telegram with nextApprovalId := approvalId telegram } polls) with
      | none =>
        rw [waitApproval_none _ polls _ hfirst hresponse] at happroved
        cases happroved
      | some handed =>
        have hword := waitApproval_first (approvalId telegram) polls _ hfirst
        rw [show (waitApproval request _ _ polls).2 = _ from hresponse] at hword
        cases hword
        have hyes : SaysYes handed.2.text := by
          by_contra hno
          rw [wordResponse, if_neg hno] at happroved
          cases happroved
        obtain ⟨json, hjson, hextract⟩ := firstWord_returned (approvalId telegram) polls _ hfirst
        exact ⟨json, hjson, handed.1, hextract, rfl, h rfl handed hfirst hyes⟩

/-- A message that says no with the word `approve` in it. -/
def refusalUpdate : Json :=
  .object [(str "update_id", .number (ofSize 1)), (str "message", .object [
    (str "message_id", .number (ofSize 10)), (str "chat", .object [(str "id", .number (ofSize 7))]),
    (str "from", .object [(str "id", .number (ofSize 7))]), (str "text", .string (str "do not approve"))])]

def refusalPoll : TelegramPoll where
  getUpdates _ := .ok (some (updatesAnswer [refusalUpdate]))
  now := 0
  download _ := .ok ([], [], 0)

/-- A word that stands alone begins the text, if that does not begin with a blank. -/
theorem IsWord.starts {c : UInt8} {text word : Bytes} (h : IsWord (c :: text) word)
    (hc : Net.isSpace c = false) : word <+: c :: text := by
  obtain ⟨before, after, htext, hbefore, -⟩ := h
  cases before with
  | nil => exact ⟨after, htext.symm⟩
  | cons b before =>
    rw [List.cons_append, List.cons_append] at htext
    rw [List.all_cons, Bool.and_eq_true, ← (List.cons.inj htext).1, hc] at hbefore
    exact absurd hbefore.1 Bool.false_ne_true

/-- **Refused, and approved**: `do not approve`. -/
theorem not_approvalBound_refusal :
    ¬ApprovalBound {} ⟨str "7", str "7"⟩ (.ok ()) [refusalPoll] := by
  intro h
  have hrun : ∃ response, (telegramRequestApproval {} ⟨str "7", str "7"⟩ (.ok ()) [refusalPoll]).2 =
      .ok response ∧ response.decision = .approved ∧
        response.decidedBy.map TelegramUpdate.text = some (str "do not approve") := by
    have hdecide : (match (telegramRequestApproval {} ⟨str "7", str "7"⟩ (.ok ()) [refusalPoll]).2 with
      | .ok response => decide (response.decision = .approved ∧
          response.decidedBy.map TelegramUpdate.text = some (str "do not approve"))
      | .error _ => false) = true := by
      decide +kernel
    split at hdecide
    · rename_i response hresponse
      exact ⟨response, hresponse, of_decide_eq_true hdecide⟩
    · cases hdecide
  obtain ⟨response, hresponse, happroved, htext⟩ := hrun
  obtain ⟨json, -, update, -, hdecided, hproper⟩ := h response hresponse happroved
  rw [hdecided, Option.map_some] at htext
  have htext' : update.text = chr 'd' :: str "o not approve" := Option.some.inj htext
  rcases hproper.text with hown | happrove | hyes
  · rw [Option.some.inj htext] at hown
    exact absurd hown (by decide +kernel)
  · rw [htext'] at happrove
    exact absurd (happrove.starts (by decide)) (by decide)
  · rw [htext'] at hyes
    exact absurd (hyes.starts (by decide)) (by decide)

end SmolClaw.Channels
