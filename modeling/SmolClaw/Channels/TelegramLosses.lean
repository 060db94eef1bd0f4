/-
  Messages while an approval is waited for (`telegram_listen` and `telegram_request_approval`,
  `src/channels/telegram.c`).

  1. **Program** — calls of the channel's user and approvals poll the same channel, in any order.  Both move
     its offset behind what they read.

  2. **Specification** — `NoLoss`: an update that is shown and below the offset was returned to the user, or
     decided an approval.

  3. **Defect** — a wait drops every message that does not decide, from whomever it is, and the server does
     not send it again.

  4. **Result** — `noLoss_iff`: nothing is lost exactly when every wait decides on the first message it
     reads, and no call, of a wait or of the user, moves past an update because of its attachment.
-/
import SmolClaw.Channels.TelegramApproval

namespace SmolClaw.Channels

open Lib.Run

/-! ## Program -/

/-- What the environment does to one call of `telegram_listen`: the request may fail, else the server answers
    with so many updates, if it has as many. -/
structure ListenCall where
  failed : Option ScError := none
  count : Nat
  now : Int := 0
  download : DownloadMedia := fun _ => .ok ([], [], 0)

def ListenCall.poll (call : ListenCall) (server : TelegramServer) : TelegramPoll where
  getUpdates offset :=
    match call.failed with
    | some e => .error e
    | none => server.serve call.count offset
  now := call.now
  download := call.download

/-- A call on the channel: the user's, or an approval with the calls that its wait makes. -/
inductive ChannelCall
  | listen (call : ListenCall)
  | requestApproval (request : ApprovalRequest) (sent : Res Unit) (calls : List ListenCall)

/-- The channel, the updates that were returned to its user, and those that decided an approval. -/
structure ChannelRun where
  telegram : TelegramChannel
  returned : List TelegramUpdate := []
  decided : List TelegramUpdate := []

/-- The update of a message that was handed on, and the one that decided. -/
def handedUpdate : Res Handed → List TelegramUpdate
  | .ok (update, _) => [update]
  | .error _ => []

def decidingUpdate : Res ApprovalResponse → List TelegramUpdate
  | .ok response => response.decidedBy.toList
  | .error _ => []

/-- One more call. -/
def channelStep (server : TelegramServer) (s : ChannelRun) : ChannelCall → ChannelRun
  | .listen call =>
      let (telegram, result) := telegramListen s.telegram (call.poll server)
      { s with telegram := telegram, returned := s.returned ++ handedUpdate result }
  | .requestApproval request sent calls =>
      let (telegram, result) :=
        telegramRequestApproval s.telegram request sent (calls.map (·.poll server))
      { s with telegram := telegram, decided := s.decided ++ decidingUpdate result }

/-! ## Specification -/

/-- **No message lost**, from a channel on: what is shown is returned, has decided, or is still pending. -/
def NoLoss (server : TelegramServer) (telegram : TelegramChannel) (s : ChannelRun) : Prop :=
  ∀ json ∈ server.pending telegram.nextUpdateOffset, ∀ update, shown telegram json = some update →
    update ∈ s.returned ∨ update ∈ s.decided ∨ json ∈ server.pending s.telegram.nextUpdateOffset

/-- The first update in the answer to a call that is shown. -/
def firstShown (telegram : TelegramChannel) (poll : TelegramPoll) : Option TelegramUpdate :=
  ((answered telegram poll).filterMap (shown telegram)).head?

/-- **A call moves past an update because of its attachment**: the rate limit lets it through, and the
    attachment is refused with a status that takes the update away. -/
def Refuses (telegram : TelegramChannel) (poll : TelegramPoll) : Prop :=
  ∃ update, firstShown telegram poll = some update ∧
    (telegramCheckRateLimit telegram poll.now).2 = .ok () ∧
    ∃ e, telegramUpdateToInbound (telegramCheckRateLimit telegram poll.now).1 update poll.download = .error e ∧
      telegramStatusConsumesUpdate e = true

/-- **A wait decides on the first message it reads**, and reads none that is refused. -/
def WaitKeeps (request : ApprovalRequest) (id : UInt64) : TelegramChannel → List TelegramPoll → Prop
  | _, [] => True
  | telegram, poll :: polls =>
      ¬Refuses telegram poll ∧
        match telegramListen telegram poll with
        | (telegram, .error e) => e.code = .timeout → WaitKeeps request id telegram polls
        | (_, .ok (_, inbound)) => approvalDecision request id inbound ≠ none

/-- **When a call loses nothing.** -/
def Keeps (server : TelegramServer) (s : ChannelRun) : ChannelCall → Prop
  | .listen call => ¬Refuses s.telegram (call.poll server)
  | .requestApproval request sent calls =>
      sent = .ok () →
        WaitKeeps request (approvalId s.telegram)
          { s.telegram with nextApprovalId := approvalId s.telegram } (calls.map (·.poll server))

/-! ## What is read between two offsets -/

/-- From one channel to another, just these updates are read that are shown. -/
structure Reads (server : TelegramServer) (telegram after : TelegramChannel) (updates : List TelegramUpdate) :
    Prop where
  name : telegram.botUsername = after.botUsername
  mention : telegram.mentionOnly = after.mentionOnly
  later : telegram.nextUpdateOffset ≤ after.nextUpdateOffset
  read : (server.between telegram.nextUpdateOffset after.nextUpdateOffset).filterMap (shown telegram) = updates

theorem Reads.shown_eq {server : TelegramServer} {telegram after : TelegramChannel}
    {updates : List TelegramUpdate} (h : Reads server telegram after updates) :
    shown telegram = shown after := shown_congr h.name h.mention

theorem Reads.trans {server : TelegramServer} {telegram middle after : TelegramChannel}
    {updates more : List TelegramUpdate} (h : Reads server telegram middle updates)
    (h' : Reads server middle after more) : Reads server telegram after (updates ++ more) where
  name := h.name.trans h'.name
  mention := h.mention.trans h'.mention
  later := h.later.trans h'.later
  read := by
    rw [server.between_later h.later h'.later, List.filterMap_append, h.read, h.shown_eq, h'.read]

/-- Nothing that is shown lies between. -/
theorem Reads.of_hidden {server : TelegramServer} {telegram after : TelegramChannel}
    (hname : telegram.botUsername = after.botUsername) (hmention : telegram.mentionOnly = after.mentionOnly)
    (hlater : telegram.nextUpdateOffset ≤ after.nextUpdateOffset)
    (hhidden : ∀ json ∈ server.pending telegram.nextUpdateOffset,
      updateId json < after.nextUpdateOffset → shown telegram json = none) :
    Reads server telegram after [] where
  name := hname
  mention := hmention
  later := hlater
  read := by
    refine List.filterMap_eq_nil_iff.mpr fun json hjson => ?_
    obtain ⟨hpending, hless⟩ := TelegramServer.mem_between.mp hjson
    exact hhidden json hpending hless

theorem Reads.refl (server : TelegramServer) (telegram : TelegramChannel) : Reads server telegram telegram [] :=
  Reads.of_hidden rfl rfl (le_refl _) fun _ hjson hless =>
    absurd (TelegramServer.mem_pending.mp hjson).2 (not_le.mpr hless)

/-- The rate limit only counts. -/
theorem checkRateLimit_settings (telegram : TelegramChannel) (now : Int) :
    (telegramCheckRateLimit telegram now).1.botUsername = telegram.botUsername ∧
      (telegramCheckRateLimit telegram now).1.mentionOnly = telegram.mentionOnly ∧
      (telegramCheckRateLimit telegram now).1.nextUpdateOffset = telegram.nextUpdateOffset := by
  rw [telegramCheckRateLimit]
  split
  · exact ⟨rfl, rfl, rfl⟩
  · dsimp only
    split
    · split
      · exact ⟨rfl, rfl, rfl⟩
      · exact ⟨rfl, rfl, rfl⟩
    · split
      · exact ⟨rfl, rfl, rfl⟩
      · exact ⟨rfl, rfl, rfl⟩

/-! ## One call of `telegram_listen` -/

/-- What a call reads: what it hands on, and what it loses; it loses something exactly if it refuses. -/
structure ListenReads (server : TelegramServer) (telegram : TelegramChannel) (poll : TelegramPoll)
    (lost : List TelegramUpdate) : Prop where
  reads : Reads server telegram (telegramListen telegram poll).1
    (lost ++ handedUpdate (telegramListen telegram poll).2)
  refuses : lost ≠ [] ↔ Refuses telegram poll

/-- A call that reads nothing that is shown, and fails. -/
theorem ListenReads.of_nothing {server : TelegramServer} {telegram : TelegramChannel} {poll : TelegramPoll}
    {e : ScError} (hfailed : (telegramListen telegram poll).2 = .error e)
    (hreads : Reads server telegram (telegramListen telegram poll).1 [])
    (hrefuses : ¬Refuses telegram poll) : ListenReads server telegram poll [] where
  reads := by
    rw [hfailed]
    exact hreads
  refuses := ⟨fun h => absurd rfl h, fun h => absurd h hrefuses⟩

section Served

variable {server : TelegramServer} {telegram : TelegramChannel} {poll : TelegramPoll} {count : Nat}

theorem answered_serve
    (hserve : poll.getUpdates telegram.nextUpdateOffset = server.serve count telegram.nextUpdateOffset) :
    answered telegram poll = server.batch count telegram.nextUpdateOffset := by
  have hresult : ∀ batch, getArray (updatesAnswer batch) "result" = some batch := by
    intro batch
    simp only [getArray, updatesAnswer, Json.objectGet, List.reverse_cons, List.reverse_nil,
      List.nil_append, List.cons_append, List.find?_cons, beq_self_eq_true, Option.map_some]
  rw [answered, hserve, TelegramServer.serve]
  show (getArray (updatesAnswer _) "result").getD [] = _
  rw [hresult]
  rfl

/-- An answer with nothing to show. -/
theorem listen_hidden
    (hserve : poll.getUpdates telegram.nextUpdateOffset = server.serve count telegram.nextUpdateOffset)
    (hhidden : ∀ json ∈ server.batch count telegram.nextUpdateOffset, shown telegram json = none) :
    ListenReads server telegram poll [] := by
  have hlisten := telegramListen_skip poll hserve hhidden
  have hends := endOffset_endsAt server count telegram.nextUpdateOffset
  refine ListenReads.of_nothing (by rw [hlisten]; rfl) ?_ ?_
  · rw [hlisten]
    exact Reads.of_hidden rfl rfl hends.low fun json hjson hless => hhidden json (hends.answered json hjson hless)
  · rintro ⟨update, hfirst, -⟩
    rw [firstShown, answered_serve hserve, List.filterMap_eq_nil_iff.mpr hhidden] at hfirst
    cases hfirst

section Shown

variable {skipped rest : List Json} {json : Json} {update : TelegramUpdate} {after : TelegramChannel}

/-- What is read up to an offset that is not behind the first update to show, and up to the one behind it. -/
theorem Reads.of_before (hbatch : server.batch count telegram.nextUpdateOffset = skipped ++ json :: rest)
    (hhidden : ∀ json ∈ skipped, shown telegram json = none)
    (hname : after.botUsername = telegram.botUsername) (hmention : after.mentionOnly = telegram.mentionOnly)
    (hlow : telegram.nextUpdateOffset ≤ after.nextUpdateOffset)
    (hhigh : after.nextUpdateOffset ≤ updateId json) : Reads server telegram after [] := by
  refine Reads.of_hidden hname.symm hmention.symm hlow fun other hother hbelow => ?_
  exact hhidden other (TelegramServer.before_of_lt hbatch hother (by omega))

theorem Reads.of_shown (hbatch : server.batch count telegram.nextUpdateOffset = skipped ++ json :: rest)
    (hhidden : ∀ json ∈ skipped, shown telegram json = none) (hshown : shown telegram json = some update)
    (hname : after.botUsername = telegram.botUsername) (hmention : after.mentionOnly = telegram.mentionOnly)
    (hbehind : after.nextUpdateOffset = update.updateId + 1) : Reads server telegram after [update] := by
  have hlow : telegram.nextUpdateOffset ≤ updateId json := by
    have hmem : json ∈ server.batch count telegram.nextUpdateOffset := by
      rw [hbatch]
      exact List.mem_append_right _ List.mem_cons_self
    exact (TelegramServer.batch_numbered hmem).2
  rw [shown_updateId hshown] at hbehind
  refine ⟨hname.symm, hmention.symm, by omega, ?_⟩
  rw [hbehind, TelegramServer.between_shown hbatch, List.filterMap_append,
    List.filterMap_eq_nil_iff.mpr hhidden, List.nil_append, List.filterMap_cons_some hshown,
    List.filterMap_nil]

theorem firstShown_eq
    (hserve : poll.getUpdates telegram.nextUpdateOffset = server.serve count telegram.nextUpdateOffset)
    (hbatch : server.batch count telegram.nextUpdateOffset = skipped ++ json :: rest)
    (hhidden : ∀ json ∈ skipped, shown telegram json = none) (hshown : shown telegram json = some update) :
    firstShown telegram poll = some update := by
  rw [firstShown, answered_serve hserve, hbatch, List.filterMap_append,
    List.filterMap_eq_nil_iff.mpr hhidden, List.nil_append, List.filterMap_cons_some hshown]
  rfl

/-- An answer with an update to show: it is handed on, refused, or left for later. -/
theorem listen_shown
    (hserve : poll.getUpdates telegram.nextUpdateOffset = server.serve count telegram.nextUpdateOffset)
    (hbatch : server.batch count telegram.nextUpdateOffset = skipped ++ json :: rest)
    (hhidden : ∀ json ∈ skipped, shown telegram json = none) (hshown : shown telegram json = some update) :
    ∃ lost, ListenReads server telegram poll lost := by
  obtain ⟨start, hlow, hhigh, hlisten⟩ := telegramListen_shown poll hserve hbatch hhidden hshown
  have hfirst := firstShown_eq hserve hbatch hhidden hshown
  obtain ⟨hname, hmention, hoffset⟩ := checkRateLimit_settings telegram poll.now
  -- a failure that leaves the update where it is
  have hleft : ∀ e telegram', telegram'.botUsername = telegram.botUsername →
      telegram'.mentionOnly = telegram.mentionOnly →
      telegram'.nextUpdateOffset = telegram.nextUpdateOffset →
      telegramListen telegram poll = finishListen (telegram', .error e, start) → ¬Refuses telegram poll →
        ∃ lost, ListenReads server telegram poll lost := by
    intro e telegram' hname' hmention' hoffset' hlisten' hnot
    refine ⟨[], ListenReads.of_nothing (by rw [hlisten']; rfl) ?_ hnot⟩
    rw [hlisten']
    show Reads server telegram (if _ then { telegram' with nextUpdateOffset := start } else telegram') []
    split
    · exact Reads.of_before hbatch hhidden hname' hmention' hlow hhigh
    · exact Reads.of_before hbatch hhidden hname' hmention' (by omega) (by omega)
  rcases hcheck : telegramCheckRateLimit telegram poll.now with ⟨telegram', e | _⟩
  · rw [hcheck] at hname hmention hoffset
    simp only [handOn, hcheck] at hlisten
    refine hleft e telegram' hname hmention hoffset hlisten ?_
    rintro ⟨-, -, hpassed, -⟩
    rw [hcheck] at hpassed
    cases hpassed
  · rw [hcheck] at hname hmention hoffset
    cases hinbound : telegramUpdateToInbound telegram' update poll.download with
    | ok inbound =>
      simp only [handOn, hcheck, hinbound] at hlisten
      refine ⟨[], ?_, fun h => absurd rfl h, ?_⟩
      · rw [hlisten]
        exact Reads.of_shown hbatch hhidden hshown hname hmention rfl
      · rintro ⟨update', hfirst', -, e, hrefused, -⟩
        rw [hfirst] at hfirst'
        rw [hcheck, ← Option.some.inj hfirst', hinbound] at hrefused
        cases hrefused
    | error e =>
      simp only [handOn, hcheck, hinbound] at hlisten
      by_cases hconsumes : telegramStatusConsumesUpdate e = true
      · refine ⟨[update], ?_, fun _ => ?_, fun _ => List.cons_ne_nil _ _⟩
        · rw [hlisten, if_pos hconsumes, finishListen, if_pos (Or.inr hconsumes)]
          exact Reads.of_shown hbatch hhidden hshown hname hmention rfl
        · exact ⟨update, hfirst, by rw [hcheck], e, by rw [hcheck]; exact hinbound, hconsumes⟩
      · rw [if_neg hconsumes] at hlisten
        refine hleft e telegram' hname hmention hoffset hlisten ?_
        rintro ⟨update', hfirst', -, e', hrefused, hconsumes'⟩
        rw [hfirst] at hfirst'
        rw [hcheck, ← Option.some.inj hfirst', hinbound] at hrefused
        cases hrefused
        exact hconsumes hconsumes'

end Shown

end Served

/-- **One call**, whatever the environment does. -/
theorem listenReads (server : TelegramServer) (telegram : TelegramChannel) (call : ListenCall) :
    ∃ lost, ListenReads server telegram (call.poll server) lost := by
  cases hfailed : call.failed with
  | some e =>
    have herror : (call.poll server).getUpdates telegram.nextUpdateOffset = .error e := by
      simp only [ListenCall.poll, hfailed]
    have hlisten : telegramListen telegram (call.poll server) = (telegram, .error e) := by
      rw [telegramListen, herror]
    refine ⟨[], ListenReads.of_nothing (e := e) (by rw [hlisten]) ?_ ?_⟩
    · rw [hlisten]
      exact Reads.refl server telegram
    · rintro ⟨update, hfirst, -⟩
      rw [firstShown, answered, herror] at hfirst
      cases hfirst
  | none =>
    have hserve : (call.poll server).getUpdates telegram.nextUpdateOffset =
        server.serve call.count telegram.nextUpdateOffset := by
      simp only [ListenCall.poll, hfailed]
    rcases skipped_or_shown telegram (server.batch call.count telegram.nextUpdateOffset) with
      hhidden | ⟨skipped, json, rest, update, hbatch, hhidden, hshown⟩
    · exact ⟨[], listen_hidden hserve hhidden⟩
    · exact listen_shown hserve hbatch hhidden hshown

/-! ## One wait -/

/-- **One wait**: what it reads is lost, but for the update that decides; it loses something exactly if it
    does not keep to the condition. -/
theorem waitReads (server : TelegramServer) (request : ApprovalRequest) (id : UInt64)
    (calls : List ListenCall) :
    ∀ telegram, ∃ lost,
      Reads server telegram (waitApproval request id telegram (calls.map (·.poll server))).1
        (lost ++ decidingUpdate (waitApproval request id telegram (calls.map (·.poll server))).2) ∧
      (lost = [] ↔ WaitKeeps request id telegram (calls.map (·.poll server))) := by
  induction calls with
  | nil => exact fun telegram => ⟨[], Reads.refl server telegram, iff_of_true rfl trivial⟩
  | cons call calls ih =>
    intro telegram
    obtain ⟨lost, hlost⟩ := listenReads server telegram call
    have hreads := hlost.reads
    have hrefuses : lost = [] ↔ ¬Refuses telegram (call.poll server) := by
      rw [← hlost.refuses, not_not]
    rw [List.map_cons, waitApproval, WaitKeeps, ← hrefuses]
    rcases hlisten : telegramListen telegram (call.poll server) with ⟨after, e | ⟨update, inbound⟩⟩
    · rw [hlisten] at hreads
      have hnone : Reads server telegram after lost := by
        rw [← List.append_nil lost]
        exact hreads
      simp only
      by_cases htimeout : e.code = .timeout
      · obtain ⟨more, hmore, hkeeps⟩ := ih after
        rw [if_pos htimeout, ← hkeeps]
        refine ⟨lost ++ more, ?_, ?_⟩
        · rw [List.append_assoc]
          exact hnone.trans hmore
        · rw [List.append_eq_nil_iff]
          exact and_congr_right fun _ => ⟨fun h _ => h, fun h => h htimeout⟩
      · rw [if_neg htimeout]
        refine ⟨lost, hreads, ?_⟩
        exact ⟨fun h => ⟨h, fun hcontra => absurd hcontra htimeout⟩, fun h => h.1⟩
    · rw [hlisten] at hreads
      simp only
      cases hdecision : approvalDecision request id inbound with
      | some decision => exact ⟨lost, hreads, fun h => ⟨h, Option.some_ne_none _⟩, fun h => h.1⟩
      | none =>
        obtain ⟨more, hmore, -⟩ := ih after
        refine ⟨lost ++ [update] ++ more, ?_, ?_⟩
        · rw [List.append_assoc (lost ++ [update])]
          exact hreads.trans hmore
        · refine iff_of_false (fun hnil => ?_) fun h => h.2 rfl
          rw [List.append_eq_nil_iff, List.append_eq_nil_iff] at hnil
          exact List.cons_ne_nil _ _ hnil.1.2

/-! ## One step -/

/-- **One step**: what it reads is lost or accounted for; it loses something exactly if it does not keep to
    the condition. -/
theorem channelStep_reads (server : TelegramServer) (s : ChannelRun) (call : ChannelCall) :
    ∃ lost gained, Reads server s.telegram (channelStep server s call).telegram (lost ++ gained) ∧
      (∀ update, (update ∈ (channelStep server s call).returned ∨
          update ∈ (channelStep server s call).decided) ↔
        (update ∈ s.returned ∨ update ∈ s.decided) ∨ update ∈ gained) ∧
      (lost = [] ↔ Keeps server s call) := by
  cases call with
  | listen call =>
    obtain ⟨lost, hlost⟩ := listenReads server s.telegram call
    refine ⟨lost, _, hlost.reads, fun update => ?_, ?_⟩
    · simp only [channelStep, List.mem_append]
      exact or_right_comm
    · rw [Keeps, ← hlost.refuses, not_not]
  | requestApproval request sent calls =>
    have hnumber : Reads server s.telegram
        { s.telegram with nextApprovalId := approvalId s.telegram } [] :=
      Reads.of_hidden rfl rfl (le_refl _) fun _ hjson hless =>
        absurd (TelegramServer.mem_pending.mp hjson).2 (not_le.mpr hless)
    cases sent with
    | error e =>
      refine ⟨[], [], hnumber, fun update => ?_, iff_of_true rfl fun h => nomatch h⟩
      simp only [channelStep, telegramRequestApproval, decidingUpdate, List.append_nil, List.not_mem_nil,
        or_false]
    | ok _ =>
      obtain ⟨lost, hreads, hkeeps⟩ := waitReads server request (approvalId s.telegram) calls
        { s.telegram with nextApprovalId := approvalId s.telegram }
      refine ⟨lost, _, hnumber.trans hreads, fun update => ?_, hkeeps.trans ?_⟩
      · simp only [channelStep, telegramRequestApproval, List.mem_append]
        exact or_assoc.symm
      · exact ⟨fun h _ => h, fun h => h rfl⟩

/-! ## Invariant -/

/-- What was accounted for lies below the offset, which only moves upwards. -/
structure Accounted (telegram : TelegramChannel) (s : ChannelRun) : Prop where
  name : telegram.botUsername = s.telegram.botUsername
  mention : telegram.mentionOnly = s.telegram.mentionOnly
  later : telegram.nextUpdateOffset ≤ s.telegram.nextUpdateOffset
  below : ∀ update, update ∈ s.returned ∨ update ∈ s.decided →
    update.updateId < s.telegram.nextUpdateOffset

theorem Reads.between {server : TelegramServer} {telegram after : TelegramChannel}
    {updates : List TelegramUpdate} (h : Reads server telegram after updates) {update : TelegramUpdate}
    (hupdate : update ∈ updates) :
    telegram.nextUpdateOffset ≤ update.updateId ∧ update.updateId < after.nextUpdateOffset := by
  rw [← h.read] at hupdate
  obtain ⟨json, hjson, hshown⟩ := List.mem_filterMap.mp hupdate
  obtain ⟨hpending, hless⟩ := TelegramServer.mem_between.mp hjson
  rw [shown_updateId hshown]
  exact ⟨(TelegramServer.mem_pending.mp hpending).2, hless⟩

theorem Reads.increasing {server : TelegramServer} {telegram after : TelegramChannel}
    {updates : List TelegramUpdate} (h : Reads server telegram after updates) :
    updates.Pairwise fun a b => a.updateId < b.updateId := by
  rw [← h.read]
  refine List.Pairwise.filterMap (shown telegram) ?_ (server.between_increasing _ _)
  intro json json' hless update hshown update' hshown'
  rw [shown_updateId hshown, shown_updateId hshown']
  exact hless

theorem Accounted.step {server : TelegramServer} {telegram : TelegramChannel} {s : ChannelRun}
    (h : Accounted telegram s) (call : ChannelCall) : Accounted telegram (channelStep server s call) := by
  obtain ⟨lost, gained, hreads, hall, -⟩ := channelStep_reads server s call
  refine ⟨h.name.trans hreads.name, h.mention.trans hreads.mention, h.later.trans hreads.later, ?_⟩
  intro update hupdate
  rcases (hall update).mp hupdate with hold | hnew
  · exact lt_of_lt_of_le (h.below update hold) hreads.later
  · exact (hreads.between (List.mem_append_right _ hnew)).2

/-- Nothing is lost exactly if all that was read is accounted for. -/
theorem noLoss_read {server : TelegramServer} {telegram : TelegramChannel} {s : ChannelRun} :
    NoLoss server telegram s ↔
      ∀ update ∈ (server.between telegram.nextUpdateOffset s.telegram.nextUpdateOffset).filterMap
          (shown telegram), update ∈ s.returned ∨ update ∈ s.decided := by
  constructor
  · intro h update hupdate
    obtain ⟨json, hjson, hshown⟩ := List.mem_filterMap.mp hupdate
    obtain ⟨hpending, hless⟩ := TelegramServer.mem_between.mp hjson
    rcases h json hpending update hshown with hreturned | hdecided | hstill
    · exact Or.inl hreturned
    · exact Or.inr hdecided
    · exact absurd (TelegramServer.mem_pending.mp hstill).2 (not_le.mpr hless)
  · intro h json hjson update hshown
    by_cases hless : updateId json < s.telegram.nextUpdateOffset
    · have hmem := List.mem_filterMap.mpr ⟨json, TelegramServer.mem_between.mpr ⟨hjson, hless⟩, hshown⟩
      rcases h update hmem with hreturned | hdecided
      · exact Or.inl hreturned
      · exact Or.inr (Or.inl hdecided)
    · have hmem := (TelegramServer.mem_pending.mp hjson).1
      exact Or.inr (Or.inr (TelegramServer.mem_pending.mpr ⟨hmem, not_lt.mp hless⟩))

/-- **The step lemma**: from a state in which nothing is lost, a step loses nothing exactly if it keeps to
    the condition. -/
theorem noLoss_step {server : TelegramServer} {telegram : TelegramChannel} {s : ChannelRun}
    (h : Accounted telegram s) (hno : NoLoss server telegram s) (call : ChannelCall) :
    NoLoss server telegram (channelStep server s call) ↔ Keeps server s call := by
  obtain ⟨lost, gained, hreads, hall, hkeeps⟩ := channelStep_reads server s call
  have hshown : shown telegram = shown s.telegram := shown_congr h.name h.mention
  rw [noLoss_read] at hno
  rw [← hkeeps, noLoss_read, server.between_later h.later hreads.later, List.filterMap_append]
  have hread : (server.between s.telegram.nextUpdateOffset
      (channelStep server s call).telegram.nextUpdateOffset).filterMap (shown telegram) = lost ++ gained := by
    rw [hshown]
    exact hreads.read
  rw [hread]
  constructor
  · intro hafter
    refine List.eq_nil_iff_forall_not_mem.mpr fun update hupdate => ?_
    have hmem : update ∈ lost ++ gained := List.mem_append_left _ hupdate
    rcases (hall update).mp (hafter update (List.mem_append_right _ hmem)) with hold | hnew
    · have hbelow := h.below update hold
      have hbetween := hreads.between hmem
      omega
    · have hless := (List.pairwise_append.mp hreads.increasing).2.2 update hupdate update hnew
      omega
  · rintro rfl update hupdate
    rw [List.nil_append] at hupdate
    rcases List.mem_append.mp hupdate with hold | hnew
    · exact (hall update).mpr (Or.inl (hno update hold))
    · exact (hall update).mpr (Or.inr hnew)

/-! ## Result -/

/-- **Nothing is lost exactly if every call keeps to the condition**: at every point of every run of calls
    and approvals, from any channel. -/
theorem noLoss_iff (server : TelegramServer) (telegram : TelegramChannel) (calls : List ChannelCall) :
    (∀ before, before <+: calls →
        NoLoss server telegram (run (channelStep server) { telegram := telegram } before)) ↔
      EachStep (channelStep server) (Keeps server) { telegram := telegram } calls := by
  refine safe_iff_eachStep (I := Accounted telegram) (fun s call h => h.step call)
    (fun s call h hno => noLoss_step h hno call) calls _ ?_ ?_
  · exact ⟨rfl, rfl, le_refl _, fun update hupdate =>
      hupdate.elim (fun h => absurd h List.not_mem_nil) fun h => absurd h List.not_mem_nil⟩
  · exact fun json hjson update _ => Or.inr (Or.inr hjson)

/-- **A message in the wrong moment**: an approval by 9 is waited for, and 7 writes `hello`. -/
theorem not_noLoss_hello :
    ¬NoLoss messageServer {} (run (channelStep messageServer) { telegram := {} }
      [.requestApproval ⟨str "9", str "9"⟩ (.ok ()) [{ count := 1 }]]) := by
  intro h
  have hnone : (run (channelStep messageServer) { telegram := {} }
      [.requestApproval ⟨str "9", str "9"⟩ (.ok ()) [{ count := 1 }]]).returned.isEmpty = true ∧
      (run (channelStep messageServer) { telegram := {} }
        [.requestApproval ⟨str "9", str "9"⟩ (.ok ()) [{ count := 1 }]]).decided.isEmpty = true ∧
      (run (channelStep messageServer) { telegram := {} }
        [.requestApproval ⟨str "9", str "9"⟩ (.ok ()) [{ count := 1 }]]).telegram.nextUpdateOffset = 2 := by
    decide +kernel
  have hid : updateId (messageUpdate 1) = 1 := by decide +kernel
  have hshown : (shown {} (messageUpdate 1)).isSome = true := by decide +kernel
  obtain ⟨update, hupdate⟩ := Option.isSome_iff_exists.mp hshown
  have hpending : messageUpdate 1 ∈ messageServer.pending 0 :=
    TelegramServer.mem_pending.mpr ⟨List.mem_cons_self, by omega⟩
  rcases h (messageUpdate 1) hpending update hupdate with hreturned | hdecided | hstill
  · rw [List.isEmpty_iff.mp hnone.1] at hreturned
    exact absurd hreturned List.not_mem_nil
  · rw [List.isEmpty_iff.mp hnone.2.1] at hdecided
    exact absurd hdecided List.not_mem_nil
  · have hlow := (TelegramServer.mem_pending.mp hstill).2
    omega

end SmolClaw.Channels
