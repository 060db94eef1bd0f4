/-
  The webhook channel (`sc_channel_webhook_ingest`, `src/channels/orchestrator.c`): the checks of a
  request, the message in its body, and the protection against replays.

  1. **Program** — a request passes the checks of `webhookScreen` one after the other; then its message
     goes to the inbox and its nonce into a list of at most 1024, which forgets from the front.

  2. **Specification** — a body with a nonce and a positive time stamp is accepted once.

  3. **Defect** — 1024 other nonces push a nonce out of the list while its time stamp is still in the
     window, and a time stamp that truncates to 0 or does not fit has no window at all.

  4. **Result** — `no_replay_run`: in every run in which no accepted request pushes out a nonce that is
     still alive, nothing is accepted twice.

  The parser of the vendored JSON library (`vendor/parson`) is a parameter, as are the clock readings and
  what storing an attachment gives.
-/
import Mathlib.Data.List.Nodup
import Mathlib.Data.List.TakeWhile
import SmolClaw.Channels.Inbound
import SmolClaw.Core.Double
import SmolClaw.Lib.Run
import SmolClaw.Lib.Window

namespace SmolClaw.Channels

open Lib.Run Lib.Window

/-! ## The JSON library -/

/-- What the channel reads of a parsed object: strings as C strings, and numbers, 0 where there is
    none. -/
structure ParsonFields where
  getString : String → Option Bytes
  getNumber : String → Double

/-- `JSON_Object` -/
structure ParsonObject extends ParsonFields where
  getObject : String → Option ParsonFields

/-- A C string ends at its first NUL. -/
def cString (bytes : Bytes) : Bytes := bytes.takeWhile (· ≠ 0)

/-! ## Numbers -/

/-- `0.0` -/
def zeroDouble : Double := ⟨0⟩

/-- A value without its fraction. -/
def wholePart (d : Double) : Int :=
  let whole := d.significand * 2 ^ d.exponent.toNat / 2 ^ (-d.exponent).toNat
  if d.negative then -(whole : Int) else whole

/-- `(int64_t)d`: a value that does not fit gives `INT64_MIN`, as the conversion instruction of the
    supported targets does. -/
def toInt64 (d : Double) : Int :=
  if d.isFinite ∧ -2 ^ 63 ≤ wholePart d ∧ wholePart d < 2 ^ 63 then wholePart d else -2 ^ 63

/-- `(size_t)d` of a value that is not negative; 0 when it does not fit. -/
def toSize (d : Double) : Nat :=
  if d.isFinite ∧ wholePart d < 2 ^ 64 then (wholePart d).toNat else 0

/-- `(double)n` -/
def ofSize (n : Nat) : Double := Double.ofMagnitude false (Double.nearest n 1)

/-! ## The body -/

/-- A text that is there and not empty. -/
def given (value : Option Bytes) : Option Bytes := value.filter (· ≠ [])

/-- The attachment fields, from the object `attachment` or from the body itself. -/
structure WebhookAttachment where
  id : Option Bytes
  mediaType : Option Bytes
  name : Option Bytes
  dataBase64 : Option Bytes
  size : Double

def webhookAttachment (object : ParsonObject) : WebhookAttachment :=
  match object.getObject "attachment" with
  | some attachment => {
      id := attachment.getString "id"
      mediaType := attachment.getString "media_type"
      name := attachment.getString "name"
      dataBase64 := attachment.getString "data_base64"
      size := attachment.getNumber "size_bytes" }
  | none => {
      id := object.getString "attachment_id"
      mediaType := object.getString "attachment_media_type"
      name := object.getString "attachment_name"
      dataBase64 := object.getString "attachment_data_base64"
      size := object.getNumber "attachment_size_bytes" }

/-- The nonce of a body; empty when it has none. -/
def webhookNonce (object : ParsonObject) : Bytes := (object.getString "nonce").getD []

/-- The time stamp of a body: whole seconds, 0 when it has no positive one. -/
def webhookTimestamp (object : ParsonObject) : Int :=
  if zeroDouble.lt (object.getNumber "timestamp_unix_secs") then
    toInt64 (object.getNumber "timestamp_unix_secs")
  else 0

/-- `webhook_store_media`: the path and the size of what is stored for an attachment with this id,
    type, name and data. -/
abbrev StoreMedia := Bytes → Bytes → Bytes → Bytes → Res (Bytes × Nat)

/-- The sender of a message: its field, else the remote address, else `webhook`. -/
def webhookSender (object : ParsonObject) (remoteAddr : Bytes) : Bytes :=
  (given (object.getString "sender_id")).getD (if remoteAddr = [] then str "webhook" else remoteAddr)

/-- The checks of the attachment, and its path and size. -/
def webhookMedia (storeMedia : StoreMedia) (maxMediaBytes : Nat) (isMedia : Bool)
    (attachment : WebhookAttachment) : Res (Bytes × Nat) :=
  if attachment.size.lt zeroDouble then Status.parse "sc.channel_webhook.attachment_size_invalid"
  else if 0 < maxMediaBytes ∧ (ofSize maxMediaBytes).lt attachment.size then
    Status.invalidArgument "sc.channel_webhook.media_too_large"
  else if (isMedia ∨ zeroDouble.lt attachment.size) ∧ given attachment.mediaType = none then
    Status.parse "sc.channel_webhook.media_type_missing"
  else
    match given attachment.dataBase64, given attachment.mediaType with
    | some _, none => Status.parse "sc.channel_webhook.media_type_missing"
    | some data, some mediaType => do
        let (path, size) ← storeMedia (attachment.id.getD []) mediaType (attachment.name.getD []) data
        -- an empty file leaves the announced size at that of the file, which is 0 too
        .ok (path, size)
    | none, _ => .ok ([], toSize attachment.size)

/-- `parse_webhook_body`: the message, the nonce and the time stamp. -/
def parseWebhookBody (jsonParseString : Bytes → Option ParsonObject) (storeMedia : StoreMedia)
    (maxMediaBytes : Nat) (body remoteAddr : Bytes) : Res (ChannelInbound × Bytes × Int) :=
  match jsonParseString (cString body) with
  | none => Status.parse "sc.channel_webhook.invalid_json"
  | some object =>
      let eventType := (given (object.getString "event_type")).getD (str "message")
      if eventType ≠ str "message" ∧ eventType ≠ str "media" then
        Status.unsupported "sc.channel_webhook.unsupported_event_type"
      else do
        let isMedia := eventType == str "media"
        let attachment := webhookAttachment object
        let (path, size) ← webhookMedia storeMedia maxMediaBytes isMedia attachment
        match (given (object.getString "text")).or (if isMedia then some (str "[media]") else none) with
        | none => Status.parse "sc.channel_webhook.text_missing"
        | some text =>
            .ok ({
              messageId := (given (object.getString "message_id")).getD (str "webhook")
              channelName := str "webhook"
              platformAccountId := (object.getString "platform_account_id").getD []
              conversationId := (given (object.getString "conversation_id")).getD (str "webhook")
              threadId := (object.getString "thread_id").getD []
              senderId := webhookSender object remoteAddr
              text := text
              replyToMessageId := (object.getString "reply_to_message_id").getD []
              attachmentMediaType := attachment.mediaType.getD []
              attachmentName := attachment.name.getD []
              attachmentStoragePath := path
              attachmentSizeBytes := size
              timestampUnixSecs := webhookTimestamp object
              timestampTrusted := decide (0 < webhookTimestamp object)
              attachmentTemporary := decide (path ≠ []) },
              webhookNonce object, webhookTimestamp object)

/-! ## The channel -/

/-- `webhook_channel`: its options, and what it keeps between requests. -/
structure WebhookChannel where
  path : Bytes
  authToken : Bytes := []
  maxBodyBytes : Nat := 65536
  maxMediaBytes : Nat := 0
  allowedIps : List Bytes := []
  rateLimitPerMinute : Nat := 0
  replayWindowSecs : Nat := 300
  /-- No sum of a time and the window leaves 64 bits. -/
  window_lt : replayWindowSecs < 2 ^ 62 := by decide
  rateWindowUnixSecs : Int := 0
  rateWindowCount : Nat := 0
  seenNonces : List Bytes := []
  inbox : List ChannelInbound := []

/-- `sc_webhook_ingest_request` -/
structure IngestRequest where
  method : Bytes := str "POST"
  path : Bytes
  authToken : Bytes := []
  remoteAddr : Bytes := []
  body : Bytes

/-- A request with what the environment answers while it is handled: the two clock readings, in
    nanoseconds, and what storing its attachment gives. -/
structure Ingest where
  request : IngestRequest
  rateClock : Res Int
  replayClock : Res Int
  storeMedia : StoreMedia

/-- The seconds of a clock reading; the division truncates. -/
def unixSecs (unixNs : Int) : Int := unixNs.tdiv 1000000000

/-- `webhook_check_rate_limit` -/
def webhookCheckRateLimit (webhook : WebhookChannel) (clock : Res Int) : WebhookChannel × Res Unit :=
  if webhook.rateLimitPerMinute = 0 then (webhook, .ok ())
  else
    match clock with
    | .error e => (webhook, .error e)
    | .ok now =>
        let fresh := webhook.rateWindowUnixSecs = 0 ∨ unixSecs now - webhook.rateWindowUnixSecs ≥ 60
        let count := if fresh then 0 else webhook.rateWindowCount
        let start := if fresh then unixSecs now else webhook.rateWindowUnixSecs
        if webhook.rateLimitPerMinute ≤ count then
          ({ webhook with rateWindowUnixSecs := start, rateWindowCount := count },
            Status.securityDenied "sc.channel_webhook.rate_limited")
        else ({ webhook with rateWindowUnixSecs := start, rateWindowCount := count + 1 }, .ok ())

/-- The window of `webhook_check_replay`. -/
def webhookCheckWindow (window : Nat) (clock : Res Int) (timestamp : Int) : Res Unit :=
  if 0 < timestamp then do
    let now ← clock
    if unixSecs now + window < timestamp ∨ timestamp < unixSecs now - window then
      Status.securityDenied "sc.channel_webhook.replay_window_denied"
    else .ok ()
  else .ok ()

/-- `webhook_check_replay` -/
def webhookCheckReplay (webhook : WebhookChannel) (clock : Res Int) (nonce : Bytes) (timestamp : Int) :
    Res Unit := do
  webhookCheckWindow webhook.replayWindowSecs clock timestamp
  if nonce = [] then .ok ()
  else if nonce ∈ webhook.seenNonces then Status.securityDenied "sc.channel_webhook.replay_denied"
  else .ok ()

/-- The length at which `webhook_remember_nonce` starts to forget. -/
def maxSeenNonces : Nat := 1024

/-- `webhook_remember_nonce` -/
def webhookRememberNonce (seenNonces : List Bytes) (nonce : Bytes) : List Bytes :=
  if nonce = [] then seenNonces else push maxSeenNonces seenNonces nonce

/-- The checks of the request itself, in the order of the source. -/
def webhookCheckRequest (webhook : WebhookChannel) (request : IngestRequest) : Res Unit :=
  if request.method ≠ str "POST" ∨ request.path ≠ webhook.path then
    Status.invalidArgument "sc.channel_webhook.request_rejected"
  else if webhook.authToken ≠ [] ∧ request.authToken ≠ webhook.authToken then
    Status.securityDenied "sc.channel_webhook.auth_denied"
  else if webhook.maxBodyBytes < request.body.length then
    Status.invalidArgument "sc.channel_webhook.body_too_large"
  else if !stringVecContainsWildcardOrValue webhook.allowedIps request.remoteAddr then
    Status.securityDenied "sc.channel_webhook.ip_denied"
  else .ok ()

section Channel

variable (jsonParseString : Bytes → Option ParsonObject)

/-- What the body of a request gives: its message passes the check for replays. -/
def webhookReceive (webhook : WebhookChannel) (call : Ingest) : Res (ChannelInbound × Bytes) := do
  let (inbound, nonce, timestamp) ← parseWebhookBody jsonParseString call.storeMedia
    webhook.maxMediaBytes call.request.body call.request.remoteAddr
  webhookCheckReplay webhook call.replayClock nonce timestamp
  .ok (inbound, nonce)

/-- All checks of a request; only the rate limit keeps something. -/
def webhookScreen (webhook : WebhookChannel) (call : Ingest) :
    WebhookChannel × Res (ChannelInbound × Bytes) :=
  match webhookCheckRequest webhook call.request with
  | .error e => (webhook, .error e)
  | .ok () =>
      match webhookCheckRateLimit webhook call.rateClock with
      | (webhook, .error e) => (webhook, .error e)
      | (webhook, .ok ()) => (webhook, webhookReceive jsonParseString webhook call)

/-- `sc_channel_webhook_ingest` -/
def webhookIngest (webhook : WebhookChannel) (call : Ingest) : WebhookChannel × Res Unit :=
  match webhookScreen jsonParseString webhook call with
  | (webhook, .error e) => (webhook, .error e)
  | (webhook, .ok (inbound, nonce)) =>
      ({ webhook with
          inbox := webhook.inbox ++ [inbound]
          seenNonces := webhookRememberNonce webhook.seenNonces nonce }, .ok ())

end Channel

/-! ## Watching a channel -/

/-- A channel with the bodies it has accepted and the clock readings so far. -/
structure Watched where
  channel : WebhookChannel
  accepted : List Bytes := []
  readings : List Int := []

/-- The clock readings of a call. -/
def clockReadings (call : Ingest) : List Int :=
  [call.rateClock, call.replayClock].filterMap Except.toOption

/-- A body with a nonce and a positive time stamp. -/
structure Guarded (object : ParsonObject) : Prop where
  nonce : webhookNonce object ≠ []
  timestamp : zeroDouble.lt (object.getNumber "timestamp_unix_secs") = true

/-- The window of a time stamp is over. -/
def Expired (window : Nat) (readings : List Int) (timestamp : Int) : Prop :=
  0 < timestamp ∧ ∃ now ∈ readings, timestamp + window < unixSecs now

section Watched

variable (jsonParseString : Bytes → Option ParsonObject)

/-- One request, and the books about it. -/
def watch (t : Watched) (call : Ingest) : Watched :=
  let after := webhookIngest jsonParseString t.channel call
  { channel := after.1
    accepted := if after.2 = .ok () then call.request.body :: t.accepted else t.accepted
    readings := clockReadings call ++ t.readings }

/-- **No live nonce is pushed out**: when a request with a nonce passes the checks and the list is full,
    the windows of the accepted bodies with the oldest nonce are over. -/
def KeepsLive (t : Watched) (call : Ingest) : Prop :=
  ∀ webhook inbound nonce, webhookScreen jsonParseString t.channel call = (webhook, .ok (inbound, nonce)) →
    nonce ≠ [] → maxSeenNonces ≤ t.channel.seenNonces.length →
    ∀ body ∈ t.accepted, ∀ object, jsonParseString (cString body) = some object → Guarded object →
      t.channel.seenNonces.head? = some (webhookNonce object) →
      Expired t.channel.replayWindowSecs (clockReadings call ++ t.readings) (webhookTimestamp object)

/-- The clock never goes back. -/
def ClockAdvances (t : Watched) (call : Ingest) : Prop :=
  ∀ past ∈ t.readings, ∀ now ∈ clockReadings call, past ≤ now

/-! ## The checks -/

/-- What the rate limit leaves as it is. -/
theorem webhookCheckRateLimit_keeps (webhook : WebhookChannel) (clock : Res Int) :
    (webhookCheckRateLimit webhook clock).1.seenNonces = webhook.seenNonces ∧
      (webhookCheckRateLimit webhook clock).1.replayWindowSecs = webhook.replayWindowSecs := by
  unfold webhookCheckRateLimit
  split
  · exact ⟨rfl, rfl⟩
  · split
    · exact ⟨rfl, rfl⟩
    · simp only
      split
      · split
        · exact ⟨rfl, rfl⟩
        · exact ⟨rfl, rfl⟩
      · split
        · exact ⟨rfl, rfl⟩
        · exact ⟨rfl, rfl⟩

theorem webhookScreen_keeps (webhook : WebhookChannel) (call : Ingest) :
    (webhookScreen jsonParseString webhook call).1.seenNonces = webhook.seenNonces ∧
      (webhookScreen jsonParseString webhook call).1.replayWindowSecs = webhook.replayWindowSecs := by
  have hkeeps := webhookCheckRateLimit_keeps webhook call.rateClock
  unfold webhookScreen
  split
  · exact ⟨rfl, rfl⟩
  · split
    next hlimit =>
      rw [hlimit] at hkeeps
      exact hkeeps
    next hlimit =>
      rw [hlimit] at hkeeps
      exact hkeeps

/-- The nonce and the time stamp of a parsed body are those of its object. -/
theorem parseWebhookBody_ok {storeMedia : StoreMedia} {maxMediaBytes : Nat} {body remoteAddr : Bytes}
    {inbound : ChannelInbound} {nonce : Bytes} {timestamp : Int}
    (h : parseWebhookBody jsonParseString storeMedia maxMediaBytes body remoteAddr =
      .ok (inbound, nonce, timestamp)) :
    ∃ object, jsonParseString (cString body) = some object ∧ nonce = webhookNonce object ∧
      timestamp = webhookTimestamp object ∧ inbound.channelName = str "webhook" ∧
      inbound.messageId = (given (object.getString "message_id")).getD (str "webhook") := by
  unfold parseWebhookBody at h
  split at h
  · exact absurd h (Status.parse_ne_ok _ _)
  next object hobject =>
    simp only at h
    split at h
    · exact absurd h (Status.unsupported_ne_ok _ _)
    · obtain ⟨⟨path, size⟩, -, h⟩ := Res.bind_eq_ok.mp h
      simp only at h
      split at h
      · exact absurd h (Status.parse_ne_ok _ _)
      · cases h
        exact ⟨object, hobject, rfl, rfl, rfl, rfl⟩

/-- **What a request that passes the checks says about its body.** -/
theorem webhookScreen_ok {webhook after : WebhookChannel} {call : Ingest} {inbound : ChannelInbound}
    {nonce : Bytes} (h : webhookScreen jsonParseString webhook call = (after, .ok (inbound, nonce))) :
    ∃ object, jsonParseString (cString call.request.body) = some object ∧ nonce = webhookNonce object ∧
      (nonce ≠ [] → nonce ∉ webhook.seenNonces) ∧
      webhookCheckWindow webhook.replayWindowSecs call.replayClock (webhookTimestamp object) = .ok () := by
  have hkeeps := webhookCheckRateLimit_keeps webhook call.rateClock
  unfold webhookScreen at h
  split at h
  · exact nomatch (congrArg Prod.snd h)
  · split at h
    · exact nomatch (congrArg Prod.snd h)
    next limited hlimit =>
      rw [hlimit] at hkeeps
      obtain ⟨⟨parsed, found, timestamp⟩, hparse, hrest⟩ := Res.bind_eq_ok.mp (congrArg Prod.snd h)
      obtain ⟨_, hreplay, hsame⟩ := Res.bind_eq_ok.mp hrest
      cases hsame
      obtain ⟨object, hobject, hnonce, htimestamp, -, -⟩ := parseWebhookBody_ok jsonParseString hparse
      obtain ⟨_, hwindow, hseen⟩ := Res.bind_eq_ok.mp hreplay
      rw [hkeeps.2, htimestamp] at hwindow
      rw [hkeeps.1] at hseen
      refine ⟨object, hobject, hnonce, fun hne hmem => ?_, hwindow⟩
      rw [if_neg hne, if_pos hmem] at hseen
      exact Status.securityDenied_ne_ok _ _ hseen

/-- Past its window a time stamp is refused, whatever the clock says from then on. -/
theorem webhookCheckWindow_expired {window : Nat} {clock : Res Int} {timestamp past : Int}
    (hpositive : 0 < timestamp) (hpast : timestamp + window < unixSecs past)
    (hclock : ∀ now, clock = .ok now → past ≤ now) :
    webhookCheckWindow window clock timestamp ≠ .ok () := by
  intro h
  rw [webhookCheckWindow, if_pos hpositive] at h
  obtain ⟨now, hnow, h⟩ := Res.bind_eq_ok.mp h
  have hlate : unixSecs past ≤ unixSecs now := Int.tdiv_le_tdiv (by decide) (hclock now hnow)
  rw [if_pos (Or.inr (by omega))] at h
  exact Status.securityDenied_ne_ok _ _ h

/-! ## The invariant -/

/-- **Every accepted body is covered**: its nonce is in the list, or its window is over. -/
structure Covered (t : Watched) : Prop where
  bounded : t.channel.seenNonces.length ≤ maxSeenNonces
  covered : ∀ body ∈ t.accepted, ∀ object, jsonParseString (cString body) = some object →
    Guarded object → webhookNonce object ∈ t.channel.seenNonces ∨
      Expired t.channel.replayWindowSecs t.readings (webhookTimestamp object)

/-- A covered body is not accepted again. -/
theorem Covered.denied {t : Watched} {call : Ingest} (h : Covered jsonParseString t)
    (hclock : ClockAdvances t call) {object : ParsonObject}
    (hobject : jsonParseString (cString call.request.body) = some object) (hguarded : Guarded object)
    (hmem : call.request.body ∈ t.accepted) :
    ∃ e, (webhookIngest jsonParseString t.channel call).2 = .error e := by
  unfold webhookIngest
  split
  next e _ => exact ⟨e, rfl⟩
  next after inbound nonce hscreen =>
    exfalso
    obtain ⟨found, hfound, hnonce, hfresh, hwindow⟩ := webhookScreen_ok jsonParseString hscreen
    obtain rfl : object = found := Option.some.inj (hobject.symm.trans hfound)
    rcases h.covered _ hmem _ hobject hguarded with hseen | ⟨hpositive, past, hpast, hover⟩
    · rw [hnonce] at hfresh
      exact hfresh hguarded.nonce hseen
    · refine webhookCheckWindow_expired hpositive hover (fun now hnow => ?_) hwindow
      refine hclock past hpast now ?_
      rw [clockReadings, hnow]
      exact List.mem_filterMap.mpr ⟨.ok now, by simp, rfl⟩

/-- A refused request leaves the books as they are, the readings apart. -/
theorem watch_refused {t : Watched} {call : Ingest} {webhook : WebhookChannel} {e : ScError}
    (h : webhookScreen jsonParseString t.channel call = (webhook, .error e)) :
    watch jsonParseString t call = ⟨webhook, t.accepted, clockReadings call ++ t.readings⟩ := by
  unfold watch webhookIngest
  rw [h]
  rfl

/-- An accepted request is entered. -/
theorem watch_accepted {t : Watched} {call : Ingest} {webhook : WebhookChannel}
    {inbound : ChannelInbound} {nonce : Bytes}
    (h : webhookScreen jsonParseString t.channel call = (webhook, .ok (inbound, nonce))) :
    watch jsonParseString t call =
      ⟨{ webhook with
          inbox := webhook.inbox ++ [inbound]
          seenNonces := webhookRememberNonce webhook.seenNonces nonce },
        call.request.body :: t.accepted, clockReadings call ++ t.readings⟩ := by
  unfold watch webhookIngest
  rw [h]
  rfl

/-- Windows that are over stay over. -/
theorem Expired.mono {window : Nat} {readings more : List Int} {timestamp : Int}
    (h : Expired window readings timestamp) : Expired window (more ++ readings) timestamp := by
  obtain ⟨hpositive, now, hnow, hover⟩ := h
  exact ⟨hpositive, now, List.mem_append_right _ hnow, hover⟩

/-- **One request** that pushes out no live nonce keeps every accepted body covered. -/
theorem Covered.watch {t : Watched} {call : Ingest} (h : Covered jsonParseString t)
    (hlive : KeepsLive jsonParseString t call) : Covered jsonParseString (watch jsonParseString t call) := by
  obtain ⟨hseen, hwindow⟩ := webhookScreen_keeps jsonParseString t.channel call
  cases hscreen : webhookScreen jsonParseString t.channel call with
  | mk webhook result =>
    rw [hscreen] at hseen hwindow
    have hseen : webhook.seenNonces = t.channel.seenNonces := hseen
    have hwindow : webhook.replayWindowSecs = t.channel.replayWindowSecs := hwindow
    cases result with
    | error e =>
      rw [watch_refused jsonParseString hscreen]
      constructor
      · show webhook.seenNonces.length ≤ maxSeenNonces
        rw [hseen]
        exact h.bounded
      · intro body hbody object hobject hguarded
        show webhookNonce object ∈ webhook.seenNonces ∨
          Expired webhook.replayWindowSecs (clockReadings call ++ t.readings) (webhookTimestamp object)
        rw [hseen, hwindow]
        exact (h.covered body hbody object hobject hguarded).imp_right Expired.mono
    | ok received =>
      obtain ⟨inbound, nonce⟩ := received
      rw [watch_accepted jsonParseString hscreen]
      constructor
      · show (webhookRememberNonce webhook.seenNonces nonce).length ≤ maxSeenNonces
        rw [hseen, webhookRememberNonce]
        split
        · exact h.bounded
        · exact length_push_le (by decide) _ _
      · intro body hbody object hobject hguarded
        show webhookNonce object ∈ webhookRememberNonce webhook.seenNonces nonce ∨
          Expired webhook.replayWindowSecs (clockReadings call ++ t.readings) (webhookTimestamp object)
        rw [hseen, hwindow, webhookRememberNonce]
        obtain ⟨found, hfound, hnonce, -, -⟩ := webhookScreen_ok jsonParseString hscreen
        rcases List.mem_cons.mp hbody with hsame | hbody
        · -- the body that was just accepted
          rw [hsame, hfound] at hobject
          obtain rfl := Option.some.inj hobject
          rw [hnonce, if_neg hguarded.nonce]
          exact Or.inl (mem_push_self _ _ _)
        · rcases h.covered body hbody object hobject hguarded with hmem | hover
          · split
            · exact Or.inl hmem
            next hne =>
              by_cases hfirst : maxSeenNonces ≤ t.channel.seenNonces.length ∧
                  t.channel.seenNonces.head? = some (webhookNonce object)
              · exact Or.inr (hlive _ _ _ hscreen hne hfirst.1 body hbody object hobject hguarded hfirst.2)
              · exact Or.inl (mem_push_of_mem h.bounded hmem fun hfull hhead => hfirst ⟨hfull, hhead⟩)
          · exact Or.inr hover.mono

/-! ## Runs -/

/-- The readings of a run, in order. -/
theorem clockAdvances_of_sorted :
    ∀ (calls : List Ingest) (t : Watched),
      (∀ past ∈ t.readings, ∀ now ∈ calls.flatMap clockReadings, past ≤ now) →
      (calls.flatMap clockReadings).Pairwise (· ≤ ·) →
      EachStep (watch jsonParseString) ClockAdvances t calls := by
  intro calls
  induction calls with
  | nil => intro t _ _; exact trivial
  | cons call calls ih =>
    intro t hpast hsorted
    rw [List.flatMap_cons] at hpast hsorted
    obtain ⟨-, hrest, hcross⟩ := List.pairwise_append.mp hsorted
    refine ⟨fun past h now hnow => hpast past h now (List.mem_append_left _ hnow), ih _ ?_ hrest⟩
    intro past hmem now hnow
    rcases List.mem_append.mp hmem with hmem | hmem
    · exact hcross past hmem now hnow
    · exact hpast past hmem now (List.mem_append_right _ hnow)

/-- **In every run in which no live nonce is pushed out, nothing is accepted twice**: a request whose
    body was accepted before is refused. -/
theorem no_replay_run (webhook : WebhookChannel) (hnew : webhook.seenNonces = []) (calls : List Ingest)
    (hclock : (calls.flatMap clockReadings).Pairwise (· ≤ ·))
    (h : EachStep (watch jsonParseString) (KeepsLive jsonParseString) ⟨webhook, [], []⟩ calls) :
    ∀ done call, done ++ [call] <+: calls → ∀ object,
      jsonParseString (cString call.request.body) = some object → Guarded object →
      call.request.body ∈ (run (watch jsonParseString) ⟨webhook, [], []⟩ done).accepted →
      ∃ e, (webhookIngest jsonParseString (run (watch jsonParseString) ⟨webhook, [], []⟩ done).channel
        call).2 = .error e := by
  intro done call hdone object hobject hguarded hmem
  have hstart : Covered jsonParseString ⟨webhook, [], []⟩ := by
    constructor
    · show webhook.seenNonces.length ≤ maxSeenNonces
      rw [hnew]
      exact Nat.zero_le _
    · intro body hbody
      exact absurd hbody List.not_mem_nil
  have hprefix : done <+: calls := (List.prefix_append done [call]).trans hdone
  have hcovered := run_invariant (fun _ _ hI hG => Covered.watch jsonParseString hI hG) done _ hstart
    (h.of_initial hprefix)
  have hadvances := clockAdvances_of_sorted jsonParseString calls ⟨webhook, [], []⟩
    (fun past hpast => absurd hpast List.not_mem_nil) hclock
  refine hcovered.denied jsonParseString ?_ hobject hguarded hmem
  exact (hadvances.of_initial hdone).last

end Watched

/-! ## Two runs -/

/-- How a body of the runs below starts. -/
def sampleHead : Bytes := str "\x7b\"text\":\"hi\",\"timestamp_unix_secs\":1,\"nonce\":\""

/-- `{"text":"hi","timestamp_unix_secs":1,"nonce":"…"}` -/
def sampleBody (nonce : Bytes) : Bytes := sampleHead ++ (nonce ++ str "\"\x7d")

/-- What a JSON parser makes of such a body. -/
def sampleObject (nonce : Bytes) : ParsonObject where
  getString name := if name = "text" then some (str "hi") else if name = "nonce" then some nonce else none
  getNumber name := if name = "timestamp_unix_secs" then ⟨0x3FF0000000000000⟩ else ⟨0⟩
  getObject _ := none

/-- A parser for such bodies. -/
def sampleParse (text : Bytes) : Option ParsonObject :=
  if sampleHead <+: text then
    some (sampleObject ((text.drop sampleHead.length).takeWhile (· ≠ chr '"')))
  else none

/-- A nonce of the runs below: some letters `a`. -/
def sampleNonce (n : Nat) : Bytes := List.replicate (n + 1) (chr 'a')

/-- One second after the epoch, a request with the nonce. -/
def sampleCall (n : Nat) : Ingest where
  request := { path := str "/hook", body := sampleBody (sampleNonce n) }
  rateClock := .ok 1000000000
  replayClock := .ok 1000000000
  storeMedia _ _ _ _ := .ok ([], 0)

/-- A channel with the default limits that keeps these nonces. -/
def sampleChannel (seenNonces : List Bytes) (inbox : List ChannelInbound) : WebhookChannel where
  path := str "/hook"
  seenNonces := seenNonces
  inbox := inbox

theorem sampleParse_body (n : Nat) :
    sampleParse (cString (sampleBody (sampleNonce n))) = some (sampleObject (sampleNonce n)) := by
  have hhead : ∀ c ∈ sampleHead, c ≠ 0 := by decide +kernel
  have htail : ∀ c ∈ str "\"\x7d", c ≠ 0 := by decide +kernel
  have hquote : str "\"\x7d" = chr '"' :: [chr '\x7d'] := by decide
  have hplain : ∀ c ∈ sampleNonce n, c = chr 'a' := fun c hc => (List.mem_replicate.mp hc).2
  have hwhole : cString (sampleBody (sampleNonce n)) = sampleBody (sampleNonce n) := by
    refine List.takeWhile_eq_self_iff.mpr fun c hc => decide_eq_true ?_
    rcases List.mem_append.mp hc with hc | hc
    · exact hhead c hc
    · rcases List.mem_append.mp hc with hc | hc
      · rw [hplain c hc]
        decide
      · exact htail c hc
  have hnonce : ((sampleNonce n) ++ str "\"\x7d").takeWhile (· ≠ chr '"') = sampleNonce n := by
    rw [hquote, List.takeWhile_append_of_pos fun c hc => decide_eq_true (by rw [hplain c hc]; decide),
      List.takeWhile_cons_of_neg (by decide), List.append_nil]
  rw [hwhole, sampleParse, sampleBody, if_pos (List.prefix_append _ _), List.drop_left, hnonce]

/-- The message in such a body. -/
def sampleInbound : ChannelInbound where
  messageId := str "webhook"
  channelName := str "webhook"
  conversationId := str "webhook"
  senderId := str "webhook"
  text := str "hi"
  timestampUnixSecs := 1
  timestampTrusted := true

theorem sampleObject_timestamp (nonce : Bytes) : webhookTimestamp (sampleObject nonce) = 1 := by
  have hnumber : (sampleObject nonce).getNumber "timestamp_unix_secs" = ⟨0x3FF0000000000000⟩ := rfl
  rw [webhookTimestamp, hnumber]
  decide

theorem parse_sampleBody (storeMedia : StoreMedia) (n : Nat) :
    parseWebhookBody sampleParse storeMedia 0 (sampleBody (sampleNonce n)) [] =
      .ok (sampleInbound, sampleNonce n, 1) := by
  have hmedia : webhookMedia storeMedia 0 false ⟨none, none, none, none, ⟨0⟩⟩ = .ok ([], 0) := by
    have hzero : zeroDouble.lt ⟨0⟩ = false := by decide
    have hnegative : (⟨0⟩ : Double).lt zeroDouble = false := by decide
    have hsize : toSize ⟨0⟩ = 0 := by decide +kernel
    rw [webhookMedia, hzero, hnegative, if_neg Bool.false_ne_true,
      if_neg (fun h => absurd h.1 (by decide)), if_neg (fun h => by simp at h)]
    show Except.ok ([], toSize ⟨0⟩) = _
    rw [hsize]
  have hevent : ¬ (str "message" ≠ str "message" ∧ str "message" ≠ str "media") := fun h => h.1 rfl
  have htext : given ((sampleObject (sampleNonce n)).getString "text") = some (str "hi") := rfl
  rw [parseWebhookBody, sampleParse_body]
  show (if str "message" ≠ str "message" ∧ str "message" ≠ str "media" then _ else _) = _
  rw [if_neg hevent]
  refine Res.bind_eq_ok.mpr ⟨([], 0), hmedia, ?_⟩
  simp only [htext, Option.some_or, sampleObject_timestamp]
  rfl

/-- A fresh nonce is accepted and remembered. -/
theorem sampleIngest {n : Nat} {seen : List Bytes} (inbox : List ChannelInbound) (hn : n ≤ 60000)
    (hfresh : sampleNonce n ∉ seen) :
    webhookIngest sampleParse (sampleChannel seen inbox) (sampleCall n) =
      (sampleChannel (push maxSeenNonces seen (sampleNonce n)) (inbox ++ [sampleInbound]), .ok ()) := by
  have hne : sampleNonce n ≠ [] := List.cons_ne_nil _ _
  have hlength : (sampleBody (sampleNonce n)).length ≤ 65536 := by
    have hhead : sampleHead.length ≤ 100 := by decide
    have htail : (str "\"\x7d").length ≤ 2 := by decide
    rw [sampleBody, List.length_append, List.length_append, sampleNonce, List.length_replicate]
    omega
  have hshort : ¬ (sampleChannel seen inbox).maxBodyBytes < (sampleCall n).request.body.length :=
    Nat.not_lt.mpr hlength
  have hrequest : webhookCheckRequest (sampleChannel seen inbox) (sampleCall n).request = .ok () := by
    rw [webhookCheckRequest, if_neg (fun h => h.elim (fun h => h rfl) fun h => h rfl),
      if_neg (fun h => h.1 rfl), if_neg hshort]
    rfl
  have hreplay : webhookCheckReplay (sampleChannel seen inbox) (.ok 1000000000) (sampleNonce n) 1 =
      .ok () := by
    have hwindow : webhookCheckWindow 300 (.ok 1000000000) 1 = .ok () := by decide
    refine Res.bind_eq_ok.mpr ⟨(), hwindow, ?_⟩
    rw [if_neg hne, if_neg (show sampleNonce n ∉ (sampleChannel seen inbox).seenNonces from hfresh)]
  have hreceive : webhookReceive sampleParse (sampleChannel seen inbox) (sampleCall n) =
      .ok (sampleInbound, sampleNonce n) :=
    Res.bind_eq_ok.mpr ⟨_, parse_sampleBody _ n, Res.bind_eq_ok.mpr ⟨(), hreplay, rfl⟩⟩
  have hlimit : webhookCheckRateLimit (sampleChannel seen inbox) (sampleCall n).rateClock =
      (sampleChannel seen inbox, .ok ()) := rfl
  rw [webhookIngest, webhookScreen, hrequest]
  simp only [hlimit, hreceive]
  rw [webhookRememberNonce, if_neg hne]
  rfl

/-- Requests with distinct nonces that the list lacks are all accepted. -/
theorem sample_run :
    ∀ (ns : List Nat) (seen : List Bytes) (inbox : List ChannelInbound) (accepted : List Bytes)
      (readings : List Int), (∀ n ∈ ns, n ≤ 60000) → (seen ++ ns.map sampleNonce).Nodup →
      ∃ inbox' readings', run (watch sampleParse) ⟨sampleChannel seen inbox, accepted, readings⟩
          (ns.map sampleCall) =
        ⟨sampleChannel ((ns.map sampleNonce).foldl (push maxSeenNonces) seen) inbox',
          (ns.map fun n => sampleBody (sampleNonce n)).reverse ++ accepted, readings'⟩ := by
  intro ns
  induction ns with
  | nil => intro seen inbox accepted readings _ _; exact ⟨inbox, readings, rfl⟩
  | cons n ns ih =>
    intro seen inbox accepted readings hsmall hnodup
    have hfresh : sampleNonce n ∉ seen := by
      intro hmem
      rw [List.map_cons] at hnodup
      exact (List.nodup_append.mp hnodup).2.2 _ hmem _ List.mem_cons_self rfl
    have hrest : (push maxSeenNonces seen (sampleNonce n) ++ ns.map sampleNonce).Nodup := by
      refine List.Nodup.sublist ?_ hnodup
      rw [push, List.map_cons, List.append_assoc, List.singleton_append]
      exact (trimFront_suffix _ _).sublist.append_right _
    have hstep : watch sampleParse ⟨sampleChannel seen inbox, accepted, readings⟩ (sampleCall n) =
        ⟨sampleChannel (push maxSeenNonces seen (sampleNonce n)) (inbox ++ [sampleInbound]),
          sampleBody (sampleNonce n) :: accepted, clockReadings (sampleCall n) ++ readings⟩ := by
      unfold watch
      rw [sampleIngest inbox (hsmall n List.mem_cons_self) hfresh]
      rfl
    obtain ⟨inbox', readings', hrun⟩ := ih (push maxSeenNonces seen (sampleNonce n))
      (inbox ++ [sampleInbound]) (sampleBody (sampleNonce n) :: accepted)
      (clockReadings (sampleCall n) ++ readings) (fun k hk => hsmall k (List.mem_cons_of_mem n hk)) hrest
    refine ⟨inbox', readings', ?_⟩
    rw [List.map_cons, run, List.foldl_cons, hstep]
    rw [run] at hrun
    rw [hrun, List.map_cons, List.map_cons, List.reverse_cons, List.append_assoc, List.foldl_cons]
    rfl

/-- The second request with the same body is refused. -/
theorem no_replay_twice :
    ∃ e, (webhookIngest sampleParse (run (watch sampleParse) ⟨sampleChannel [] [], [], []⟩
      [sampleCall 0]).channel (sampleCall 0)).2 = .error e := by
  obtain ⟨inbox, readings, hrun⟩ := sample_run [0] [] [] [] [] (by decide) (by decide)
  have hfirst : watch sampleParse ⟨sampleChannel [] [], [], []⟩ (sampleCall 0) =
      ⟨sampleChannel [sampleNonce 0] inbox, [sampleBody (sampleNonce 0)], readings⟩ := hrun
  have hlive : EachStep (watch sampleParse) (KeepsLive sampleParse) ⟨sampleChannel [] [], [], []⟩
      [sampleCall 0, sampleCall 0] := by
    refine ⟨?_, ?_, trivial⟩
    · intro webhook inbound nonce _ _ _ body hbody
      exact absurd hbody List.not_mem_nil
    · rw [hfirst]
      intro webhook inbound nonce _ _ hfull
      have hfull : maxSeenNonces ≤ [sampleNonce 0].length := hfull
      exact absurd hfull (by decide)
  have hguarded : Guarded (sampleObject (sampleNonce 0)) := ⟨List.cons_ne_nil _ _, by decide⟩
  refine no_replay_run sampleParse (sampleChannel [] []) rfl [sampleCall 0, sampleCall 0] (by decide)
    hlive [sampleCall 0] (sampleCall 0) List.prefix_rfl (sampleObject (sampleNonce 0))
    (sampleParse_body 0) hguarded ?_
  show _ ∈ (watch sampleParse ⟨sampleChannel [] [], [], []⟩ (sampleCall 0)).accepted
  rw [hfirst]
  exact List.mem_cons_self

/-- **1024 other nonces later the same request is accepted again**, in the same second. -/
theorem replay_accepted : ¬ ∀ (webhook : WebhookChannel), webhook.seenNonces = [] →
    ∀ calls : List Ingest, (calls.flatMap clockReadings).Pairwise (· ≤ ·) →
    ∀ done call, done ++ [call] <+: calls → ∀ object,
      sampleParse (cString call.request.body) = some object → Guarded object →
      call.request.body ∈ (run (watch sampleParse) ⟨webhook, [], []⟩ done).accepted →
      ∃ e, (webhookIngest sampleParse (run (watch sampleParse) ⟨webhook, [], []⟩ done).channel call).2 =
        .error e := by
  intro h
  have hinjective : Function.Injective sampleNonce := by
    intro m n hmn
    have hlength := congrArg List.length hmn
    rw [sampleNonce, sampleNonce, List.length_replicate, List.length_replicate] at hlength
    omega
  have hnodup : ((List.range 1025).map sampleNonce).Nodup := List.Nodup.map hinjective List.nodup_range
  obtain ⟨inbox, readings, hrun⟩ := sample_run (List.range 1025) [] [] [] []
    (fun n hn => Nat.le_of_lt ((List.mem_range.mp hn).trans (by decide))) (by
      rw [List.nil_append]
      exact hnodup)
  -- the list holds the last 1024 nonces, and the first one is not among them
  have hfresh : sampleNonce 0 ∉ ((List.range 1025).map sampleNonce).foldl (push maxSeenNonces) [] := by
    rw [foldl_push (by decide) _ _ (Nat.zero_le _), List.nil_append, trimFront_eq_drop, List.length_map,
      List.length_range, ← List.map_drop]
    intro hmem
    obtain ⟨k, hk, hzero⟩ := List.mem_map.mp hmem
    obtain rfl := hinjective hzero
    rw [List.range_eq_range', List.drop_range', List.mem_range'_1] at hk
    simp [maxSeenNonces] at hk
  have hclock : (((List.range 1025).map sampleCall ++ [sampleCall 0]).flatMap clockReadings).Pairwise
      (· ≤ ·) := by
    have hsame : ∀ now ∈ ((List.range 1025).map sampleCall ++ [sampleCall 0]).flatMap clockReadings,
        now = 1000000000 := by
      intro now hnow
      obtain ⟨call, hcall, hnow⟩ := List.mem_flatMap.mp hnow
      have hcalls : clockReadings call = [1000000000, 1000000000] := by
        rcases List.mem_append.mp hcall with hcall | hcall
        · obtain ⟨n, -, rfl⟩ := List.mem_map.mp hcall
          rfl
        · rw [List.mem_singleton.mp hcall]
          rfl
      rw [hcalls] at hnow
      simpa using hnow
    exact List.pairwise_of_forall_mem_list fun a ha b hb =>
      Int.le_of_eq ((hsame a ha).trans (hsame b hb).symm)
  have hguarded : Guarded (sampleObject (sampleNonce 0)) := ⟨List.cons_ne_nil _ _, by decide⟩
  obtain ⟨e, he⟩ := h (sampleChannel [] []) rfl ((List.range 1025).map sampleCall ++ [sampleCall 0]) hclock
    ((List.range 1025).map sampleCall) (sampleCall 0) List.prefix_rfl _ (sampleParse_body 0) hguarded (by
      rw [hrun, List.append_nil, List.mem_reverse]
      exact List.mem_map.mpr ⟨0, List.mem_range.mpr (by decide), rfl⟩)
  rw [hrun, sampleIngest inbox (by decide) hfresh] at he
  exact nomatch he

end SmolClaw.Channels
