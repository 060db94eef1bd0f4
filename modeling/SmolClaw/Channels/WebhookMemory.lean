/-
  The webhook channel when memory runs out (`sc_channel_webhook_ingest`, `src/channels/orchestrator.c`).

  1. **Program** — the same function as `webhookIngest`, with its strings on a heap.  The inbox holds the
     addresses of the strings of a message, not copies: what is pushed and the local `stored` share them.

  2. **Layers** — granted all it asks for, it does what `webhookIngest` says (`webhookIngestIn_granted`).

  3. **Defect** — the nonce is remembered after the message was pushed.  When that gets no memory, the
     common clean-up frees the strings of `stored`, which are those of the message in the inbox.

  4. **Result** — `rejected_iff`: a rejected request leaves the inbox and the nonces as they were exactly if
     it did not fail there.
-/
import SmolClaw.Channels.Webhook
import SmolClaw.Lib.Cells

namespace SmolClaw.Channels

open Lib.Memory Lib.Cells Lib.Window

/-! ## Strings on the heap -/

/-- `stored_inbound`: the addresses of its strings, in the order in which they are copied. -/
structure StoredInbound where
  texts : List Nat
  attachmentSizeBytes : Nat
  timestampUnixSecs : Int
  timestampTrusted : Bool
  attachmentTemporary : Bool
  cancelPrevious : Bool
  disableMemory : Bool

/-- The strings of a message, in that order. -/
def inboundTexts (message : ChannelInbound) : List Bytes :=
  [message.messageId, message.channelName, message.platformAccountId, message.conversationId,
    message.threadId, message.senderId, message.text, message.replyToMessageId,
    message.attachmentMediaType, message.attachmentName, message.attachmentStoragePath]

/-- The strings that `parse_webhook_body` copies: the path of the attachment is moved, not copied. -/
def parsedTexts (message : ChannelInbound) (nonce : Bytes) : List Bytes :=
  [message.messageId, message.channelName, message.platformAccountId, message.conversationId,
    message.threadId, message.senderId, message.text, message.replyToMessageId,
    message.attachmentMediaType, message.attachmentName, nonce]

/-- What is read at an address. -/
def textAt (heap : Heap Bytes) (a : Nat) : Bytes := (heap.cells a).getD []

/-- The message that a stored one stands for. -/
def StoredInbound.message (heap : Heap Bytes) (stored : StoredInbound) : ChannelInbound where
  messageId := textAt heap (stored.texts.getD 0 0)
  channelName := textAt heap (stored.texts.getD 1 0)
  platformAccountId := textAt heap (stored.texts.getD 2 0)
  conversationId := textAt heap (stored.texts.getD 3 0)
  threadId := textAt heap (stored.texts.getD 4 0)
  senderId := textAt heap (stored.texts.getD 5 0)
  text := textAt heap (stored.texts.getD 6 0)
  replyToMessageId := textAt heap (stored.texts.getD 7 0)
  attachmentMediaType := textAt heap (stored.texts.getD 8 0)
  attachmentName := textAt heap (stored.texts.getD 9 0)
  attachmentStoragePath := textAt heap (stored.texts.getD 10 0)
  attachmentSizeBytes := stored.attachmentSizeBytes
  timestampUnixSecs := stored.timestampUnixSecs
  timestampTrusted := stored.timestampTrusted
  attachmentTemporary := stored.attachmentTemporary
  cancelPrevious := stored.cancelPrevious
  disableMemory := stored.disableMemory

/-- `webhook_channel`: `options` without its two lists, which are on the heap. -/
structure StoredChannel where
  options : WebhookChannel
  seenNonces : List Nat := []
  inbox : List StoredInbound := []

/-- The channel that a stored one stands for. -/
def StoredChannel.view (heap : Heap Bytes) (channel : StoredChannel) : WebhookChannel :=
  { channel.options with
    seenNonces := channel.seenNonces.map (textAt heap)
    inbox := channel.inbox.map (StoredInbound.message heap) }

/-! ## Program -/

/-- The stored message with these strings. -/
def storedAs (message : ChannelInbound) (texts : List Nat) : StoredInbound where
  texts := texts
  attachmentSizeBytes := message.attachmentSizeBytes
  timestampUnixSecs := message.timestampUnixSecs
  timestampTrusted := message.timestampTrusted
  attachmentTemporary := message.attachmentTemporary
  cancelPrevious := message.cancelPrevious
  disableMemory := message.disableMemory

/-- `stored_inbound_from_public` -/
def storedInboundFromPublic (m : Memory Bytes) (message : ChannelInbound) :
    Option StoredInbound × Memory Bytes :=
  match m.copyAll (inboundTexts message) with
  | (none, m) => (none, m)
  | (some texts, m) => (some (storedAs message texts), m)

/-- The loop of `webhook_remember_nonce` that forgets the oldest nonces. -/
def forgetNonces : List Nat → Heap Bytes → List Nat × Heap Bytes
  | [], heap => ([], heap)
  | oldest :: rest, heap =>
      if maxSeenNonces ≤ (oldest :: rest).length then forgetNonces rest (heap.free oldest)
      else (oldest :: rest, heap)

/-- `webhook_remember_nonce`: whether it succeeds; a push that the capacity has room for is one that gets
    its memory. -/
def webhookRememberNonceIn (m : Memory Bytes) (seenNonces : List Nat) (nonce : Bytes) :
    Bool × List Nat × Memory Bytes :=
  if nonce = [] then (true, seenNonces, m)
  else
    let (kept, heap) := forgetNonces seenNonces m.heap
    match (Memory.mk heap m.grants).copy nonce with
    | (none, m) => (false, kept, m)
    | (some copy, m) =>
        match m.request with
        | (false, m) => (false, kept, m.freeAll [copy])
        | (true, m) => (true, kept ++ [copy], m)

/-- A message that has passed the checks goes to the inbox, and its nonce into the list. -/
def webhookKeep (m : Memory Bytes) (channel : StoredChannel) (message : ChannelInbound) (nonce : Bytes) :
    Res Unit × StoredChannel × Memory Bytes :=
  match storedInboundFromPublic m message with
  | (none, m) => (Status.noMemory, channel, m)
  | (some stored, m) =>
      match m.request with
      | (false, m) => (Status.noMemory, channel, m.freeAll stored.texts)
      | (true, m) =>
          match webhookRememberNonceIn m channel.seenNonces nonce with
          | (true, seen, m) =>
              (.ok (), { channel with seenNonces := seen, inbox := channel.inbox ++ [stored] }, m)
          -- `stored_inbound_clear(&stored)`: the inbox has the same addresses
          | (false, seen, m) =>
              (Status.noMemory, { channel with seenNonces := seen, inbox := channel.inbox ++ [stored] },
                m.freeAll stored.texts)

section Ingest

variable (jsonParseString : Bytes → Option ParsonObject)

/-- `parse_webhook_body`, with the addresses of its strings. -/
def parseWebhookBodyIn (m : Memory Bytes) (maxMediaBytes : Nat) (call : Ingest) :
    Res ((ChannelInbound × Bytes × Int) × List Nat) × Memory Bytes :=
  match m.request with
  | (false, m) => (Status.noMemory, m)
  | (true, m) =>
      match parseWebhookBody jsonParseString call.storeMedia maxMediaBytes call.request.body
          call.request.remoteAddr with
      | .error e => (.error e, m)
      | .ok (message, nonce, timestamp) =>
          match m.copyAll (parsedTexts message nonce) with
          | (none, m) => (Status.noMemory, m)
          | (some copies, m) => (.ok ((message, nonce, timestamp), copies), m)

/-- A parsed body: the check for replays, and what follows. -/
def webhookAccept (m : Memory Bytes) (channel : StoredChannel) (clock : Res Int) (message : ChannelInbound)
    (nonce : Bytes) (timestamp : Int) : Res Unit × StoredChannel × Memory Bytes :=
  match webhookCheckReplay (channel.view m.heap) clock nonce timestamp with
  | .error e => (.error e, channel, m)
  | .ok () => webhookKeep m channel message nonce

/-- `sc_channel_webhook_ingest` -/
def webhookIngestIn (m : Memory Bytes) (channel : StoredChannel) (call : Ingest) :
    Res Unit × StoredChannel × Memory Bytes :=
  match webhookCheckRequest channel.options call.request with
  | .error e => (.error e, channel, m)
  | .ok () =>
      match webhookCheckRateLimit channel.options call.rateClock with
      | (options, .error e) => (.error e, { channel with options := options }, m)
      | (options, .ok ()) =>
          match parseWebhookBodyIn jsonParseString m options.maxMediaBytes call with
          | (.error e, m) => (.error e, { channel with options := options }, m)
          | (.ok ((message, nonce, timestamp), copies), m) =>
              let (result, channel, m) :=
                webhookAccept m { channel with options := options } call.replayClock message nonce timestamp
              (result, channel, m.freeAll copies)

end Ingest

/-! ## Specification -/

/-- What a stored message holds: its strings as far as they are there, and its other fields. -/
def StoredInbound.contents (heap : Heap Bytes) (stored : StoredInbound) :
    List (Option Bytes) × StoredInbound :=
  (stored.texts.map heap.cells, { stored with texts := [] })

/-- The messages in the inbox and the nonces, each with its full contents. -/
def StoredChannel.contents (heap : Heap Bytes) (channel : StoredChannel) :
    List (List (Option Bytes) × StoredInbound) × List (Option Bytes) :=
  (channel.inbox.map (StoredInbound.contents heap), channel.seenNonces.map heap.cells)

/-- The addresses of a channel. -/
def StoredChannel.addresses (channel : StoredChannel) : List Nat :=
  channel.inbox.flatMap StoredInbound.texts ++ channel.seenNonces

/-- A channel owns its strings: they are there, and each belongs to one message or nonce. -/
structure StoredChannel.Owned (heap : Heap Bytes) (channel : StoredChannel) : Prop where
  complete : ∀ stored ∈ channel.inbox, stored.texts.length = 11
  live : ∀ a ∈ channel.addresses, heap.cells a ≠ none
  nodup : channel.addresses.Nodup

/-- The requests up to the push of the message: the body, the two copies of its strings, and the push. -/
def messageRequests : Nat := 1 + 11 + 11 + 1

/-- **The nonce is refused**: a request with a nonce passes the checks and its message gets its memory, but
    the copy of the nonce or its place in the list does not. -/
def NonceRefused (jsonParseString : Bytes → Option ParsonObject) (m : Memory Bytes)
    (channel : StoredChannel) (call : Ingest) : Prop :=
  ∃ message nonce, (webhookScreen jsonParseString (channel.view m.heap) call).2 = .ok (message, nonce) ∧
    nonce ≠ [] ∧ m.grants.First messageRequests ∧ ¬ m.grants.First (messageRequests + 2)

/-! ## Frame -/

theorem contents_eq_of_cells {heap after : Heap Bytes} {channel : StoredChannel}
    (h : ∀ a ∈ channel.addresses, after.cells a = heap.cells a) :
    channel.contents after = channel.contents heap := by
  refine Prod.ext ?_ ?_
  · refine List.map_congr_left fun stored hstored => Prod.ext (List.map_congr_left fun a ha => ?_) rfl
    exact h a (List.mem_append_left _ (List.mem_flatMap.mpr ⟨stored, hstored, ha⟩))
  · exact List.map_congr_left fun a ha => h a (List.mem_append_right _ ha)

theorem StoredInbound.message_eq {heap after : Heap Bytes} {stored : StoredInbound}
    (hcomplete : stored.texts.length = 11) (h : ∀ a ∈ stored.texts, after.cells a = heap.cells a) :
    stored.message after = stored.message heap := by
  have htext : ∀ i < 11, textAt after (stored.texts.getD i 0) = textAt heap (stored.texts.getD i 0) := by
    intro i hi
    rw [textAt, textAt, h]
    have hlt : i < stored.texts.length := by omega
    rw [List.getD_eq_getElem?_getD, List.getElem?_eq_getElem hlt, Option.getD_some]
    exact List.getElem_mem hlt
  simp (disch := decide) only [StoredInbound.message, htext]

/-- **What keeps the cells in use keeps the channel.** -/
theorem StoredChannel.Owned.contents_eq {heap after : Heap Bytes} {channel : StoredChannel}
    (howned : channel.Owned heap) (h : heap.Keeps after) : channel.contents after = channel.contents heap :=
  contents_eq_of_cells fun a ha => h.read (howned.live a ha)

/-- The messages are read the same. -/
theorem StoredChannel.Owned.messages_eq {heap after : Heap Bytes} {channel : StoredChannel}
    (howned : channel.Owned heap) (h : heap.Keeps after) :
    channel.inbox.map (StoredInbound.message after) = channel.inbox.map (StoredInbound.message heap) := by
  refine List.map_congr_left fun stored hstored => ?_
  refine StoredInbound.message_eq (howned.complete stored hstored) fun a ha => h.read (howned.live a ?_)
  exact List.mem_append_left _ (List.mem_flatMap.mpr ⟨stored, hstored, ha⟩)

/-- The nonces are read the same. -/
theorem StoredChannel.Owned.nonces_eq {heap after : Heap Bytes} {channel : StoredChannel}
    (howned : channel.Owned heap) (h : heap.Keeps after) :
    channel.seenNonces.map (textAt after) = channel.seenNonces.map (textAt heap) := by
  refine List.map_congr_left fun a ha => ?_
  rw [textAt, textAt, h.read (howned.live a (List.mem_append_right _ ha))]

theorem StoredChannel.Owned.view_eq {heap after : Heap Bytes} {channel : StoredChannel}
    (howned : channel.Owned heap) (h : heap.Keeps after) : channel.view after = channel.view heap := by
  rw [StoredChannel.view, StoredChannel.view, howned.messages_eq h, howned.nonces_eq h]

/-- The check for replays reads the nonces only. -/
theorem StoredChannel.Owned.checkReplay_eq {heap after : Heap Bytes} {channel : StoredChannel}
    (howned : channel.Owned heap) (h : heap.Keeps after) (clock : Res Int) (nonce : Bytes)
    (timestamp : Int) :
    webhookCheckReplay (channel.view after) clock nonce timestamp =
      webhookCheckReplay (channel.view heap) clock nonce timestamp := by rw [howned.view_eq h]

/-! ## The checks -/

/-- The rate limit does not look at the lists. -/
theorem webhookCheckRateLimit_view (heap : Heap Bytes) (channel : StoredChannel) (clock : Res Int) :
    webhookCheckRateLimit (channel.view heap) clock =
      (({ channel with options := (webhookCheckRateLimit channel.options clock).1 }).view heap,
        (webhookCheckRateLimit channel.options clock).2) := by
  unfold webhookCheckRateLimit
  show (if channel.options.rateLimitPerMinute = 0 then _ else _) = _
  split
  · rfl
  · cases clock with
    | error e => rfl
    | ok now =>
      by_cases hfresh : channel.options.rateWindowUnixSecs = 0 ∨
          unixSecs now - channel.options.rateWindowUnixSecs ≥ 60
      · simp only [StoredChannel.view, hfresh, if_true]
        split
        · rfl
        · rfl
      · simp only [StoredChannel.view, hfresh, if_false]
        split
        · rfl
        · rfl

section Checks

variable {jsonParseString : Bytes → Option ParsonObject} {m : Memory Bytes} {channel : StoredChannel}
  {call : Ingest}

/-- The channel with the books of the rate limit. -/
def StoredChannel.limited (channel : StoredChannel) (call : Ingest) : StoredChannel :=
  { channel with options := (webhookCheckRateLimit channel.options call.rateClock).1 }

theorem StoredChannel.Owned.limited (howned : channel.Owned m.heap) : (channel.limited call).Owned m.heap :=
  ⟨howned.complete, howned.live, howned.nodup⟩

/-- What is copied before the message is: the body and its strings. -/
def bodyRequests : Nat := 1 + 11

theorem parseWebhookBodyIn_ok {maxMediaBytes : Nat} {message : ChannelInbound} {nonce : Bytes}
    {timestamp : Int}
    (h : parseWebhookBody jsonParseString call.storeMedia maxMediaBytes call.request.body
      call.request.remoteAddr = .ok (message, nonce, timestamp)) :
    (m.grants.First bodyRequests → ∃ heap, m.heap.Keeps heap ∧ heap.next = m.heap.next + 11 ∧
      parseWebhookBodyIn jsonParseString m maxMediaBytes call =
        (.ok ((message, nonce, timestamp), List.range' m.heap.next 11),
          ⟨heap, m.grants.after bodyRequests⟩)) ∧
    (¬ m.grants.First bodyRequests → ∃ after, m.heap.Keeps after.heap ∧
      parseWebhookBodyIn jsonParseString m maxMediaBytes call = (Status.noMemory, after)) := by
  rw [bodyRequests, m.grants.first_add 1 11, m.grants.first_one]
  unfold parseWebhookBodyIn Memory.request
  cases hbody : m.grants 0 with
  | false =>
    refine ⟨fun hfirst => absurd hfirst.1 Bool.false_ne_true, fun _ => ?_⟩
    exact ⟨{ m with grants := m.grants.after 1 }, .refl m.heap, rfl⟩
  | true =>
    dsimp only
    rw [h]
    dsimp only
    constructor
    · rintro ⟨-, hcopies⟩
      obtain ⟨heap, hcopy, hkeeps, -, hnext⟩ :=
        Memory.copyAll_granted (parsedTexts message nonce) ⟨m.heap, m.grants.after 1⟩ hcopies
      refine ⟨heap, hkeeps, hnext, ?_⟩
      rw [hcopy]
      dsimp only
      rw [Grants.after_after]
      rfl
    · intro hrefused
      have hcopies : ¬ (m.grants.after 1).First 11 := fun hcopies => hrefused ⟨rfl, hcopies⟩
      obtain ⟨after, hcopy, hkeeps⟩ :=
        Memory.copyAll_refused (parsedTexts message nonce) ⟨m.heap, m.grants.after 1⟩ hcopies
      refine ⟨after, hkeeps, ?_⟩
      rw [hcopy]

theorem parseWebhookBodyIn_error {maxMediaBytes : Nat} {e : ScError}
    (h : parseWebhookBody jsonParseString call.storeMedia maxMediaBytes call.request.body
      call.request.remoteAddr = .error e) :
    ∃ e' after, m.heap.Keeps after.heap ∧
      parseWebhookBodyIn jsonParseString m maxMediaBytes call = (.error e', after) ∧
      (m.grants.First bodyRequests → e' = e) := by
  rw [bodyRequests, m.grants.first_add 1 11, m.grants.first_one]
  unfold parseWebhookBodyIn Memory.request
  cases hbody : m.grants 0 with
  | false =>
    exact ⟨_, { m with grants := m.grants.after 1 }, .refl m.heap, rfl,
      fun hfirst => absurd hfirst.1 Bool.false_ne_true⟩
  | true =>
    dsimp only
    rw [h]
    exact ⟨e, { m with grants := m.grants.after 1 }, .refl m.heap, rfl, fun _ => rfl⟩

/-- The channel behind the checks is the stored one with the books of the rate limit. -/
theorem webhookScreen_of_request_ok (h : webhookCheckRequest channel.options call.request = .ok ()) :
    webhookScreen jsonParseString (channel.view m.heap) call =
      match (webhookCheckRateLimit channel.options call.rateClock).2 with
      | .error e => ((channel.limited call).view m.heap, .error e)
      | .ok () => ((channel.limited call).view m.heap,
          webhookReceive jsonParseString ((channel.limited call).view m.heap) call) := by
  have hview : webhookCheckRequest (channel.view m.heap) call.request = .ok () := h
  rw [webhookScreen, hview, webhookCheckRateLimit_view]
  dsimp only
  cases (webhookCheckRateLimit channel.options call.rateClock).2 with
  | error e => rfl
  | ok _ => rfl

/-- What the checks keep of the channel. -/
theorem webhookScreen_fst (jsonParseString : Bytes → Option ParsonObject) (m : Memory Bytes)
    {channel : StoredChannel} {call : Ingest}
    (h : webhookCheckRequest channel.options call.request = .ok ()) :
    (webhookScreen jsonParseString (channel.view m.heap) call).1 = (channel.limited call).view m.heap := by
  rw [webhookScreen_of_request_ok h]
  cases (webhookCheckRateLimit channel.options call.rateClock).2 with
  | error e => rfl
  | ok _ => rfl

/-- What is taken was a request of the kind the channel takes. -/
theorem webhookCheckRequest_of_screen_ok {accepted : ChannelInbound × Bytes}
    (h : (webhookScreen jsonParseString (channel.view m.heap) call).2 = .ok accepted) :
    webhookCheckRequest channel.options call.request = .ok () := by
  cases hrequest : webhookCheckRequest channel.options call.request with
  | error e =>
    have hview : webhookCheckRequest (channel.view m.heap) call.request = .error e := hrequest
    rw [webhookScreen, hview] at h
    cases h
  | ok _ => rfl

/-- **A request that passes the checks**: its message is kept as soon as the body has its memory. -/
theorem webhookIngestIn_of_screen_ok {message : ChannelInbound} {nonce : Bytes}
    (howned : channel.Owned m.heap)
    (h : (webhookScreen jsonParseString (channel.view m.heap) call).2 = .ok (message, nonce)) :
    (m.grants.First bodyRequests → ∃ heap, m.heap.Keeps heap ∧ heap.next = m.heap.next + 11 ∧
      webhookIngestIn jsonParseString m channel call =
        let (result, channel, after) :=
          webhookKeep ⟨heap, m.grants.after bodyRequests⟩ (channel.limited call) message nonce
        (result, channel, after.freeAll (List.range' m.heap.next 11))) ∧
    (¬ m.grants.First bodyRequests → ∃ after, m.heap.Keeps after.heap ∧
      webhookIngestIn jsonParseString m channel call =
        (Status.noMemory, channel.limited call, after)) := by
  have hrequest := webhookCheckRequest_of_screen_ok h
  rw [webhookScreen_of_request_ok hrequest] at h
  unfold webhookIngestIn
  rw [hrequest]
  cases hlimit : webhookCheckRateLimit channel.options call.rateClock with
  | mk options result =>
    have hlimited : { channel with options := options } = channel.limited call := by
      rw [StoredChannel.limited, hlimit]
    rw [hlimit] at h
    dsimp only
    cases result with
    | error e => cases h
    | ok _ =>
      dsimp only at h ⊢
      rw [hlimited]
      obtain ⟨⟨parsed, found, timestamp⟩, hparse, h⟩ := Res.bind_eq_ok.mp h
      obtain ⟨_, hreplay, h⟩ := Res.bind_eq_ok.mp h
      obtain ⟨rfl, rfl⟩ := Prod.mk.inj (Except.ok.inj h)
      have hoptions : (channel.limited call).options = options := by rw [← hlimited]
      have hparse : parseWebhookBody jsonParseString call.storeMedia options.maxMediaBytes
          call.request.body call.request.remoteAddr = .ok (parsed, found, timestamp) := by
        rw [← hoptions]
        exact hparse
      obtain ⟨hgranted, hrefused⟩ := parseWebhookBodyIn_ok (m := m) hparse
      constructor
      · intro hfirst
        obtain ⟨heap, hkeeps, hnext, hin⟩ := hgranted hfirst
        refine ⟨heap, hkeeps, hnext, ?_⟩
        rw [hin]
        dsimp only
        rw [webhookAccept, howned.limited.checkReplay_eq hkeeps, hreplay]
      · intro hfirst
        obtain ⟨after, hkeeps, hin⟩ := hrefused hfirst
        refine ⟨after, hkeeps, ?_⟩
        rw [hin]
        rfl

/-- A request that does not pass the checks leaves the lists alone. -/
theorem webhookIngestIn_of_screen_error {e : ScError} (howned : channel.Owned m.heap)
    (h : (webhookScreen jsonParseString (channel.view m.heap) call).2 = .error e) :
    ∃ e' options after, m.heap.Keeps after.heap ∧
      webhookIngestIn jsonParseString m channel call =
        (.error e', { channel with options := options }, after) ∧
      (m.grants.First bodyRequests → e' = e) ∧ ({ channel with options := options }).view m.heap =
        (webhookScreen jsonParseString (channel.view m.heap) call).1 := by
  unfold webhookIngestIn
  cases hrequest : webhookCheckRequest channel.options call.request with
  | error e' =>
    have hview : webhookCheckRequest (channel.view m.heap) call.request = .error e' := hrequest
    rw [webhookScreen, hview] at h ⊢
    exact ⟨e', channel.options, m, .refl _, rfl, fun _ => Except.error.inj h, rfl⟩
  | ok _ =>
    have hfst := webhookScreen_fst jsonParseString m hrequest
    rw [hfst]
    rw [webhookScreen_of_request_ok hrequest] at h
    cases hlimit : webhookCheckRateLimit channel.options call.rateClock with
    | mk options result =>
      have hlimited : { channel with options := options } = channel.limited call := by
        rw [StoredChannel.limited, hlimit]
      rw [hlimit] at h
      dsimp only
      cases result with
      | error e' => exact ⟨e', options, m, .refl _, rfl, fun _ => Except.error.inj h, by rw [hlimited]⟩
      | ok _ =>
        dsimp only at h ⊢
        have hoptions : (channel.limited call).options = options := by rw [← hlimited]
        rcases Res.bind_eq_error.mp h with hparse | ⟨⟨parsed, found, timestamp⟩, hparse, h⟩
        · have hparse : parseWebhookBody jsonParseString call.storeMedia options.maxMediaBytes
              call.request.body call.request.remoteAddr = .error e := by
            rw [← hoptions]
            exact hparse
          obtain ⟨e', after, hkeeps, hin, hsame⟩ := parseWebhookBodyIn_error (m := m) hparse
          refine ⟨e', options, after, hkeeps, ?_, hsame, by rw [hlimited]⟩
          rw [hin]
        · have hparse : parseWebhookBody jsonParseString call.storeMedia options.maxMediaBytes
              call.request.body call.request.remoteAddr = .ok (parsed, found, timestamp) := by
            rw [← hoptions]
            exact hparse
          obtain ⟨hgranted, hrefused⟩ := parseWebhookBodyIn_ok (m := m) hparse
          have hreplay : webhookCheckReplay ((channel.limited call).view m.heap) call.replayClock found
              timestamp = .error e := by
            rcases Res.bind_eq_error.mp h with hreplay | ⟨_, _, hdone⟩
            · exact hreplay
            · cases hdone
          by_cases hfirst : m.grants.First bodyRequests
          · obtain ⟨heap, hkeeps, -, hin⟩ := hgranted hfirst
            refine ⟨e, options, Memory.freeAll ⟨heap, m.grants.after bodyRequests⟩
              (List.range' m.heap.next 11), hkeeps.freeRange 11, ?_,
              fun _ => rfl, by rw [hlimited]⟩
            rw [hin]
            dsimp only
            rw [hlimited, webhookAccept, howned.limited.checkReplay_eq hkeeps, hreplay]
          · obtain ⟨after, hkeeps, hin⟩ := hrefused hfirst
            exact ⟨_, options, after, hkeeps, by rw [hin]; rfl, fun hgrants => absurd hgrants hfirst,
              by rw [hlimited]⟩

end Checks

/-! ## Keeping a message -/

/-- What keeping a message asks for before it comes to the nonce. -/
def keepRequests : Nat := 11 + 1

theorem messageRequests_iff {m : Memory Bytes} : m.grants.First messageRequests ↔
    m.grants.First bodyRequests ∧ (m.grants.after bodyRequests).First keepRequests :=
  m.grants.first_add bodyRequests keepRequests

/-- The nonce is refused when its two requests are. -/
theorem nonceRequests_iff {m : Memory Bytes} (h : m.grants.First messageRequests) : m.grants.First (messageRequests + 2) ↔
    ((m.grants.after bodyRequests).after keepRequests).First 2 := by
  rw [m.grants.first_add messageRequests 2, and_iff_right h, Grants.after_after]
  rfl

/-- A stored message whose strings are all there stands for the message. -/
theorem message_storedAs {heap : Heap Bytes} {message : ChannelInbound} {first : Nat}
    (h : heap.Holds (List.range' first 11) (inboundTexts message)) :
    (storedAs message (List.range' first 11)).message heap = message := by
  have hcells : [first, first + 1, first + 2, first + 3, first + 4, first + 5, first + 6, first + 7,
      first + 8, first + 9, first + 10].map heap.cells = (inboundTexts message).map some := h
  simp only [inboundTexts, List.map_cons, List.map_nil, List.cons.injEq, and_true] at hcells
  obtain ⟨h0, h1, h2, h3, h4, h5, h6, h7, h8, h9, h10⟩ := hcells
  have hread : ∀ {a : Nat} {text : Bytes}, heap.cells a = some text → textAt heap a = text := by
    intro a text ha
    rw [textAt, ha, Option.getD_some]
  cases message
  simp only [StoredInbound.message, storedAs, List.range'_succ, List.getD_cons_zero, List.getD_cons_succ,
    hread h0, hread h1, hread h2, hread h3, hread h4, hread h5, hread h6, hread h7, hread h8, hread h9,
    hread h10]

section Keep

variable {m : Memory Bytes} (channel : StoredChannel) (message : ChannelInbound) (nonce : Bytes)

theorem webhookKeep_refused (h : ¬ m.grants.First keepRequests) :
    ∃ after, m.heap.Keeps after.heap ∧
      webhookKeep m channel message nonce = (Status.noMemory, channel, after) := by
  rw [keepRequests, m.grants.first_add 11 1] at h
  unfold webhookKeep storedInboundFromPublic
  by_cases hcopies : m.grants.First 11
  · obtain ⟨heap, hcopy, hkeeps, -, -⟩ := Memory.copyAll_granted (inboundTexts message) m hcopies
    have hpush : (m.grants.after 11) 0 = false := by
      rw [← Bool.not_eq_true, ← Grants.first_one]
      exact fun hpush => h ⟨hcopies, hpush⟩
    refine ⟨Memory.freeAll ⟨heap, (m.grants.after 11).after 1⟩ (List.range' m.heap.next 11),
      hkeeps.freeRange 11, ?_⟩
    rw [hcopy]
    dsimp only [Memory.request]
    have hpush : (m.grants.after (inboundTexts message).length) 0 = false := hpush
    rw [hpush]
    rfl
  · obtain ⟨after, hcopy, hkeeps⟩ := Memory.copyAll_refused (inboundTexts message) m hcopies
    exact ⟨after, hkeeps, by rw [hcopy]⟩

theorem webhookKeep_granted (h : m.grants.First keepRequests) :
    ∃ heap, m.heap.Keeps heap ∧ heap.Holds (List.range' m.heap.next 11) (inboundTexts message) ∧
      heap.next = m.heap.next + 11 ∧
      webhookKeep m channel message nonce =
        let inbox := channel.inbox ++ [storedAs message (List.range' m.heap.next 11)]
        match webhookRememberNonceIn ⟨heap, m.grants.after keepRequests⟩ channel.seenNonces nonce with
        | (true, seen, m) => (.ok (), { channel with seenNonces := seen, inbox := inbox }, m)
        | (false, seen, after) => (Status.noMemory, { channel with seenNonces := seen, inbox := inbox },
            after.freeAll (List.range' m.heap.next 11)) := by
  rw [keepRequests, m.grants.first_add 11 1] at h
  obtain ⟨hcopies, hpush⟩ := h
  obtain ⟨heap, hcopy, hkeeps, hholds, hnext⟩ := Memory.copyAll_granted (inboundTexts message) m hcopies
  refine ⟨heap, hkeeps, hholds, hnext, ?_⟩
  have hpush : (m.grants.after (inboundTexts message).length) 0 = true := (Grants.first_one _).mp hpush
  unfold webhookKeep storedInboundFromPublic
  rw [hcopy]
  dsimp only
  rw [Memory.request]
  dsimp only
  rw [hpush, Grants.after_after]
  rfl

theorem webhookRememberNonceIn_granted {nonce : Bytes} (hne : nonce ≠ []) (seen : List Nat) (h : m.grants.First 2) :
    ∃ grants, webhookRememberNonceIn m seen nonce =
      (true, (forgetNonces seen m.heap).1 ++ [(forgetNonces seen m.heap).2.next],
        ⟨(forgetNonces seen m.heap).2.alloc nonce, grants⟩) := by
  have hcopy : m.grants 0 = true := h 0 (by decide)
  have hpush : (m.grants.after 1) 0 = true := h 1 (by decide)
  rw [webhookRememberNonceIn, if_neg hne]
  dsimp only [Memory.copy]
  rw [if_pos hcopy]
  dsimp only [Memory.request]
  rw [hpush]
  exact ⟨_, rfl⟩

theorem webhookRememberNonceIn_refused {nonce : Bytes} (hne : nonce ≠ []) (seen : List Nat) (h : ¬ m.grants.First 2) :
    ∃ kept after, webhookRememberNonceIn m seen nonce = (false, kept, after) := by
  rw [webhookRememberNonceIn, if_neg hne]
  dsimp only [Memory.copy]
  cases hcopy : m.grants 0 with
  | false => exact ⟨_, _, rfl⟩
  | true =>
    have hpush : (m.grants.after 1) 0 = false := by
      rw [← Bool.not_eq_true, ← Grants.first_one]
      exact fun hpush => h ((m.grants.first_add 1 1).mpr ⟨m.grants.first_one.mpr hcopy, hpush⟩)
    rw [if_pos rfl]
    dsimp only [Memory.request]
    rw [hpush]
    exact ⟨_, _, rfl⟩

end Keep

/-! ## Layers -/

theorem forgetNonces_spec : ∀ (seen : List Nat) (heap : Heap Bytes), ∃ forgotten,
    seen = forgotten ++ (forgetNonces seen heap).1 ∧ (forgetNonces seen heap).2 = heap.freeAll forgotten ∧
      (forgetNonces seen heap).1 = trimFront (maxSeenNonces - 1) seen := by
  intro seen
  induction seen with
  | nil => intro heap; exact ⟨[], rfl, rfl, rfl⟩
  | cons oldest rest ih =>
    intro heap
    rw [forgetNonces, trimFront]
    by_cases hfull : maxSeenNonces ≤ (oldest :: rest).length
    · obtain ⟨forgotten, hseen, hheap, htrim⟩ := ih (heap.free oldest)
      rw [if_pos hfull, if_pos (show maxSeenNonces - 1 < _ from hfull)]
      exact ⟨oldest :: forgotten, by rw [List.cons_append, ← hseen], hheap, htrim⟩
    · rw [if_neg hfull, if_neg (show ¬ maxSeenNonces - 1 < _ from hfull)]
      exact ⟨[], rfl, rfl, rfl⟩

/-- **What remembering a nonce does**, granted its memory: the list is that of `webhookRememberNonce`, and
    only strings of the list are touched. -/
structure Remembers (heap after : Heap Bytes) (seen seen' : List Nat) (nonce : Bytes) : Prop where
  others : ∀ a < heap.next, a ∉ seen → after.cells a = heap.cells a
  nonces : seen'.map (textAt after) = webhookRememberNonce (seen.map (textAt heap)) nonce
  live : ∀ a ∈ seen', after.cells a ≠ none
  nodup : seen'.Nodup
  mem : ∀ a ∈ seen', a ∈ seen ∨ a = heap.next

theorem webhookRememberNonceIn_remembers {m : Memory Bytes} {seen : List Nat} {nonce : Bytes}
    (hlive : ∀ a ∈ seen, m.heap.cells a ≠ none) (hnodup : seen.Nodup) (h : m.grants.First 2) :
    ∃ seen' after grants, webhookRememberNonceIn m seen nonce = (true, seen', ⟨after, grants⟩) ∧
      Remembers m.heap after seen seen' nonce := by
  by_cases hne : nonce = []
  · refine ⟨seen, m.heap, m.grants, if_pos hne, fun _ _ _ => rfl, ?_, hlive, hnodup, fun _ => Or.inl⟩
    rw [webhookRememberNonce, if_pos hne]
  · obtain ⟨grants, hremember⟩ := webhookRememberNonceIn_granted hne seen h
    obtain ⟨forgotten, hseen, hheap, htrim⟩ := forgetNonces_spec seen m.heap
    rw [hheap] at hremember
    generalize (forgetNonces seen m.heap).1 = kept at hremember hseen htrim
    refine ⟨_, _, grants, hremember, ?_⟩
    rw [Heap.next_freeAll]
    -- the cells of the new heap
    have hnew : ((m.heap.freeAll forgotten).alloc nonce).cells m.heap.next = some nonce :=
      if_pos (Heap.next_freeAll _ _).symm
    have hold : ∀ a < m.heap.next, a ∉ forgotten →
        ((m.heap.freeAll forgotten).alloc nonce).cells a = m.heap.cells a := by
      intro a ha hout
      show (if a = (m.heap.freeAll forgotten).next then _ else _) = _
      rw [Heap.next_freeAll, if_neg (Nat.ne_of_lt ha), Heap.cells_freeAll_of_not_mem hout]
    have hkept : ∀ a ∈ kept, a ∈ seen ∧ a ∉ forgotten := by
      intro a ha
      rw [hseen] at hnodup ⊢
      exact ⟨List.mem_append_right _ ha, fun hin => (List.nodup_append.mp hnodup).2.2 a hin a ha rfl⟩
    have hcells : ∀ a ∈ kept, ((m.heap.freeAll forgotten).alloc nonce).cells a = m.heap.cells a :=
      fun a ha => hold a (Heap.lt_next (hlive a (hkept a ha).1)) (hkept a ha).2
    constructor
    · intro a ha hout
      exact hold a ha fun hin => hout (hseen ▸ List.mem_append_left _ hin)
    · rw [webhookRememberNonce, if_neg hne, push, List.map_append, List.map_singleton, textAt, hnew,
        Option.getD_some, trimFront_eq_drop, List.length_map, ← List.map_drop, ← trimFront_eq_drop, ← htrim]
      refine congrArg (· ++ [nonce]) (List.map_congr_left fun a ha => ?_)
      rw [textAt, textAt, hcells a ha]
    · intro a ha
      rcases List.mem_append.mp ha with ha | ha
      · rw [hcells a ha]
        exact hlive a (hkept a ha).1
      · rw [List.mem_singleton.mp ha, hnew]
        exact Option.some_ne_none _
    · refine List.nodup_append.mpr ⟨?_, List.nodup_singleton _, ?_⟩
      · exact (hseen ▸ hnodup).of_append_right
      · intro a ha b hb
        have hlt := Heap.lt_next (hlive a (hkept a ha).1)
        rw [List.mem_singleton.mp hb]
        exact Nat.ne_of_lt hlt
    · intro a ha
      exact (List.mem_append.mp ha).imp (fun ha => (hkept a ha).1) List.mem_singleton.mp

section Layers

variable {jsonParseString : Bytes → Option ParsonObject} {m : Memory Bytes} {channel : StoredChannel}
  {call : Ingest}

/-- **A message that is kept**: the channel behind it, when the local copies are freed. -/
theorem keep_view {heap heap' after : Heap Bytes} {message : ChannelInbound} {nonce : Bytes}
    {seen' : List Nat} (howned : channel.Owned m.heap) (hkeeps : m.heap.Keeps heap)
    (hnext : heap.next = m.heap.next + 11) (hkeeps' : heap.Keeps heap')
    (hholds : heap'.Holds (List.range' heap.next 11) (inboundTexts message))
    (hnext' : heap'.next = heap.next + 11) (hremembers : Remembers heap' after channel.seenNonces seen' nonce) :
    let kept : StoredChannel := { channel with
      seenNonces := seen', inbox := channel.inbox ++ [storedAs message (List.range' heap.next 11)] }
    let freed := after.freeAll (List.range' m.heap.next 11)
    kept.view freed = { channel.view m.heap with
        inbox := (channel.view m.heap).inbox ++ [message]
        seenNonces := webhookRememberNonce (channel.view m.heap).seenNonces nonce } ∧
      kept.Owned freed := by
  intro kept freed
  obtain ⟨hnodupInbox, hnodupSeen, hdisjoint⟩ := List.nodup_append.mp howned.nodup
  have hlt : ∀ a ∈ channel.addresses, a < m.heap.next := fun a ha => Heap.lt_next (howned.live a ha)
  -- outside the local copies nothing is freed
  have hfreed : ∀ a, (a < m.heap.next ∨ heap.next ≤ a) → freed.cells a = after.cells a := by
    intro a ha
    refine Heap.cells_freeAll_of_not_mem fun hin => ?_
    have hrange := List.mem_range'_1.mp hin
    omega
  have hinbox : ∀ a ∈ channel.inbox.flatMap StoredInbound.texts, freed.cells a = m.heap.cells a := by
    intro a ha
    have hmem : a ∈ channel.addresses := List.mem_append_left _ ha
    have hbelow := hlt a hmem
    have hle := hkeeps'.1
    have hout : a ∉ channel.seenNonces := fun hin => hdisjoint a ha a hin rfl
    rw [hfreed a (Or.inl hbelow), hremembers.others a (by omega) hout,
      (hkeeps.trans hkeeps').read (howned.live a hmem)]
  have hstored : ∀ a ∈ List.range' heap.next 11, freed.cells a = heap'.cells a := by
    intro a ha
    have hrange := List.mem_range'_1.mp ha
    rw [hfreed a (Or.inr hrange.1), hremembers.others a (by omega)]
    intro hin
    have hbelow := hlt a (List.mem_append_right _ hin)
    omega
  have hseen : ∀ a ∈ seen', freed.cells a = after.cells a := by
    intro a ha
    refine hfreed a ((hremembers.mem a ha).imp (fun hin => hlt a (List.mem_append_right _ hin)) fun heq => ?_)
    omega
  constructor
  · have hmessages : kept.inbox.map (StoredInbound.message freed) =
        channel.inbox.map (StoredInbound.message m.heap) ++ [message] := by
      rw [List.map_append, List.map_singleton]
      refine congrArg₂ (· ++ [·]) (List.map_congr_left fun stored hmem => ?_) ?_
      · exact StoredInbound.message_eq (howned.complete stored hmem) fun a ha =>
          hinbox a (List.mem_flatMap.mpr ⟨stored, hmem, ha⟩)
      · rw [StoredInbound.message_eq rfl hstored]
        exact message_storedAs hholds
    have hnonces : kept.seenNonces.map (textAt freed) =
        webhookRememberNonce (channel.seenNonces.map (textAt m.heap)) nonce := by
      rw [← howned.nonces_eq (hkeeps.trans hkeeps'), ← hremembers.nonces]
      refine List.map_congr_left fun a ha => ?_
      rw [textAt, textAt, hseen a ha]
    rw [StoredChannel.view, hmessages, hnonces]
    rfl
  · constructor
    · intro stored hmem
      rcases List.mem_append.mp hmem with hmem | hmem
      · exact howned.complete stored hmem
      · rw [List.mem_singleton.mp hmem]
        rfl
    · intro a ha
      rw [StoredChannel.addresses, List.flatMap_append] at ha
      rcases List.mem_append.mp ha with ha | ha
      · rcases List.mem_append.mp ha with ha | ha
        · rw [hinbox a ha]
          exact howned.live a (List.mem_append_left _ ha)
        · rw [List.flatMap_singleton] at ha
          rw [hstored a ha]
          intro hnone
          have hcell : heap'.cells a ∈ (inboundTexts message).map some := hholds ▸ List.mem_map_of_mem ha
          obtain ⟨text, -, htext⟩ := List.mem_map.mp hcell
          exact nomatch htext.trans hnone
      · rw [hseen a ha]
        exact hremembers.live a ha
    · rw [StoredChannel.addresses, List.flatMap_append, List.flatMap_singleton]
      refine List.nodup_append.mpr ⟨List.nodup_append.mpr ⟨hnodupInbox, List.nodup_range', ?_⟩,
        hremembers.nodup, ?_⟩
      · intro a ha b hb
        have hbelow := hlt a (List.mem_append_left _ ha)
        have hrange := List.mem_range'_1.mp hb
        omega
      · rintro a ha b hb rfl
        rcases List.mem_append.mp ha with ha | ha
        · rcases hremembers.mem a hb with hin | heq
          · exact hdisjoint a ha a hin rfl
          · have hbelow := hlt a (List.mem_append_left _ ha)
            omega
        · have hrange := List.mem_range'_1.mp ha
          rcases hremembers.mem a hb with hin | heq
          · have hbelow := hlt a (List.mem_append_right _ hin)
            omega
          · have hrange : a < heap.next + 11 := hrange.2
            omega

/-- **Granted all it asks for**, the function does what `webhookIngest` says. -/
theorem webhookIngestIn_granted (howned : channel.Owned m.heap)
    (hgrants : m.grants.First (messageRequests + 2)) :
    ∃ after memory, webhookIngestIn jsonParseString m channel call =
        ((webhookIngest jsonParseString (channel.view m.heap) call).2, after, memory) ∧
      after.view memory.heap = (webhookIngest jsonParseString (channel.view m.heap) call).1 ∧
      after.Owned memory.heap := by
  obtain ⟨hmessage, -⟩ := (m.grants.first_add messageRequests 2).mp hgrants
  obtain ⟨hbody, hkeep⟩ := messageRequests_iff.mp hmessage
  unfold webhookIngest
  cases hscreen : webhookScreen jsonParseString (channel.view m.heap) call with
  | mk limited result =>
    have hresult := congrArg Prod.snd hscreen
    have hlimited := congrArg Prod.fst hscreen
    dsimp only at hresult hlimited
    cases result with
    | error e =>
      obtain ⟨e', options, after, hkeeps, hin, herror, hview⟩ := webhookIngestIn_of_screen_error howned hresult
      have hkept : ({ channel with options := options } : StoredChannel).Owned m.heap :=
        ⟨howned.complete, howned.live, howned.nodup⟩
      refine ⟨_, after, by rw [hin, herror hbody], ?_, hkept.complete, fun a ha => ?_, hkept.nodup⟩
      · rw [hkept.view_eq hkeeps, hview, hlimited]
      · rw [hkeeps.read (hkept.live a ha)]
        exact hkept.live a ha
    | ok accepted =>
      obtain ⟨message, nonce⟩ := accepted
      obtain ⟨heap, hkeeps, hnext, hin⟩ := (webhookIngestIn_of_screen_ok howned hresult).1 hbody
      obtain ⟨heap', hkeeps', hholds, hnext', hpushed⟩ := webhookKeep_granted
        (m := ⟨heap, m.grants.after bodyRequests⟩) (channel.limited call) message nonce hkeep
      have howned' : (channel.limited call).Owned m.heap := howned.limited
      have hlive : ∀ a ∈ (channel.limited call).seenNonces, heap'.cells a ≠ none := by
        intro a ha
        have hmem := List.mem_append_right (channel.inbox.flatMap StoredInbound.texts) ha
        rw [(hkeeps.trans hkeeps').read (howned.live a hmem)]
        exact howned.live a hmem
      obtain ⟨seen', after, grants, hremember, hremembers⟩ := webhookRememberNonceIn_remembers
        (m := ⟨heap', (m.grants.after bodyRequests).after keepRequests⟩) hlive
        howned'.nodup.of_append_right ((nonceRequests_iff hmessage).mp hgrants)
      obtain ⟨hview, hkept⟩ := keep_view howned' hkeeps hnext hkeeps' hholds hnext' hremembers
      rw [hpushed, hremember] at hin
      refine ⟨_, _, hin, ?_, hkept⟩
      have hfst : (channel.limited call).view m.heap = limited := by
        rw [← hlimited]
        exact (webhookScreen_fst _ m (webhookCheckRequest_of_screen_ok hresult)).symm
      rw [← hfst]
      exact hview

end Layers

/-! ## Result -/

section Result

variable {jsonParseString : Bytes → Option ParsonObject} {m : Memory Bytes} {channel : StoredChannel}
  {call : Ingest}

/-- **The clean-up takes the message that was pushed**: one message more is in the inbox, and its strings
    are gone. -/
theorem webhookIngestIn_of_refused (howned : channel.Owned m.heap)
    (h : NonceRefused jsonParseString m channel call) :
    ∃ seen stored memory, webhookIngestIn jsonParseString m channel call =
        (Status.noMemory, { channel.limited call with seenNonces := seen, inbox := channel.inbox ++ [stored] },
          memory) ∧ stored.texts.length = 11 ∧ ∀ a ∈ stored.texts, memory.heap.cells a = none := by
  obtain ⟨message, nonce, hscreen, hne, hfirst, hrefused⟩ := h
  obtain ⟨hbody, hkeep⟩ := messageRequests_iff.mp hfirst
  rw [nonceRequests_iff hfirst] at hrefused
  obtain ⟨heap, -, -, hin⟩ := (webhookIngestIn_of_screen_ok howned hscreen).1 hbody
  obtain ⟨heap', -, -, -, hpushed⟩ := webhookKeep_granted
    (m := ⟨heap, m.grants.after bodyRequests⟩) (channel.limited call) message nonce hkeep
  obtain ⟨kept, rest, hremember⟩ := webhookRememberNonceIn_refused
    (m := ⟨heap', (m.grants.after bodyRequests).after keepRequests⟩) hne
    (channel.limited call).seenNonces hrefused
  rw [hin, hpushed, hremember]
  refine ⟨kept, _, _, rfl, rfl, fun a ha => ?_⟩
  show ((rest.heap.freeAll (List.range' heap.next 11)).freeAll (List.range' m.heap.next 11)).cells a = none
  rw [Heap.cells_freeAll, Heap.cells_freeAll, if_pos (show a ∈ List.range' heap.next 11 from ha), ite_self]

/-- Everywhere else a rejected request keeps what is in use. -/
theorem webhookIngestIn_keeps {e : ScError} {after : StoredChannel} {memory : Memory Bytes}
    (howned : channel.Owned m.heap) (hnot : ¬ NonceRefused jsonParseString m channel call)
    (h : webhookIngestIn jsonParseString m channel call = (.error e, after, memory)) :
    m.heap.Keeps memory.heap ∧ ∃ options, after = { channel with options := options } := by
  cases hscreen : (webhookScreen jsonParseString (channel.view m.heap) call).2 with
  | error e' =>
    obtain ⟨_, options, rest, hkeeps, hin, -, -⟩ := webhookIngestIn_of_screen_error howned hscreen
    obtain ⟨-, hrest⟩ := Prod.mk.inj (hin.symm.trans h)
    obtain ⟨rfl, rfl⟩ := Prod.mk.inj hrest
    exact ⟨hkeeps, options, rfl⟩
  | ok accepted =>
    obtain ⟨message, nonce⟩ := accepted
    obtain ⟨hgranted, hrefused⟩ := webhookIngestIn_of_screen_ok howned hscreen
    by_cases hbody : m.grants.First bodyRequests
    · obtain ⟨heap, hkeeps, -, hin⟩ := hgranted hbody
      rw [hin] at h
      by_cases hkeep : (m.grants.after bodyRequests).First keepRequests
      · -- the message got its memory, so the nonce did not
        obtain ⟨heap', -, -, -, hpushed⟩ := webhookKeep_granted
          (m := ⟨heap, m.grants.after bodyRequests⟩) (channel.limited call) message nonce hkeep
        rw [hpushed] at h
        have hmessage := messageRequests_iff.mpr ⟨hbody, hkeep⟩
        by_cases hne : nonce = []
        · rw [webhookRememberNonceIn, if_pos hne] at h
          exact nomatch congrArg Prod.fst h
        · by_cases hnonce : ((m.grants.after bodyRequests).after keepRequests).First 2
          · obtain ⟨grants, hremember⟩ := webhookRememberNonceIn_granted
              (m := ⟨heap', (m.grants.after bodyRequests).after keepRequests⟩) hne
              (channel.limited call).seenNonces hnonce
            rw [hremember] at h
            exact nomatch congrArg Prod.fst h
          · refine absurd ⟨message, nonce, hscreen, hne, hmessage, fun hfirst => hnonce ?_⟩ hnot
            exact (nonceRequests_iff hmessage).mp hfirst
      · obtain ⟨rest, hkeeps', hrefused⟩ := webhookKeep_refused
          (m := ⟨heap, m.grants.after bodyRequests⟩) (channel.limited call) message nonce hkeep
        rw [hrefused] at h
        obtain ⟨-, hrest⟩ := Prod.mk.inj h
        obtain ⟨rfl, rfl⟩ := Prod.mk.inj hrest
        exact ⟨(hkeeps.trans hkeeps').freeRange 11, _, rfl⟩
    · obtain ⟨rest, hkeeps, hin⟩ := hrefused hbody
      obtain ⟨-, hrest⟩ := Prod.mk.inj (hin.symm.trans h)
      obtain ⟨rfl, rfl⟩ := Prod.mk.inj hrest
      exact ⟨hkeeps, _, rfl⟩

/-- **A rejected request leaves the inbox and the nonces as they were** exactly if it does not fail to
    remember its nonce. -/
theorem rejected_iff {e : ScError} {after : StoredChannel} {memory : Memory Bytes}
    (howned : channel.Owned m.heap)
    (h : webhookIngestIn jsonParseString m channel call = (.error e, after, memory)) :
    after.contents memory.heap = channel.contents m.heap ↔ ¬ NonceRefused jsonParseString m channel call := by
  constructor
  · intro hcontents hrefused
    obtain ⟨seen, stored, rest, hin, -, -⟩ := webhookIngestIn_of_refused howned hrefused
    obtain ⟨-, hrest⟩ := Prod.mk.inj (hin.symm.trans h)
    obtain ⟨rfl, rfl⟩ := Prod.mk.inj hrest
    -- there is a message more
    have hlength := congrArg (fun contents => contents.1.length) hcontents
    simp only [StoredChannel.contents, List.length_map, List.length_append, List.length_singleton] at hlength
    omega
  · intro hnot
    obtain ⟨hkeeps, options, rfl⟩ := webhookIngestIn_keeps howned hnot h
    exact howned.contents_eq hkeeps

end Result

/-- A heap with the strings of a message and a nonce. -/
def filledHeap : Heap Bytes where
  cells a := (inboundTexts sampleInbound ++ [sampleNonce 1])[a]?
  next := 12
  unused _ ha := List.getElem?_eq_none ha

/-- A channel with the default limits, with this message in its inbox and this nonce. -/
def filledStored : StoredChannel where
  options := sampleChannel [] []
  seenNonces := [11]
  inbox := [storedAs sampleInbound (List.range 11)]

theorem filledStored_owned : filledStored.Owned filledHeap where
  complete := by decide
  live := by decide
  nodup := by decide

theorem filledStored_view : filledStored.view filledHeap = sampleChannel [sampleNonce 1] [sampleInbound] := rfl

/-- The sample request, granted all it asks for. -/
theorem webhookIngestIn_sample :
    ∃ after memory, webhookIngestIn sampleParse ⟨filledHeap, fun _ => true⟩ filledStored (sampleCall 0) =
        ((webhookIngest sampleParse (filledStored.view filledHeap) (sampleCall 0)).2, after, memory) ∧
      after.view memory.heap = (webhookIngest sampleParse (filledStored.view filledHeap) (sampleCall 0)).1 ∧
      after.Owned memory.heap :=
  webhookIngestIn_granted (m := ⟨filledHeap, fun _ => true⟩) filledStored_owned fun _ _ => rfl

/-- Without any memory nothing happens. -/
theorem rejected_without_memory :
    ∃ after memory, webhookIngestIn sampleParse ⟨filledHeap, fun _ => false⟩ filledStored (sampleCall 0) =
        (Status.noMemory, after, memory) ∧
      (after.contents memory.heap = filledStored.contents filledHeap ↔
        ¬ NonceRefused sampleParse ⟨filledHeap, fun _ => false⟩ filledStored (sampleCall 0)) :=
  have h : webhookIngestIn sampleParse ⟨filledHeap, fun _ => false⟩ filledStored (sampleCall 0) =
      (Status.noMemory, filledStored, ⟨filledHeap, fun _ => false⟩) := by rfl
  ⟨_, _, h, rejected_iff filledStored_owned h⟩

/-- The sample request passes the checks of this channel. -/
theorem filledStored_screen : ∃ message,
    (webhookScreen sampleParse (filledStored.view filledHeap) (sampleCall 0)).2 = .ok (message, sampleNonce 0) := by
  have hfresh : sampleNonce 0 ∉ [sampleNonce 1] := by decide
  have hingest := sampleIngest [sampleInbound] (Nat.zero_le 60000) hfresh
  unfold webhookIngest at hingest
  cases hscreen : webhookScreen sampleParse (sampleChannel [sampleNonce 1] [sampleInbound]) (sampleCall 0) with
  | mk limited result =>
    rw [hscreen] at hingest
    cases result with
    | error e => exact nomatch congrArg Prod.snd hingest
    | ok accepted =>
      obtain ⟨message, nonce⟩ := accepted
      obtain ⟨object, hobject, rfl, -, -⟩ := webhookScreen_ok sampleParse hscreen
      obtain rfl := Option.some.inj ((sampleParse_body 0).symm.trans hobject)
      refine ⟨message, ?_⟩
      rw [filledStored_view, hscreen]
      rfl

/-- **A rejected request leaves a message without strings**: memory for the message, none for the nonce. -/
theorem rejected_message_left :
    ¬ ∀ (m : Memory Bytes) (channel : StoredChannel) (call : Ingest) (e : ScError) (after : StoredChannel)
      (memory : Memory Bytes), channel.Owned m.heap →
      webhookIngestIn sampleParse m channel call = (.error e, after, memory) →
      after.contents memory.heap = channel.contents m.heap := by
  intro hall
  obtain ⟨message, hscreen⟩ := filledStored_screen
  have hrefused : NonceRefused sampleParse ⟨filledHeap, fun k => decide (k < messageRequests)⟩ filledStored
      (sampleCall 0) := by
    refine ⟨message, _, hscreen, List.cons_ne_nil _ _, fun k hk => decide_eq_true hk, fun hfirst => ?_⟩
    exact absurd (hfirst messageRequests (by omega)) (by decide)
  obtain ⟨seen, stored, memory, hin, -, -⟩ := webhookIngestIn_of_refused filledStored_owned hrefused
  have hcontents := hall _ _ _ _ _ _ filledStored_owned hin
  exact absurd (congrArg (fun contents => contents.1.length) hcontents) (Nat.succ_ne_self 1)

end SmolClaw.Channels
