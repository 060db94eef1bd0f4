/-
  The Telegram channel (`src/channels/telegram.c`): what it makes of an update, and how it polls.

  1. **Updates** — `telegram_extract_update` takes a message out of one of five places of an update, or
     refuses; `telegram_update_visible` hides what does not mention the bot, if the channel is set so.

  2. **Polling** — `telegram_listen` asks the server for the updates from an offset on, hands on the first
     visible one, and moves the offset behind it.  `parseUpdates` is the loop over the updates.

  What the environment does is a `TelegramPoll`: what the server answers to an offset, the clock, and what
  comes of the download of a file.  The JSON library's parser is a part of the answer.
-/
import SmolClaw.Channels.Inbound
import SmolClaw.Channels.Webhook
import SmolClaw.Core.WholeNumber
import SmolClaw.Json.Parse

namespace SmolClaw.Channels

/-! ## Reading JSON -/

/-- `json_object_get_object` -/
def getObject (object : Json) (name : String) : Option Json :=
  match object.objectGet (str name) with
  | some (.object members) => some (.object members)
  | _ => none

/-- `json_object_get_array` -/
def getArray (object : Json) (name : String) : Option (List Json) :=
  match object.objectGet (str name) with
  | some (.array items) => some items
  | _ => none

/-- `json_object_get_string`, a C string -/
def getString (object : Json) (name : String) : Option Bytes :=
  (Json.asStr (object.objectGet (str name))).map cString

/-- `json_object_get_number` -/
def getNumber (object : Json) (name : String) : Double :=
  (Json.asNumber (object.objectGet (str name))).getD zeroDouble

/-- `(double)INT64_MIN` and `(double)INT64_MAX` -/
def int64Min : Double := Double.ofMagnitude true (Double.nearest (2 ^ 63) 1)
def int64Max : Double := Double.ofMagnitude false (Double.nearest (2 ^ 63) 1)

/-- `json_i64` -/
def jsonI64 (object : Json) (name : String) : Option Int :=
  match Json.asNumber (object.objectGet (str name)) with
  | none => none
  | some number => if number.lt int64Min ∨ int64Max.lt number then none else some number.toInt64

/-! ## Updates -/

/-- `telegram_update`; what a `has_` flag guards is an option. -/
structure TelegramUpdate where
  updateId : Int
  messageId : Int
  chatId : Int
  senderId : Int
  threadId : Option Int
  replyToMessageId : Option Int
  text : Bytes
  chatType : Option Bytes
  username : Option Bytes
  replyToText : Option Bytes
  mediaType : Option Bytes
  fileId : Option Bytes
  fileName : Option Bytes
  fileSize : Nat
  timestampUnixSecs : Option Int
  media : Bool
  post : Bool
  callback : Bool

/-- The type, the file and its name, and the size of an attachment. -/
structure TelegramMedia where
  mediaType : Option Bytes := none
  fileId : Option Bytes := none
  fileName : Option Bytes := none
  fileSize : Double := zeroDouble

/-- A document, a video, a voice message or an audio file; the last two have no name of their own in the
    application, but one that is there is read. -/
def fileMedia (object : Json) (fallback : String) : TelegramMedia where
  mediaType := ((getString object "mime_type").filter (· ≠ [])).or (some (str fallback))
  fileId := getString object "file_id"
  fileName := getString object "file_name"
  fileSize := getNumber object "file_size"

/-- The attachment of a message: the last photo, else a document, a video, a voice message or an audio
    file. -/
def messageMedia (message : Json) : TelegramMedia :=
  let photos := (getArray message "photo").getD []
  match photos.getLast? with
  | some (.object members) => {
      mediaType := some (str "image")
      fileId := getString (.object members) "file_id"
      fileSize := getNumber (.object members) "file_size" }
  | some _ => { mediaType := some (str "image") }
  | none =>
      match getObject message "document", getObject message "video", getObject message "voice",
        getObject message "audio" with
      | some document, _, _, _ => fileMedia document "application/octet-stream"
      | none, some video, _, _ => fileMedia video "video/mp4"
      | none, none, some voice, _ => fileMedia voice "audio/ogg"
      | none, none, none, some audio => fileMedia audio "audio/mpeg"
      | none, none, none, none => {}

/-- The message of an update, and whether it is a post: that of the callback or the message itself, else an
    edited one, else a post. -/
def updateMessage (update : Json) : Option (Json × Bool) :=
  let direct := match getObject update "callback_query" with
    | some query => getObject query "message"
    | none => getObject update "message"
  match direct.or (getObject update "edited_message") with
  | some message => some (message, false)
  | none => ((getObject update "channel_post").or (getObject update "edited_channel_post")).map (·, true)

/-- `telegram_extract_update` -/
def telegramExtractUpdate (update : Json) : Option TelegramUpdate := do
  let updateId ← jsonI64 update "update_id"
  let callbackQuery := getObject update "callback_query"
  let (message, post) ← updateMessage update
  let text := match callbackQuery with
    | some query => getString query "data"
    | none => (getString message "text").or (getString message "caption")
  let chat ← getObject message "chat"
  let sender := ((callbackQuery.bind (getObject · "from")).or (getObject message "from")).or
    (getObject message "sender_chat")
  let media := (getArray message "photo").isSome || (getObject message "document").isSome ||
    (getObject message "video").isSome || (getObject message "voice").isSome ||
    (getObject message "audio").isSome
  let attachment := messageMedia message
  let text ← text.or (if media then some (str "[media]") else none)
  let messageId ← jsonI64 message "message_id"
  let chatId ← jsonI64 chat "id"
  let senderId := (sender.bind (jsonI64 · "id")).getD chatId
  if senderId = 0 then none
  else
    let reply := getObject message "reply_to_message"
    return {
      updateId := updateId
      messageId := messageId
      chatId := chatId
      senderId := senderId
      threadId := jsonI64 message "message_thread_id"
      replyToMessageId := reply.bind (jsonI64 · "message_id")
      text := text
      chatType := getString chat "type"
      username := sender.bind (getString · "username")
      replyToText := reply.bind fun reply => (getString reply "text").or (getString reply "caption")
      mediaType := attachment.mediaType
      fileId := attachment.fileId
      fileName := attachment.fileName
      fileSize := if zeroDouble.lt attachment.fileSize then toSize attachment.fileSize else 0
      timestampUnixSecs := jsonI64 message "date"
      media := media
      post := post
      callback := callbackQuery.isSome }

/-! ## The channel -/

/-- `telegram_channel`, as far as polling and approvals go. -/
structure TelegramChannel where
  botUsername : Bytes := []
  mentionOnly : Bool := false
  rateLimitPerMinute : Nat := 0
  rateWindowStart : Int := 0
  rateWindowCount : Nat := 0
  nextUpdateOffset : Int := 0
  nextApprovalId : UInt64 := 0

/-- `str_contains_cstr` -/
def strContainsCstr (text needle : Bytes) : Bool := decide (needle <:+: text)

/-- `telegram_text_mentions_bot` -/
def telegramTextMentionsBot (telegram : TelegramChannel) (text : Option Bytes) : Bool :=
  if telegram.botUsername = [] then false
  else strContainsCstr (text.getD []) (cString (chr '@' :: telegram.botUsername))

/-- `telegram_update_visible` -/
def telegramUpdateVisible (telegram : TelegramChannel) (update : TelegramUpdate) : Bool :=
  if !telegram.mentionOnly then true
  else if update.callback then true
  else if telegram.botUsername = [] then true
  else if update.chatType = some (str "private") then true
  else telegramTextMentionsBot telegram (some update.text) ||
    telegramTextMentionsBot telegram update.replyToText

/-- `telegram_check_rate_limit`: the channel after it, and the status. -/
def telegramCheckRateLimit (telegram : TelegramChannel) (now : Int) : TelegramChannel × Res Unit :=
  if telegram.rateLimitPerMinute = 0 then (telegram, .ok ())
  else
    let telegram :=
      if telegram.rateWindowStart = 0 ∨ 60 ≤ now - telegram.rateWindowStart then
        { telegram with rateWindowStart := now, rateWindowCount := 0 }
      else telegram
    if telegram.rateLimitPerMinute ≤ telegram.rateWindowCount then
      (telegram, Status.securityDenied "sc.channel_telegram.rate_limited")
    else ({ telegram with rateWindowCount := telegram.rateWindowCount + 1 }, .ok ())

/-- `telegram_declared_content_type` -/
def telegramDeclaredContentType (update : TelegramUpdate) : Bytes :=
  match update.mediaType with
  | none => str "application/octet-stream"
  | some mediaType =>
      if mediaType = [] then str "application/octet-stream"
      else if mediaType = str "image" then str "image/png"
      else if mediaType = str "document" then str "application/octet-stream"
      else if mediaType = str "video" then str "video/mp4"
      else if mediaType = str "audio" then str "audio/mpeg"
      else mediaType

/-- `telegram_build_reply_context_text` -/
def telegramBuildReplyContextText (update : TelegramUpdate) (replyToText : Bytes) : Bytes :=
  str "Replied message context:\n" ++ replyToText ++ str "\n\nUser message:\n" ++ update.text

/-- The name of a sender: the user name, else the identifier. -/
def TelegramUpdate.sender (update : TelegramUpdate) : Bytes :=
  ((update.username.filter (· ≠ []))).getD (decimalInt update.senderId)

/-- `telegram_download_media`: the type, the path and the size of the file. -/
abbrev DownloadMedia := TelegramUpdate → Res (Bytes × Bytes × Nat)

/-- `telegram_update_to_inbound` -/
def telegramUpdateToInbound (telegram : TelegramChannel) (update : TelegramUpdate)
    (download : DownloadMedia) : Res ChannelInbound := do
  let declared := if update.media then telegramDeclaredContentType update else []
  let text :=
    match update.replyToText with
    | some reply =>
        if telegram.mentionOnly ∧ reply ≠ [] then telegramBuildReplyContextText update reply
        else update.text
    | none => update.text
  let (contentType, storagePath, storedSize) ←
    if update.media ∧ update.fileId.getD [] ≠ [] then download update else .ok (declared, [], 0)
  return {
    messageId := decimalInt update.updateId
    channelName := str "telegram"
    platformAccountId := telegram.botUsername
    conversationId := decimalInt update.chatId
    threadId := (update.threadId.map decimalInt).getD []
    senderId := update.sender
    text := text
    replyToMessageId := (update.replyToMessageId.map decimalInt).getD []
    attachmentMediaType := contentType
    attachmentName := update.fileName.getD []
    attachmentStoragePath := storagePath
    attachmentSizeBytes := if storedSize = 0 then update.fileSize else storedSize
    attachmentTemporary := decide (storagePath ≠ [])
    timestampUnixSecs := update.timestampUnixSecs.getD 0
    timestampTrusted := update.timestampUnixSecs.isSome
    cancelPrevious := false
    disableMemory := telegram.mentionOnly }

/-- `telegram_status_consumes_update` -/
def telegramStatusConsumesUpdate (error : ScError) : Bool :=
  error.errorKey == "sc.channel_telegram.media_type_mismatch" ||
    error.errorKey == "sc.channel_telegram.media_too_large" ||
    error.errorKey == "sc.media.attachment.too_large"

/-! ## Polling -/

/-- What the environment does while `telegram_listen` runs: the parsed answer to a request from an offset
    on (the URL carries a positive one), the clock, and the downloads. -/
structure TelegramPoll where
  getUpdates : Int → Res (Option Json)
  now : Int
  download : DownloadMedia

/-- What a call hands on, with the update that it was made of. -/
abbrev Handed := TelegramUpdate × ChannelInbound

/-- What is done with the first update that is shown: the channel, what is handed on, and the next offset.
    The reaction that is sent for it leaves no trace here, whether it fails or not. -/
def handOn (telegram : TelegramChannel) (poll : TelegramPoll) (update : TelegramUpdate) (nextOffset : Int) :
    TelegramChannel × Res Handed × Int :=
  match telegramCheckRateLimit telegram poll.now with
  | (telegram, .error e) => (telegram, .error e, nextOffset)
  | (telegram, .ok ()) =>
      match telegramUpdateToInbound telegram update poll.download with
      | .ok inbound => (telegram, .ok (update, inbound), update.updateId + 1)
      | .error e =>
          (telegram, .error e, if telegramStatusConsumesUpdate e then update.updateId + 1 else nextOffset)

/-- The loop of `telegram_parse_first_update`. -/
def parseUpdates (telegram : TelegramChannel) (poll : TelegramPoll) :
    List Json → Int → Int → TelegramChannel × Res Handed × Int
  | [], latestSeen, nextOffset =>
      (telegram, Status.timeout "sc.channel_telegram.no_updates",
        if nextOffset < latestSeen then latestSeen + 1 else nextOffset)
  | json :: rest, latestSeen, nextOffset =>
      match jsonI64 json "update_id" with
      | none => parseUpdates telegram poll rest latestSeen nextOffset
      | some seen =>
          match telegramExtractUpdate json with
          | none => parseUpdates telegram poll rest seen nextOffset
          | some update =>
              if !telegramUpdateVisible telegram update then
                parseUpdates telegram poll rest seen (update.updateId + 1)
              else handOn telegram poll update nextOffset

/-- `telegram_parse_first_update` -/
def telegramParseFirstUpdate (telegram : TelegramChannel) (poll : TelegramPoll) (root : Option Json)
    (nextOffset : Int) : TelegramChannel × Res Handed × Int :=
  let invalid : TelegramChannel × Res Handed × Int :=
    (telegram, Status.parse "sc.channel_telegram.invalid_updates_json", nextOffset)
  match root with
  | none => invalid
  | some root =>
      match root.objectGet (str "ok"), getArray root "result" with
      | some (.bool true), some result => parseUpdates telegram poll result nextOffset nextOffset
      | _, _ => invalid

/-- The end of `telegram_listen`: which failures move the offset. -/
def finishListen : TelegramChannel × Res Handed × Int → TelegramChannel × Res Handed
  | (after, .ok handed, nextOffset) => ({ after with nextUpdateOffset := nextOffset }, .ok handed)
  | (after, .error e, nextOffset) =>
      (if e.code = .timeout ∨ telegramStatusConsumesUpdate e then
          { after with nextUpdateOffset := nextOffset }
        else after,
        .error e)

/-- `telegram_listen` -/
def telegramListen (telegram : TelegramChannel) (poll : TelegramPoll) : TelegramChannel × Res Handed :=
  match poll.getUpdates telegram.nextUpdateOffset with
  | .error e => (telegram, .error e)
  | .ok root => finishListen (telegramParseFirstUpdate telegram poll root telegram.nextUpdateOffset)

end SmolClaw.Channels
