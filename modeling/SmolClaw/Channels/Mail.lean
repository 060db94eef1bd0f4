/-
  Incoming mail (`src/channels/orchestrator.c`): header fields, body, sender filter and attachment
  metadata.

  1. **Program** — `mail_header_value` looks for a field in ALL lines of the raw text; `mail_body`
     cuts the text at the first pair of equal line ends.  Neither knows where the other one stops.

  2. **Specification** — `headerBlock` is the text up to and including the first empty line.  What a
     message says about itself should be decided there: `HeaderDecides`.

  3. **Defect** — a field that the header block lacks is taken from the body, so whoever writes the
     body chooses the sender that the filter checks.

  4. **Result** — `headerDecides_iff`: a header block decides exactly when it shows the identifier, the
     sender and as much about the attachment as is asked for.
-/
import Mathlib.Data.List.DropRight
import SmolClaw.Channels.Inbound
import SmolClaw.Core.Double

namespace SmolClaw.Channels

/-! ## The scanners -/

/-- A byte at which `mail_header_value` ends a line. -/
def isLineEnd (c : UInt8) : Bool := c == chr '\n' || c == chr '\r'

/-- The line with the field, if there is one: `mail_header_value` goes through the lines and takes the
    first that is the name, a colon and perhaps a value.  (It skips runs of line ends; the empty lines
    between them match no name.) -/
def mailHeaderField (raw name : Bytes) : Option Bytes :=
  ((raw.splitOnP isLineEnd).find? fun line => (name ++ [chr ':']).isPrefixOf line).map
    fun line => line.drop (name.length + 1)

/-- `mail_header_value` -/
def mailHeaderValue (raw name : Bytes) : Bytes := (mailHeaderField raw name).getD []

/-- `mail_body` -/
def mailBody : Bytes → Bytes
  | [] => []
  | c :: rest =>
      if [chr '\n', chr '\n'].isPrefixOf (c :: rest) then (c :: rest).drop 2
      else if [chr '\r', chr '\n', chr '\r', chr '\n'].isPrefixOf (c :: rest) then (c :: rest).drop 4
      else mailBody rest

def isBlank (c : UInt8) : Bool := c == chr ' ' || c == chr '\t' || c == chr '\r' || c == chr '\n'

/-- `trim_ascii` -/
def trimAscii (value : Bytes) : Bytes := (value.dropWhile isBlank).rdropWhile isBlank

/-! ## The channel -/

/-- `mail_channel`: what the filters and the attachment store read of it. -/
structure MailChannel where
  inboxUrl : Bytes := []
  allowedSenders : List Bytes := []
  subjectPrefix : Bytes := []
  attachmentDir : Bytes := []

/-- An identifier or a sender, or the fallback `mail` when the message gives none. -/
def orMail (value : Bytes) : Bytes := if value = [] then str "mail" else value

/-- `mail_parse_message` -/
def mailParseMessage (raw inboxUrl : Bytes) : Res ChannelInbound :=
  let messageId := trimAscii (mailHeaderValue raw (str "Message-ID"))
  let sender := trimAscii (mailHeaderValue raw (str "From"))
  let subject := trimAscii (mailHeaderValue raw (str "Subject"))
  let body := trimAscii (mailBody raw)
  if raw = [] then Status.invalidArgument "sc.channel_mail.parse_invalid_argument"
  else if body = [] ∧ subject = [] then Status.parse "sc.channel_mail.empty_message"
  else
    .ok {
      messageId := orMail messageId
      channelName := str "mail"
      conversationId := inboxUrl
      threadId := []
      senderId := orMail sender
      text := subject ++ (if subject ≠ [] ∧ body ≠ [] then str "\n\n" else []) ++ body }

/-- `mail_sender_allowed` -/
def mailSenderAllowed (mail : MailChannel) (sender : Bytes) : Bool :=
  stringVecContainsWildcardOrValue mail.allowedSenders sender

/-- `mail_apply_filters` -/
def mailApplyFilters (mail : MailChannel) (inbound : ChannelInbound) : Res Unit :=
  if !mailSenderAllowed mail inbound.senderId then
    Status.securityDenied "sc.channel_mail.sender_denied"
  else if mail.subjectPrefix ≠ [] ∧ ¬ mail.subjectPrefix <+: inbound.text then
    Status.securityDenied "sc.channel_mail.subject_prefix_denied"
  else .ok ()

/-- `mail_attachment_name_safe` -/
def mailAttachmentNameSafe (name : Bytes) : Bool :=
  decide (name ≠ [] ∧ name.length ≤ 128) &&
    (name.all fun ch => ch != chr '/' && ch != chr '\\' && ch != 0) && name != str ".."

/-- The digits of a size, in a `size_t`. -/
def sizeOfText (text : Bytes) : Nat :=
  text.foldl (fun size ch => (size * 10 + (ch.toNat - 48)) % 2 ^ 64) 0

/-- The path an attachment is stored under; empty without a directory. -/
def attachmentPath (mail : MailChannel) (conversationId name : Bytes) : Bytes :=
  if mail.attachmentDir = [] then []
  else
    mail.attachmentDir ++ (if mail.attachmentDir.getLast? = some (chr '/') then [] else [chr '/']) ++
      conversationId ++ chr '/' :: name

/-- `mail_store_attachment_metadata` -/
def mailStoreAttachmentMetadata (mail : MailChannel) (raw : Bytes) (inbound : ChannelInbound) :
    Res ChannelInbound :=
  let name := trimAscii (mailHeaderValue raw (str "Attachment-Name"))
  let mediaType := trimAscii (mailHeaderValue raw (str "Attachment-Type"))
  let sizeText := trimAscii (mailHeaderValue raw (str "Attachment-Size"))
  if name = [] then .ok inbound
  else if !mailAttachmentNameSafe name then
    Status.securityDenied "sc.channel_mail.attachment_name_denied"
  else if !sizeText.all isDigit then Status.parse "sc.channel_mail.attachment_size_invalid"
  else
    .ok { inbound with
      attachmentName := name
      attachmentMediaType := mediaType
      attachmentStoragePath := attachmentPath mail inbound.conversationId name
      attachmentSizeBytes := sizeOfText sizeText }

/-! ## The header block -/

/-- The text up to and including the first empty line, and what follows that line, if there is one; a
    line ends with a line feed and may have a carriage return before it. -/
def splitHeader : Bool → Bytes → Bytes × Option Bytes
  | _, [] => ([], none)
  | lineStart, c :: rest =>
      if lineStart ∧ c = chr '\n' then ([c], some rest)
      else if lineStart ∧ c = chr '\r' ∧ rest.head? = some (chr '\n') then
        ([c, chr '\n'], some (rest.drop 1))
      else (c :: (splitHeader (c == chr '\n') rest).1, (splitHeader (c == chr '\n') rest).2)

/-- The text up to and including the first empty line; the whole text when it has none. -/
def headerBlock (raw : Bytes) : Bytes := (splitHeader true raw).1

/-- Whether the text has an empty line. -/
def hasEmptyLine (raw : Bytes) : Bool := (splitHeader true raw).2.isSome

/-- The sender a header block names. -/
def headerSender (header : Bytes) : Bytes := orMail (trimAscii (mailHeaderValue header (str "From")))

/-- What is stored about an attachment. -/
def attachmentFields (inbound : ChannelInbound) : Bytes × Bytes × Nat :=
  (inbound.attachmentName, inbound.attachmentMediaType, inbound.attachmentSizeBytes)

/-- **The header block decides**: messages that share it agree on their identifier, their sender and
    their attachment, and the filter lets one pass only if the sender the block names is in the list. -/
structure HeaderDecides (header : Bytes) : Prop where
  sender : ∀ raw raw' inboxUrl a b, headerBlock raw = header → headerBlock raw' = header →
    mailParseMessage raw inboxUrl = .ok a → mailParseMessage raw' inboxUrl = .ok b →
    a.messageId = b.messageId ∧ a.senderId = b.senderId
  attachment : ∀ raw raw' mail inbound, headerBlock raw = header → headerBlock raw' = header →
    (mailStoreAttachmentMetadata mail raw inbound).map attachmentFields =
      (mailStoreAttachmentMetadata mail raw' inbound).map attachmentFields
  filter : ∀ raw mail a, headerBlock raw = header → mail.allowedSenders ≠ [] →
    str "*" ∉ mail.allowedSenders → mailParseMessage raw mail.inboxUrl = .ok a →
    mailApplyFilters mail a = .ok () → headerSender header ∈ mail.allowedSenders

/-- The header block shows a field. -/
def Shows (header : Bytes) (name : String) : Prop := (mailHeaderField header (str name)).isSome = true

/-- As much about the attachment as is asked for: nothing after an empty or unsafe name, no type after
    a size that is no number. -/
def ShowsAttachment (header : Bytes) : Prop :=
  Shows header "Attachment-Name" ∧
    (mailAttachmentNameSafe (trimAscii (mailHeaderValue header (str "Attachment-Name"))) = true →
      Shows header "Attachment-Size" ∧
        ((trimAscii (mailHeaderValue header (str "Attachment-Size"))).all isDigit = true →
          Shows header "Attachment-Type"))

/-! ## Where the header block ends -/

theorem splitHeader_append (lineStart : Bool) (raw : Bytes) :
    raw = (splitHeader lineStart raw).1 ++ (splitHeader lineStart raw).2.getD [] := by
  fun_induction splitHeader lineStart raw with
  | case1 => rfl
  | case2 => rfl
  | case3 lineStart c rest h h' =>
    obtain ⟨d, rest, rfl⟩ : ∃ d t, rest = d :: t := by
      cases rest with
      | nil => exact nomatch h'.2.2
      | cons d t => exact ⟨d, t, rfl⟩
    have hd : d = chr '\n' := Option.some.inj h'.2.2
    rw [hd]
    rfl
  | case4 lineStart c rest h h' ih =>
    show c :: rest = c :: ((splitHeader _ rest).1 ++ _)
    rw [← ih]

/-- Behind an empty line everything is body, and the block ends with a line feed. -/
theorem splitHeader_closed (lineStart : Bool) (raw : Bytes) :
    ∀ body, (splitHeader lineStart raw).2 = some body →
      (∃ front, (splitHeader lineStart raw).1 = front ++ [chr '\n']) ∧
      ∀ other, splitHeader lineStart ((splitHeader lineStart raw).1 ++ other) =
        ((splitHeader lineStart raw).1, some other) := by
  fun_induction splitHeader lineStart raw with
  | case1 => intro body h; exact nomatch h
  | case2 lineStart c rest h =>
    rintro body -
    refine ⟨⟨[], by rw [h.2]; rfl⟩, fun other => ?_⟩
    rw [List.singleton_append, splitHeader, if_pos h]
  | case3 lineStart c rest h h' =>
    rintro body -
    refine ⟨⟨[c], rfl⟩, fun other => ?_⟩
    show splitHeader lineStart (c :: chr '\n' :: other) = _
    rw [splitHeader, if_neg h, if_pos ⟨h'.1, h'.2.1, rfl⟩]
    rfl
  | case4 lineStart c rest h h' ih =>
    intro body hbody
    obtain ⟨⟨front, hfront⟩, hother⟩ := ih body hbody
    refine ⟨⟨c :: front, by rw [hfront]; rfl⟩, fun other => ?_⟩
    rw [List.cons_append, splitHeader, if_neg h, hother other, if_neg]
    -- the block goes on as the text does, so `c` is no carriage return of an empty line here either
    rintro ⟨hstart, hc, hhead⟩
    refine h' ⟨hstart, hc, ?_⟩
    cases rest with
    | nil => exact nomatch hbody
    | cons d t =>
      rw [splitHeader] at hhead
      split at hhead
      · exact hhead
      · split at hhead
        · exact hhead
        · exact hhead

/-- A text without an empty line is its own header block, and no other text shares it. -/
theorem eq_of_headerBlock {raw other : Bytes} (h : hasEmptyLine raw = false)
    (hother : headerBlock other = headerBlock raw) : other = raw := by
  have hraw := splitHeader_append true raw
  have hsplit := splitHeader_append true other
  rw [hasEmptyLine, Option.isSome_eq_false_iff, Option.isNone_iff_eq_none] at h
  rw [h, Option.getD_none, List.append_nil] at hraw
  cases hbody : (splitHeader true other).2 with
  | none =>
    rw [hbody, Option.getD_none, List.append_nil] at hsplit
    rw [hsplit, hraw]
    exact hother
  | some body =>
    -- the block of `other` has an empty line, but it is also the whole of `raw`
    have hempty := (splitHeader_closed true other body hbody).2 []
    rw [List.append_nil] at hempty
    have hsame : (splitHeader true other).1 = raw := by
      rw [hraw]
      exact hother
    rw [hsame] at hempty
    have hsome : (splitHeader true raw).2 = some [] := congrArg Prod.snd hempty
    rw [h] at hsome
    exact nomatch hsome

/-- With an empty line, the texts that share the block are the block with any body. -/
theorem headerBlock_closed {raw : Bytes} (h : hasEmptyLine raw = true) :
    (∃ front, headerBlock raw = front ++ [chr '\n']) ∧
      (∀ body, headerBlock (headerBlock raw ++ body) = headerBlock raw) ∧
      ∀ other, headerBlock other = headerBlock raw → ∃ body, other = headerBlock raw ++ body := by
  obtain ⟨body, hbody⟩ := Option.isSome_iff_exists.mp h
  obtain ⟨hfront, hother⟩ := splitHeader_closed true raw body hbody
  refine ⟨hfront, fun body => ?_, fun other hsame => ?_⟩
  · rw [headerBlock, headerBlock, hother body]
  · have hsplit := splitHeader_append true other
    rw [show (splitHeader true other).1 = headerBlock raw from hsame] at hsplit
    exact ⟨_, hsplit⟩

/-! ## Fields of a block and of its body -/

theorem mailHeaderField_append (front body name : Bytes) :
    mailHeaderField (front ++ chr '\n' :: body) name =
      (mailHeaderField front name).or (mailHeaderField body name) := by
  unfold mailHeaderField
  rw [List.splitOnP_append_cons front body (by decide), List.find?_append, Option.map_or]

/-- **A field of the block hides the body's**; a field it lacks is the body's. -/
theorem mailHeaderField_block {front : Bytes} (body name : Bytes) :
    mailHeaderField ((front ++ [chr '\n']) ++ body) name =
      (mailHeaderField (front ++ [chr '\n']) name).or (mailHeaderField body name) := by
  have hempty : mailHeaderField [] name = none := by
    unfold mailHeaderField
    rw [List.splitOnP_nil, List.find?_cons_of_neg, List.find?_nil, Option.map_none]
    cases name <;> exact Bool.false_ne_true
  have hblock := mailHeaderField_append front [] name
  rw [hempty, Option.or_none] at hblock
  rw [hblock, List.append_assoc, List.singleton_append, mailHeaderField_append]

theorem mailHeaderValue_shown {front : Bytes} {name : String} (body : Bytes)
    (h : Shows (front ++ [chr '\n']) name) :
    mailHeaderValue ((front ++ [chr '\n']) ++ body) (str name) =
      mailHeaderValue (front ++ [chr '\n']) (str name) := by
  obtain ⟨value, hvalue⟩ := Option.isSome_iff_exists.mp h
  rw [mailHeaderValue, mailHeaderField_block, hvalue, mailHeaderValue, hvalue]
  rfl

theorem mailHeaderValue_hidden {front : Bytes} {name : String} (body : Bytes)
    (h : ¬ Shows (front ++ [chr '\n']) name) :
    mailHeaderValue ((front ++ [chr '\n']) ++ body) (str name) = mailHeaderValue body (str name) := by
  have hnone : mailHeaderField (front ++ [chr '\n']) (str name) = none :=
    Option.not_isSome_iff_eq_none.mp h
  rw [mailHeaderValue, mailHeaderField_block, hnone, mailHeaderValue]
  rfl

/-! ## Bodies -/

/-- Blanks are cut at the two ends only. -/
theorem trimAscii_ne_nil {value : Bytes} {c : UInt8} (hc : c ∈ value) (hblank : isBlank c = false) :
    trimAscii value ≠ [] := by
  intro h
  have hall := List.rdropWhile_eq_nil_iff.mp h
  rw [← List.takeWhile_append_dropWhile (p := isBlank) (l := value), List.mem_append] at hc
  have : isBlank c = true := by
    rcases hc with hc | hc
    · exact List.mem_takeWhile_imp hc
    · exact hall c hc
  rw [hblank] at this
  exact Bool.false_ne_true this

/-- What follows an empty line is part of the body, wherever the body starts. -/
theorem suffix_mailBody (front text : Bytes) :
    text <:+ mailBody (front ++ chr '\n' :: chr '\n' :: text) := by
  have hdrop : ∀ (n : Nat) (bs : Bytes), n ≤ bs.length → text <:+ (bs ++ text).drop n := by
    intro n bs h
    rw [List.drop_append_of_le_length h]
    exact List.suffix_append _ _
  induction front with
  | nil => exact List.suffix_refl text
  | cons c front ih =>
    rw [List.cons_append, mailBody]
    have hsplit : c :: (front ++ chr '\n' :: chr '\n' :: text) =
        (c :: (front ++ [chr '\n', chr '\n'])) ++ text := by simp
    split
    · rw [hsplit]
      exact hdrop 2 _ (by simp)
    · split
      · rename_i hcrlf
        rw [hsplit]
        refine hdrop 4 _ ?_
        -- two line feeds in a row are not among the four bytes, so the front has at least two of them
        rw [List.isPrefixOf_iff_prefix] at hcrlf
        match front with
        | [] =>
          have hthird := (List.cons_prefix_cons.mp (List.cons_prefix_cons.mp hcrlf).2).2
          exact absurd (List.cons_prefix_cons.mp hthird).1 (by decide)
        | d :: front => simp
      · exact ih

/-- The fields a parsed message takes from its text. -/
theorem mailParseMessage_ok {raw inboxUrl : Bytes} {a : ChannelInbound}
    (h : mailParseMessage raw inboxUrl = .ok a) :
    a.messageId = orMail (trimAscii (mailHeaderValue raw (str "Message-ID"))) ∧
      a.senderId = orMail (trimAscii (mailHeaderValue raw (str "From"))) := by
  unfold mailParseMessage at h
  simp only at h
  split at h
  · exact absurd h (by simp)
  · split at h
    · exact absurd h (by simp)
    · cases h
      exact ⟨rfl, rfl⟩

/-- A text with something behind an empty line is a message. -/
theorem mailParseMessage_greeting (front inboxUrl : Bytes) :
    ∃ a, mailParseMessage (front ++ str "\n\nhello") inboxUrl = .ok a := by
  have hsuffix : str "hello" <:+ mailBody (front ++ str "\n\nhello") := suffix_mailBody front (str "hello")
  have hbody : trimAscii (mailBody (front ++ str "\n\nhello")) ≠ [] :=
    trimAscii_ne_nil (c := chr 'h') (hsuffix.subset (by decide)) (by decide)
  have hraw : front ++ str "\n\nhello" ≠ [] := List.append_ne_nil_of_right_ne_nil _ (by decide)
  unfold mailParseMessage
  simp only
  rw [if_neg hraw, if_neg fun h => hbody h.1]
  exact ⟨_, rfl⟩

/-! ## When the header block decides -/

/-- Whoever writes the body fills in a field the block lacks; `text` is what he writes. -/
theorem mailHeaderValue_of_body {raw : Bytes} {name : String} (hend : hasEmptyLine raw = true)
    (h : ¬ Shows (headerBlock raw) name) (text : Bytes) :
    mailHeaderValue (headerBlock raw ++ text) (str name) = mailHeaderValue text (str name) := by
  obtain ⟨⟨front, hfront⟩, -, -⟩ := headerBlock_closed hend
  rw [hfront] at h ⊢
  exact mailHeaderValue_hidden text h

/-- A field the block shows is the same whatever the body is. -/
theorem mailHeaderValue_of_block {raw other : Bytes} {name : String} (hend : hasEmptyLine raw = true)
    (h : Shows (headerBlock raw) name) (hother : headerBlock other = headerBlock raw) :
    mailHeaderValue other (str name) = mailHeaderValue (headerBlock raw) (str name) := by
  obtain ⟨⟨front, hfront⟩, -, hbody⟩ := headerBlock_closed hend
  obtain ⟨text, rfl⟩ := hbody other hother
  rw [hfront] at h ⊢
  exact mailHeaderValue_shown text h

/-- The identifier and the sender are decided only where the block shows them. -/
theorem shows_of_sender {raw : Bytes} (hend : hasEmptyLine raw = true)
    (h : HeaderDecides (headerBlock raw)) :
    Shows (headerBlock raw) "Message-ID" ∧ Shows (headerBlock raw) "From" := by
  obtain ⟨-, hsame, -⟩ := headerBlock_closed hend
  -- the body `…\n\nhello` names `x`, the body `\n\nhello` names nothing
  have hparse : ∀ text : Bytes, ∃ a,
      mailParseMessage (headerBlock raw ++ (text ++ str "\n\nhello")) [] = .ok a := by
    intro text
    rw [← List.append_assoc]
    exact mailParseMessage_greeting _ _
  obtain ⟨plain, hplain⟩ := hparse []
  constructor
  · by_contra hhidden
    obtain ⟨a, ha⟩ := hparse (str "Message-ID: x")
    have hagree := (h.sender _ _ _ a plain (hsame _) (hsame _) ha hplain).1
    rw [(mailParseMessage_ok ha).1, (mailParseMessage_ok hplain).1,
      mailHeaderValue_of_body hend hhidden, mailHeaderValue_of_body hend hhidden] at hagree
    exact absurd hagree (by decide)
  · by_contra hhidden
    obtain ⟨a, ha⟩ := hparse (str "From: x")
    have hagree := (h.sender _ _ _ a plain (hsame _) (hsame _) ha hplain).2
    rw [(mailParseMessage_ok ha).2, (mailParseMessage_ok hplain).2,
      mailHeaderValue_of_body hend hhidden, mailHeaderValue_of_body hend hhidden] at hagree
    exact absurd hagree (by decide)

/-- What is stored, from the three values that are read. -/
def attachmentOf (inbound : ChannelInbound) (name mediaType sizeText : Bytes) :
    Res (Bytes × Bytes × Nat) :=
  if name = [] then .ok (attachmentFields inbound)
  else if !mailAttachmentNameSafe name then
    Status.securityDenied "sc.channel_mail.attachment_name_denied"
  else if !sizeText.all isDigit then Status.parse "sc.channel_mail.attachment_size_invalid"
  else .ok (name, mediaType, sizeOfText sizeText)

theorem mailStoreAttachmentMetadata_fields (mail : MailChannel) (raw : Bytes) (inbound : ChannelInbound) :
    (mailStoreAttachmentMetadata mail raw inbound).map attachmentFields =
      attachmentOf inbound (trimAscii (mailHeaderValue raw (str "Attachment-Name")))
        (trimAscii (mailHeaderValue raw (str "Attachment-Type")))
        (trimAscii (mailHeaderValue raw (str "Attachment-Size"))) := by
  unfold mailStoreAttachmentMetadata attachmentOf
  simp only
  split
  · rfl
  · split
    · rfl
    · split
      · rfl
      · rfl

/-- A safe name and a size in digits are stored as they are. -/
theorem attachmentOf_safe {inbound : ChannelInbound} {name mediaType sizeText : Bytes}
    (hsafe : mailAttachmentNameSafe name = true) (hdigits : sizeText.all isDigit = true) :
    attachmentOf inbound name mediaType sizeText = .ok (name, mediaType, sizeOfText sizeText) := by
  have hname : name ≠ [] := by
    rintro rfl
    exact absurd hsafe (by decide)
  rw [attachmentOf, if_neg hname, hsafe, hdigits]
  rfl

/-- A message that passes a real list of senders has its sender in it. -/
theorem sender_mem_of_mailApplyFilters {mail : MailChannel} {a : ChannelInbound}
    (hne : mail.allowedSenders ≠ []) (hwild : str "*" ∉ mail.allowedSenders)
    (h : mailApplyFilters mail a = .ok ()) : a.senderId ∈ mail.allowedSenders := by
  by_contra hnot
  have hdenied : mailSenderAllowed mail a.senderId = false := by
    rw [Bool.eq_false_iff]
    exact fun hallowed => hnot ((contains_of_strict hne hwild).mp hallowed)
  rw [mailApplyFilters, hdenied] at h
  exact nomatch h

section Attachment

variable {raw : Bytes} (hend : hasEmptyLine raw = true) (h : HeaderDecides (headerBlock raw))

include hend

/-- Where the block shows a field, a body has no say in it. -/
theorem mailHeaderValue_any_body {name : String} (hname : Shows (headerBlock raw) name) (text : Bytes) :
    mailHeaderValue (headerBlock raw ++ text) (str name) = mailHeaderValue (headerBlock raw) (str name) :=
  mailHeaderValue_of_block hend hname ((headerBlock_closed hend).2.1 text)

include h

/-- What is stored must not depend on the body. -/
theorem attachmentOf_any_body (text : Bytes) :
    attachmentOf {} (trimAscii (mailHeaderValue (headerBlock raw ++ text) (str "Attachment-Name")))
        (trimAscii (mailHeaderValue (headerBlock raw ++ text) (str "Attachment-Type")))
        (trimAscii (mailHeaderValue (headerBlock raw ++ text) (str "Attachment-Size"))) =
      attachmentOf {} (trimAscii (mailHeaderValue (headerBlock raw ++ []) (str "Attachment-Name")))
        (trimAscii (mailHeaderValue (headerBlock raw ++ []) (str "Attachment-Type")))
        (trimAscii (mailHeaderValue (headerBlock raw ++ []) (str "Attachment-Size"))) := by
  have hsame := (headerBlock_closed hend).2.1
  rw [← mailStoreAttachmentMetadata_fields {}, ← mailStoreAttachmentMetadata_fields {}]
  exact h.attachment _ _ {} {} (hsame _) (hsame _)

/-- Nothing is stored without a name; with one it is stored or refused. -/
theorem shows_attachmentName : Shows (headerBlock raw) "Attachment-Name" := by
  by_contra hhidden
  have ha := attachmentOf_any_body hend h (str "Attachment-Name: a")
  rw [mailHeaderValue_of_body hend hhidden, mailHeaderValue_of_body hend hhidden,
    show trimAscii (mailHeaderValue (str "Attachment-Name: a") (str "Attachment-Name")) = str "a" by
      decide,
    show trimAscii (mailHeaderValue [] (str "Attachment-Name")) = [] by decide] at ha
  unfold attachmentOf at ha
  rw [if_pos rfl, if_neg (by decide), if_neg (by decide)] at ha
  split at ha
  · exact nomatch ha
  · have hname : str "a" = [] := congrArg Prod.fst (Except.ok.inj ha)
    exact absurd hname (by decide)

/-- With a safe name a size is stored. -/
theorem shows_attachmentSize (hname : Shows (headerBlock raw) "Attachment-Name")
    (hsafe : mailAttachmentNameSafe
      (trimAscii (mailHeaderValue (headerBlock raw) (str "Attachment-Name"))) = true) :
    Shows (headerBlock raw) "Attachment-Size" := by
  by_contra hhidden
  have ha := attachmentOf_any_body hend h (str "Attachment-Size: 5")
  rw [mailHeaderValue_any_body hend hname, mailHeaderValue_any_body hend hname,
    mailHeaderValue_of_body hend hhidden, mailHeaderValue_of_body hend hhidden,
    show trimAscii (mailHeaderValue (str "Attachment-Size: 5") (str "Attachment-Size")) = str "5" by
      decide,
    show trimAscii (mailHeaderValue [] (str "Attachment-Size")) = [] by decide,
    attachmentOf_safe hsafe (by decide), attachmentOf_safe hsafe (by decide)] at ha
  have hsize : sizeOfText (str "5") = sizeOfText [] :=
    congrArg (fun fields => fields.2.2) (Except.ok.inj ha)
  exact absurd hsize (by decide)

/-- With a safe name and a size in digits a type is stored. -/
theorem shows_attachmentType (hname : Shows (headerBlock raw) "Attachment-Name")
    (hsafe : mailAttachmentNameSafe
      (trimAscii (mailHeaderValue (headerBlock raw) (str "Attachment-Name"))) = true)
    (hsize : Shows (headerBlock raw) "Attachment-Size")
    (hdigits : (trimAscii (mailHeaderValue (headerBlock raw) (str "Attachment-Size"))).all isDigit = true) :
    Shows (headerBlock raw) "Attachment-Type" := by
  by_contra hhidden
  have ha := attachmentOf_any_body hend h (str "Attachment-Type: a")
  rw [mailHeaderValue_any_body hend hname, mailHeaderValue_any_body hend hname,
    mailHeaderValue_any_body hend hsize, mailHeaderValue_any_body hend hsize,
    mailHeaderValue_of_body hend hhidden, mailHeaderValue_of_body hend hhidden,
    show trimAscii (mailHeaderValue (str "Attachment-Type: a") (str "Attachment-Type")) = str "a" by
      decide,
    show trimAscii (mailHeaderValue [] (str "Attachment-Type")) = [] by decide,
    attachmentOf_safe hsafe hdigits, attachmentOf_safe hsafe hdigits] at ha
  have htype : str "a" = [] := congrArg (fun fields => fields.2.1) (Except.ok.inj ha)
  exact absurd htype (by decide)

/-- An attachment is decided only where the block shows as much of it as is asked for. -/
theorem showsAttachment_of_attachment : ShowsAttachment (headerBlock raw) := by
  have hname := shows_attachmentName hend h
  refine ⟨hname, fun hsafe => ?_⟩
  have hsize := shows_attachmentSize hend h hname hsafe
  exact ⟨hsize, shows_attachmentType hend h hname hsafe hsize⟩

end Attachment

/-- With what is asked for in the block, the stored fields are the block's. -/
theorem attachmentOf_of_shows {raw other : Bytes} (hend : hasEmptyLine raw = true)
    (h : ShowsAttachment (headerBlock raw)) (hother : headerBlock other = headerBlock raw)
    (inbound : ChannelInbound) :
    attachmentOf inbound (trimAscii (mailHeaderValue other (str "Attachment-Name")))
        (trimAscii (mailHeaderValue other (str "Attachment-Type")))
        (trimAscii (mailHeaderValue other (str "Attachment-Size"))) =
      attachmentOf inbound
        (trimAscii (mailHeaderValue (headerBlock raw) (str "Attachment-Name")))
        (trimAscii (mailHeaderValue (headerBlock raw) (str "Attachment-Type")))
        (trimAscii (mailHeaderValue (headerBlock raw) (str "Attachment-Size"))) := by
  obtain ⟨hname, hrest⟩ := h
  rw [mailHeaderValue_of_block hend hname hother]
  by_cases hsafe : mailAttachmentNameSafe
      (trimAscii (mailHeaderValue (headerBlock raw) (str "Attachment-Name"))) = true
  · obtain ⟨hsize, htype⟩ := hrest hsafe
    rw [mailHeaderValue_of_block hend hsize hother]
    by_cases hdigits : (trimAscii (mailHeaderValue (headerBlock raw) (str "Attachment-Size"))).all
        isDigit = true
    · rw [mailHeaderValue_of_block hend (htype hdigits) hother]
    · unfold attachmentOf
      rw [Bool.not_eq_true] at hdigits
      rw [hdigits]
      rfl
  · unfold attachmentOf
    rw [Bool.not_eq_true] at hsafe
    rw [hsafe]
    rfl

/-- **When the header block decides**: it is the whole text, or it shows the identifier, the sender and
    as much about the attachment as is asked for. -/
theorem headerDecides_iff (raw : Bytes) :
    HeaderDecides (headerBlock raw) ↔
      hasEmptyLine raw = false ∨
        (Shows (headerBlock raw) "Message-ID" ∧ Shows (headerBlock raw) "From" ∧
          ShowsAttachment (headerBlock raw)) := by
  cases hend : hasEmptyLine raw with
  | false =>
    refine iff_of_true ?_ (Or.inl rfl)
    have hwhole : headerBlock raw = raw := by
      rw [hasEmptyLine, Option.isSome_eq_false_iff, Option.isNone_iff_eq_none] at hend
      have hsplit := splitHeader_append true raw
      rw [hend, Option.getD_none, List.append_nil] at hsplit
      exact hsplit.symm
    constructor
    · intro other other' inboxUrl a b hother hother' ha hb
      rw [eq_of_headerBlock hend hother] at ha
      rw [eq_of_headerBlock hend hother', ha] at hb
      cases hb
      exact ⟨rfl, rfl⟩
    · intro other other' mail inbound hother hother'
      rw [eq_of_headerBlock hend hother, eq_of_headerBlock hend hother']
    · intro other mail a hother hne hwild ha hfilter
      rw [eq_of_headerBlock hend hother] at ha
      rw [headerSender, hwhole, ← (mailParseMessage_ok ha).2]
      exact sender_mem_of_mailApplyFilters hne hwild hfilter
  | true =>
    constructor
    · intro h
      obtain ⟨hid, hsender⟩ := shows_of_sender hend h
      exact Or.inr ⟨hid, hsender, showsAttachment_of_attachment hend h⟩
    · rintro (hnone | ⟨hid, hsender, hattachment⟩)
      · exact nomatch hnone
      constructor
      · intro other other' inboxUrl a b hother hother' ha hb
        rw [(mailParseMessage_ok ha).1, (mailParseMessage_ok ha).2, (mailParseMessage_ok hb).1,
          (mailParseMessage_ok hb).2, mailHeaderValue_of_block hend hid hother,
          mailHeaderValue_of_block hend hsender hother, mailHeaderValue_of_block hend hid hother',
          mailHeaderValue_of_block hend hsender hother']
        exact ⟨rfl, rfl⟩
      · intro other other' mail inbound hother hother'
        rw [mailStoreAttachmentMetadata_fields, mailStoreAttachmentMetadata_fields,
          attachmentOf_of_shows hend hattachment hother, attachmentOf_of_shows hend hattachment hother']
      · intro other mail a hother hne hwild ha hfilter
        rw [headerSender, ← mailHeaderValue_of_block hend hsender hother, ← (mailParseMessage_ok ha).2]
        exact sender_mem_of_mailApplyFilters hne hwild hfilter

/-- The header block names nobody, the body names the owner, and the filter lets the message pass. -/
theorem sender_from_body :
    headerSender (headerBlock (str "Subject: hi\n\nFrom: owner")) = str "mail" ∧
      (mailParseMessage (str "Subject: hi\n\nFrom: owner") []).map (·.senderId) = .ok (str "owner") ∧
      (mailParseMessage (str "Subject: hi\n\nFrom: owner") [] >>=
        mailApplyFilters { allowedSenders := [str "owner"] }) = .ok () ∧
      ¬ HeaderDecides (headerBlock (str "Subject: hi\n\nFrom: owner")) := by
  have hsender : headerSender (headerBlock (str "Subject: hi\n\nFrom: owner")) = str "mail" := by decide
  have hpass : (mailParseMessage (str "Subject: hi\n\nFrom: owner") [] >>=
      mailApplyFilters { allowedSenders := [str "owner"] }) = .ok () := by decide
  refine ⟨hsender, by decide, hpass, fun h => ?_⟩
  obtain ⟨a, ha, hfilter⟩ := Res.bind_eq_ok.mp hpass
  have hlisted := h.filter _ { allowedSenders := [str "owner"] } a rfl (by decide) (by decide) ha hfilter
  rw [hsender] at hlisted
  exact absurd hlisted (by decide)

end SmolClaw.Channels
