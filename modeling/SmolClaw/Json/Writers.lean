/-
  Four writers of JSON by hand: the lines of a transcript (`persist_session_jsonl`,
  `src/channels/orchestrator.c`), the reply of a webhook (`response_for_mode`, `src/channels/webhooks.c`), the
  body of a search request (`build_search_body`, `src/tools/http_tool.c`) and the updates of a session
  (`acp_emit_update`, `src/channels/acp.c`).

  1. **Program** — each file escapes with a table of its own: two know the newline only, one the carriage
     return as well, and the last one every control byte.

  2. **Specification** — `WritersAgree`: what is written is one line, and `sc_json_parse` reads the strings
     back.

  3. **Defect** — the other control bytes are left as they are, and the reader refuses them.

  4. **Result** — `writersAgree_iff`: exactly without such bytes do writers and reader agree.
-/
import SmolClaw.Json.Escape

namespace SmolClaw.Writers

/-! ## Program -/

theorem newlineLetter_read :
    ([(chr '\n', chr 'n')].all fun p => simpleEscape p.2 == some p.1) = true := by decide

theorem searchLetters_read :
    ([(chr '\n', chr 'n'), (chr '\r', chr 'r')].all fun p => simpleEscape p.2 == some p.1) = true := by decide

theorem acpLetters_read :
    ([(chr '\n', chr 'n'), (chr '\r', chr 'r'), (chr '\t', chr 't')].all
      fun p => simpleEscape p.2 == some p.1) = true := by decide

/-- What `append_json_string` knows, in `orchestrator.c` and in `webhooks.c`. -/
def newlineTable : EscapeTable := ⟨[(chr '\n', chr 'n')], false, newlineLetter_read⟩

/-- What `append_json_string_escaped` knows. -/
def searchTable : EscapeTable := ⟨[(chr '\n', chr 'n'), (chr '\r', chr 'r')], false, searchLetters_read⟩

/-- What `acp_append_json_string` knows. -/
def acpTable : EscapeTable :=
  ⟨[(chr '\n', chr 'n'), (chr '\r', chr 'r'), (chr '\t', chr 't')], true, acpLetters_read⟩

/-- `append_json_string` of `orchestrator.c` -/
def appendJsonString (value : Bytes) : Bytes := quoted newlineTable.byte value

/-- `append_json_string` of `webhooks.c`: the caller writes the quotes. -/
def appendReplyString (value : Bytes) : Bytes := value.flatMap newlineTable.byte

/-- `append_json_string_escaped` -/
def appendJsonStringEscaped (value : Bytes) : Bytes := quoted searchTable.byte value

/-- `acp_append_json_string` -/
def acpAppendJsonString (value : Bytes) : Bytes := quoted acpTable.byte value

/-- `struct tm` as `gmtime_r` fills it, with the year and the month as they are printed. -/
structure Tm where
  year : Nat
  month : Nat
  mday : Nat
  hour : Nat
  minute : Nat
  second : Nat

/-- `%0*d` -/
def padded (width n : Nat) : Bytes := List.replicate (width - (decimal n).length) (chr '0') ++ decimal n

/-- `sc_time_format_rfc3339` -/
def timeFormatRfc3339 (tm : Tm) : Bytes :=
  padded 4 tm.year ++ str "-" ++ padded 2 tm.month ++ str "-" ++ padded 2 tm.mday ++ str "T" ++
    padded 2 tm.hour ++ str ":" ++ padded 2 tm.minute ++ str ":" ++ padded 2 tm.second ++ str "Z"

/-- The line that `persist_session_jsonl` appends. -/
def transcriptLine (sessionKey role content : Bytes) (created : Tm) : Bytes :=
  str "\x7b\"session_key\":" ++ appendJsonString sessionKey ++ str ",\"role\":" ++ appendJsonString role ++
    str ",\"content\":" ++ appendJsonString content ++ str ",\"created_at\":" ++
    appendJsonString (timeFormatRfc3339 created) ++ str "\x7d\n"

/-- `sc_webhook_reply_mode` -/
inductive ReplyMode where
  | statusOnly
  | inlineText
  | json
  deriving DecidableEq

/-- `response_for_mode` -/
def responseForMode (mode : ReplyMode) (rendered : Bytes) : Bytes :=
  match mode with
  | .statusOnly => str "OK"
  | .inlineText => rendered
  | .json => str "\x7b\"text\":\"" ++ appendReplyString rendered ++ str "\"\x7d"

/-- `build_search_body` -/
def buildSearchBody (query : Bytes) : Bytes :=
  str "\x7b\"q\":" ++ appendJsonStringEscaped query ++ str "\x7d"

/-- `acp_append_json_field`: what is appended; `first` is false behind it. -/
def acpAppendJsonField (name : String) (value : Bytes) (first : Bool) : Bytes :=
  str (if first then "" else ",") ++ acpAppendJsonString (str name) ++ str ":" ++ acpAppendJsonString value

/-- `acp_emit_update`: the line it appends. -/
def acpEmitUpdate (sessionId kind name text : Bytes) (finished : Bool) : Bytes :=
  str "\x7b\"jsonrpc\":\"2.0\",\"method\":\"session/update\",\"params\":\x7b" ++
    acpAppendJsonField "sessionId" sessionId true ++ acpAppendJsonField "kind" kind false ++
    (if 0 < name.length then acpAppendJsonField "name" name false else []) ++
    (if 0 < text.length then acpAppendJsonField "text" text false else []) ++
    str ",\"finished\":" ++ str (if finished then "true" else "false") ++ str "\x7d\x7d\n"

/-! ## Specification -/

/-- What the four are given. -/
structure Texts where
  sessionKey : Bytes
  role : Bytes
  content : Bytes
  created : Tm
  rendered : Bytes
  query : Bytes
  sessionId : Bytes
  kind : Bytes
  name : Bytes
  text : Bytes
  finished : Bool

/-- The strings are valid UTF-8. -/
structure Texts.Valid (i : Texts) : Prop where
  sessionKey : strIsValidUtf8 i.sessionKey = true
  role : strIsValidUtf8 i.role = true
  content : strIsValidUtf8 i.content = true
  rendered : strIsValidUtf8 i.rendered = true
  query : strIsValidUtf8 i.query = true
  sessionId : strIsValidUtf8 i.sessionId = true
  kind : strIsValidUtf8 i.kind = true
  name : strIsValidUtf8 i.name = true
  text : strIsValidUtf8 i.text = true

/-- The strings of a transcript line, by their keys. -/
def transcriptMembers (sessionKey role content : Bytes) (created : Tm) : List (Bytes × Bytes) :=
  [(str "session_key", sessionKey), (str "role", role), (str "content", content),
    (str "created_at", timeFormatRfc3339 created)]

/-- A member that is left out when its string is empty. -/
def unlessEmpty (key : String) (s : Bytes) : List (Bytes × Bytes) :=
  if 0 < s.length then [(str key, s)] else []

/-- The strings of an update, by their keys. -/
def updateMembers (sessionId kind name text : Bytes) : List (Bytes × Bytes) :=
  [(str "sessionId", sessionId), (str "kind", kind)] ++ unlessEmpty "name" name ++ unlessEmpty "text" text

/-- The tree of an update. -/
def updateTree (sessionId kind name text : Bytes) (finished : Bool) : Json :=
  .object [(str "jsonrpc", .string (str "2.0")), (str "method", .string (str "session/update")),
    (str "params", .object ((updateMembers sessionId kind name text).map (fun m => (m.1, .string m.2)) ++
      [(str "finished", .bool finished)]))]

/-- **Agreement**: each text is one line, and the reader finds in it the strings that were written. -/
structure WritersAgree (i : Texts) : Prop where
  transcript : SingleLine (transcriptLine i.sessionKey i.role i.content i.created) ∧
    jsonParse (transcriptLine i.sessionKey i.role i.content i.created) =
      .ok (EscapeTable.flatTree (transcriptMembers i.sessionKey i.role i.content i.created))
  reply : chr '\n' ∉ responseForMode .json i.rendered ∧
    jsonParse (responseForMode .json i.rendered) = .ok (EscapeTable.flatTree [(str "text", i.rendered)])
  search : chr '\n' ∉ buildSearchBody i.query ∧
    jsonParse (buildSearchBody i.query) = .ok (EscapeTable.flatTree [(str "q", i.query)])
  update : SingleLine (acpEmitUpdate i.sessionId i.kind i.name i.text i.finished) ∧
    jsonParse (acpEmitUpdate i.sessionId i.kind i.name i.text i.finished) =
      .ok (updateTree i.sessionId i.kind i.name i.text i.finished)

/-- No control byte besides those of the list. -/
def ControlsOnly (known : List UInt8) (s : Bytes) : Prop := ∀ b ∈ s, b < 0x20 → b ∈ known

/-- **Writable**: no control bytes but newlines, and carriage returns in a query. -/
structure Writable (i : Texts) : Prop where
  sessionKey : ControlsOnly [chr '\n'] i.sessionKey
  role : ControlsOnly [chr '\n'] i.role
  content : ControlsOnly [chr '\n'] i.content
  rendered : ControlsOnly [chr '\n'] i.rendered
  query : ControlsOnly [chr '\n', chr '\r'] i.query

/-! ## The writers, as objects of strings -/

theorem transcriptLine_eq (sessionKey role content : Bytes) (created : Tm) :
    transcriptLine sessionKey role content created =
      newlineTable.flatText (transcriptMembers sessionKey role content created) ++ [chr '\n'] := by
  have hrole : ∀ s : Bytes, str ",\"role\":" ++ s =
      chr ',' :: (quoted newlineTable.byte (str "role") ++ chr ':' :: s) := fun _ => rfl
  have hcontent : ∀ s : Bytes, str ",\"content\":" ++ s =
      chr ',' :: (quoted newlineTable.byte (str "content") ++ chr ':' :: s) := fun _ => rfl
  have hcreated : ∀ s : Bytes, str ",\"created_at\":" ++ s =
      chr ',' :: (quoted newlineTable.byte (str "created_at") ++ chr ':' :: s) := fun _ => rfl
  simp only [transcriptLine, List.append_assoc, hrole, hcontent, hcreated, EscapeTable.flatText,
    transcriptMembers, objectText, List.map_cons, List.map_nil, commaSeparated, MemberText.render,
    EscapeTable.member, List.cons_append, List.nil_append]
  rfl

theorem responseForMode_eq (rendered : Bytes) :
    responseForMode .json rendered = newlineTable.flatText [(str "text", rendered)] ++ [] := by
  show str "\x7b\"text\":\"" ++ appendReplyString rendered ++ str "\"\x7d" = _
  rw [List.append_nil, List.append_assoc]
  show _ = str "\x7b\"text\":\"" ++ ((rendered.flatMap newlineTable.byte ++ [chr '"']) ++ [chr '\x7d'])
  rw [List.append_assoc]
  rfl

theorem buildSearchBody_eq (query : Bytes) :
    buildSearchBody query = searchTable.flatText [(str "q", query)] ++ [] := by
  rw [List.append_nil, buildSearchBody, List.append_assoc]
  rfl

/-- The members of the object behind `params`. -/
def paramsTexts (sessionId kind name text : Bytes) (finished : Bool) : List MemberText :=
  (updateMembers sessionId kind name text).map (fun m => acpTable.member m.1 m.2) ++
    [{ key := str "finished", text := jsonText (.bool finished), value := .bool finished }]

/-- The members of an update. -/
def updateTexts (sessionId kind name text : Bytes) (finished : Bool) : List MemberText :=
  [acpTable.member (str "jsonrpc") (str "2.0"), acpTable.member (str "method") (str "session/update"),
    { key := str "params"
      text := objectText acpTable.byte (paramsTexts sessionId kind name text finished)
      value := .object ((updateMembers sessionId kind name text).map (fun m => (m.1, .string m.2)) ++
        [(str "finished", .bool finished)]) }]

theorem acpAppendJsonField_eq (name : String) (value : Bytes) (first : Bool) :
    acpAppendJsonField name value first =
      (if first then [] else [chr ',']) ++ (acpTable.member (str name) value).render acpTable.byte := by
  have hcolon : ∀ s : Bytes, str ":" ++ s = chr ':' :: s := fun _ => rfl
  rw [acpAppendJsonField, List.append_assoc, List.append_assoc, hcolon]
  cases first with
  | true => rfl
  | false => rfl

/-- A field that is left out when its string is empty. -/
theorem optionalField_eq (name : String) (value : Bytes) :
    (if 0 < value.length then acpAppendJsonField name value false else []) =
      ((unlessEmpty name value).map fun m => (acpTable.member m.1 m.2).render acpTable.byte).flatMap
        (chr ',' :: ·) := by
  rw [unlessEmpty]
  split
  · rw [acpAppendJsonField_eq, List.map_singleton, List.flatMap_singleton]
    rfl
  · rfl

/-- Texts joined by commas: the last ones each have their comma in front. -/
theorem commaSeparated_concat (t u : Bytes) (ts : List Bytes) :
    commaSeparated (t :: (ts ++ [u])) = t ++ (ts.flatMap (chr ',' :: ·) ++ chr ',' :: u) := by
  induction ts generalizing t with
  | nil => rfl
  | cons s ts ih =>
    show t ++ chr ',' :: commaSeparated (s :: (ts ++ [u])) = _
    rw [ih s, List.flatMap_cons]
    simp only [List.cons_append, List.append_assoc]

theorem acpEmitUpdate_eq (sessionId kind name text : Bytes) (finished : Bool) :
    acpEmitUpdate sessionId kind name text finished =
      objectText acpTable.byte (updateTexts sessionId kind name text finished) ++ [chr '\n'] := by
  have hopen : ∀ s : Bytes,
      str "\x7b\"jsonrpc\":\"2.0\",\"method\":\"session/update\",\"params\":\x7b" ++ s =
      chr '\x7b' :: ((acpTable.member (str "jsonrpc") (str "2.0")).render acpTable.byte ++
        chr ',' :: ((acpTable.member (str "method") (str "session/update")).render acpTable.byte ++
          chr ',' :: (quoted acpTable.byte (str "params") ++ chr ':' :: chr '\x7b' :: s))) := fun _ => rfl
  have hfinished : ∀ s : Bytes, str ",\"finished\":" ++ s =
      chr ',' :: (quoted acpTable.byte (str "finished") ++ chr ':' :: s) := fun _ => rfl
  have hclose : str "\x7d\x7d\n" = [chr '\x7d', chr '\x7d', chr '\n'] := rfl
  have hbool : str (if finished then "true" else "false") = jsonText (.bool finished) := by
    cases finished with
    | true => rfl
    | false => rfl
  have hparams :
      commaSeparated ((paramsTexts sessionId kind name text finished).map (·.render acpTable.byte)) =
      (acpTable.member (str "sessionId") sessionId).render acpTable.byte ++
        (chr ',' :: ((acpTable.member (str "kind") kind).render acpTable.byte ++
          (((unlessEmpty "name" name).map fun m => (acpTable.member m.1 m.2).render acpTable.byte).flatMap
              (chr ',' :: ·) ++
            (((unlessEmpty "text" text).map fun m => (acpTable.member m.1 m.2).render acpTable.byte).flatMap
                (chr ',' :: ·) ++
              chr ',' :: (quoted acpTable.byte (str "finished") ++
                chr ':' :: jsonText (.bool finished)))))) := by
    rw [paramsTexts, updateMembers, List.map_append, List.map_map, List.map_singleton, List.cons_append,
      List.cons_append, List.map_cons, List.cons_append, List.cons_append, commaSeparated_concat,
      List.nil_append, List.cons_append, List.map_cons, List.map_append, List.flatMap_cons,
      List.flatMap_append]
    simp only [List.append_assoc, List.cons_append]
    rfl
  rw [acpEmitUpdate, hbool, hclose, optionalField_eq, optionalField_eq, acpAppendJsonField_eq,
    acpAppendJsonField_eq]
  simp only [List.append_assoc, hopen, hfinished, if_true, Bool.false_eq_true, if_false, List.nil_append,
    List.cons_append]
  unfold updateTexts objectText
  simp only [List.map_cons, List.map_nil, commaSeparated]
  rw [hparams]
  simp only [MemberText.render, List.append_assoc, List.cons_append, List.nil_append]

/-! ## What the tables leave as it is -/

theorem newlineTable_clean {s : Bytes} : newlineTable.Clean s ↔ ControlsOnly [chr '\n'] s := by
  refine forall₂_congr fun b _ => ?_
  show ¬ (b < 0x20 ∧ false = false ∧ ∀ p ∈ [(chr '\n', chr 'n')], p.1 ≠ b) ↔ (b < 0x20 → b ∈ [chr '\n'])
  rw [List.forall_mem_singleton, List.mem_singleton]
  constructor
  · intro h hcontrol
    by_contra hb
    exact h ⟨hcontrol, rfl, fun he => hb he.symm⟩
  · rintro h ⟨hcontrol, -, hb⟩
    exact hb (h hcontrol).symm

theorem searchTable_clean {s : Bytes} : searchTable.Clean s ↔ ControlsOnly [chr '\n', chr '\r'] s := by
  refine forall₂_congr fun b _ => ?_
  show ¬ (b < 0x20 ∧ false = false ∧ ∀ p ∈ [(chr '\n', chr 'n'), (chr '\r', chr 'r')], p.1 ≠ b) ↔
    (b < 0x20 → b ∈ [chr '\n', chr '\r'])
  rw [List.forall_mem_cons, List.forall_mem_singleton, List.mem_cons, List.mem_singleton]
  constructor
  · intro h hcontrol
    by_contra hb
    rw [not_or] at hb
    exact h ⟨hcontrol, rfl, fun he => hb.1 he.symm, fun he => hb.2 he.symm⟩
  · rintro h ⟨hcontrol, -, hn, hr⟩
    rcases h hcontrol with hb | hb
    · exact hn hb.symm
    · exact hr hb.symm

/-- Every control byte is a letter or a code point. -/
theorem acpTable_clean (s : Bytes) : acpTable.Clean s :=
  fun _ _ hraw => absurd hraw.2.1 (Bool.noConfusion)

/-- A time is written in digits and punctuation. -/
theorem timeFormat_bytes (tm : Tm) : ∀ b ∈ timeFormatRfc3339 tm, 0x20 ≤ b ∧ b ≤ 0x7F := by
  have hpadded : ∀ width n, ∀ b ∈ padded width n, 0x20 ≤ b ∧ b ≤ 0x7F := by
    intro width n b hb
    rw [padded, List.mem_append] at hb
    rcases hb with hb | hb
    · rw [(List.mem_replicate.mp hb).2]
      decide
    · have hdigit := decimal_isDigit n b hb
      rw [isDigit, Bool.and_eq_true, decide_eq_true_eq, decide_eq_true_eq] at hdigit
      exact ⟨UInt8.le_trans (by decide) hdigit.1, UInt8.le_trans hdigit.2 (by decide)⟩
  have hmark : ∀ c : Char, 0x20 ≤ chr c → chr c ≤ 0x7F → ∀ b ∈ [chr c], 0x20 ≤ b ∧ b ≤ 0x7F := by
    intro c hlow hhigh b hb
    rw [List.mem_singleton.mp hb]
    exact ⟨hlow, hhigh⟩
  intro b hb
  simp only [timeFormatRfc3339, List.mem_append] at hb
  rcases hb with (((((((((((hb | hb) | hb) | hb) | hb) | hb) | hb) | hb) | hb) | hb) | hb) | hb)
  · exact hpadded 4 _ b hb
  · exact hmark '-' (by decide) (by decide) b hb
  · exact hpadded 2 _ b hb
  · exact hmark '-' (by decide) (by decide) b hb
  · exact hpadded 2 _ b hb
  · exact hmark 'T' (by decide) (by decide) b hb
  · exact hpadded 2 _ b hb
  · exact hmark ':' (by decide) (by decide) b hb
  · exact hpadded 2 _ b hb
  · exact hmark ':' (by decide) (by decide) b hb
  · exact hpadded 2 _ b hb
  · exact hmark 'Z' (by decide) (by decide) b hb


/-! ## One line -/

theorem newlineTable_newline : ¬ newlineTable.Raw (chr '\n') :=
  fun hraw => hraw.2.2 _ List.mem_cons_self rfl

theorem searchTable_newline : ¬ searchTable.Raw (chr '\n') :=
  fun hraw => hraw.2.2 _ List.mem_cons_self rfl

theorem acpTable_newline : ¬ acpTable.Raw (chr '\n') :=
  fun hraw => hraw.2.2 _ List.mem_cons_self rfl

theorem transcriptLine_line (sessionKey role content : Bytes) (created : Tm) :
    SingleLine (transcriptLine sessionKey role content created) :=
  ⟨_, transcriptLine_eq sessionKey role content created,
    EscapeTable.newline_not_mem_flat newlineTable_newline _⟩

theorem responseForMode_line (rendered : Bytes) : chr '\n' ∉ responseForMode .json rendered := by
  rw [responseForMode_eq, List.append_nil]
  exact EscapeTable.newline_not_mem_flat newlineTable_newline _

theorem buildSearchBody_line (query : Bytes) : chr '\n' ∉ buildSearchBody query := by
  rw [buildSearchBody_eq, List.append_nil]
  exact EscapeTable.newline_not_mem_flat searchTable_newline _

/-- A truth value is written in letters. -/
theorem boolText_bytes (b : Bool) : ∀ c ∈ jsonText (.bool b), chr 'a' ≤ c ∧ c ≤ 0x7F := by
  cases b with
  | true => exact bytes_forall (by decide)
  | false => exact bytes_forall (by decide)

theorem paramsTexts_newline (sessionId kind name text : Bytes) (finished : Bool) :
    ∀ m ∈ paramsTexts sessionId kind name text finished, chr '\n' ∉ m.text := by
  intro m hm
  rw [paramsTexts, List.mem_append, List.mem_singleton] at hm
  rcases hm with hm | rfl
  · obtain ⟨n, -, rfl⟩ := List.mem_map.mp hm
    exact EscapeTable.newline_not_mem_quoted acpTable_newline n.2
  · intro hmem
    exact absurd (boolText_bytes finished _ hmem).1 (by decide)

theorem acpEmitUpdate_line (sessionId kind name text : Bytes) (finished : Bool) :
    SingleLine (acpEmitUpdate sessionId kind name text finished) := by
  refine ⟨_, acpEmitUpdate_eq sessionId kind name text finished,
    EscapeTable.newline_not_mem_object acpTable_newline fun m hm => ?_⟩
  rw [updateTexts, List.mem_cons, List.mem_cons, List.mem_singleton] at hm
  rcases hm with rfl | rfl | rfl
  · exact EscapeTable.newline_not_mem_quoted acpTable_newline _
  · exact EscapeTable.newline_not_mem_quoted acpTable_newline _
  · exact EscapeTable.newline_not_mem_object acpTable_newline
      (paramsTexts_newline sessionId kind name text finished)

/-! ## Reading back -/

/-- **A transcript line** is read back exactly if its strings have no control bytes but newlines. -/
theorem transcriptLine_iff {sessionKey role content : Bytes} (hkey : strIsValidUtf8 sessionKey = true)
    (hrole : strIsValidUtf8 role = true) (hcontent : strIsValidUtf8 content = true) (created : Tm) :
    jsonParse (transcriptLine sessionKey role content created) =
        .ok (EscapeTable.flatTree (transcriptMembers sessionKey role content created)) ↔
      ControlsOnly [chr '\n'] sessionKey ∧ ControlsOnly [chr '\n'] role ∧
        ControlsOnly [chr '\n'] content := by
  have htime : newlineTable.Clean (timeFormatRfc3339 created) ∧
      strIsValidUtf8 (timeFormatRfc3339 created) = true :=
    ⟨EscapeTable.clean_of_printable _ fun b hb => (timeFormat_bytes created b hb).1,
      utf8_ascii fun b hb => (timeFormat_bytes created b hb).2⟩
  have hkeys : ∀ m ∈ transcriptMembers sessionKey role content created,
      newlineTable.Clean m.1 ∧ strIsValidUtf8 m.1 = true := by
    simp only [transcriptMembers, List.forall_mem_cons]
    exact ⟨EscapeTable.key_clean _ (by decide), EscapeTable.key_clean _ (by decide),
      EscapeTable.key_clean _ (by decide), EscapeTable.key_clean _ (by decide),
      fun m hm => absurd hm List.not_mem_nil⟩
  have hutf8 : ∀ m ∈ transcriptMembers sessionKey role content created, strIsValidUtf8 m.2 = true := by
    simp only [transcriptMembers, List.forall_mem_cons]
    exact ⟨hkey, hrole, hcontent, htime.2, fun m hm => absurd hm List.not_mem_nil⟩
  have hne : transcriptMembers sessionKey role content created ≠ [] := List.cons_ne_nil _ _
  rw [transcriptLine_eq, EscapeTable.flat_iff hne (fun m hm => (hkeys m hm).1)
    (fun m hm => ⟨(hkeys m hm).2, hutf8 m hm⟩) (by decide) (by decide)]
  simp only [transcriptMembers, List.forall_mem_cons, newlineTable_clean]
  constructor
  · rintro ⟨h1, h2, h3, -⟩
    exact ⟨h1, h2, h3⟩
  · rintro ⟨h1, h2, h3⟩
    exact ⟨h1, h2, h3, newlineTable_clean.mp htime.1, fun m hm => absurd hm List.not_mem_nil⟩

/-- An object of one string. -/
theorem single_iff {table : EscapeTable} {key s : Bytes}
    (hkey : printable key = true) (hs : strIsValidUtf8 s = true) :
    jsonParse (table.flatText [(key, s)] ++ []) = .ok (EscapeTable.flatTree [(key, s)]) ↔ table.Clean s := by
  have hmembers : ∀ {P : Bytes × Bytes → Prop}, (∀ m ∈ [(key, s)], P m) ↔ P (key, s) :=
    List.forall_mem_singleton
  rw [EscapeTable.flat_iff (List.cons_ne_nil _ _) (hmembers.mpr (EscapeTable.key_clean table hkey).1)
    (hmembers.mpr ⟨(EscapeTable.key_clean table hkey).2, hs⟩) (by decide) (by decide)]
  exact hmembers

/-- The members of an update are read back, whatever they hold. -/
theorem paramsTexts_reads (sessionId kind name text : Bytes) (finished : Bool) (levels : Nat) :
    ∀ m ∈ paramsTexts sessionId kind name text finished, m.Reads acpTable.byte (parseValue (levels + 1)) := by
  intro m hm
  rw [paramsTexts, List.mem_append, List.mem_singleton] at hm
  rcases hm with hm | rfl
  · obtain ⟨n, -, rfl⟩ := List.mem_map.mp hm
    exact EscapeTable.member_reads (acpTable_clean _) (acpTable_clean _) levels
  · exact ⟨fun b hb => EscapeTable.byte_escapes (acpTable_clean (str "finished") b hb),
      ReadsTo.bool finished levels⟩

theorem updateTexts_reads (sessionId kind name text : Bytes) (finished : Bool) :
    ∀ m ∈ updateTexts sessionId kind name text finished, m.Reads acpTable.byte (parseValue jsonMaxDepth) := by
  have hparams : paramsTexts sessionId kind name text finished ≠ [] := List.append_ne_nil_of_right_ne_nil _
    (List.cons_ne_nil _ _)
  have hvalue := ReadsTo.object hparams (paramsTexts_reads sessionId kind name text finished 62)
  rw [paramsTexts, List.map_append, List.map_map] at hvalue
  intro m hm
  rw [updateTexts, List.mem_cons, List.mem_cons, List.mem_singleton] at hm
  rcases hm with rfl | rfl | rfl
  · exact EscapeTable.member_reads (acpTable_clean _) (acpTable_clean _) 63
  · exact EscapeTable.member_reads (acpTable_clean _) (acpTable_clean _) 63
  · exact ⟨fun b hb => EscapeTable.byte_escapes (acpTable_clean (str "params") b hb), hvalue⟩

/-- The strings of an update are valid UTF-8. -/
theorem updateMembers_utf8 {sessionId kind name text : Bytes} (hid : strIsValidUtf8 sessionId = true)
    (hkind : strIsValidUtf8 kind = true) (hname : strIsValidUtf8 name = true)
    (htext : strIsValidUtf8 text = true) :
    ∀ m ∈ updateMembers sessionId kind name text, strIsValidUtf8 m.1 = true ∧ strIsValidUtf8 m.2 = true := by
  have hoptional : ∀ (key : String) {s : Bytes}, strIsValidUtf8 (str key) = true → strIsValidUtf8 s = true →
      ∀ m ∈ unlessEmpty key s, strIsValidUtf8 m.1 = true ∧ strIsValidUtf8 m.2 = true := by
    intro key s hkey hs m hm
    rw [unlessEmpty] at hm
    split at hm
    · rw [List.mem_singleton.mp hm]
      exact ⟨hkey, hs⟩
    · exact absurd hm List.not_mem_nil
  intro m hm
  rw [updateMembers, List.mem_append, List.mem_append, List.mem_cons, List.mem_singleton] at hm
  rcases hm with ((hm | hm) | hm) | hm
  · rw [hm]
    exact ⟨printable_utf8 (show printable (str "sessionId") = true by decide), hid⟩
  · rw [hm]
    exact ⟨printable_utf8 (show printable (str "kind") = true by decide), hkind⟩
  · exact hoptional "name" (printable_utf8 (by decide)) hname m hm
  · exact hoptional "text" (printable_utf8 (by decide)) htext m hm

/-- The texts of an update are valid UTF-8. -/
theorem updateTexts_utf8 {sessionId kind name text : Bytes} (hid : strIsValidUtf8 sessionId = true)
    (hkind : strIsValidUtf8 kind = true) (hname : strIsValidUtf8 name = true)
    (htext : strIsValidUtf8 text = true) (finished : Bool) :
    strIsValidUtf8 (objectText acpTable.byte (updateTexts sessionId kind name text finished)) = true := by
  have hmembers := updateMembers_utf8 hid hkind hname htext
  have hparams : strIsValidUtf8 (objectText acpTable.byte (paramsTexts sessionId kind name text finished)) =
      true := by
    refine utf8_objectText fun m hm => ?_
    rw [paramsTexts, List.mem_append, List.mem_singleton] at hm
    rcases hm with hm | hm
    · obtain ⟨n, hn, rfl⟩ := List.mem_map.mp hm
      exact ⟨EscapeTable.quoted_utf8 (hmembers n hn).1, EscapeTable.quoted_utf8 (hmembers n hn).2⟩
    · subst hm
      exact ⟨EscapeTable.quoted_utf8 (printable_utf8 (show printable (str "finished") = true by decide)),
        utf8_ascii fun b hb => (boolText_bytes finished b hb).2⟩
  refine utf8_objectText fun m hm => ?_
  rw [updateTexts, List.mem_cons, List.mem_cons, List.mem_singleton] at hm
  have hword : ∀ {w : Bytes}, strIsValidUtf8 w = true → strIsValidUtf8 (quoted acpTable.byte w) = true :=
    fun h => EscapeTable.quoted_utf8 h
  rcases hm with hm | hm | hm
  · rw [hm]
    exact ⟨hword (printable_utf8 (show printable (str "jsonrpc") = true by decide)),
      hword (printable_utf8 (show printable (str "2.0") = true by decide))⟩
  · rw [hm]
    exact ⟨hword (printable_utf8 (show printable (str "method") = true by decide)),
      hword (printable_utf8 (show printable (str "session/update") = true by decide))⟩
  · rw [hm]
    exact ⟨hword (printable_utf8 (show printable (str "params") = true by decide)), hparams⟩

/-- **An update** is read back, whatever its strings are. -/
theorem acpEmitUpdate_reads {sessionId kind name text : Bytes} (hid : strIsValidUtf8 sessionId = true)
    (hkind : strIsValidUtf8 kind = true) (hname : strIsValidUtf8 name = true)
    (htext : strIsValidUtf8 text = true) (finished : Bool) :
    jsonParse (acpEmitUpdate sessionId kind name text finished) =
      .ok (updateTree sessionId kind name text finished) := by
  have hutf8 := utf8_append_of (updateTexts_utf8 hid hkind hname htext finished)
    (show strIsValidUtf8 [chr '\n'] = true by decide)
  have hblank : skipWs [chr '\n'] = [] := by decide
  have hread := jsonParse_members (updateTexts_reads sessionId kind name text finished) hblank hutf8
  rw [acpEmitUpdate_eq, hread]
  rfl

/-! ## The result -/

/-- **Writers and reader agree** exactly if no string holds a control byte that its escaper does not know. -/
theorem writersAgree_iff (i : Texts) (h : i.Valid) : WritersAgree i ↔ Writable i := by
  have hreply : jsonParse (responseForMode .json i.rendered) =
      .ok (EscapeTable.flatTree [(str "text", i.rendered)]) ↔ ControlsOnly [chr '\n'] i.rendered := by
    rw [responseForMode_eq, single_iff (by decide) h.rendered, newlineTable_clean]
  have hsearch : jsonParse (buildSearchBody i.query) = .ok (EscapeTable.flatTree [(str "q", i.query)]) ↔
      ControlsOnly [chr '\n', chr '\r'] i.query := by
    rw [buildSearchBody_eq, single_iff (by decide) h.query, searchTable_clean]
  have hline := transcriptLine_iff h.sessionKey h.role h.content i.created
  constructor
  · intro hagree
    obtain ⟨hkey, hrole, hcontent⟩ := hline.mp hagree.transcript.2
    exact ⟨hkey, hrole, hcontent, hreply.mp hagree.reply.2, hsearch.mp hagree.search.2⟩
  · intro hw
    exact
      { transcript := ⟨transcriptLine_line _ _ _ _, hline.mpr ⟨hw.sessionKey, hw.role, hw.content⟩⟩
        reply := ⟨responseForMode_line _, hreply.mpr hw.rendered⟩
        search := ⟨buildSearchBody_line _, hsearch.mpr hw.query⟩
        update := ⟨acpEmitUpdate_line _ _ _ _ _,
          acpEmitUpdate_reads h.sessionId h.kind h.name h.text i.finished⟩ }

/-- Texts without a control byte, but for the message. -/
def sample (content : Bytes) : Texts :=
  { sessionKey := str "web_main_u1", role := str "user", content := content
    created := { year := 2024, month := 2, mday := 29, hour := 12, minute := 0, second := 5 }
    rendered := str "done", query := str "lean", sessionId := str "s1", kind := str "text", name := []
    text := str "hello", finished := true }

theorem sample_valid {content : Bytes} (h : strIsValidUtf8 content = true) : (sample content).Valid where
  sessionKey := printable_utf8 (show printable (str "web_main_u1") = true by decide)
  role := printable_utf8 (show printable (str "user") = true by decide)
  content := h
  rendered := printable_utf8 (show printable (str "done") = true by decide)
  query := printable_utf8 (show printable (str "lean") = true by decide)
  sessionId := printable_utf8 (show printable (str "s1") = true by decide)
  kind := printable_utf8 (show printable (str "text") = true by decide)
  name := printable_utf8 (show printable [] = true by decide)
  text := printable_utf8 (show printable (str "hello") = true by decide)

/-- Printable texts are written as they are. -/
theorem controlsOnly_of_printable {known : List UInt8} {s : Bytes} (h : printable s = true) :
    ControlsOnly known s :=
  fun b hb hcontrol => absurd hcontrol (UInt8.not_lt.mpr (printable_bytes h b hb).1)

/-- A plain message is written and read back. -/
theorem writersAgree_plain : WritersAgree (sample (str "hi")) :=
  (writersAgree_iff (sample (str "hi")) (sample_valid (printable_utf8 (by decide)))).mpr
    ⟨controlsOnly_of_printable (by decide), controlsOnly_of_printable (by decide),
      controlsOnly_of_printable (by decide), controlsOnly_of_printable (by decide),
      controlsOnly_of_printable (by decide)⟩

/-- **A tab in a message** makes the transcript line unreadable. -/
theorem tab_unreadable : ¬ ∀ i : Texts, i.Valid → WritersAgree i := by
  have htab : strIsValidUtf8 [chr 'a', chr '\t', chr 'b'] = true := utf8_ascii (bytes_forall (by decide))
  intro hall
  have hvalid := sample_valid htab
  have hagree := hall _ hvalid
  have hline := transcriptLine_iff hvalid.sessionKey hvalid.role hvalid.content
    (sample [chr 'a', chr '\t', chr 'b']).created
  have hknown : chr '\t' ∈ [chr '\n'] := (hline.mp hagree.transcript.2).2.2 (chr '\t')
    (List.mem_cons_of_mem _ List.mem_cons_self) (by decide)
  exact absurd hknown (by decide)

end SmolClaw.Writers
