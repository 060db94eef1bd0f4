/-
  Log lines (`sc_log_write_to`, `src/observability/log.c`, without the ulog library).

  1. **Program** — an event is written as one line, either for the console (`write_console_fallback`, which
     writes texts as they are) or as a JSON object (`write_json_line`, which escapes them).  Field values are
     redacted first: whoever prints, buffers or forwards a field prints `logRedactField` of it, the value unless
     the field is marked secret or its KEY reads like that of a secret.

  2. **Specification** — `OneLine`: one newline, at the end; nothing of a secret value; and the JSON line
     decodes to the event.

  3. **Defect** — the console line escapes nothing: a newline in a value, a key, the target or the event key
     forges a second line.

  4. **Result** — `oneLine_iff`: exactly without such newlines is an event one line.
-/
import SmolClaw.Json.Escape

namespace SmolClaw.Log

/-! ## Fields and their redaction -/

/-- `sc_log_field`; the key is a C string, or null. -/
structure LogField where
  key : Option Bytes
  value : Bytes
  secret : Bool
  deriving DecidableEq, Repr

/-- `contains_ignore_case` -/
def containsIgnoreCase (text needle : Bytes) : Bool :=
  !needle.isEmpty && strContainsCasefold text needle

/-- `key_is_public_diagnostic` -/
def keyIsPublicDiagnostic (key : Bytes) : Bool := key.map toLower == str "error_key"

/-- The needles of `key_looks_secret`, in its order. -/
def secretNeedles : List Bytes :=
  [str "key", str "token", str "secret", str "password", str "authorization", str "auth",
    str "cookie", str "pairing", str "otp", str "prompt", str "raw_message", str "channel_message",
    str "payload", str "body", str "content", str "private_file", str "file_content", str "header"]

/-- `key_looks_secret` -/
def keyLooksSecret : Option Bytes → Bool
  | none => false
  | some key => !keyIsPublicDiagnostic key && secretNeedles.any (containsIgnoreCase key)

/-- `sc_log_redact_field` -/
def logRedactField (field : LogField) : Bytes :=
  if field.secret || keyLooksSecret field.key then str "[REDACTED]" else field.value

/-! ## Program -/

/-- `sc_log_level` -/
inductive LogLevel where
  | trace
  | debug
  | info
  | warn
  | error
  | fatal
  | off
  deriving DecidableEq

/-- `sc_log_level_name` -/
def logLevelName : LogLevel → Bytes
  | .trace => str "trace"
  | .debug => str "debug"
  | .info => str "info"
  | .warn => str "warn"
  | .error => str "error"
  | .fatal => str "fatal"
  | .off => str "off"

/-- `sc_log_format` -/
inductive LogFormat where
  | console
  | json
  deriving DecidableEq

/-- What `sc_log_write_to` is given; the target and the event key are C strings, or null. -/
structure LogEvent where
  level : LogLevel
  target : Option Bytes
  eventKey : Option Bytes
  fields : List LogField

/-- The target that is written. -/
def LogEvent.shownTarget (event : LogEvent) : Bytes := event.target.getD (str "sc")

/-- The event key that is written. -/
def LogEvent.shownEvent (event : LogEvent) : Bytes := event.eventKey.getD (str "sc.log.event")

/-- The key that is written for a field. -/
def shownKey (field : LogField) : Bytes := field.key.getD (str "field")

/-- One field of a console line. -/
def consoleField (field : LogField) : Bytes := str " " ++ shownKey field ++ str "=" ++ logRedactField field

/-- `write_console_fallback` -/
def writeConsoleFallback (event : LogEvent) : Bytes :=
  str "level=" ++ logLevelName event.level ++ str " target=" ++ event.shownTarget ++ str " event=" ++
    event.shownEvent ++ event.fields.flatMap consoleField ++ str "\n"

theorem logLetters_read :
    ([(chr '\x08', chr 'b'), (chr '\x0c', chr 'f'), (chr '\n', chr 'n'), (chr '\r', chr 'r'),
      (chr '\t', chr 't')].all fun p => simpleEscape p.2 == some p.1) = true := by decide

/-- What `write_json_string` knows. -/
def logTable : EscapeTable :=
  ⟨[(chr '\x08', chr 'b'), (chr '\x0c', chr 'f'), (chr '\n', chr 'n'), (chr '\r', chr 'r'),
    (chr '\t', chr 't')], true, logLetters_read⟩

/-- `write_json_string` -/
def writeJsonString (value : Bytes) : Bytes := quoted logTable.byte value

/-- One field of a JSON line. -/
def jsonField (field : LogField) : Bytes :=
  writeJsonString (shownKey field) ++ str ":" ++ writeJsonString (logRedactField field)

/-- `write_json_line` -/
def writeJsonLine (event : LogEvent) : Bytes :=
  str "\x7b\"level\":" ++ writeJsonString (logLevelName event.level) ++ str ",\"target\":" ++
    writeJsonString event.shownTarget ++ str ",\"event\":" ++ writeJsonString event.shownEvent ++
    str ",\"fields\":\x7b" ++ commaSeparated (event.fields.map jsonField) ++ str "\x7d\x7d\n"

/-- `sc_log_write_to` -/
def logWriteTo (format : LogFormat) (event : LogEvent) : Bytes :=
  match format with
  | .json => writeJsonLine event
  | .console => writeConsoleFallback event

/-! ## Specification -/

/-- A field whose value must not be seen. -/
def Hidden (field : LogField) : Prop := field.secret = true ∨ keyLooksSecret field.key = true

/-- The same field, but perhaps for a hidden value. -/
structure AlikeField (field other : LogField) : Prop where
  key : other.key = field.key
  secret : other.secret = field.secret
  value : ¬ Hidden field → other.value = field.value

/-- The same event, but perhaps for hidden values. -/
structure AlikeEvent (event other : LogEvent) : Prop where
  level : other.level = event.level
  target : other.target = event.target
  eventKey : other.eventKey = event.eventKey
  fields : List.Forall₂ AlikeField event.fields other.fields

/-- The texts of an event are valid UTF-8. -/
structure LogEvent.Valid (event : LogEvent) : Prop where
  target : strIsValidUtf8 event.shownTarget = true
  eventKey : strIsValidUtf8 event.shownEvent = true
  fields : ∀ field ∈ event.fields, strIsValidUtf8 (shownKey field) = true ∧ strIsValidUtf8 field.value = true

/-- The tree of an event, with its redacted fields in order. -/
def LogEvent.tree (event : LogEvent) : Json :=
  .object [(str "level", .string (logLevelName event.level)), (str "target", .string event.shownTarget),
    (str "event", .string event.shownEvent),
    (str "fields", .object (event.fields.map fun field => (shownKey field, .string (logRedactField field))))]

/-- **One event, one line.** -/
structure OneLine (format : LogFormat) (event : LogEvent) : Prop where
  line : SingleLine (logWriteTo format event)
  secrecy : ∀ other, AlikeEvent event other → logWriteTo format other = logWriteTo format event
  decodes : format = .json → event.Valid → jsonParse (logWriteTo format event) = .ok event.tree

/-- No newline in what a console line shows. -/
structure LogEvent.Unbroken (event : LogEvent) : Prop where
  target : chr '\n' ∉ event.shownTarget
  eventKey : chr '\n' ∉ event.shownEvent
  keys : ∀ field ∈ event.fields, chr '\n' ∉ shownKey field
  values : ∀ field ∈ event.fields, ¬ Hidden field → chr '\n' ∉ field.value

/-! ## Secrecy -/

theorem logRedactField_hidden {field : LogField} (h : Hidden field) :
    logRedactField field = str "[REDACTED]" := by
  rw [logRedactField, if_pos (Bool.or_eq_true_iff.mpr h)]

theorem logRedactField_open {field : LogField} (h : ¬ Hidden field) : logRedactField field = field.value := by
  rw [logRedactField, if_neg fun hor => h (Bool.or_eq_true_iff.mp hor)]

/-- A redacted field says nothing about a hidden value. -/
theorem AlikeField.redact {field other : LogField} (h : AlikeField field other) :
    logRedactField other = logRedactField field := by
  by_cases hhidden : Hidden field
  · have hother : Hidden other := by rwa [Hidden, h.secret, h.key]
    rw [logRedactField_hidden hhidden, logRedactField_hidden hother]
  · have hother : ¬ Hidden other := by rwa [Hidden, h.secret, h.key]
    rw [logRedactField_open hhidden, logRedactField_open hother, h.value hhidden]

/-- What is made of keys and redacted values is the same for alike fields. -/
theorem map_alike {α : Type} {f : LogField → α}
    (hf : ∀ field other, AlikeField field other → f other = f field) {fields others : List LogField}
    (h : List.Forall₂ AlikeField fields others) : others.map f = fields.map f := by
  induction h with
  | nil => rfl
  | cons hfield _ ih => rw [List.map_cons, List.map_cons, hf _ _ hfield, ih]

theorem AlikeField.shownKey_eq {field other : LogField} (h : AlikeField field other) :
    shownKey other = shownKey field := by
  rw [shownKey, shownKey, h.key]

theorem logWriteTo_alike (format : LogFormat) {event other : LogEvent} (h : AlikeEvent event other) :
    logWriteTo format other = logWriteTo format event := by
  have htarget : other.shownTarget = event.shownTarget := by
    rw [LogEvent.shownTarget, LogEvent.shownTarget, h.target]
  have hevent : other.shownEvent = event.shownEvent := by
    rw [LogEvent.shownEvent, LogEvent.shownEvent, h.eventKey]
  cases format with
  | console =>
    have hfields : other.fields.map consoleField = event.fields.map consoleField :=
      map_alike (fun field other halike => by
        rw [consoleField, consoleField, halike.shownKey_eq, halike.redact]) h.fields
    show writeConsoleFallback other = writeConsoleFallback event
    rw [writeConsoleFallback, writeConsoleFallback, htarget, hevent, h.level, List.flatMap_def,
      List.flatMap_def, hfields]
  | json =>
    have hfields : other.fields.map jsonField = event.fields.map jsonField :=
      map_alike (fun field other halike => by
        rw [jsonField, jsonField, halike.shownKey_eq, halike.redact]) h.fields
    show writeJsonLine other = writeJsonLine event
    rw [writeJsonLine, writeJsonLine, htarget, hevent, h.level, hfields]

/-! ## The console line -/

theorem newline_not_mem_levelName (level : LogLevel) : chr '\n' ∉ logLevelName level := by
  cases level <;> decide

theorem consoleField_newline {field : LogField} :
    chr '\n' ∉ consoleField field ↔ chr '\n' ∉ shownKey field ∧ chr '\n' ∉ logRedactField field := by
  have hspace : chr '\n' ∉ str " " := by decide
  have hequals : chr '\n' ∉ str "=" := by decide
  simp only [consoleField, List.mem_append, hspace, hequals, false_or, or_false, not_or]

/-- A redacted value has a newline only if it is shown and has one. -/
theorem redacted_newline {field : LogField} :
    chr '\n' ∉ logRedactField field ↔ (¬ Hidden field → chr '\n' ∉ field.value) := by
  by_cases hhidden : Hidden field
  · rw [logRedactField_hidden hhidden]
    exact ⟨fun _ hopen => absurd hhidden hopen, fun _ => by decide⟩
  · rw [logRedactField_open hhidden]
    exact ⟨fun h _ => h, fun h => h hhidden⟩

/-- **A console line** is one line exactly if nothing it shows has a newline. -/
theorem writeConsoleFallback_iff (event : LogEvent) :
    SingleLine (writeConsoleFallback event) ↔ event.Unbroken := by
  have hlevel := newline_not_mem_levelName event.level
  have h1 : chr '\n' ∉ str "level=" := by decide
  have h2 : chr '\n' ∉ str " target=" := by decide
  have h3 : chr '\n' ∉ str " event=" := by decide
  have hbody : SingleLine (writeConsoleFallback event) ↔ chr '\n' ∉
      str "level=" ++ logLevelName event.level ++ str " target=" ++ event.shownTarget ++ str " event=" ++
        event.shownEvent ++ event.fields.flatMap consoleField := by
    constructor
    · rintro ⟨body, hbody, hnone⟩
      rwa [(List.append_inj' hbody rfl).1]
    · intro hnone
      exact ⟨_, rfl, hnone⟩
  rw [hbody]
  simp only [List.mem_append, List.mem_flatMap, h1, h2, h3, hlevel, false_or, or_false, not_or, not_exists,
    not_and]
  constructor
  · rintro ⟨⟨htarget, hevent⟩, hfields⟩
    exact ⟨htarget, hevent, fun field hf => (consoleField_newline.mp (hfields field hf)).1,
      fun field hf => redacted_newline.mp (consoleField_newline.mp (hfields field hf)).2⟩
  · intro h
    exact ⟨⟨h.target, h.eventKey⟩, fun field hf => consoleField_newline.mpr ⟨h.keys field hf,
      redacted_newline.mpr (h.values field hf)⟩⟩

/-! ## The JSON line -/

/-- Every control byte is a letter or a code point. -/
theorem logTable_clean (s : Bytes) : logTable.Clean s :=
  fun _ _ hraw => absurd hraw.2.1 (Bool.noConfusion)

theorem logTable_newline : ¬ logTable.Raw (chr '\n') :=
  fun hraw => absurd hraw.2.1 (Bool.noConfusion)

/-- The members of the object behind `fields`. -/
def fieldTexts (event : LogEvent) : List MemberText :=
  event.fields.map fun field => logTable.member (shownKey field) (logRedactField field)

/-- The members of a JSON line. -/
def lineTexts (event : LogEvent) : List MemberText :=
  [logTable.member (str "level") (logLevelName event.level), logTable.member (str "target") event.shownTarget,
    logTable.member (str "event") event.shownEvent,
    { key := str "fields"
      text := objectText logTable.byte (fieldTexts event)
      value := .object (event.fields.map fun field => (shownKey field, .string (logRedactField field))) }]

theorem jsonField_eq (field : LogField) :
    jsonField field = (logTable.member (shownKey field) (logRedactField field)).render logTable.byte := by
  rw [jsonField, List.append_assoc]
  rfl

theorem writeJsonLine_eq (event : LogEvent) :
    writeJsonLine event = objectText logTable.byte (lineTexts event) ++ [chr '\n'] := by
  have hlevel : ∀ s : Bytes, str "\x7b\"level\":" ++ s =
      chr '\x7b' :: (quoted logTable.byte (str "level") ++ chr ':' :: s) := fun _ => rfl
  have htarget : ∀ s : Bytes, str ",\"target\":" ++ s =
      chr ',' :: (quoted logTable.byte (str "target") ++ chr ':' :: s) := fun _ => rfl
  have hevent : ∀ s : Bytes, str ",\"event\":" ++ s =
      chr ',' :: (quoted logTable.byte (str "event") ++ chr ':' :: s) := fun _ => rfl
  have hfields : ∀ s : Bytes, str ",\"fields\":\x7b" ++ s =
      chr ',' :: (quoted logTable.byte (str "fields") ++ chr ':' :: chr '\x7b' :: s) := fun _ => rfl
  have hclose : str "\x7d\x7d\n" = [chr '\x7d', chr '\x7d', chr '\n'] := rfl
  have hmembers : event.fields.map jsonField = (fieldTexts event).map (·.render logTable.byte) := by
    rw [fieldTexts, List.map_map]
    exact List.map_congr_left fun field _ => jsonField_eq field
  rw [writeJsonLine, hclose, hmembers]
  simp only [List.append_assoc, hlevel, htarget, hevent, hfields]
  simp only [lineTexts, objectText, List.map_cons, List.map_nil, commaSeparated, MemberText.render,
    EscapeTable.member, writeJsonString, List.append_assoc, List.cons_append, List.nil_append]

theorem writeJsonLine_line (event : LogEvent) : SingleLine (writeJsonLine event) := by
  refine ⟨_, writeJsonLine_eq event, EscapeTable.newline_not_mem_object logTable_newline fun m hm => ?_⟩
  rw [lineTexts, List.mem_cons, List.mem_cons, List.mem_cons, List.mem_singleton] at hm
  rcases hm with rfl | rfl | rfl | rfl
  · exact EscapeTable.newline_not_mem_quoted logTable_newline _
  · exact EscapeTable.newline_not_mem_quoted logTable_newline _
  · exact EscapeTable.newline_not_mem_quoted logTable_newline _
  · refine EscapeTable.newline_not_mem_object logTable_newline fun n hn => ?_
    obtain ⟨field, -, rfl⟩ := List.mem_map.mp hn
    exact EscapeTable.newline_not_mem_quoted logTable_newline _

theorem fieldTexts_reads (event : LogEvent) (levels : Nat) :
    ∀ m ∈ fieldTexts event, m.Reads logTable.byte (parseValue (levels + 1)) := by
  intro m hm
  obtain ⟨field, -, rfl⟩ := List.mem_map.mp hm
  exact EscapeTable.member_reads (logTable_clean _) (logTable_clean _) levels

theorem lineTexts_reads (event : LogEvent) :
    ∀ m ∈ lineTexts event, m.Reads logTable.byte (parseValue jsonMaxDepth) := by
  have hfields := ReadsTo.members (fieldTexts_reads event 62)
  rw [fieldTexts, List.map_map] at hfields
  intro m hm
  rw [lineTexts, List.mem_cons, List.mem_cons, List.mem_cons, List.mem_singleton] at hm
  rcases hm with rfl | rfl | rfl | rfl
  · exact EscapeTable.member_reads (logTable_clean _) (logTable_clean _) 63
  · exact EscapeTable.member_reads (logTable_clean _) (logTable_clean _) 63
  · exact EscapeTable.member_reads (logTable_clean _) (logTable_clean _) 63
  · exact ⟨fun b hb => EscapeTable.byte_escapes (logTable_clean (str "fields") b hb), hfields⟩

theorem logLevelName_printable (level : LogLevel) : printable (logLevelName level) = true := by
  cases level <;> decide

/-- What stands for a hidden value is valid UTF-8. -/
theorem redacted_utf8 {field : LogField} (h : strIsValidUtf8 field.value = true) :
    strIsValidUtf8 (logRedactField field) = true := by
  rw [logRedactField]
  split
  · exact printable_utf8 (by decide)
  · exact h

theorem lineTexts_utf8 {event : LogEvent} (h : event.Valid) :
    strIsValidUtf8 (objectText logTable.byte (lineTexts event)) = true := by
  have hword : ∀ {w : Bytes}, strIsValidUtf8 w = true → strIsValidUtf8 (quoted logTable.byte w) = true :=
    fun hw => EscapeTable.quoted_utf8 hw
  have hfields : strIsValidUtf8 (objectText logTable.byte (fieldTexts event)) = true := by
    refine utf8_objectText fun m hm => ?_
    obtain ⟨field, hf, rfl⟩ := List.mem_map.mp hm
    exact ⟨hword (h.fields field hf).1, hword (redacted_utf8 (h.fields field hf).2)⟩
  have hname : ∀ {w : Bytes}, printable w = true → strIsValidUtf8 (quoted logTable.byte w) = true :=
    fun hw => hword (printable_utf8 hw)
  refine utf8_objectText fun m hm => ?_
  rw [lineTexts, List.mem_cons, List.mem_cons, List.mem_cons, List.mem_singleton] at hm
  rcases hm with hm | hm | hm | hm
  · rw [hm]
    exact ⟨hname (w := str "level") (by decide), hname (logLevelName_printable event.level)⟩
  · rw [hm]
    exact ⟨hname (w := str "target") (by decide), hword h.target⟩
  · rw [hm]
    exact ⟨hname (w := str "event") (by decide), hword h.eventKey⟩
  · rw [hm]
    exact ⟨hname (w := str "fields") (by decide), hfields⟩

/-- **A JSON line** decodes to its event. -/
theorem writeJsonLine_reads {event : LogEvent} (h : event.Valid) :
    jsonParse (writeJsonLine event) = .ok event.tree := by
  have hutf8 := utf8_append_of (lineTexts_utf8 h) (show strIsValidUtf8 [chr '\n'] = true by decide)
  have hblank : skipWs [chr '\n'] = [] := by decide
  rw [writeJsonLine_eq, jsonParse_members (lineTexts_reads event) hblank hutf8]
  rfl

/-! ## The result -/

/-- **One event is one line** exactly if, on the console, nothing it shows has a newline. -/
theorem oneLine_iff (format : LogFormat) (event : LogEvent) :
    OneLine format event ↔ (format = .console → event.Unbroken) := by
  constructor
  · rintro h rfl
    exact (writeConsoleFallback_iff event).mp h.line
  · intro h
    refine ⟨?_, fun other halike => logWriteTo_alike format halike, ?_⟩
    · cases format with
      | console => exact (writeConsoleFallback_iff event).mpr (h rfl)
      | json => exact writeJsonLine_line event
    · rintro rfl hvalid
      exact writeJsonLine_reads hvalid

/-- **A newline in a value** forges a second console line. -/
theorem console_forged : ¬ ∀ (format : LogFormat) (event : LogEvent), OneLine format event := by
  intro hall
  have hline := hall .console
    { level := .warn, target := none, eventKey := none
      fields := [{ key := some (str "url"), value := str "a\nb", secret := false }] }
  have hunbroken := (writeConsoleFallback_iff _).mp hline.line
  have hopen : ¬ Hidden { key := some (str "url"), value := str "a\nb", secret := false } := by
    rintro (h | h)
    · cases h
    · exact absurd h (by decide)
  exact hunbroken.values _ List.mem_cons_self hopen (by decide)

end SmolClaw.Log
