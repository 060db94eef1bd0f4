/-
  Answers of an MCP server that is spoken to over HTTP (`maybe_extract_sse_payload`, `src/tools/mcp.c`).

  1. **Program** — the body is read line by line.  What follows `data:`, without the blanks and tabs in front
     of it, is joined with line feeds; without such a line the body is the answer itself.

  2. **Specification** — `HttpBody`: a message, or a stream of events that carry one message each, one of them
     the answer to the request.  The program looks for no id, so which of them it is matters to no proof.

  3. **Defects** — the lines of ALL events are joined: a notification in front of the answer or behind it
     becomes part of it.  And all leading blanks are cut off where an event stream has only one to spare.

  4. **Result** — `extract_iff`: a message is always returned, as none of its lines starts with `data:`; of a
     stream exactly the answer of one that is alone, and indented nowhere.  The blanks apart, no byte of the
     stream's data is lost, which tells the notifications from the answer.
-/
import SmolClaw.Json.Accepted
import SmolClaw.Tools.Mcp

namespace SmolClaw.Mcp

open Lib.JsonGrammar Lib.Separated

/-! ## Program -/

/-- A blank or a tab. -/
def sseBlank (c : UInt8) : Bool := c == chr ' ' || c == chr '\t'

/-- What a line adds to the payload; `none` without `data:`. -/
def sseData (line : Bytes) : Option Bytes :=
  let line := if line.getLast? = some (chr '\r') then line.dropLast else line
  if str "data:" <+: line then some ((line.drop 5).dropWhile sseBlank) else none

/-- A turn of the loop, with the builder once data was found. -/
def sseTurn (builder : Option Bytes) (line : Bytes) : Option Bytes :=
  match sseData line with
  | none => builder
  | some data =>
      match builder with
      | none => some data
      | some text => some (text ++ str "\n" ++ data)

/-- `maybe_extract_sse_payload` -/
def maybeExtractSsePayload (response : Bytes) : Bytes :=
  ((response.splitOn (chr '\n')).foldl sseTurn none).getD response

/-! ## Specification -/

/-- A line of an event stream: data, with the one blank that may follow the colon; or a comment or another
    field. -/
inductive SseField where
  | data (spaced : Bool) (content : Bytes)
  | other (text : Bytes)

def SseField.text : SseField → Bytes
  | .data spaced content => str "data:" ++ ((if spaced then str " " else []) ++ content)
  | .other text => text

/-- What a line carries. -/
def SseField.content : SseField → Option Bytes
  | .data _ content => some content
  | .other _ => none

/-- A line is on one line; its first blank is the one that may follow the colon; and another field has another
    name, which is all in front of the first colon. -/
structure SseField.Ok (field : SseField) : Prop where
  not_lf : chr '\n' ∉ field.text
  not_cr : chr '\r' ∉ field.text
  spaced : ∀ content, field = .data false content → content.head? ≠ some (chr ' ')
  named : ∀ text, field = .other text → text ≠ [] ∧ text.takeWhile (· != chr ':') ≠ str "data"

/-- Lines with line feeds between them. -/
def joinLines : List Bytes → Bytes
  | [] => []
  | line :: lines => line ++ lines.flatMap (chr '\n' :: ·)

/-- An event: its lines, each with its end, at least one of them data; and an empty line. -/
structure SseEvent where
  lines : List (SseField × LineEnd)
  last : LineEnd
  ok : ∀ l ∈ lines, l.1.Ok
  carries : lines.filterMap (·.1.content) ≠ []

def SseEvent.text (event : SseEvent) : Bytes :=
  event.lines.flatMap (fun l => l.1.text ++ l.2.text) ++ event.last.text

def SseEvent.contents (event : SseEvent) : List Bytes := event.lines.filterMap (·.1.content)

/-- What an event carries. -/
def SseEvent.data (event : SseEvent) : Bytes := joinLines event.contents

/-- A JSON object, whatever rules are added to the grammar: a JSON-RPC message is one. -/
def ObjectText (text : Bytes) : Prop :=
  ∃ (r : Rules) (levels : Nat) (i : Item),
    Derives r levels i.text ∧ i.text.head? = some (chr '\x7b') ∧ text = i.bytes

/-- **The body of a response**: a message, or the events before the answer, the answer, and those after it. -/
inductive HttpBody where
  | message (text : Bytes) (object : ObjectText text)
  | stream (before : List SseEvent) (answer : SseEvent) (after : List SseEvent)
      (objects : ∀ event ∈ before ++ answer :: after, ObjectText event.data)

def HttpBody.text : HttpBody → Bytes
  | .message text _ => text
  | .stream before answer after _ => (before ++ answer :: after).flatMap SseEvent.text

/-- The message that answers the request. -/
def HttpBody.answer : HttpBody → Bytes
  | .message text _ => text
  | .stream _ answer _ _ => answer.data

/-- Of the messages only the answer has the id of the request. -/
def HttpBody.Answers (wanted : Int) : HttpBody → Prop
  | .message text _ => hasId wanted text = true
  | .stream before answer after _ =>
      hasId wanted answer.data = true ∧ ∀ event ∈ before ++ after, hasId wanted event.data = false

/-- A message, or a stream of one event without a line that is indented. -/
def HttpBody.Alone : HttpBody → Prop
  | .message _ _ => True
  | .stream before answer after _ =>
      before = [] ∧ after = [] ∧ ∀ content ∈ answer.contents, ∀ c ∈ content.head?, sseBlank c = false

/-! ## Lines -/

theorem foldl_sseTurn_some (lines : List Bytes) : ∀ text : Bytes, lines.foldl sseTurn (some text) =
    some (text ++ (lines.filterMap sseData).flatMap (chr '\n' :: ·)) := by
  induction lines with
  | nil => intro text; rw [List.filterMap_nil, List.flatMap_nil, List.append_nil]; rfl
  | cons line lines ih =>
    intro text
    rw [List.foldl_cons]
    cases hdata : sseData line with
    | none =>
      rw [List.filterMap_cons_none hdata, ← ih text, sseTurn, hdata]
    | some data =>
      rw [List.filterMap_cons_some hdata, List.flatMap_cons, sseTurn, hdata, ih, List.append_assoc,
        List.append_assoc]
      rfl

/-- **What is extracted**: the data lines joined, or the body. -/
theorem extract_eq (response : Bytes) : maybeExtractSsePayload response =
    if (response.splitOn (chr '\n')).filterMap sseData = [] then response
    else joinLines ((response.splitOn (chr '\n')).filterMap sseData) := by
  have hfold : ∀ lines : List Bytes, lines.foldl sseTurn none =
      if lines.filterMap sseData = [] then none else some (joinLines (lines.filterMap sseData)) := by
    intro lines
    induction lines with
    | nil => rfl
    | cons line lines ih =>
      rw [List.foldl_cons]
      cases hdata : sseData line with
      | none => rw [List.filterMap_cons_none hdata, ← ih, sseTurn, hdata]
      | some data =>
        rw [List.filterMap_cons_some hdata, if_neg (List.cons_ne_nil _ _), sseTurn, hdata,
          foldl_sseTurn_some, joinLines]
  rw [maybeExtractSsePayload, hfold]
  split
  · rfl
  · rfl

/-- A line in front of its line feed. -/
def LineEnd.cr : LineEnd → Bytes
  | .crlf => [chr '\r']
  | .lf => []

theorem LineEnd.text_eq (e : LineEnd) : e.text = e.cr ++ [chr '\n'] := by
  cases e <;> rfl

theorem LineEnd.not_lf (e : LineEnd) : chr '\n' ∉ e.cr := by
  cases e <;> decide

/-- A CR at the end of a line is dropped. -/
theorem sseData_cr {text : Bytes} (h : chr '\r' ∉ text) (e : LineEnd) : sseData (text ++ e.cr) =
    if str "data:" <+: text then some ((text.drop 5).dropWhile sseBlank) else none := by
  cases e with
  | crlf =>
    unfold sseData
    rw [show text ++ LineEnd.cr .crlf = text ++ [chr '\r'] from rfl, List.getLast?_concat, if_pos rfl,
      List.dropLast_concat]
  | lf =>
    unfold sseData
    rw [show text ++ LineEnd.cr .lf = text from List.append_nil text,
      if_neg fun hlast => h (List.mem_of_getLast? hlast)]

/-- **What the program makes of a line.** -/
theorem SseField.Ok.sseData {field : SseField} (h : field.Ok) (e : LineEnd) :
    sseData (field.text ++ e.cr) = field.content.map (·.dropWhile sseBlank) := by
  rw [sseData_cr h.not_cr]
  cases field with
  | data spaced content =>
    rw [SseField.text, if_pos (List.prefix_append _ _)]
    cases spaced with
    | true => rfl
    | false => rfl
  | other text =>
    refine if_neg fun hdata => (h.named text rfl).2 ?_
    obtain ⟨rest, hrest⟩ := hdata
    rw [show text = str "data:" ++ rest from hrest.symm]
    rfl

theorem sseData_empty (e : LineEnd) : Mcp.sseData e.cr = none := by
  cases e <;> rfl

/-- The lines of an event, without their line feeds. -/
def SseEvent.rawLines (event : SseEvent) : List Bytes :=
  event.lines.map (fun l => l.1.text ++ l.2.cr) ++ [event.last.cr]

theorem SseEvent.text_eq (event : SseEvent) : event.text = event.rawLines.flatMap (· ++ [chr '\n']) := by
  rw [SseEvent.text, SseEvent.rawLines, List.flatMap_append, List.flatMap_map, List.flatMap_singleton,
    LineEnd.text_eq]
  congr 1
  refine List.flatMap_congr fun l _ => ?_
  rw [LineEnd.text_eq, List.append_assoc]

theorem SseEvent.rawLines_not_lf (event : SseEvent) : ∀ line ∈ event.rawLines, chr '\n' ∉ line := by
  intro line hline hmem
  rcases List.mem_append.mp hline with hline | hline
  · obtain ⟨l, hl, rfl⟩ := List.mem_map.mp hline
    rcases List.mem_append.mp hmem with hmem | hmem
    · exact (event.ok l hl).not_lf hmem
    · exact l.2.not_lf hmem
  · rw [List.mem_singleton.mp hline] at hmem
    exact event.last.not_lf hmem

theorem SseEvent.rawLines_data (event : SseEvent) :
    event.rawLines.filterMap sseData = event.contents.map (·.dropWhile sseBlank) := by
  rw [SseEvent.rawLines, List.filterMap_append, List.filterMap_cons_none (sseData_empty _),
    List.filterMap_nil, List.append_nil, SseEvent.contents, List.filterMap_map, List.map_filterMap]
  exact List.filterMap_congr fun l hl => (event.ok l hl).sseData l.2

/-- **What is extracted from a stream**: the lines of all events, each without its leading blanks. -/
theorem extract_stream {events : List SseEvent} {event : SseEvent} (h : event ∈ events) :
    maybeExtractSsePayload (events.flatMap SseEvent.text) =
      joinLines (events.flatMap fun e => e.contents.map (·.dropWhile sseBlank)) := by
  have htext : events.flatMap SseEvent.text =
      (events.flatMap SseEvent.rawLines).flatMap (· ++ [chr '\n']) := by
    rw [List.flatMap_assoc]
    exact List.flatMap_congr fun e _ => e.text_eq
  have hlines : ∀ line ∈ events.flatMap SseEvent.rawLines, chr '\n' ∉ line := by
    intro line hline
    obtain ⟨e, -, hline⟩ := List.mem_flatMap.mp hline
    exact e.rawLines_not_lf line hline
  have hdata : ((events.flatMap SseEvent.text).splitOn (chr '\n')).filterMap sseData =
      events.flatMap fun e => e.contents.map (·.dropWhile sseBlank) := by
    rw [htext, splitOn_terminated hlines, List.filterMap_append, List.filterMap_flatMap]
    rw [List.flatMap_congr fun e _ => e.rawLines_data]
    exact List.append_nil _
  have hsome : (events.flatMap fun e => e.contents.map (·.dropWhile sseBlank)) ≠ [] := by
    intro hnil
    have hnone := List.flatMap_eq_nil_iff.mp hnil event h
    exact event.carries (List.map_eq_nil_iff.mp hnone)
  rw [extract_eq, hdata, if_neg hsome]

/-! ## Bytes that are no blanks -/

/-- A byte that is never cut off, and stands between no lines. -/
def solid (c : UInt8) : Bool := !sseBlank c && c != chr '\n'

theorem joinLines_solid (lines : List Bytes) :
    (joinLines lines).filter solid = lines.flatMap (·.filter solid) := by
  cases lines with
  | nil => rfl
  | cons line lines =>
    have hrest : (lines.flatMap (chr '\n' :: ·)).filter solid = lines.flatMap (·.filter solid) := by
      rw [List.filter_flatMap]
      exact List.flatMap_congr fun l _ => List.filter_cons_of_neg (by decide)
    rw [joinLines, List.filter_append, hrest, List.flatMap_cons]

/-- Leading blanks are not solid. -/
theorem dropWhile_solid (line : Bytes) : (line.dropWhile sseBlank).filter solid = line.filter solid := by
  induction line with
  | nil => rfl
  | cons c line ih =>
    cases hc : sseBlank c with
    | true =>
      have hsolid : ¬ solid c = true := by
        unfold solid
        rw [hc]
        exact Bool.false_ne_true
      rw [List.dropWhile_cons_of_pos hc, ih, List.filter_cons_of_neg hsolid]
    | false => rw [List.dropWhile_cons_of_neg (by rw [hc]; decide)]

/-- **Nothing solid is lost** of the data of any event. -/
theorem extract_solid (events : List SseEvent) :
    (joinLines (events.flatMap fun e => e.contents.map (·.dropWhile sseBlank))).filter solid =
      events.flatMap fun e => e.data.filter solid := by
  rw [joinLines_solid, List.flatMap_assoc]
  refine List.flatMap_congr fun e _ => ?_
  rw [SseEvent.data, joinLines_solid, List.flatMap_map]
  exact List.flatMap_congr fun line _ => dropWhile_solid line

/-- An object has its brace. -/
theorem ObjectText.solid {text : Bytes} (h : ObjectText text) : text.filter Mcp.solid ≠ [] := by
  obtain ⟨r, levels, i, -, hhead, rfl⟩ := h
  intro hnil
  obtain ⟨rest, hrest⟩ := List.head?_eq_some_iff.mp hhead
  have hmem : chr '\x7b' ∈ i.bytes := by
    rw [Item.bytes, hrest]
    simp
  exact List.filter_eq_nil_iff.mp hnil _ hmem (by decide)

/-! ## Indented lines -/

/-- Lines that are as long without their leading blanks have none. -/
theorem dropWhile_eq_of_joinLines {lines : List Bytes}
    (h : joinLines (lines.map (·.dropWhile sseBlank)) = joinLines lines) :
    ∀ line ∈ lines, line.dropWhile sseBlank = line := by
  have hshort : ∀ line : Bytes, (line.dropWhile sseBlank).length ≤ line.length := fun line =>
    (List.dropWhile_suffix _).length_le
  have hsame : ∀ line : Bytes, line.length ≤ (line.dropWhile sseBlank).length →
      line.dropWhile sseBlank = line := fun line hlen => (List.dropWhile_suffix _).eq_of_length_le hlen
  have hrest : ∀ ls : List Bytes,
      ((ls.map (·.dropWhile sseBlank)).flatMap (chr '\n' :: ·)).length ≤ (ls.flatMap (chr '\n' :: ·)).length ∧
        ((ls.flatMap (chr '\n' :: ·)).length ≤
            ((ls.map (·.dropWhile sseBlank)).flatMap (chr '\n' :: ·)).length →
          ∀ line ∈ ls, line.dropWhile sseBlank = line) := by
    intro ls
    induction ls with
    | nil => exact ⟨Nat.le_refl 0, fun _ _ hline => absurd hline List.not_mem_nil⟩
    | cons l ls ih =>
      have hl := hshort l
      simp only [List.map_cons, List.flatMap_cons, List.length_append, List.length_cons, List.forall_mem_cons]
      exact ⟨by omega, fun hlen => ⟨hsame l (by omega), ih.2 (by omega)⟩⟩
  cases lines with
  | nil => exact fun _ hline => absurd hline List.not_mem_nil
  | cons line lines =>
    have hlen := congrArg List.length h
    have hline := hshort line
    have hlines := hrest lines
    simp only [List.map_cons, joinLines, List.length_append] at hlen
    rw [List.forall_mem_cons]
    exact ⟨hsame line (by omega), hlines.2 (by omega)⟩

theorem dropWhile_eq_self {line : Bytes} :
    line.dropWhile sseBlank = line ↔ ∀ c ∈ line.head?, sseBlank c = false := by
  cases line with
  | nil => simp
  | cons c line =>
    simp only [List.head?_cons, Option.mem_def, Option.some.injEq, forall_eq']
    cases hc : sseBlank c with
    | true =>
      rw [List.dropWhile_cons_of_pos hc]
      refine ⟨fun h => ?_, fun h => Bool.noConfusion h⟩
      have hlen := (List.dropWhile_suffix (l := line) sseBlank).length_le
      rw [h, List.length_cons] at hlen
      omega
    | false => exact ⟨fun _ => rfl, fun _ => List.dropWhile_cons_of_neg (by rw [hc]; decide)⟩

/-! ## The result -/

/-- No line of a message starts with `data:`. -/
theorem extract_message {text : Bytes} (h : ObjectText text) : maybeExtractSsePayload text = text := by
  have hnone : (text.splitOn (chr '\n')).filterMap sseData = [] := by
    refine List.filterMap_eq_nil_iff.mpr fun line hline => ?_
    obtain ⟨r, levels, i, hi, -, rfl⟩ := h
    obtain ⟨before, after, htext, hstart⟩ := mem_splitOn_starts hline
    have hstarts := Document.lineStarts ⟨i, hi, rfl⟩
    unfold sseData
    refine if_neg fun hdata => ?_
    -- with or without its CR, the line starts with a byte that no token starts with
    have hhead : ∃ rest, line = chr 'd' :: rest := by
      obtain ⟨rest, hrest⟩ := hdata
      split at hrest
      · next hlast =>
        obtain ⟨front, rfl⟩ := List.getLast?_eq_some_iff.mp hlast
        rw [List.dropLast_concat] at hrest
        exact ⟨str "ata:" ++ rest ++ [chr '\r'], by rw [← hrest]; rfl⟩
      · exact ⟨str "ata:" ++ rest, hrest.symm⟩
    obtain ⟨rest, rfl⟩ := hhead
    rw [List.append_assoc, List.cons_append] at htext
    exact absurd (hstarts before _ _ htext hstart) (by decide)
  rw [extract_eq, if_pos hnone]

/-- A stream whose answer is extracted has no other event, and no indented line. -/
theorem alone_of_extract {before after : List SseEvent} {answer : SseEvent}
    (objects : ∀ event ∈ before ++ answer :: after, ObjectText event.data)
    (h : maybeExtractSsePayload ((before ++ answer :: after).flatMap SseEvent.text) = answer.data) :
    before = [] ∧ after = [] ∧ ∀ content ∈ answer.contents, ∀ c ∈ content.head?, sseBlank c = false := by
  rw [extract_stream (List.mem_append_right before List.mem_cons_self)] at h
  have hsolid := congrArg (List.filter solid) h
  rw [extract_solid, List.flatMap_append, List.flatMap_cons] at hsolid
  have hlen := congrArg List.length hsolid
  rw [List.length_append, List.length_append] at hlen
  have hnone : ∀ events : List SseEvent, (∀ event ∈ events, ObjectText event.data) →
      (events.flatMap fun e => e.data.filter solid).length = 0 → events = [] := by
    intro events hobjects hzero
    cases events with
    | nil => rfl
    | cons e events =>
      have hnil := List.flatMap_eq_nil_iff.mp (List.length_eq_zero_iff.mp hzero) e List.mem_cons_self
      exact absurd hnil (hobjects e List.mem_cons_self).solid
  obtain rfl := hnone before (fun e he => objects e (List.mem_append_left _ he)) (by omega)
  obtain rfl := hnone after (fun e he => objects e (by simp [he])) (by omega)
  refine ⟨rfl, rfl, fun content hcontent => dropWhile_eq_self.mp ?_⟩
  rw [List.nil_append, List.flatMap_singleton] at h
  exact dropWhile_eq_of_joinLines h content hcontent

/-- **The answer is extracted exactly from a message, and from a stream of one event that is not
    indented.** -/
theorem extract_iff (body : HttpBody) : maybeExtractSsePayload body.text = body.answer ↔ body.Alone := by
  cases body with
  | message text object => exact iff_of_true (extract_message object) trivial
  | stream before answer after objects =>
    refine ⟨alone_of_extract objects, ?_⟩
    rintro ⟨rfl, rfl, hflat⟩
    show maybeExtractSsePayload (([] ++ [answer]).flatMap SseEvent.text) = answer.data
    rw [extract_stream (List.mem_append_right [] List.mem_cons_self), List.nil_append,
      List.flatMap_singleton, SseEvent.data]
    congr 1
    exact (List.map_congr_left fun content hcontent => dropWhile_eq_self.mpr (hflat content hcontent)).trans
      (List.map_id _)

/-! ## A notification in front of the answer -/

/-- What the reader takes for an object is the text of one. -/
theorem objectText_of_parse {text : Bytes} {members : List (Bytes × Json)}
    (h : jsonParse text = .ok (.object members)) : ObjectText text := by
  obtain ⟨i, hi, htext⟩ := jsonParse_spelled h
  exact ⟨_, _, i, hi.derives, hi.object_head, htext⟩

/-- An event of one line without line ends, behind the one blank. -/
def dataEvent (content : Bytes) (h : (content.all fun c => c != chr '\n' && c != chr '\r') = true) :
    SseEvent where
  lines := [(.data true content, .lf)]
  last := .lf
  ok := by
    intro l hl
    rw [List.mem_singleton.mp hl]
    have hbyte : ∀ c : UInt8, c ∈ str "data: " ++ content → c != chr '\n' && c != chr '\r' := by
      intro c hc
      rcases List.mem_append.mp hc with hc | hc
      · exact List.all_eq_true.mp (show (str "data: ").all (fun c => c != chr '\n' && c != chr '\r') = true by
          decide) c hc
      · exact List.all_eq_true.mp h c hc
    exact {
      not_lf := fun hmem => absurd (hbyte _ hmem) (by decide)
      not_cr := fun hmem => absurd (hbyte _ hmem) (by decide)
      spaced := fun _ hdata => by cases hdata
      named := fun _ hother => by cases hother }
  carries := List.cons_ne_nil _ _

def notificationText : Bytes := str "\x7b\"jsonrpc\":\"2.0\",\"method\":\"notifications/progress\"\x7d"

def answerText : Bytes := str "\x7b\"jsonrpc\":\"2.0\",\"id\":2,\"result\":\x7b\x7d\x7d"

/-- Both are objects, and the id tells the answer. -/
theorem messages_object : (isJsonObject notificationText = true ∧ isJsonObject answerText = true) ∧
    hasId 2 notificationText = false ∧ hasId 2 answerText = true := by
  decide +kernel

theorem objectText_of_isJsonObject {text : Bytes} (h : isJsonObject text = true) : ObjectText text := by
  unfold isJsonObject at h
  split at h
  · next members hparse => exact objectText_of_parse hparse
  · cases h

/-- **A notification in front of the answer becomes part of it.** -/
theorem extract_joins : ¬ ∀ (wanted : Int) (body : HttpBody), body.Answers wanted →
    maybeExtractSsePayload body.text = body.answer := by
  intro h
  obtain ⟨⟨hnotification, hanswer⟩, hother, hid⟩ := messages_object
  let first := dataEvent notificationText (by decide)
  let second := dataEvent answerText (by decide)
  have hfirst : first.data = notificationText := List.append_nil _
  have hsecond : second.data = answerText := List.append_nil _
  have hobjects : ∀ event ∈ [first] ++ second :: [], ObjectText event.data := by
    rw [List.singleton_append, List.forall_mem_cons, List.forall_mem_singleton, hfirst, hsecond]
    exact ⟨objectText_of_isJsonObject hnotification, objectText_of_isJsonObject hanswer⟩
  have hanswers : (HttpBody.stream [first] second [] hobjects).Answers 2 := by
    refine ⟨by rw [hsecond]; exact hid, ?_⟩
    rw [List.append_nil, List.forall_mem_singleton, hfirst]
    exact hother
  exact absurd (alone_of_extract hobjects (h 2 _ hanswers)).1 (List.cons_ne_nil _ _)

end SmolClaw.Mcp
