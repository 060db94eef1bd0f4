/-
  Answers of an MCP server that is spoken to through pipes (`src/tools/mcp.c`).

  1. **Program** — `extract_mcp_response` looks for a `Content-Length:`, reads a number behind it, looks
     for the end of the header, and hands as many bytes to the JSON reader; if they are no answer, it goes
     on behind them.  Each search is a `strstr`, which knows no end but the next zero.

  2. **Specification** — `FramesExactly`: the search ends without leaving the stream, and in a stream of
     framed messages it passes their bodies to the reader, one after the other, up to the answer.

  3. **Defects** — the offset and the length are added in 64 bits, so a length near `2 ^ 64` (or a
     negative one) passes the bounds check; an empty CRLF line is looked for first, however far behind an
     empty LF line it stands; the id is cut down to a whole number before it is compared.

  4. **Result** — `framesExactly_iff`: the specification is met exactly by the streams in which no length
     that is come to wraps around, no CRLF pair stands behind a header that ends in LF, and every id that
     becomes the wanted one by the cut is the wanted one.

  5. **Writing** — `written_extracted`: what `append_framed_json` writes comes apart where it was put together.
-/
import SmolClaw.Core.WholeNumber
import SmolClaw.Json.Parse
import SmolClaw.Lib.Infix
import SmolClaw.Net.Url

namespace SmolClaw.Mcp

open Lib.Infix Net

/-! ## Library functions -/

/-- `strstr`: how far behind its start a C string has the needle for the first time. -/
def strstr (text needle : Bytes) : Option Nat :=
  (firstInfix needle (text.takeWhile (· ≠ 0))).map fun p => p.1.length

/-- `strtoul(text, &end, 10)` with a 64-bit `unsigned long`: what does not fit is `ULONG_MAX`, and a
    minus sign negates the number in 64 bits. -/
def strtoul10 (text : Bytes) : Nat :=
  let (neg, rest) := scanSign (text.dropWhile isSpace)
  let value := decimalValue (rest.takeWhile isDigit)
  if 2 ^ 64 ≤ value then 2 ^ 64 - 1 else if neg then (2 ^ 64 - value) % 2 ^ 64 else value

/-! ## Program -/

/-- `append_framed_json` -/
def appendFramedJson (builder body : Bytes) : Res Bytes :=
  let header := str "Content-Length: " ++ decimal body.length ++ str "\r\n\r\n"
  if 64 ≤ header.length then Status.noMemory else .ok (builder ++ header ++ body)

/-- The first half of a turn of the loop: where the body starts, and the length that the header gives. -/
def nextBody (stream : Bytes) (offset : Nat) : Option (Nat × Nat) :=
  match strstr (stream.drop offset) (str "Content-Length:") with
  | none => none
  | some gap =>
      let header := offset + gap
      let length := strtoul10 (stream.drop (header + (str "Content-Length:").length))
      match strstr (stream.drop header) (str "\r\n\r\n") with
      | some gap => some (header + gap + 4, length)
      | none =>
          match strstr (stream.drop header) (str "\n\n") with
          | some gap => some (header + gap + 2, length)
          | none => none

/-- The span reads as JSON, and its `id` is a number that is the wanted one after the cast. -/
def answers (wanted : Int) (span : Bytes) : Bool :=
  match jsonParse span with
  | .error _ => false
  | .ok root =>
      match Json.asNumber (root.objectGet (str "id")) with
      | some id => id.toInt64 == wanted
      | none => false

/-- What a call does: the spans that it passes to `sc_json_parse`, by start and length, and what it
    returns; nothing if the last span leaves the stream, since what happens then is undefined. -/
structure Extraction where
  passed : List (Nat × Nat)
  result : Option (Res Bytes)
  deriving DecidableEq

/-- One more span before the others. -/
def Extraction.pass (span : Nat × Nat) (e : Extraction) : Extraction :=
  { e with passed := span :: e.passed }

/-- `sc.mcp_tool.response_not_found` -/
def responseNotFound : Extraction := ⟨[], some (Status.parse "sc.mcp_tool.response_not_found")⟩

/-- A turn of the loop ends it, or leaves a span that is no answer. -/
inductive Turn where
  | stop (e : Extraction)
  | next (span : Nat × Nat)
  deriving DecidableEq

/-- A turn of the loop of `extract_mcp_response`; sums are taken in a `size_t`. -/
def turn (stream : Bytes) (wanted : Int) (offset : Nat) : Turn :=
  if stream.length ≤ offset then .stop responseNotFound
  else
    match nextBody stream offset with
    | none => .stop responseNotFound
    | some (body, length) =>
        if length = 0 ∨ stream.length < (body + length) % 2 ^ 64 then .stop responseNotFound
        else if stream.length < body + length then .stop ⟨[(body, length)], none⟩
        else if answers wanted ((stream.drop body).take length) then
          .stop ⟨[(body, length)], some (.ok ((stream.drop body).take length))⟩
        else .next (body, length)

/-- The loop of `extract_mcp_response`, for so many turns at most. -/
def extractLoop (stream : Bytes) (wanted : Int) : Nat → Nat → Option Extraction
  | 0, _ => none
  | turns + 1, offset =>
      match turn stream wanted offset with
      | .stop e => some e
      | .next span => (extractLoop stream wanted turns (span.1 + span.2)).map (Extraction.pass span)

/-- `extract_mcp_response`, from an offset on, comes to an end and has done this. -/
def Extracts (stream : Bytes) (wanted : Int) (offset : Nat) (e : Extraction) : Prop :=
  ∃ turns, extractLoop stream wanted turns offset = some e

/-! ## Specification -/

/-- The end of a line. -/
inductive LineEnd where
  | crlf
  | lf

def LineEnd.text : LineEnd → Bytes
  | .crlf => str "\r\n"
  | .lf => str "\n"

/-- A framed message. -/
structure Message where
  lineEnd : LineEnd
  body : Bytes

/-- The header: its line, and an empty one. -/
def Message.header (m : Message) : Bytes :=
  str "Content-Length: " ++ decimal m.body.length ++ (m.lineEnd.text ++ m.lineEnd.text)

def Message.text (m : Message) : Bytes := m.header ++ m.body

def streamOf (messages : List Message) : Bytes := messages.flatMap Message.text

/-- The id of a body is the number `wanted`. -/
def hasId (wanted : Int) (body : Bytes) : Bool :=
  match jsonParse body with
  | .error _ => false
  | .ok root =>
      match Json.asNumber (root.objectGet (str "id")) with
      | some id => decide (id.IsWhole wanted)
      | none => false

/-- What is right for messages that start at an offset: their bodies are passed on up to the first with
    the id, which is returned. -/
def extractionOf (wanted : Int) : Nat → List Message → Extraction
  | _, [] => responseNotFound
  | offset, m :: messages =>
      let span := (offset + m.header.length, m.body.length)
      if hasId wanted m.body then ⟨[span], some (.ok m.body)⟩
      else (extractionOf wanted (span.1 + span.2) messages).pass span

/-- **Messages are framed exactly**, whatever bodies count as objects: the search ends and never leaves
    the stream, and it does what is right for a stream of messages. -/
structure FramesExactly (IsObject : Bytes → Prop) (stream : Bytes) (wanted : Int64) : Prop where
  inside : ∃ e result, Extracts stream wanted.toInt 0 e ∧ e.result = some result ∧
    ∀ span ∈ e.passed, span.1 + span.2 ≤ stream.length
  framed : ∀ messages, (∀ m ∈ messages, IsObject m.body) → stream = streamOf messages →
    Extracts stream wanted.toInt 0 (extractionOf wanted.toInt 0 messages)

/-! ## Condition -/

/-- The offsets that the loop comes to. -/
inductive Reaches (stream : Bytes) (wanted : Int) : Nat → Prop where
  | start : Reaches stream wanted 0
  | next {offset : Nat} {span : Nat × Nat} : Reaches stream wanted offset →
      turn stream wanted offset = .next span → Reaches stream wanted (span.1 + span.2)

/-- Up to the first message that is taken for the answer, no CRLF pair stands behind a header that ends
    in LF, and what is taken for the answer is the answer. -/
def Readable (wanted : Int) : List Message → Prop
  | [] => True
  | m :: messages =>
      (m.lineEnd = .lf → strstr (m.body ++ streamOf messages) (str "\r\n\r\n") = none) ∧
        (if answers wanted m.body then hasId wanted m.body = true else Readable wanted messages)

/-- **When messages are framed exactly.** -/
structure Measured (IsObject : Bytes → Prop) (stream : Bytes) (wanted : Int64) : Prop where
  lengths : ∀ offset body length, Reaches stream wanted.toInt offset →
    nextBody stream offset = some (body, length) → body + length < 2 ^ 64
  readable : ∀ messages, (∀ m ∈ messages, IsObject m.body) → stream = streamOf messages →
    Readable wanted.toInt messages

/-! ## Searching -/

theorem takeWhile_ne_zero {u : Bytes} (hu : (0 : UInt8) ∉ u) (v : Bytes) :
    (u ++ v).takeWhile (· ≠ 0) = u ++ v.takeWhile (· ≠ 0) :=
  List.takeWhile_append_of_pos fun _ hc => decide_eq_true fun hzero => hu (hzero ▸ hc)

/-- Text without zeros and without the needle's first byte is skipped. -/
theorem strstr_skip {needle : Bytes} {c : UInt8} (hneedle : needle.head? = some c) {u : Bytes}
    (hzero : (0 : UInt8) ∉ u) (hu : c ∉ u) (v : Bytes) :
    strstr (u ++ v) needle = (strstr v needle).map (u.length + ·) := by
  obtain ⟨n, rfl⟩ := List.head?_eq_some_iff.mp hneedle
  rw [strstr, strstr, takeWhile_ne_zero hzero, firstInfix_skip hu, Option.map_map, Option.map_map]
  congr 1
  funext p
  exact List.length_append

theorem strstr_front {needle : Bytes} (hne : needle ≠ []) (hzero : (0 : UInt8) ∉ needle) (v : Bytes) :
    strstr (needle ++ v) needle = some 0 := by
  rw [strstr, takeWhile_ne_zero hzero, firstInfix_front hne]
  rfl

/-- What is found lies in the text. -/
theorem strstr_le {text needle : Bytes} {gap : Nat} (hne : needle ≠ [])
    (h : strstr text needle = some gap) : gap + needle.length ≤ text.length := by
  rw [strstr, Option.map_eq_some_iff] at h
  obtain ⟨⟨a, b⟩, hfind, rfl⟩ := h
  obtain ⟨htext, hprefix, -⟩ := firstInfix_eq_some hne hfind
  have hlen := congrArg List.length htext
  have hcut := (List.takeWhile_prefix (fun c : UInt8 => decide (c ≠ 0)) (l := text)).length_le
  have hle := hprefix.length_le
  rw [List.length_append] at hlen
  show a.length + needle.length ≤ text.length
  omega

theorem strtoul10_lt (text : Bytes) : strtoul10 text < 2 ^ 64 := by
  unfold strtoul10
  simp only
  split
  · omega
  · split
    · exact Nat.mod_lt _ (by omega)
    · omega

/-- A blank and a number that fits. -/
theorem strtoul10_decimal {n : Nat} (hn : n < 2 ^ 64) {c : UInt8} (hc : isDigit c = false) (rest : Bytes) :
    strtoul10 (chr ' ' :: (decimal n ++ c :: rest)) = n := by
  have hblank : isSpace (chr ' ') = true := by decide
  have hdigits : (decimal n ++ c :: rest).takeWhile isDigit = decimal n := by
    rw [List.takeWhile_append_of_pos (decimal_isDigit n),
      List.takeWhile_cons_of_neg (by rw [hc]; exact Bool.false_ne_true), List.append_nil]
  rw [strtoul10, List.dropWhile_cons_of_pos hblank,
    scanSign_digits (decimal_ne_nil n) (decimal_isDigit n)]
  simp only [hdigits, decimalValue_decimal]
  rw [if_neg (by omega), if_neg Bool.false_ne_true]

/-- A body starts behind the offset and inside the stream. -/
theorem nextBody_bounds {stream : Bytes} {offset body length : Nat}
    (h : nextBody stream offset = some (body, length)) :
    offset ≤ body ∧ body ≤ stream.length ∧ length < 2 ^ 64 := by
  have hcrlf : (str "\r\n\r\n").length = 4 := by decide
  have hlf : (str "\n\n").length = 2 := by decide
  unfold nextBody at h
  split at h
  · cases h
  · next gap hgap =>
    have hheader := strstr_le (by decide) hgap
    have hkey : (str "Content-Length:").length = 15 := by decide
    rw [List.length_drop] at hheader
    simp only at h
    split at h
    · next gap' hgap' =>
      have hend := strstr_le (by decide) hgap'
      rw [List.length_drop] at hend
      cases h
      exact ⟨by omega, by omega, strtoul10_lt _⟩
    · split at h
      · next gap' hgap' =>
        have hend := strstr_le (by decide) hgap'
        rw [List.length_drop] at hend
        cases h
        exact ⟨by omega, by omega, strtoul10_lt _⟩
      · cases h

/-! ## Turns -/

variable {stream : Bytes} {wanted : Int} {offset : Nat}

/-- **A turn whose length does not wrap** ends the loop in the stream, or goes on behind its span. -/
theorem turn_inside (wanted : Int)
    (h : ∀ body length, nextBody stream offset = some (body, length) → body + length < 2 ^ 64) :
    (∃ e result, turn stream wanted offset = .stop e ∧ e.result = some result ∧
      ∀ span ∈ e.passed, span.1 + span.2 ≤ stream.length) ∨
    ∃ span, turn stream wanted offset = .next span ∧ span.1 + span.2 ≤ stream.length ∧
      offset < span.1 + span.2 := by
  have hstop : ∃ e result, Turn.stop responseNotFound = .stop e ∧ e.result = some result ∧
      ∀ span ∈ e.passed, span.1 + span.2 ≤ stream.length :=
    ⟨responseNotFound, _, rfl, rfl, fun span hspan => absurd hspan List.not_mem_nil⟩
  unfold turn
  split
  · exact Or.inl hstop
  · split
    · exact Or.inl hstop
    · next body length hnext =>
      have hwrap : (body + length) % 2 ^ 64 = body + length := Nat.mod_eq_of_lt (h body length hnext)
      have hbounds := nextBody_bounds hnext
      rw [hwrap]
      split
      · exact Or.inl hstop
      · next hlen =>
        rw [if_neg (by omega)]
        split
        · refine Or.inl ⟨_, _, rfl, rfl, fun span hspan => ?_⟩
          rw [List.mem_singleton.mp hspan]
          show body + length ≤ stream.length
          omega
        · refine Or.inr ⟨_, rfl, ?_, ?_⟩
          · show body + length ≤ stream.length
            omega
          · show offset < body + length
            omega

/-- **A turn whose length wraps** leaves the stream. -/
theorem turn_wraps (wanted : Int) (hsize : stream.length < 2 ^ 64) {body length : Nat}
    (hnext : nextBody stream offset = some (body, length)) (hwrap : 2 ^ 64 ≤ body + length) :
    turn stream wanted offset = .stop ⟨[(body, length)], none⟩ := by
  have hbounds := nextBody_bounds hnext
  have hmod : (body + length) % 2 ^ 64 = body + length - 2 ^ 64 := by omega
  have hoffset : ¬stream.length ≤ offset := by
    intro hle
    rw [nextBody, List.drop_of_length_le hle] at hnext
    cases hnext
  rw [turn, if_neg hoffset, hnext]
  simp only [hmod]
  rw [if_neg (by omega), if_pos (by omega)]

/-! ## Runs of the loop -/

theorem extracts_stop {e e' : Extraction} (h : turn stream wanted offset = .stop e') :
    Extracts stream wanted offset e ↔ e' = e := by
  constructor
  · rintro ⟨turns, hrun⟩
    cases turns with
    | zero => cases hrun
    | succ turns =>
      rw [extractLoop, h] at hrun
      exact Option.some.inj hrun
  · rintro rfl
    exact ⟨1, by rw [extractLoop, h]⟩

theorem extracts_next {e : Extraction} {span : Nat × Nat} (h : turn stream wanted offset = .next span) :
    Extracts stream wanted offset e ↔
      ∃ e', Extracts stream wanted (span.1 + span.2) e' ∧ e'.pass span = e := by
  constructor
  · rintro ⟨turns, hrun⟩
    cases turns with
    | zero => cases hrun
    | succ turns =>
      rw [extractLoop, h] at hrun
      obtain ⟨e', hrest, rfl⟩ := Option.map_eq_some_iff.mp hrun
      exact ⟨e', ⟨turns, hrest⟩, rfl⟩
  · rintro ⟨e', ⟨turns, hrest⟩, rfl⟩
    refine ⟨turns + 1, ?_⟩
    rw [extractLoop, h]
    exact Option.map_eq_some_iff.mpr ⟨e', hrest, rfl⟩

/-- **Without lengths that wrap** the loop ends and stays in the stream. -/
theorem extracts_inside
    (h : ∀ offset body length, Reaches stream wanted offset →
      nextBody stream offset = some (body, length) → body + length < 2 ^ 64) :
    ∀ left offset, stream.length - offset ≤ left → Reaches stream wanted offset →
      ∃ e result, Extracts stream wanted offset e ∧ e.result = some result ∧
        ∀ span ∈ e.passed, span.1 + span.2 ≤ stream.length := by
  intro left
  induction left with
  | zero =>
    intro offset hleft hreach
    have hturn : turn stream wanted offset = .stop responseNotFound := if_pos (by omega)
    exact ⟨_, _, (extracts_stop hturn).mpr rfl, rfl, fun span hspan => absurd hspan List.not_mem_nil⟩
  | succ left ih =>
    intro offset hleft hreach
    rcases turn_inside wanted (fun body length => h offset body length hreach) with
      ⟨e, result, hturn, hresult, hin⟩ | ⟨span, hturn, hin, hfar⟩
    · exact ⟨e, result, (extracts_stop hturn).mpr rfl, hresult, hin⟩
    · obtain ⟨e, result, hrest, hresult, hspans⟩ := ih _ (by omega) (hreach.next hturn)
      refine ⟨e.pass span, result, (extracts_next hturn).mpr ⟨e, hrest, rfl⟩, hresult, ?_⟩
      intro other hother
      rcases List.mem_cons.mp hother with rfl | hother
      · exact hin
      · exact hspans other hother

/-- What a call returns is what is returned from any offset that the loop comes to. -/
theorem Reaches.result {e : Extraction} (h : Reaches stream wanted offset)
    (he : Extracts stream wanted 0 e) :
    ∃ e', Extracts stream wanted offset e' ∧ e'.result = e.result := by
  induction h with
  | start => exact ⟨e, he, rfl⟩
  | next _ hturn ih =>
    obtain ⟨e', hrun, hresult⟩ := ih
    obtain ⟨e'', hrest, rfl⟩ := (extracts_next hturn).mp hrun
    exact ⟨e'', hrest, hresult⟩

/-! ## Framed messages -/

/-- The line of a header, without its end. -/
def lengthLine (n : Nat) : Bytes := str "Content-Length: " ++ decimal n

theorem not_mem_lengthLine {c : UInt8} (hkey : c ∉ str "Content-Length: ") (hc : isDigit c = false)
    (n : Nat) : c ∉ lengthLine n := by
  refine List.not_mem_append hkey fun hmem => ?_
  have hdigit := decimal_isDigit n c hmem
  rw [hc] at hdigit
  cases hdigit

/-- What is found at the start of a header: its length, and the end that the search comes to. -/
theorem nextBody_lengthLine {start behind : Bytes} {n : Nat} (hn : n < 2 ^ 64) {c : UInt8}
    (hc : isDigit c = false) :
    nextBody (start ++ (lengthLine n ++ c :: behind)) start.length =
      match strstr (c :: behind) (str "\r\n\r\n") with
      | some gap => some (start.length + ((lengthLine n).length + gap) + 4, n)
      | none =>
          match strstr (c :: behind) (str "\n\n") with
          | some gap => some (start.length + ((lengthLine n).length + gap) + 2, n)
          | none => none := by
  have hkey : str "Content-Length: " = str "Content-Length:" ++ [chr ' '] := by decide
  have hline : lengthLine n ++ c :: behind =
      str "Content-Length:" ++ chr ' ' :: (decimal n ++ c :: behind) := by
    rw [lengthLine, hkey]
    simp only [List.append_assoc, List.cons_append, List.nil_append]
  have hfront : strstr (lengthLine n ++ c :: behind) (str "Content-Length:") = some 0 := by
    rw [hline]
    exact strstr_front (by decide) (by decide) _
  have hnumber : strtoul10 ((start ++ (lengthLine n ++ c :: behind)).drop
      (start.length + (str "Content-Length:").length)) = n := by
    rw [← List.drop_drop, List.drop_left, hline, List.drop_left]
    exact strtoul10_decimal hn hc behind
  have hzero : (0 : UInt8) ∉ lengthLine n := not_mem_lengthLine (by decide) (by decide) n
  have hcr := strstr_skip (by decide : (str "\r\n\r\n").head? = some (chr '\r')) hzero
    (not_mem_lengthLine (by decide) (by decide) n) (c :: behind)
  have hlf := strstr_skip (by decide : (str "\n\n").head? = some (chr '\n')) hzero
    (not_mem_lengthLine (by decide) (by decide) n) (c :: behind)
  rw [nextBody, List.drop_left, hfront]
  simp only [Nat.add_zero, List.drop_left, hnumber, hcr, hlf]
  cases strstr (c :: behind) (str "\r\n\r\n") with
  | some gap => rfl
  | none =>
    cases strstr (c :: behind) (str "\n\n") with
    | some gap => rfl
    | none => rfl

theorem header_length (m : Message) :
    m.header.length = (lengthLine m.body.length).length + 2 * m.lineEnd.text.length := by
  rw [Message.header, ← lengthLine, List.length_append, List.length_append]
  omega

/-- The requests that are sent are messages of this kind. -/
theorem appendFramedJson_eq {body : Bytes} (hn : body.length < 2 ^ 64) (builder : Bytes) :
    appendFramedJson builder body = .ok (builder ++ (Message.mk .crlf body).text) := by
  have hdigits : (decimal body.length).length ≤ 20 := decimal_length_le 19 body.length (by omega)
  have hkey : (str "Content-Length: ").length = 16 := by decide
  have hend : str "\r\n\r\n" = LineEnd.crlf.text ++ LineEnd.crlf.text := by decide
  have htwo : LineEnd.crlf.text.length = 2 := by decide
  have hheader : (Message.mk .crlf body).header.length < 64 := by
    rw [header_length, lengthLine, List.length_append, hkey]
    simp only [htwo]
    omega
  rw [appendFramedJson, hend]
  show (if 64 ≤ (Message.mk .crlf body).header.length then _ else _) = _
  rw [if_neg (by omega), Message.text, List.append_assoc]
  rfl

/-- A header that ends in CRLF is read to its end. -/
theorem nextBody_crlf {body : Bytes} (hn : body.length < 2 ^ 64) (start rest : Bytes) :
    nextBody (start ++ ((Message.mk .crlf body).text ++ rest)) start.length =
      some (start.length + (Message.mk .crlf body).header.length, body.length) := by
  have htext : (Message.mk .crlf body).text ++ rest = lengthLine body.length ++
      chr '\r' :: (str "\n\r\n" ++ (body ++ rest)) := by
    have hend : str "\r\n" ++ str "\r\n" = chr '\r' :: str "\n\r\n" := by decide
    simp only [Message.text, Message.header, LineEnd.text, hend, lengthLine, List.append_assoc,
      List.cons_append]
  have hfront : strstr (chr '\r' :: (str "\n\r\n" ++ (body ++ rest))) (str "\r\n\r\n") = some 0 :=
    strstr_front (by decide : str "\r\n\r\n" ≠ []) (by decide) (body ++ rest)
  have htwo : LineEnd.crlf.text.length = 2 := by decide
  rw [htext, nextBody_lengthLine hn (by decide), hfront, header_length]
  simp only [htwo]
  congr 2

/-- Behind a header that ends in LF, a pair of CRLF is taken for its end, if there is one. -/
theorem nextBody_lf {body : Bytes} (hn : body.length < 2 ^ 64) (start rest : Bytes) :
    nextBody (start ++ ((Message.mk .lf body).text ++ rest)) start.length =
      match strstr (body ++ rest) (str "\r\n\r\n") with
      | some gap => some (start.length + (Message.mk .lf body).header.length + gap + 4, body.length)
      | none => some (start.length + (Message.mk .lf body).header.length, body.length) := by
  have htext : (Message.mk .lf body).text ++ rest = lengthLine body.length ++
      chr '\n' :: (str "\n" ++ (body ++ rest)) := by
    have hend : str "\n" ++ str "\n" = chr '\n' :: str "\n" := by decide
    simp only [Message.text, Message.header, LineEnd.text, hend, lengthLine, List.append_assoc,
      List.cons_append]
  have hcr : strstr (chr '\n' :: (str "\n" ++ (body ++ rest))) (str "\r\n\r\n") =
      (strstr (body ++ rest) (str "\r\n\r\n")).map (2 + ·) :=
    strstr_skip (by decide : (str "\r\n\r\n").head? = some (chr '\r'))
      (by decide : (0 : UInt8) ∉ str "\n\n") (by decide) (body ++ rest)
  have hfront : strstr (chr '\n' :: (str "\n" ++ (body ++ rest))) (str "\n\n") = some 0 :=
    strstr_front (by decide : str "\n\n" ≠ []) (by decide) (body ++ rest)
  have hone : LineEnd.lf.text.length = 1 := by decide
  rw [htext, nextBody_lengthLine hn (by decide), hcr, hfront, header_length]
  simp only [hone]
  cases strstr (body ++ rest) (str "\r\n\r\n") with
  | some gap =>
    simp only [Option.map_some]
    congr 2
    omega
  | none => rfl

/-- An id that is the wanted number is taken for it. -/
theorem answers_of_hasId {wanted : Int} (hmin : -2 ^ 63 ≤ wanted) (hmax : wanted < 2 ^ 63) {body : Bytes}
    (h : hasId wanted body = true) : answers wanted body = true := by
  unfold hasId at h
  unfold answers
  split at h
  · cases h
  · split at h
    · next id _ =>
      have hwhole : id.IsWhole wanted := of_decide_eq_true h
      show (id.toInt64 == wanted) = true
      rw [Double.toInt64_of_isWhole hwhole hmin hmax, beq_self_eq_true]
    · cases h

/-- The turn at a message whose body is found. -/
theorem turn_message (wanted : Int) {start body rest : Bytes} {first : Nat} (hsize : stream.length < 2 ^ 64)
    (hne : body ≠ []) (hstream : stream = start ++ (body ++ rest)) (hfirst : offset < stream.length)
    (hnext : nextBody stream offset = some (first, body.length)) (hstart : start.length = first) :
    turn stream wanted offset =
      if answers wanted body then .stop ⟨[(first, body.length)], some (.ok body)⟩
      else .next (first, body.length) := by
  have hlen := congrArg List.length hstream
  have hpos := List.length_pos_iff.mpr hne
  rw [List.length_append, List.length_append] at hlen
  have hslice : (stream.drop first).take body.length = body := by
    rw [hstream, ← hstart, List.drop_left, List.take_left]
  have hwrap : (first + body.length) % 2 ^ 64 = first + body.length := Nat.mod_eq_of_lt (by omega)
  rw [turn, if_neg (by omega), hnext]
  simp only [hwrap, hslice]
  rw [if_neg (by omega), if_neg (by omega)]

theorem pass_injective {span : Nat × Nat} {e e' : Extraction} (h : e.pass span = e'.pass span) :
    e = e' := by
  cases e
  cases e'
  simpa [Extraction.pass] using h

/-- The first span that is passed on is the one that was found. -/
theorem extracts_head {e : Extraction} {span : Nat × Nat} (h : Extracts stream wanted offset e)
    (hnext : nextBody stream offset = some span) : ∀ first ∈ e.passed.head?, first = span := by
  intro first hfirst
  cases hturn : turn stream wanted offset with
  | stop e' =>
    obtain rfl := (extracts_stop hturn).mp h
    rw [turn, hnext] at hturn
    simp only at hturn
    split at hturn
    · cases hturn
      cases hfirst
    · split at hturn
      · cases hturn
        cases hfirst
      · split at hturn
        · cases hturn
          exact (Option.some.inj hfirst).symm
        · split at hturn
          · cases hturn
            exact (Option.some.inj hfirst).symm
          · cases hturn
  | next other =>
    obtain ⟨e', -, rfl⟩ := (extracts_next hturn).mp h
    have hother : other = span := by
      rw [turn, hnext] at hturn
      simp only at hturn
      split at hturn
      · cases hturn
      · split at hturn
        · cases hturn
        · split at hturn
          · cases hturn
          · split at hturn
            · cases hturn
            · exact (Turn.next.inj hturn).symm
    rw [← hother]
    exact (Option.some.inj hfirst).symm

theorem extractionOf_head (wanted : Int) (offset : Nat) (m : Message) (messages : List Message) :
    (extractionOf wanted offset (m :: messages)).passed.head? =
      some (offset + m.header.length, m.body.length) := by
  rw [extractionOf]
  simp only
  split
  · rfl
  · rfl

/-- Where nothing is passed on, nothing is found. -/
theorem extractionOf_ne {wanted : Int} {offset : Nat} {messages : List Message} {body : Bytes} :
    extractionOf wanted offset messages ≠ ⟨[], some (.ok body)⟩ := by
  intro h
  cases messages with
  | nil => cases h
  | cons m messages =>
    have hhead := extractionOf_head wanted offset m messages
    rw [h] at hhead
    cases hhead

/-- **Framed messages** that stand at the end of a stream are extracted as is right exactly when they are
    readable. -/
theorem extracts_messages (hsize : stream.length < 2 ^ 64) (hmin : -2 ^ 63 ≤ wanted)
    (hmax : wanted < 2 ^ 63) (messages : List Message) :
    ∀ start : Bytes, (∀ m ∈ messages, m.body ≠ []) → stream = start ++ streamOf messages →
      (Extracts stream wanted start.length (extractionOf wanted start.length messages) ↔
        Readable wanted messages) := by
  induction messages with
  | nil =>
    intro start _ hstream
    have hturn : turn stream wanted start.length = .stop responseNotFound := by
      refine if_pos ?_
      rw [hstream, streamOf, List.flatMap_nil, List.append_nil]
    exact iff_of_true ((extracts_stop hturn).mpr rfl) trivial
  | cons m messages ih =>
    intro start hne hstream
    have hbody : m.body ≠ [] := hne m List.mem_cons_self
    have hpos := List.length_pos_iff.mpr hbody
    rw [streamOf, List.flatMap_cons, ← streamOf] at hstream
    have hlen := congrArg List.length hstream
    rw [Message.text, List.length_append, List.length_append, List.length_append] at hlen
    have hnumber : m.body.length < 2 ^ 64 := by omega
    by_cases hend : m.lineEnd = .lf → strstr (m.body ++ streamOf messages) (str "\r\n\r\n") = none
    · have hnext : nextBody stream start.length =
          some (start.length + m.header.length, m.body.length) := by
        obtain ⟨lineEnd, body⟩ := m
        cases lineEnd with
        | crlf => rw [hstream, nextBody_crlf hnumber]
        | lf => rw [hstream, nextBody_lf hnumber, hend rfl]
      have hat : stream = (start ++ m.header) ++ (m.body ++ streamOf messages) := by
        rw [hstream, Message.text]
        simp only [List.append_assoc]
      have hturn := turn_message wanted hsize hbody hat (by omega) hnext List.length_append
      rw [Readable, and_iff_right hend, extractionOf]
      by_cases hans : answers wanted m.body = true
      · rw [if_pos hans] at hturn
        rw [if_pos hans, extracts_stop hturn]
        by_cases hid : hasId wanted m.body = true
        · rw [if_pos hid]
          exact iff_of_true rfl hid
        · rw [if_neg hid]
          refine iff_of_false (fun heq => ?_) hid
          exact extractionOf_ne (pass_injective (e := ⟨[], _⟩) heq).symm
      · have hid : ¬hasId wanted m.body = true := fun hid => hans (answers_of_hasId hmin hmax hid)
        rw [if_neg hans] at hturn
        rw [if_neg hans, if_neg hid, extracts_next hturn]
        have hrest := ih (start ++ m.text) (fun m' hm' => hne m' (List.mem_cons_of_mem m hm'))
          (by rw [hstream, List.append_assoc])
        have hbehind : (start ++ m.text).length = start.length + m.header.length + m.body.length := by
          rw [Message.text, List.length_append, List.length_append]
          omega
        rw [hbehind] at hrest
        rw [← hrest]
        constructor
        · rintro ⟨e', hrun, heq⟩
          rwa [pass_injective heq] at hrun
        · exact fun hrun => ⟨_, hrun, rfl⟩
    · -- the body is looked for behind an empty line that stands further on
      rw [Readable]
      refine iff_of_false (fun hrun => ?_) (fun hreadable => hend hreadable.1)
      rw [Classical.not_imp] at hend
      obtain ⟨lineEnd, body⟩ := m
      obtain ⟨rfl, hfound⟩ := hend
      obtain ⟨gap, hgap⟩ := Option.ne_none_iff_exists'.mp hfound
      have hnext := nextBody_lf hnumber start (streamOf messages)
      rw [← hstream, hgap] at hnext
      have hfirst := extracts_head hrun hnext _ (extractionOf_head wanted start.length _ messages)
      have hsum := congrArg Prod.fst hfirst
      simp only at hsum
      omega

/-! ## Results -/

/-- **MCP messages are framed exactly** in the streams in which no length wraps, no pair of CRLF stands
    behind a header that ends in LF, and every id taken for the wanted one is it. -/
theorem framesExactly_iff {IsObject : Bytes → Prop} (hobject : ∀ body, IsObject body → body ≠ [])
    {stream : Bytes} (hsize : stream.length < 2 ^ 64) (wanted : Int64) :
    FramesExactly IsObject stream wanted ↔ Measured IsObject stream wanted := by
  have hframed : ∀ messages, (∀ m ∈ messages, IsObject m.body) → stream = streamOf messages →
      (Extracts stream wanted.toInt 0 (extractionOf wanted.toInt 0 messages) ↔
        Readable wanted.toInt messages) := by
    intro messages hmessages hstream
    exact extracts_messages hsize (Int64.le_toInt wanted) (Int64.toInt_lt wanted) messages []
      (fun m hm => hobject _ (hmessages m hm)) hstream
  constructor
  · rintro ⟨⟨e, result, hrun, hresult, -⟩, hmessages⟩
    refine ⟨fun offset body length hreach hnext => ?_, fun messages hm hs => ?_⟩
    · by_contra hwrap
      have hturn := turn_wraps wanted.toInt hsize hnext (by omega)
      obtain ⟨e', hrun', hsame⟩ := hreach.result hrun
      obtain rfl := (extracts_stop hturn).mp hrun'
      rw [hresult] at hsame
      cases hsame
    · exact (hframed messages hm hs).mp (hmessages messages hm hs)
  · rintro ⟨hlengths, hreadable⟩
    refine ⟨?_, fun messages hm hs => (hframed messages hm hs).mpr (hreadable messages hm hs)⟩
    exact extracts_inside hlengths stream.length 0 (by omega) .start

/-- A text that is read as an object. -/
def isJsonObject (body : Bytes) : Bool :=
  match jsonParse body with
  | .ok (.object _) => true
  | _ => false

theorem ne_nil_of_isJsonObject {body : Bytes} (h : isJsonObject body = true) : body ≠ [] := by
  rintro rfl
  have hempty : isJsonObject [] = false := by decide
  rw [hempty] at h
  cases h

/-- Two messages, the first with LF and the second with CRLF behind its header. -/
def mixedMessages : List Message :=
  [⟨.lf, str "\x7b\"id\":1\x7d"⟩, ⟨.crlf, str "\x7b\"id\":2\x7d"⟩]

theorem framesExactly_mixed : FramesExactly (isJsonObject · = true) (streamOf mixedMessages) 2 ↔
    Measured (isJsonObject · = true) (streamOf mixedMessages) 2 :=
  framesExactly_iff (fun _ h => ne_nil_of_isJsonObject h) (by decide) 2

/-- The first of them is not found: the body of the second is taken for its body. -/
theorem not_framesExactly_mixed :
    ¬FramesExactly (isJsonObject · = true) (streamOf mixedMessages) 1 := by
  intro h
  obtain ⟨hobjects, hfirst, hsecond⟩ : (∀ m ∈ mixedMessages, isJsonObject m.body = true) ∧
      turn (streamOf mixedMessages) 1 0 = .next (48, 8) ∧
      turn (streamOf mixedMessages) 1 56 = .stop responseNotFound := by
    decide +kernel
  have hrun := h.framed mixedMessages hobjects rfl
  obtain ⟨e, hrest, heq⟩ := (extracts_next hfirst).mp hrun
  obtain rfl := (extracts_stop hsecond).mp hrest
  exact absurd heq (by decide +kernel)

/-! ## What is written -/

/-- The messages that `append_framed_json` writes one after the other. -/
theorem foldlM_appendFramedJson {bodies : List Bytes} :
    ∀ {builder : Bytes}, bodies.foldlM appendFramedJson builder = .ok stream → stream.length < 2 ^ 64 →
      stream = builder ++ streamOf (bodies.map (Message.mk .crlf)) := by
  induction bodies with
  | nil =>
    rintro builder ⟨⟩ -
    exact (List.append_nil stream).symm
  | cons body bodies ih =>
    intro builder hwritten hsize
    rw [List.foldlM_cons] at hwritten
    obtain ⟨after, hafter, hrest⟩ := Res.bind_eq_ok.mp hwritten
    have hstream := ih hrest hsize
    have hbody : body.length < 2 ^ 64 := by
      unfold appendFramedJson at hafter
      dsimp only at hafter
      split at hafter
      · cases hafter
      · cases hafter
        rw [hstream, List.length_append, List.length_append] at hsize
        omega
    rw [appendFramedJson_eq hbody] at hafter
    cases hafter
    rw [hstream, List.append_assoc]
    rfl

/-- Where the bodies of such messages stand, up to the first that answers. -/
def bodySpans (wanted : Int) : Nat → List Bytes → List (Nat × Nat)
  | _, [] => []
  | offset, body :: bodies =>
      let start := offset + (Message.mk .crlf body).header.length
      (start, body.length) :: if answers wanted body then [] else bodySpans wanted (start + body.length) bodies

/-- Messages that stand at the end of a stream, each with CRLF behind its header, come apart. -/
theorem extracts_crlf (wanted : Int) (hsize : stream.length < 2 ^ 64) (bodies : List Bytes) :
    ∀ start : Bytes, (∀ body ∈ bodies, body ≠ []) → stream = start ++ streamOf (bodies.map (Message.mk .crlf)) →
      Extracts stream wanted start.length ⟨bodySpans wanted start.length bodies,
        some ((bodies.find? (answers wanted)).elim (Status.parse "sc.mcp_tool.response_not_found") .ok)⟩ := by
  induction bodies with
  | nil =>
    intro start _ hstream
    have hturn : turn stream wanted start.length = .stop responseNotFound := by
      refine if_pos ?_
      rw [hstream]
      exact (congrArg List.length (List.append_nil start)).le
    exact (extracts_stop hturn).mpr rfl
  | cons body bodies ih =>
    intro start hne hstream
    obtain ⟨hbody, hbodies⟩ := List.forall_mem_cons.mp hne
    rw [List.map_cons, streamOf, List.flatMap_cons, ← streamOf] at hstream
    have hlen := congrArg List.length hstream
    have hpos := List.length_pos_iff.mpr hbody
    rw [Message.text, List.length_append, List.length_append, List.length_append] at hlen
    change stream.length = start.length + (_ + body.length + _) at hlen
    have hnext := nextBody_crlf (by omega : body.length < 2 ^ 64) start (streamOf (bodies.map (Message.mk .crlf)))
    rw [← hstream] at hnext
    have hat : stream = (start ++ (Message.mk .crlf body).header) ++
        (body ++ streamOf (bodies.map (Message.mk .crlf))) := by
      rw [hstream, Message.text]
      simp only [List.append_assoc]
    have hturn := turn_message wanted hsize hbody hat (by omega) hnext List.length_append
    rw [bodySpans]
    by_cases hans : answers wanted body = true
    · rw [if_pos hans] at hturn ⊢
      rw [List.find?_cons_of_pos hans]
      exact (extracts_stop hturn).mpr rfl
    · rw [if_neg hans] at hturn ⊢
      rw [List.find?_cons_of_neg hans]
      have hrest := ih (start ++ (Message.mk .crlf body).text) hbodies (by rw [hstream, List.append_assoc])
      rw [List.length_append, Message.text, List.length_append, ← Nat.add_assoc] at hrest
      exact (extracts_next hturn).mpr ⟨_, hrest, rfl⟩

/-- **What `append_framed_json` writes is read back**: whatever bytes the bodies hold, each of them is passed on as it
    stands, up to the first with the wanted id, which is returned. -/
theorem written_extracted {bodies : List Bytes} (hne : ∀ body ∈ bodies, body ≠ [])
    (hwritten : bodies.foldlM appendFramedJson [] = .ok stream) (hsize : stream.length < 2 ^ 64) (wanted : Int) :
    Extracts stream wanted 0 ⟨bodySpans wanted 0 bodies,
      some ((bodies.find? (answers wanted)).elim (Status.parse "sc.mcp_tool.response_not_found") .ok)⟩ :=
  extracts_crlf wanted hsize bodies [] hne (foldlM_appendFramedJson hwritten hsize)

/-- A text with a zero in it, and an answer. -/
def sampleBodies : List Bytes := [[0x22, 0, 0x22], str "\x7b\"id\":2\x7d"]

theorem written_extracted_answer : Extracts (streamOf (sampleBodies.map (Message.mk .crlf))) 2 0
    ⟨bodySpans 2 0 sampleBodies,
      some ((sampleBodies.find? (answers 2)).elim (Status.parse "sc.mcp_tool.response_not_found") .ok)⟩ :=
  written_extracted (List.forall_mem_cons.mpr ⟨by decide, List.forall_mem_singleton.mpr (by decide)⟩)
    (by decide +kernel) (by decide +kernel) 2

end SmolClaw.Mcp
