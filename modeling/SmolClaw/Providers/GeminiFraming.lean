/-
  The two framings of a Gemini answer (`sc_provider_gemini_parse_response`, `contains_data_prefix` and
  `parse_gemini_json_response`, `src/providers/http_providers.c`).

  1. **Documents** — a text that the JSON reader accepts.  None of its lines starts with `data:`, because none
     starts within a string; so what is taken for a stream has no event, and the answer stays as it was
     initialized (`geminiParseResponse_marked`).  Only a document that `SaysNothing` has that answer anyway.

  2. **Streams** — `Framed`: the lines of a stream with the answers of the objects on them.  A document adds
     the same text and calls to whatever answer is there (`parseGeminiJsonResponse_onto`), and so the lines
     add up, by induction on them.

  3. **Defect** — the parser searches the whole body, the model's own words included, for the marker.  A
     document whose strings have it is taken for a stream; a stream of comments that lack it for a document.

  4. **Result** — `framing_iff`: the marker decides both, exactly.
-/
import SmolClaw.Json.Accepted
import SmolClaw.Providers.StreamPieces

namespace SmolClaw.Providers

open SmolClaw.Runtime

/-! ## Documents -/

/-- The first candidate of a document. -/
def documentCandidate (root : Json) : Option Json := (arrayItems (member (some root) "candidates")).head?

/-- A document whose answer is what a response is initialized to: no error, no name, no counts, no search,
    and parts without a word or a call. -/
structure SaysNothing (root : Json) : Prop where
  error : root.objectGet (str "error") = none
  model : (memberText (some root) "modelVersion").getD [] = []
  counts : ∀ key ∈ ["promptTokenCount", "candidatesTokenCount", "totalTokenCount"],
    (memberCount (member (some root) "usageMetadata") key).getD 0 = 0
  search : documentGrounded root = false
  finish : (memberText (documentCandidate root) "finishReason").getD [] = []
  present : (member (member (documentCandidate root) "content") "parts").isSome = true
  parts : ∀ part ∈ documentParts root, partText part = [] ∧ takenCall part = none

/-! ## Streams -/

/-- **An event stream**, as its lines and the answers of the objects on them.  A line is empty, a comment,
    or carries an object behind `data:`; the CR of a line that ends in CRLF is whitespace to the parser. -/
inductive Framed : List Bytes → List Answer → Prop
  | nil : Framed [] []
  | empty {line : Bytes} {lines : List Bytes} {answers : List Answer} (hline : line = [] ∨ line = [chr '\r'])
      (h : Framed lines answers) : Framed (line :: lines) answers
  | comment {text : Bytes} {lines : List Bytes} {answers : List Answer} (h : Framed lines answers) :
      Framed ((chr ':' :: text) :: lines) answers
  | data {line : Bytes} {lines : List Bytes} {answer : Answer} {answers : List Answer}
      (hdata : str "data:" <+: line) (hanswer : parseGeminiJsonResponse (linePayload line) {} = .ok answer)
      (h : Framed lines answers) : Framed (line :: lines) (answer :: answers)

/-- The texts and the calls of the objects, in order. -/
def Concatenates (result : Res Answer) (answers : List Answer) : Prop :=
  ∃ out, result = .ok out ∧ out.text = answers.flatMap (·.text) ∧
    out.toolCalls = answers.flatMap (·.toolCalls)

/-! ## Parts -/

/-- The text and the calls of one answer behind those of another. -/
def Answer.join (out a : Answer) : Answer :=
  { out with text := out.text ++ a.text, toolCalls := out.toolCalls ++ a.toolCalls }

variable {out a : Answer} {root : Json}

theorem Answer.join_nil (out : Answer) : out.join {} = out := by
  rw [Answer.join, List.append_nil, List.append_nil]

theorem addToolCall_join (out a : Answer) (call : ProviderToolCall) :
    (out.join a).addToolCall call = (a.addToolCall call).map out.join := by
  unfold Answer.addToolCall Runtime.addToolCall
  split
  · rfl
  · simp only [Answer.join, List.append_assoc]
    rfl

/-- What a part adds does not depend on what is there. -/
theorem parseGeminiPart_join (out a : Answer) (part : Json) (index : Nat) :
    parseGeminiPart (out.join a) part index = (parseGeminiPart a part index).map out.join := by
  unfold parseGeminiPart
  cases memberText (some part) "text" with
  | some text =>
    show Except.ok { out.join a with text := (out.text ++ a.text) ++ text } = _
    rw [List.append_assoc]
    rfl
  | none =>
    cases member (some part) "functionCall" with
    | none => rfl
    | some functionCall =>
      dsimp only
      split
      · rfl
      · cases makeCall (str "gemini-call-" ++ decimal (index + 1))
          ((memberText (some functionCall) "name").getD [])
          ((member (some functionCall) "args").getD (.object [])) with
        | error e => rfl
        | ok call => exact addToolCall_join out a call

theorem parseGeminiParts_join (out : Answer) (parts : List Json) :
    ∀ (a : Answer) (index : Nat),
      parseGeminiParts (out.join a) index parts = (parseGeminiParts a index parts).map out.join := by
  induction parts with
  | nil => exact fun _ _ => rfl
  | cons part parts ih =>
    intro a index
    rw [parseGeminiParts, parseGeminiParts, parseGeminiPart_join]
    cases parseGeminiPart a part index with
    | error e => rfl
    | ok next => exact ih next (index + 1)

/-- A part without a word or a call adds nothing. -/
theorem parseGeminiPart_silent {part : Json} (h : partText part = [] ∧ takenCall part = none) (out : Answer)
    (index : Nat) : parseGeminiPart out part index = .ok out := by
  obtain ⟨htext, hcall⟩ := h
  unfold partText at htext
  unfold takenCall geminiCall at hcall
  unfold parseGeminiPart
  cases hsome : memberText (some part) "text" with
  | some text =>
    rw [hsome, Option.getD_some] at htext
    show Except.ok { out with text := out.text ++ text } = _
    rw [htext, List.append_nil]
  | none =>
    rw [hsome, Option.isSome_none, if_neg Bool.false_ne_true, Option.map_eq_none_iff] at hcall
    simp only [hcall]

theorem parseGeminiParts_silent {parts : List Json}
    (h : ∀ part ∈ parts, partText part = [] ∧ takenCall part = none) :
    ∀ (out : Answer) (index : Nat), parseGeminiParts out index parts = .ok out := by
  induction parts with
  | nil => exact fun _ _ => rfl
  | cons part parts ih =>
    intro out index
    rw [parseGeminiParts, parseGeminiPart_silent (h part List.mem_cons_self)]
    exact ih (fun other hother => h other (List.mem_cons_of_mem part hother)) out (index + 1)

/-! ## Grounding -/

/-- A document that was not grounded with a search changes nothing. -/
theorem parseGeminiGrounding_quiet (h : documentGrounded root = false) (out : Answer) :
    parseGeminiGrounding root out = .ok out := by
  unfold documentGrounded at h
  dsimp only at h
  unfold parseGeminiGrounding
  dsimp only
  refine if_pos ?_
  rw [Bool.and_eq_false_iff, Bool.not_eq_false', List.isEmpty_iff] at h
  rcases h with h | h
  · exact Or.inl (by rw [← Option.not_isSome, h]; rfl)
  · exact Or.inr h

/-- A search changes what a response has for one, and whether it is written out is up to the document. -/
theorem parseGeminiGrounding_frame (h : parseGeminiGrounding root out = .ok a) (other : Answer) :
    (∃ call result, a = { out with preExecutedToolCall := call, preExecutedToolResult := result }) ∧
      ∃ call result, parseGeminiGrounding root other =
        .ok { other with preExecutedToolCall := call, preExecutedToolResult := result } := by
  unfold parseGeminiGrounding at h ⊢
  dsimp only at h ⊢
  split at h
  · next hquiet =>
    cases h
    exact ⟨⟨_, _, rfl⟩, _, _, if_pos hquiet⟩
  · next hsearch =>
    obtain ⟨argumentsJson, harguments, h⟩ := Res.bind_eq_ok.mp h
    rw [if_neg hsearch, harguments]
    split at h
    · cases h
      exact ⟨⟨_, _, rfl⟩, _, _, rfl⟩
    · obtain ⟨resultJson, hresult, h⟩ := Res.bind_eq_ok.mp h
      cases h
      exact ⟨⟨_, _, rfl⟩, _, _, by rw [hresult]; rfl⟩

/-! ## Documents onto an answer -/

theorem nonEmptyText_eq_nil {value : Option Json} {key : String} :
    nonEmptyText value key [] = [] ↔ (memberText value key).getD [] = [] := by
  unfold nonEmptyText
  cases memberText value key with
  | none => exact ⟨fun _ => rfl, fun _ => rfl⟩
  | some text =>
    cases text with
    | nil => exact ⟨fun _ => rfl, fun _ => rfl⟩
    | cons c text => exact Iff.rfl

/-- Usage that counts nothing. -/
theorem geminiUsage_eq (root : Json) :
    geminiUsage root {} = {} ↔ ∀ key ∈ ["promptTokenCount", "candidatesTokenCount", "totalTokenCount"],
      (memberCount (member (some root) "usageMetadata") key).getD 0 = 0 := by
  simp only [List.forall_mem_cons, List.not_mem_nil, false_implies, implies_true, and_true]
  unfold geminiUsage
  simp only [Int64.zero_add, Usage.mk.injEq, and_true]
  cases memberCount (member (some root) "usageMetadata") "totalTokenCount" with
  | some count => exact Iff.rfl
  | none =>
    constructor
    · rintro ⟨hinput, houtput, -⟩
      exact ⟨hinput, houtput, rfl⟩
    · rintro ⟨hinput, houtput, -⟩
      refine ⟨hinput, houtput, ?_⟩
      dsimp only
      rw [hinput, houtput]
      rfl

/-- What a document says apart from its parts, with a search. -/
def Answer.headed (out : Answer) (root : Json) (call : Option ProviderToolCall) (result : Bytes) : Answer :=
  { out with
    model := nonEmptyText (some root) "modelVersion" out.model
    usage := geminiUsage root out.usage
    preExecutedToolCall := call
    preExecutedToolResult := result
    finishReason := nonEmptyText (documentCandidate root) "finishReason" out.finishReason }

/-- **What the parser does with a document that it takes**: the head is set, and the parts are added, whatever
    is there. -/
theorem parseGeminiJsonResponse_steps {payload : Bytes} (h : parseGeminiJsonResponse payload out = .ok a) :
    ∃ root call result parts, jsonParseStatus payload = .ok root ∧ root.objectGet (str "error") = none ∧
      (member (member (documentCandidate root) "content") "parts").isSome = true ∧
      a = (out.headed root call result).join parts ∧
      ∀ other, ∃ call result, parseGeminiJsonResponse payload other =
        .ok (Answer.join (Answer.headed other root call result) parts) := by
  obtain ⟨root, hroot, h⟩ := Res.bind_eq_ok.mp h
  by_cases herror : (root.objectGet (str "error")).isSome = true
  · rw [if_pos herror, parseGeminiErrorStatus] at h
    cases h
  rw [if_neg herror] at h
  obtain ⟨searched, hsearched, h⟩ := Res.bind_eq_ok.mp h
  by_cases hparts : (member (member (arrayItems (member (some root) "candidates")).head? "content")
      "parts").isNone = true
  · rw [if_pos hparts] at h
    exact absurd h (Status.parse_ne_ok _ _)
  rw [if_neg hparts] at h
  have hjoin := fun before : Answer => parseGeminiParts_join before (documentParts root) {} 0
  simp only [Answer.join_nil] at hjoin
  obtain ⟨⟨call, result, rfl⟩, -⟩ := parseGeminiGrounding_frame hsearched {}
  have hloop := (hjoin (out.headed root call result)).symm.trans h
  cases hadded : parseGeminiParts {} 0 (documentParts root) with
  | error e =>
    rw [hadded] at hloop
    cases hloop
  | ok parts =>
    rw [hadded] at hloop
    refine ⟨root, call, result, parts, hroot, ?_, ?_, (Except.ok.inj hloop).symm, fun other => ?_⟩
    · exact Option.not_isSome_iff_eq_none.mp herror
    · rw [documentCandidate, ← Option.not_isNone, Bool.eq_false_iff.mpr hparts]
      rfl
    · obtain ⟨-, call, result, hother⟩ := parseGeminiGrounding_frame hsearched { other with
        model := nonEmptyText (some root) "modelVersion" other.model
        usage := geminiUsage root other.usage }
      refine ⟨call, result, ?_⟩
      unfold parseGeminiJsonResponse
      rw [hroot]
      show (if _ then _ else _) = _
      rw [if_neg herror, hother]
      show (if _ then _ else _) = _
      rw [if_neg hparts]
      refine (hjoin (Answer.headed other root call result)).trans ?_
      rw [hadded]
      rfl

/-- A document adds the same text and the same calls to every answer. -/
theorem parseGeminiJsonResponse_onto {payload : Bytes} (h : parseGeminiJsonResponse payload {} = .ok a)
    (out : Answer) : ∃ out', parseGeminiJsonResponse payload out = .ok out' ∧
      out'.text = out.text ++ a.text ∧ out'.toolCalls = out.toolCalls ++ a.toolCalls := by
  obtain ⟨root, call, result, parts, -, -, -, rfl, hother⟩ := parseGeminiJsonResponse_steps h
  obtain ⟨call', result', hout⟩ := hother out
  exact ⟨_, hout, rfl, rfl⟩

/-- **The empty answer** is what a document without a word gives, and no other. -/
theorem parseGeminiJsonResponse_nothing {t : Bytes} (hroot : jsonParseStatus t = .ok root) :
    parseGeminiJsonResponse t {} = .ok {} ↔ SaysNothing root := by
  constructor
  · intro h
    obtain ⟨read, hread, hreads⟩ := parseGeminiJsonResponse_reads Answer.reads_nil h
    obtain rfl : root = read := Except.ok.inj (hroot.symm.trans hread)
    obtain ⟨read, call, result, parts, hread, herror, hpresent, hnothing, -⟩ := parseGeminiJsonResponse_steps h
    obtain rfl : root = read := Except.ok.inj (hroot.symm.trans hread)
    have htext : [] = (documentParts root).flatMap partText := hreads.text
    have hcalls : [] = (documentParts root).filterMap takenCall := hreads.calls
    exact {
      error := herror
      model := nonEmptyText_eq_nil.mp (congrArg Answer.model hnothing).symm
      counts := (geminiUsage_eq root).mp (congrArg (fun a : Answer => a.usage) hnothing).symm
      search := (show false = (false || documentGrounded root) from hreads.searched).symm
      finish := nonEmptyText_eq_nil.mp (congrArg Answer.finishReason hnothing).symm
      present := hpresent
      parts := fun part hpart =>
        ⟨List.flatMap_eq_nil_iff.mp htext.symm part hpart,
          List.filterMap_eq_nil_iff.mp hcalls.symm part hpart⟩ }
  · intro h
    have hparts : (member (member (arrayItems (member (some root) "candidates")).head? "content")
        "parts").isNone = false := by
      rw [← Option.not_isSome]
      exact congrArg not h.present
    unfold parseGeminiJsonResponse
    rw [hroot]
    show (if _ then _ else _) = _
    rw [h.error, if_neg (by decide), parseGeminiGrounding_quiet h.search]
    show (if _ then _ else _) = _
    rw [hparts, if_neg Bool.false_ne_true, nonEmptyText_eq_nil.mpr h.model, (geminiUsage_eq root).mpr h.counts]
    refine (parseGeminiParts_silent h.parts _ 0).trans ?_
    have hfinish := nonEmptyText_eq_nil.mpr h.finish
    rw [documentCandidate] at hfinish
    exact congrArg (fun reason => Except.ok { ({} : Answer) with finishReason := reason }) hfinish

/-! ## One document, read as a stream -/

/-- No line of an accepted text starts with the marker, and so a stream finds nothing on them. -/
theorem geminiParseResponse_marked {t : Bytes} (h : jsonParse t = .ok root) (hmarker : str "data:" <:+: t) :
    geminiParseResponse t = .ok {} := by
  have hlines : ∀ line ∈ t.splitOn (chr '\n'), ¬ str "data:" <+: line := by
    rintro line hline ⟨rest, rfl⟩
    exact absurd (accepted_line h hline) (by decide)
  have hloop : ∀ lines : List Bytes, (∀ line ∈ lines, ¬ str "data:" <+: line) →
      lines.foldlM parseGeminiLine {} = (.ok {} : Res Answer) := by
    intro lines
    induction lines with
    | nil => exact fun _ => rfl
    | cons line lines ih =>
      intro hnot
      rw [List.foldlM_cons, parseGeminiLine, if_neg (hnot line List.mem_cons_self)]
      exact ih fun other hother => hnot other (List.mem_cons_of_mem line hother)
  rw [geminiParseResponse, containsDataPrefix, decide_eq_true hmarker, if_pos rfl]
  exact hloop _ hlines

theorem geminiParseResponse_plain {t : Bytes} (hmarker : ¬ str "data:" <:+: t) :
    geminiParseResponse t = parseGeminiJsonResponse t {} := by
  rw [geminiParseResponse, containsDataPrefix, decide_eq_false hmarker]
  exact if_neg Bool.false_ne_true

/-! ## A stream -/

/-- What carries an object is not the end of the answer: an object does not start with a bracket. -/
theorem not_done_of_answer {payload : Bytes} (h : parseGeminiJsonResponse payload {} = .ok a) :
    ¬ str "[DONE]" <+: payload := by
  rintro ⟨rest, rfl⟩
  obtain ⟨root, -, -, -, hroot, -, hpresent, -⟩ := parseGeminiJsonResponse_steps h
  obtain ⟨text, after, hspells, hopen⟩ := skipWs_spelled (jsonParse_of_status hroot)
  have hskip : skipWs (str "[DONE]" ++ rest) = str "[DONE]" ++ rest := skipWs_cons (by decide) _
  cases root with
  | object members =>
    obtain ⟨u, rfl⟩ := List.head?_eq_some_iff.mp hspells.object_head
    exact absurd (List.cons.inj (hskip.symm.trans hopen)).1 (by decide)
  | _ => cases hpresent

theorem Framed.foldlM {lines : List Bytes} {answers : List Answer} (h : Framed lines answers) :
    ∀ out : Answer, ∃ out', lines.foldlM parseGeminiLine out = .ok out' ∧
      out'.text = out.text ++ answers.flatMap (·.text) ∧
      out'.toolCalls = out.toolCalls ++ answers.flatMap (·.toolCalls) := by
  have hpassed : ∀ {line : Bytes} {lines : List Bytes} {out : Answer}, ¬ str "data:" <+: line →
      (line :: lines).foldlM parseGeminiLine out = lines.foldlM parseGeminiLine out := by
    intro line lines out hline
    rw [List.foldlM_cons, parseGeminiLine, if_neg hline]
    rfl
  induction h with
  | nil => exact fun out => ⟨out, rfl, (List.append_nil _).symm, (List.append_nil _).symm⟩
  | empty hline _ ih =>
    intro out
    rw [hpassed (by rcases hline with rfl | rfl <;> decide)]
    exact ih out
  | comment _ ih =>
    intro out
    rw [hpassed]
    · exact ih out
    · rintro ⟨rest, hrest⟩
      exact absurd (List.cons.inj hrest).1 (by decide)
  | data hdata hanswer _ ih =>
    intro out
    obtain ⟨next, hnext, htext, hcalls⟩ := parseGeminiJsonResponse_onto hanswer out
    obtain ⟨out', hout, htext', hcalls'⟩ := ih next
    refine ⟨out', ?_, ?_, ?_⟩
    · rw [List.foldlM_cons, parseGeminiLine, if_pos hdata]
      have hdone := not_done_of_answer hanswer
      rw [linePayload] at hdone hnext
      dsimp only
      rw [if_neg hdone, hnext]
      exact hout
    · rw [htext', htext, List.flatMap_cons, List.append_assoc]
    · rw [hcalls', hcalls, List.flatMap_cons, List.append_assoc]

/-- Behind the whitespace of a stream without objects there is a comment, or nothing. -/
theorem Framed.starts {lines : List Bytes} {answers : List Answer} (h : Framed lines answers)
    (hno : ∀ line ∈ lines, ¬ str "data:" <+: line) :
    skipWs ([chr '\n'].intercalate lines) = [] ∨
      ∃ rest, skipWs ([chr '\n'].intercalate lines) = chr ':' :: rest := by
  induction h with
  | nil => exact Or.inl rfl
  | @empty line lines _ hline _ ih =>
    have hrest := ih fun other hother => hno other (List.mem_cons_of_mem line hother)
    cases lines with
    | nil => rcases hline with rfl | rfl <;> exact Or.inl rfl
    | cons next lines =>
      have hcons : skipWs ([chr '\n'].intercalate (line :: next :: lines)) =
          skipWs ([chr '\n'].intercalate (next :: lines)) := by
        rcases hline with rfl | rfl <;> rfl
      rwa [hcons]
  | @comment text lines _ _ _ =>
    cases lines with
    | nil => exact Or.inr ⟨text, by simp [List.intercalate]; exact skipWs_cons (by decide) _⟩
    | cons next lines =>
      refine Or.inr ⟨text ++ chr '\n' :: [chr '\n'].intercalate (next :: lines), ?_⟩
      have hcons : [chr '\n'].intercalate ((chr ':' :: text) :: next :: lines) =
          chr ':' :: (text ++ chr '\n' :: [chr '\n'].intercalate (next :: lines)) := by
        simp [List.intercalate]
      rw [hcons]
      exact skipWs_cons (by decide) _
  | data hdata _ _ _ => exact absurd hdata (hno _ List.mem_cons_self)

/-- No document starts with a comment. -/
theorem jsonParse_ne_ok {t : Bytes} (h : skipWs t = [] ∨ ∃ rest, skipWs t = chr ':' :: rest) (v : Json) :
    jsonParse t ≠ .ok v := by
  intro hparse
  unfold jsonParse at hparse
  split at hparse
  · cases hparse
  · rcases h with h | ⟨rest, h⟩
    · rw [h] at hparse
      cases hparse
    · have htoken : parseValue (jsonMaxDepth + 1) (chr ':' :: rest) =
          parserError "sc.json.unexpected_token" (chr ':' :: rest) := by
        rw [parseValue, skipWs_cons (by decide)]
        rfl
      rw [h, htoken] at hparse
      cases hparse

/-- **A stream is read as its objects one after the other** exactly if the marker stands in it: with an
    object on a line it does, and so it does with a comment that has it. -/
theorem Framed.concatenates {stream : Bytes} {answers : List Answer}
    (h : Framed (stream.splitOn (chr '\n')) answers) :
    Concatenates (geminiParseResponse stream) answers ↔ str "data:" <:+: stream := by
  constructor
  · rintro ⟨out, hout, -⟩
    by_contra hmarker
    have hno : ∀ line ∈ stream.splitOn (chr '\n'), ¬ str "data:" <+: line := by
      intro line hline hdata
      obtain ⟨before, after, hstream, -⟩ := Lib.Separated.mem_splitOn_starts hline
      exact hmarker (hdata.isInfix.trans ⟨before, after, hstream.symm⟩)
    have hstarts := h.starts hno
    rw [List.intercalate_splitOn] at hstarts
    rw [geminiParseResponse_plain hmarker] at hout
    obtain ⟨root, -, -, -, hroot, -⟩ := parseGeminiJsonResponse_steps hout
    exact jsonParse_ne_ok hstarts root (jsonParse_of_status hroot)
  · intro hmarker
    obtain ⟨out, hout, htext, hcalls⟩ := h.foldlM {}
    refine ⟨out, ?_, htext, hcalls⟩
    rw [geminiParseResponse, containsDataPrefix, decide_eq_true hmarker, if_pos rfl]
    exact hout

/-! ## The two framings -/

/-- **What the guess costs.**  A document is read as one exactly when the marker stands nowhere in it, or it
    says nothing anyway; and a stream is read as its objects exactly when the marker stands in it. -/
theorem framing_iff (text : Bytes) :
    (∀ root, jsonParse text = .ok root →
        (geminiParseResponse text = parseGeminiJsonResponse text {} ↔
          ¬ str "data:" <:+: text ∨ SaysNothing root)) ∧
      ∀ answers, Framed (text.splitOn (chr '\n')) answers →
        (Concatenates (geminiParseResponse text) answers ↔ str "data:" <:+: text) := by
  refine ⟨fun root h => ?_, fun answers h => h.concatenates⟩
  by_cases hmarker : str "data:" <:+: text
  · rw [geminiParseResponse_marked h hmarker]
    have hnothing := parseGeminiJsonResponse_nothing (jsonParse_status h)
    constructor
    · exact fun hsame => Or.inr (hnothing.mp hsame.symm)
    · rintro (hnot | hmute)
      · exact absurd hmarker hnot
      · exact (hnothing.mpr hmute).symm
  · exact ⟨fun _ => Or.inl hmarker, fun _ => geminiParseResponse_plain hmarker⟩

/-- A candidate with one text. -/
def textDocument (text : Bytes) : Json :=
  .object [(str "candidates", .array [.object [(str "content", .object [(str "parts", .array [
    .object [(str "text", .string text)]])])]])]

theorem jsonParse_textDocument :
    jsonParse (jsonText (textDocument (str "a"))) = .ok (textDocument (str "a")) :=
  jsonParse_text ⟨by decide +kernel, by decide +kernel, by decide +kernel⟩ (by decide +kernel)

/-- Two objects in a stream, with a comment, an empty line and line ends of both kinds. -/
def sampleLines : List Bytes :=
  [str ": note", str "data: " ++ jsonText (textDocument (str "a")) ++ [chr '\r'], [chr '\r'],
    str "data:" ++ jsonText (textDocument (str "b")), []]

/-- A candidate without the marker is read as what it is, and the stream as its objects. -/
theorem framing_texts :
    geminiParseResponse (jsonText (textDocument (str "a"))) =
      parseGeminiJsonResponse (jsonText (textDocument (str "a"))) {} ∧
    ∃ out, geminiParseResponse ([chr '\n'].intercalate sampleLines) = .ok out ∧ out.text = str "ab" := by
  have hanswer : ∀ {line text : Bytes},
      (parseGeminiJsonResponse (linePayload line) {}).map (fun answer => answer.text) = .ok text →
        ∃ answer, parseGeminiJsonResponse (linePayload line) {} = .ok answer ∧ answer.text = text := by
    intro line text h
    cases hparse : parseGeminiJsonResponse (linePayload line) {} with
    | error e => rw [hparse] at h; cases h
    | ok answer => rw [hparse] at h; exact ⟨answer, rfl, Except.ok.inj h⟩
  obtain ⟨first, hfirst, hfirstText⟩ :=
    @hanswer (str "data: " ++ jsonText (textDocument (str "a")) ++ [chr '\r']) (str "a") (by decide +kernel)
  obtain ⟨second, hsecond, hsecondText⟩ :=
    @hanswer (str "data:" ++ jsonText (textDocument (str "b"))) (str "b") (by decide +kernel)
  have hlines : ([chr '\n'].intercalate sampleLines).splitOn (chr '\n') = sampleLines := by decide +kernel
  have hframed : Framed sampleLines [first, second] :=
    .comment (.data (by decide +kernel) hfirst (.empty (.inr rfl) (.data (by decide +kernel) hsecond
      (.empty (.inl rfl) .nil))))
  refine ⟨((framing_iff _).1 _ jsonParse_textDocument).mpr (Or.inl (by decide +kernel)), ?_⟩
  obtain ⟨out, hout, htext, -⟩ :=
    ((framing_iff _).2 [first, second] (hlines.symm ▸ hframed)).mpr (by decide +kernel)
  refine ⟨out, hout, ?_⟩
  rw [htext, List.flatMap_cons, List.flatMap_singleton, hfirstText, hsecondText]
  decide

/-- **An answer about a stream's marker is lost**: the text is read as a stream without events. -/
theorem framing_loses :
    ¬ ((∀ text root, jsonParse text = .ok root →
          geminiParseResponse text = parseGeminiJsonResponse text {}) ∧
        ∀ text answers, Framed (text.splitOn (chr '\n')) answers →
          Concatenates (geminiParseResponse text) answers) := by
  intro h
  have hparse : jsonParse (jsonText (textDocument (str "data:"))) = .ok (textDocument (str "data:")) :=
    jsonParse_text ⟨by decide +kernel, by decide +kernel, by decide +kernel⟩ (by decide +kernel)
  have hsame := h.1 _ _ hparse
  rw [geminiParseResponse_marked hparse (by decide +kernel)] at hsame
  have hmute := (parseGeminiJsonResponse_nothing (jsonParse_status hparse)).mp hsame.symm
  have hparts : documentParts (textDocument (str "data:")) = [.object [(str "text", .string (str "data:"))]] := rfl
  have hsilent := (hmute.parts _ (hparts ▸ List.mem_cons_self)).1
  exact absurd hsilent (by decide)

end SmolClaw.Providers
