/-
  What the events of a stream lose.

  1. **Pieces** — what the JSON of an event carries, said without the parsers' chains: every text, every
     reasoning text, every tool call and every fragment of a call's arguments.  An event tells a text if
     it is of the text's type and the text stands in its own; a tool call takes an event of its own.

  2. **Defects** — a chain takes its first branch: a text hides reasoning and tool calls beside it, an
     OpenAI event with several calls tells the first one only (the parser of whole answers takes them
     all), an Anthropic `input_json_delta` has no branch, and what Gemini grounds with a search loses its
     text.

  3. **Result** — `kept_iff`: for each parser, exactly which accepted events lose nothing.
-/
import SmolClaw.Lib.Separated
import SmolClaw.Providers.StreamEvents

namespace SmolClaw.Providers

open SmolClaw.Runtime

/-! ## The pieces of an event -/

/-- A piece of what an event carries. -/
inductive Piece where
  | text (part : Bytes)
  | reasoning (part : Bytes)
  | call (callId : Option Bytes) (name argumentsJson : Bytes)
  | fragment (json : Bytes)
  deriving DecidableEq, Repr

/-- A call takes an event of its own. -/
def Piece.isCall : Piece → Bool
  | .call .. => true
  | _ => false

/-- An event tells a piece: it has the piece's type and all of its bytes. -/
def Piece.Told (event : StreamEvent) : Piece → Prop
  | .text part => event.type = .delta ∧ part <:+: event.text
  | .reasoning part => event.type = .reasoningDelta ∧ part <:+: event.text
  | .call callId name argumentsJson =>
      event.type = .toolCall ∧ (∀ id ∈ callId, event.toolCall.callId = id) ∧
        event.toolCall.name = name ∧ event.toolCall.argumentsJson = argumentsJson
  | .fragment json => event.type = .toolCall ∧ json <:+: event.toolCall.argumentsJson

/-- **Nothing is dropped**: every piece is told, and no two calls are told as one. -/
def Keeps (event : StreamEvent) (pieces : List Piece) : Prop :=
  (∀ piece ∈ pieces, piece.Told event) ∧ (pieces.filter Piece.isCall).length ≤ 1

/-- A text that is there and not empty. -/
def textPiece (make : Bytes → Piece) (text : Option Bytes) : List Piece :=
  ((text.filter (· ≠ [])).map make).toList

/-- The reasoning fields of OpenAI's deltas. -/
def reasoningKeys : List String := ["reasoning_content", "reasoning", "reasoning_delta"]

/-- The pieces of the reasoning fields. -/
def reasoningPieces (delta : Option Json) : List Piece :=
  reasoningKeys.flatMap fun key => textPiece .reasoning (memberText delta key)

/-- An element of `tool_calls`; what is missing is empty. -/
def openaiCall (value : Json) : Piece :=
  let function := member (some value) "function"
  .call (some ((memberText (some value) "id").getD [])) ((memberText function "name").getD [])
    ((memberText function "arguments").getD [])

/-- The elements of `tool_calls`. -/
def openaiCalls (delta : Option Json) : List Json := arrayItems (member delta "tool_calls")

/-- What the `delta` of an OpenAI event carries. -/
def openaiPieces (delta : Option Json) : List Piece :=
  textPiece .text (memberText delta "content") ++ reasoningPieces delta ++ (openaiCalls delta).map openaiCall

/-- What an Anthropic event carries. -/
def anthropicPieces (root : Json) : List Piece :=
  let delta := member (some root) "delta"
  if memberText (some root) "type" = some (str "content_block_delta") then
    match memberText delta "type" with
    | none => []
    | some type =>
        if type = str "text_delta" then textPiece .text (memberText delta "text")
        else if type = str "thinking_delta" then textPiece .reasoning (memberText delta "thinking")
        else if type = str "input_json_delta" then textPiece .fragment (memberText delta "partial_json")
        else []
  else []

/-- The call in a part of a Gemini candidate, its arguments written out. -/
def geminiCall (part : Json) : Option Piece :=
  (member (some part) "functionCall").map fun functionCall =>
    .call none ((memberText (some functionCall) "name").getD [])
      ((jsonSerialize ((member (some functionCall) "args").getD (.object []))).toOption.getD [])

/-- What a part of a Gemini candidate carries. -/
def partPieces (part : Json) : List Piece :=
  textPiece .text (memberText (some part) "text") ++ (geminiCall part).toList

/-- The parts of the first candidate of a document. -/
def documentParts (root : Json) : List Json :=
  arrayItems (member (member (arrayItems (member (some root) "candidates")).head? "content") "parts")

/-- A document that was grounded with a search. -/
def documentGrounded (root : Json) : Bool :=
  let grounding := member (arrayItems (member (some root) "candidates")).head? "groundingMetadata"
  grounding.isSome && !(arrayItems (member grounding "webSearchQueries")).isEmpty

/-- What a line of a Gemini event carries behind `data:`. -/
def linePayload (line : Bytes) : Bytes := (line.drop 5).dropWhile fun c => c == chr ' ' || c == chr '\t'

/-- A line that ends the answer. -/
def lineDone (line : Bytes) : Bool :=
  decide (str "data:" <+: line) && decide (str "[DONE]" <+: linePayload line)

/-- The document on a line. -/
def lineDocument (line : Bytes) : Option Json :=
  if str "data:" <+: line ∧ ¬ str "[DONE]" <+: linePayload line then
    (jsonParseStatus (linePayload line)).toOption
  else none

/-- The documents of a Gemini event: its `data:` lines, or the text itself. -/
def geminiDocuments (sseEvent : Bytes) : List Json :=
  if containsDataPrefix sseEvent then (sseEvent.splitOn (chr '\n')).filterMap lineDocument
  else (jsonParseStatus sseEvent).toOption.toList

/-- The parts of a Gemini event. -/
def geminiParts (sseEvent : Bytes) : List Json := (geminiDocuments sseEvent).flatMap documentParts

/-- A Gemini event with a `[DONE]` line. -/
def geminiDone (sseEvent : Bytes) : Bool :=
  containsDataPrefix sseEvent && (sseEvent.splitOn (chr '\n')).any lineDone

/-! ## Telling pieces -/

variable {event : StreamEvent} {pieces : List Piece}

/-- Events of the other types tell nothing. -/
theorem not_told (h : event.type ≠ .delta ∧ event.type ≠ .reasoningDelta ∧ event.type ≠ .toolCall)
    (piece : Piece) : ¬ piece.Told event := by
  intro htold
  cases piece with
  | text part => exact h.1 htold.1
  | reasoning part => exact h.2.1 htold.1
  | call callId name argumentsJson => exact h.2.2 htold.1
  | fragment json => exact h.2.2 htold.1

/-- So they keep what carries nothing. -/
theorem keeps_iff_of_not_told (h : ∀ piece : Piece, ¬ piece.Told event) :
    Keeps event pieces ↔ pieces = [] := by
  constructor
  · intro hkeeps
    exact List.eq_nil_iff_forall_not_mem.mpr fun piece hpiece => h piece (hkeeps.1 piece hpiece)
  · rintro rfl
    exact ⟨nofun, Nat.zero_le 1⟩

theorem keeps_nil (event : StreamEvent) : Keeps event [] := ⟨nofun, Nat.zero_le 1⟩

theorem mem_textPiece {make : Bytes → Piece} {text : Option Bytes} {piece : Piece} :
    piece ∈ textPiece make text ↔ ∃ part, text = some part ∧ part ≠ [] ∧ piece = make part := by
  cases text with
  | none => simp [textPiece]
  | some part =>
    by_cases hpart : part = []
    · simp [textPiece, hpart]
    · have hone : textPiece make (some part) = [make part] := by simp [textPiece, hpart]
      rw [hone, List.mem_singleton]
      constructor
      · intro hpiece
        exact ⟨part, rfl, hpart, hpiece⟩
      · rintro ⟨other, hother, -, hpiece⟩
        exact Option.some.inj hother ▸ hpiece

/-- Texts, reasoning and fragments are no calls. -/
theorem filter_isCall_textPiece {make : Bytes → Piece} (hmake : ∀ part, (make part).isCall = false)
    (text : Option Bytes) : (textPiece make text).filter Piece.isCall = [] := by
  rw [List.filter_eq_nil_iff]
  intro piece hpiece
  obtain ⟨part, -, -, rfl⟩ := mem_textPiece.mp hpiece
  simp [hmake part]

/-! ## OpenAI -/

theorem mem_reasoningPieces {delta : Option Json} {piece : Piece} :
    piece ∈ reasoningPieces delta ↔
      ∃ key ∈ reasoningKeys, ∃ part, memberText delta key = some part ∧ part ≠ [] ∧
        piece = .reasoning part := by
  simp only [reasoningPieces, List.mem_flatMap, mem_textPiece]

theorem filter_isCall_reasoningPieces (delta : Option Json) :
    (reasoningPieces delta).filter Piece.isCall = [] := by
  rw [List.filter_eq_nil_iff]
  intro piece hpiece
  obtain ⟨key, -, part, -, -, rfl⟩ := mem_reasoningPieces.mp hpiece
  simp [Piece.isCall]

theorem filter_isCall_openaiCalls (calls : List Json) :
    (calls.map openaiCall).filter Piece.isCall = calls.map openaiCall := by
  rw [List.filter_eq_self]
  intro piece hpiece
  obtain ⟨call, -, rfl⟩ := List.mem_map.mp hpiece
  rfl

/-- The calls of a delta are counted one by one. -/
theorem openaiPieces_calls (delta : Option Json) :
    ((openaiPieces delta).filter Piece.isCall).length = (openaiCalls delta).length := by
  rw [openaiPieces, List.filter_append, List.filter_append, filter_isCall_textPiece fun _ => rfl,
    filter_isCall_reasoningPieces, filter_isCall_openaiCalls, List.nil_append, List.nil_append,
    List.length_map]

/-- What the chain needs to lose nothing of a `delta`: nothing stands beside a text; reasoning texts are
    parts of the first one, and no call stands beside them; there is one call. -/
def DeltaKept (delta : Option Json) : Prop :=
  match memberText delta "content" with
  | some _ => reasoningPieces delta = [] ∧ openaiCalls delta = []
  | none =>
      match reasoningText delta with
      | some first =>
          openaiCalls delta = [] ∧ ∀ key ∈ reasoningKeys, ∀ other ∈ memberText delta key, other <:+: first
      | none => (openaiCalls delta).length ≤ 1

/-- No reasoning field is a text. -/
theorem reasoningPieces_of_none {delta : Option Json} (h : reasoningText delta = none) :
    reasoningPieces delta = [] := by
  rw [reasoningText, Option.or_eq_none_iff, Option.or_eq_none_iff] at h
  rw [List.eq_nil_iff_forall_not_mem]
  intro piece hpiece
  obtain ⟨key, hkey, part, htext, -, -⟩ := mem_reasoningPieces.mp hpiece
  rw [reasoningKeys, List.mem_cons, List.mem_cons, List.mem_singleton] at hkey
  rcases hkey with rfl | rfl | rfl
  · exact nomatch h.1.1.symm.trans htext
  · exact nomatch h.1.2.symm.trans htext
  · exact nomatch h.2.symm.trans htext

/-- A call parsed into an event is told by it. -/
theorem parseOneStreamToolCall_told {value : Json} {out : StreamEvent} (htype : out.type = .toolCall)
    (h : parseOneStreamToolCall value out = .ok event) : (openaiCall value).Told event := by
  unfold parseOneStreamToolCall at h
  split at h
  · exact absurd h (Status.parse_ne_ok _ _)
  · next function hfunction =>
    cases h
    refine ⟨htype, ?_, ?_, ?_⟩
    · intro id hid
      exact Option.some.inj hid
    · rw [hfunction]
    · rw [hfunction]

/-- An event with a text keeps a delta that has nothing beside it. -/
theorem keeps_text {delta : Option Json} {text : Bytes} (htext : memberText delta "content" = some text)
    (htype : event.type = .delta) (hevent : event.text = text) :
    Keeps event (openaiPieces delta) ↔ reasoningPieces delta = [] ∧ openaiCalls delta = [] := by
  have hmem : ∀ piece ∈ openaiPieces delta, piece.Told event ∨
      piece ∈ reasoningPieces delta ∨ piece ∈ (openaiCalls delta).map openaiCall := by
    intro piece hpiece
    rw [openaiPieces, List.mem_append, List.mem_append] at hpiece
    rcases hpiece with (hpiece | hpiece) | hpiece
    · obtain ⟨part, hpart, -, rfl⟩ := mem_textPiece.mp hpiece
      rw [htext] at hpart
      exact Or.inl ⟨htype, hevent ▸ Option.some.inj hpart ▸ List.infix_refl _⟩
    · exact Or.inr (Or.inl hpiece)
    · exact Or.inr (Or.inr hpiece)
  constructor
  · intro hkeeps
    constructor
    · rw [List.eq_nil_iff_forall_not_mem]
      intro piece hpiece
      have htold := hkeeps.1 piece (List.mem_append_left _ (List.mem_append_right _ hpiece))
      obtain ⟨key, -, part, -, -, rfl⟩ := mem_reasoningPieces.mp hpiece
      exact nomatch htype.symm.trans htold.1
    · rw [List.eq_nil_iff_forall_not_mem]
      intro call hcall
      have htold := hkeeps.1 _ (List.mem_append_right _ (List.mem_map_of_mem hcall))
      exact nomatch htype.symm.trans htold.1
  · rintro ⟨hreasoning, hcalls⟩
    constructor
    · intro piece hpiece
      rcases hmem piece hpiece with htold | hpiece | hpiece
      · exact htold
      · exact absurd (hreasoning ▸ hpiece) List.not_mem_nil
      · exact absurd (hcalls ▸ hpiece) List.not_mem_nil
    · rw [openaiPieces_calls, hcalls]
      exact Nat.zero_le 1

/-- An event with reasoning keeps reasoning that stands in its text. -/
theorem keeps_reasoning {delta : Option Json} {first : Bytes} (hnone : memberText delta "content" = none)
    (htype : event.type = .reasoningDelta) (hevent : event.text = first) :
    Keeps event (openaiPieces delta) ↔
      openaiCalls delta = [] ∧ ∀ key ∈ reasoningKeys, ∀ other ∈ memberText delta key, other <:+: first := by
  have hpieces : openaiPieces delta = reasoningPieces delta ++ (openaiCalls delta).map openaiCall := by
    rw [openaiPieces, hnone]
    rfl
  constructor
  · intro hkeeps
    rw [hpieces] at hkeeps
    constructor
    · rw [List.eq_nil_iff_forall_not_mem]
      intro call hcall
      have htold := hkeeps.1 _ (List.mem_append_right _ (List.mem_map_of_mem hcall))
      exact nomatch htype.symm.trans htold.1
    · intro key hkey other hother
      by_cases hempty : other = []
      · exact hempty ▸ List.nil_infix
      · have hpiece := mem_reasoningPieces.mpr ⟨key, hkey, other, hother, hempty, rfl⟩
        exact hevent ▸ (hkeeps.1 _ (List.mem_append_left _ hpiece)).2
  · rintro ⟨hcalls, hinfix⟩
    constructor
    · rw [hpieces, hcalls]
      intro piece hpiece
      rw [List.map_nil, List.append_nil] at hpiece
      obtain ⟨key, hkey, part, hpart, -, rfl⟩ := mem_reasoningPieces.mp hpiece
      exact ⟨htype, hevent ▸ hinfix key hkey part hpart⟩
    · rw [openaiPieces_calls, hcalls]
      exact Nat.zero_le 1

/-- An event with a call keeps one call. -/
theorem keeps_call {delta : Option Json} {call : Json} {calls : List Json}
    (hnone : memberText delta "content" = none) (hreasoning : reasoningText delta = none)
    (hcalls : openaiCalls delta = call :: calls) (htold : (openaiCall call).Told event) :
    Keeps event (openaiPieces delta) ↔ (openaiCalls delta).length ≤ 1 := by
  have hpieces : openaiPieces delta = (call :: calls).map openaiCall := by
    rw [openaiPieces, hnone, reasoningPieces_of_none hreasoning, hcalls]
    rfl
  rw [← openaiPieces_calls]
  refine ⟨fun hkeeps => hkeeps.2, fun hlength => ⟨?_, hlength⟩⟩
  have hone : calls = [] := by
    rw [openaiPieces_calls, hcalls, List.length_cons] at hlength
    exact List.length_eq_zero_iff.mp (by omega)
  rw [hpieces, hone]
  intro piece hpiece
  rw [List.map_cons, List.map_nil, List.mem_singleton] at hpiece
  exact hpiece ▸ htold

/-- **What the chain keeps of a delta.** -/
theorem openaiDelta_kept {delta : Option Json} (h : openaiDelta delta {} = .ok event) :
    Keeps event (openaiPieces delta) ↔ DeltaKept delta := by
  unfold openaiDelta at h
  unfold DeltaKept
  cases hcontent : memberText delta "content" with
  | some text =>
    rw [hcontent] at h
    cases h
    exact keeps_text hcontent rfl rfl
  | none =>
    rw [hcontent] at h
    cases hreasoning : reasoningText delta with
    | some first =>
      simp only [hreasoning] at h
      cases h
      exact keeps_reasoning hcontent rfl rfl
    | none =>
      simp only [hreasoning] at h
      split at h
      · next calls hmember =>
        split at h
        · exact absurd h (Status.parse_ne_ok _ _)
        · next call rest hitems =>
          have hcalls : openaiCalls delta = call :: rest := by rw [openaiCalls, hmember, hitems]
          exact keeps_call hcontent hreasoning hcalls (parseOneStreamToolCall_told rfl h)
      · next hmember =>
        have hcalls : openaiCalls delta = [] := by
          rw [openaiCalls, hmember]
          rfl
        have hpieces : openaiPieces delta = [] := by
          rw [openaiPieces, hcontent, reasoningPieces_of_none hreasoning, hcalls]
          rfl
        rw [hpieces, hcalls]
        exact ⟨fun _ => Nat.zero_le 1, fun _ => keeps_nil event⟩

/-- The ways through the parser: an error is reported, there is no delta, or the chain decides. -/
theorem openaiParseRoot_cases {root : Json} (h : openaiParseRoot root = .ok event) :
    (∃ key, responseErrorStatus root = some key ∧ event.type = .error) ∨
      (responseErrorStatus root = none ∧ openaiChoiceDelta root = none) ∨
      (responseErrorStatus root = none ∧ openaiDelta (openaiChoiceDelta root) {} = .ok event) := by
  unfold openaiParseRoot at h
  split at h
  · next key herror =>
    cases h
    exact Or.inl ⟨key, herror, rfl⟩
  · next herror =>
    refine Or.inr ?_
    cases husage : member (some root) "usage" with
    | none =>
      simp only [husage] at h
      split at h
      · exact absurd h (Status.parse_ne_ok _ _)
      · exact Or.inr ⟨herror, h⟩
    | some usage =>
      simp only [husage] at h
      by_cases hchoices : (member (some root) "choices").isNone = true
      · refine Or.inl ⟨herror, ?_⟩
        rw [openaiChoiceDelta, Option.isNone_iff_eq_none.mp hchoices]
        rfl
      rw [if_neg hchoices] at h
      by_cases hitems : arrayItems (member (some root) "choices") = []
      · refine Or.inl ⟨herror, ?_⟩
        rw [openaiChoiceDelta, hitems]
        rfl
      rw [if_neg hitems] at h
      split at h
      · exact absurd h (Status.parse_ne_ok _ _)
      · exact Or.inr ⟨herror, h⟩

/-- Exactly the deltas an OpenAI event keeps whole. -/
def OpenaiKept (root : Json) : Prop :=
  openaiPieces (openaiChoiceDelta root) = [] ∨
    (responseErrorStatus root = none ∧ DeltaKept (openaiChoiceDelta root))

theorem openaiParseRoot_kept {root : Json} (h : openaiParseRoot root = .ok event) :
    Keeps event (openaiPieces (openaiChoiceDelta root)) ↔ OpenaiKept root := by
  have hempty : openaiPieces (openaiChoiceDelta root) = [] →
      (Keeps event (openaiPieces (openaiChoiceDelta root)) ↔ OpenaiKept root) := by
    intro hpieces
    exact ⟨fun _ => Or.inl hpieces, fun _ => hpieces ▸ keeps_nil event⟩
  rcases openaiParseRoot_cases h with ⟨key, herror, htype⟩ | ⟨-, hnone⟩ | ⟨herror, hdelta⟩
  · have htold : ∀ piece : Piece, ¬ piece.Told event := not_told (by rw [htype]; decide)
    rw [keeps_iff_of_not_told htold, OpenaiKept, herror]
    exact ⟨Or.inl, fun hkept => hkept.elim id fun hkept => nomatch hkept.1⟩
  · exact hempty (hnone ▸ rfl)
  · by_cases hpieces : openaiPieces (openaiChoiceDelta root) = []
    · exact hempty hpieces
    · rw [openaiDelta_kept hdelta]
      exact ⟨fun hkept => Or.inr ⟨herror, hkept⟩, fun hkept => (hkept.resolve_left hpieces).2⟩

/-! ## Anthropic -/

/-- Exactly the Anthropic events that are kept whole: the fragments of a call's arguments are not. -/
def AnthropicKept (root : Json) : Prop :=
  anthropicPieces root = [] ∨
    ((member (some root) "error").isNone = true ∧
      memberText (member (some root) "delta") "type" ≠ some (str "input_json_delta"))

/-- An event of a delta carries one piece, which is no call. -/
theorem anthropicPieces_calls (root : Json) : (anthropicPieces root).filter Piece.isCall = [] := by
  unfold anthropicPieces
  dsimp only
  split
  · split
    · rfl
    · split
      · exact filter_isCall_textPiece (fun _ => rfl) _
      · split
        · exact filter_isCall_textPiece (fun _ => rfl) _
        · split
          · exact filter_isCall_textPiece (fun _ => rfl) _
          · rfl
  · rfl

theorem anthropicDelta_text {delta : Option Json} {part : Bytes}
    (htype : memberText delta "type" = some (str "text_delta"))
    (hpart : memberText delta "text" = some part) :
    anthropicDelta delta {} = { type := .delta, text := part } := by
  unfold anthropicDelta
  rw [hpart, if_pos ⟨htype, rfl⟩]
  rfl

theorem anthropicDelta_thinking {delta : Option Json} {part : Bytes}
    (htype : memberText delta "type" = some (str "thinking_delta"))
    (hpart : memberText delta "thinking" = some part) :
    anthropicDelta delta {} = { type := .reasoningDelta, text := part } := by
  unfold anthropicDelta
  have hother : ¬ (memberText delta "type" = some (str "text_delta") ∧ (memberText delta "text").isSome) := by
    rw [htype]
    exact fun h => absurd h.1 (by decide)
  rw [hpart, if_neg hother, if_pos ⟨Or.inl htype, rfl⟩]
  rfl

/-- A fragment of a call's arguments has no branch. -/
theorem anthropicDelta_fragment {delta : Option Json}
    (htype : memberText delta "type" = some (str "input_json_delta")) : anthropicDelta delta {} = {} := by
  unfold anthropicDelta
  have hother : str "input_json_delta" ≠ str "text_delta" ∧ str "input_json_delta" ≠ str "thinking_delta" ∧
      str "input_json_delta" ≠ str "reasoning_delta" := by decide
  rw [htype, if_neg fun h => hother.1 (Option.some.inj h.1), if_neg]
  rintro ⟨h | h, -⟩
  · exact hother.2.1 (Option.some.inj h)
  · exact hother.2.2 (Option.some.inj h)

/-- The branch of the deltas tells texts and thinking, and no fragment. -/
theorem anthropicDelta_told {root : Json}
    (htype : memberText (some root) "type" = some (str "content_block_delta")) {piece : Piece}
    (hpiece : piece ∈ anthropicPieces root) :
    piece.Told (anthropicDelta (member (some root) "delta") {}) ↔
      memberText (member (some root) "delta") "type" ≠ some (str "input_json_delta") := by
  rw [anthropicPieces, if_pos htype] at hpiece
  cases hdelta : memberText (member (some root) "delta") "type" with
  | none =>
    simp only [hdelta] at hpiece
    exact absurd hpiece List.not_mem_nil
  | some type =>
    simp only [hdelta] at hpiece
    split at hpiece
    · next htext =>
      subst htext
      obtain ⟨part, hpart, -, rfl⟩ := mem_textPiece.mp hpiece
      rw [anthropicDelta_text hdelta hpart]
      exact ⟨fun _ => by decide, fun _ => ⟨rfl, List.infix_refl part⟩⟩
    split at hpiece
    · next hthinking =>
      subst hthinking
      obtain ⟨part, hpart, -, rfl⟩ := mem_textPiece.mp hpiece
      rw [anthropicDelta_thinking hdelta hpart]
      exact ⟨fun _ => by decide, fun _ => ⟨rfl, List.infix_refl part⟩⟩
    split at hpiece
    · next hjson =>
      subst hjson
      obtain ⟨part, hpart, -, rfl⟩ := mem_textPiece.mp hpiece
      rw [anthropicDelta_fragment hdelta]
      exact ⟨fun htold => (nomatch htold.1), fun hother => absurd rfl hother⟩
    · exact absurd hpiece List.not_mem_nil

/-- An event that carries something is an error's or a delta's. -/
theorem anthropicParseRoot_cases {root : Json} (h : anthropicParseRoot root = .ok event)
    (hpieces : anthropicPieces root ≠ []) :
    memberText (some root) "type" = some (str "content_block_delta") ∧
      (((member (some root) "error").isNone = false ∧ event.type = .error) ∨
        ((member (some root) "error").isNone = true ∧
          event = anthropicDelta (member (some root) "delta") {})) := by
  have htype : memberText (some root) "type" = some (str "content_block_delta") := by
    by_contra hother
    rw [anthropicPieces, if_neg hother] at hpieces
    exact hpieces rfl
  refine ⟨htype, ?_⟩
  unfold anthropicParseRoot at h
  split at h
  · next herror =>
    cases h
    exact Or.inl ⟨by simpa using herror, rfl⟩
  · next herror =>
    have hother : str "content_block_delta" ≠ str "message_stop" ∧
        str "content_block_delta" ≠ str "message_delta" := by decide
    simp only [htype] at h
    rw [if_neg hother.1, if_neg hother.2, if_pos trivial] at h
    cases h
    exact Or.inr ⟨by simpa using herror, rfl⟩

theorem anthropicParseRoot_kept {root : Json} (h : anthropicParseRoot root = .ok event) :
    Keeps event (anthropicPieces root) ↔ AnthropicKept root := by
  by_cases hpieces : anthropicPieces root = []
  · rw [hpieces]
    exact ⟨fun _ => Or.inl hpieces, fun _ => keeps_nil event⟩
  obtain ⟨htype, ⟨herror, hevent⟩ | ⟨herror, hevent⟩⟩ := anthropicParseRoot_cases h hpieces
  · rw [keeps_iff_of_not_told (not_told (by rw [hevent]; decide)), AnthropicKept, herror]
    exact ⟨Or.inl, fun hkept => hkept.elim id fun hkept => nomatch hkept.1⟩
  · rw [hevent]
    constructor
    · intro hkeeps
      obtain ⟨piece, hpiece⟩ := List.exists_mem_of_ne_nil _ hpieces
      exact Or.inr ⟨herror, (anthropicDelta_told htype hpiece).mp (hkeeps.1 piece hpiece)⟩
    · intro hkept
      refine ⟨fun piece hpiece => ?_, by rw [anthropicPieces_calls]; exact Nat.zero_le 1⟩
      exact (anthropicDelta_told htype hpiece).mpr (hkept.resolve_left hpieces).2

/-! ## Gemini -/

/-- The text in a part. -/
def partText (part : Json) : Bytes := (memberText (some part) "text").getD []

/-- The call that is taken from a part: a part with a text gives none. -/
def takenCall (part : Json) : Option Piece :=
  if (memberText (some part) "text").isSome then none else geminiCall part

/-- A call of an answer as a piece. -/
def callPiece (call : ProviderToolCall) : Piece := .call none call.name call.argumentsJson

/-- What an answer has taken from the documents of an event. -/
structure Answer.Reads (out : Answer) (parts : List Json) (grounded done : Bool) : Prop where
  text : out.text = parts.flatMap partText
  calls : out.toolCalls.map callPiece = parts.filterMap takenCall
  searched : (out.preExecutedToolCall.filter (·.name ≠ [])).isSome = grounded
  result : grounded = false → out.preExecutedToolResult = []
  ended : out.streamingComplete = done

theorem Answer.reads_nil : ({} : Answer).Reads [] false false := ⟨rfl, rfl, rfl, fun _ => rfl, rfl⟩

variable {out out' : Answer} {parts : List Json} {grounded done : Bool}

theorem makeCall_ok {callId name : Bytes} {args : Json} {call : ProviderToolCall}
    (h : makeCall callId name args = .ok call) :
    call.name = name ∧ jsonSerialize args = .ok call.argumentsJson := by
  obtain ⟨argsJson, hargs, h⟩ := Res.bind_eq_ok.mp h
  obtain ⟨arguments, -, h⟩ := Res.bind_eq_ok.mp h
  cases h
  exact ⟨rfl, hargs⟩

theorem Answer.addToolCall_ok {call : ProviderToolCall} (h : out.addToolCall call = .ok out') :
    out' = { out with toolCalls := out.toolCalls ++ [call] } := by
  obtain ⟨response, hadd, h⟩ := Res.bind_eq_ok.mp h
  unfold Runtime.addToolCall at hadd
  split at hadd
  · exact absurd hadd (Status.invalidArgument_ne_ok _ _)
  · cases hadd
    cases h
    rfl

/-- One part adds its text, or else its call. -/
theorem parseGeminiPart_reads {part : Json} {index : Nat} (hreads : out.Reads parts grounded done)
    (h : parseGeminiPart out part index = .ok out') : out'.Reads (parts ++ [part]) grounded done := by
  unfold parseGeminiPart at h
  cases htext : memberText (some part) "text" with
  | some text =>
    have htaken : takenCall part = none := by rw [takenCall, htext]; rfl
    have hpart : partText part = text := by rw [partText, htext]; rfl
    simp only [htext] at h
    cases h
    refine ⟨?_, ?_, hreads.searched, hreads.result, hreads.ended⟩
    · rw [List.flatMap_append, List.flatMap_singleton, hpart, ← hreads.text]
    · rw [List.filterMap_append, List.filterMap_cons_none htaken, List.filterMap_nil, List.append_nil]
      exact hreads.calls
  | none =>
    have hpart : partText part = [] := by rw [partText, htext]; rfl
    have htaken : takenCall part = geminiCall part := by rw [takenCall, htext]; rfl
    have hsame : (parts ++ [part]).flatMap partText = parts.flatMap partText := by
      rw [List.flatMap_append, List.flatMap_singleton, hpart, List.append_nil]
    simp only [htext] at h
    split at h
    · next hcall =>
      have hnone : takenCall part = none := by rw [htaken, geminiCall, hcall]; rfl
      cases h
      refine ⟨hsame ▸ hreads.text, ?_, hreads.searched, hreads.result, hreads.ended⟩
      rw [List.filterMap_append, List.filterMap_cons_none hnone, List.filterMap_nil, List.append_nil]
      exact hreads.calls
    · next functionCall hcall =>
      split at h
      · exact absurd h (Status.parse_ne_ok _ _)
      · obtain ⟨call, hmake, hadd⟩ := Res.bind_eq_ok.mp h
        obtain ⟨hname, hargs⟩ := makeCall_ok hmake
        have hpiece : takenCall part = some (callPiece call) := by
          rw [htaken, geminiCall, hcall, callPiece, hname, Option.map_some, hargs]
          rfl
        rw [Answer.addToolCall_ok hadd]
        refine ⟨hsame ▸ hreads.text, ?_, hreads.searched, hreads.result, hreads.ended⟩
        rw [List.filterMap_append, List.filterMap_cons_some hpiece, List.filterMap_nil, List.map_append,
          hreads.calls]
        rfl

theorem parseGeminiParts_reads {more : List Json} : ∀ {out : Answer} {index : Nat} {parts : List Json},
    out.Reads parts grounded done → parseGeminiParts out index more = .ok out' →
      out'.Reads (parts ++ more) grounded done := by
  induction more with
  | nil =>
    intro out index parts hreads h
    cases h
    rw [List.append_nil]
    exact hreads
  | cons part more ih =>
    intro out index parts hreads h
    obtain ⟨next, hpart, h⟩ := Res.bind_eq_ok.mp h
    have hnext := ih (parseGeminiPart_reads hreads hpart) h
    rw [List.append_assoc, List.singleton_append] at hnext
    exact hnext

/-- A search takes the place of what the answer had for one. -/
theorem parseGeminiGrounding_reads {root : Json} (hreads : out.Reads parts grounded done)
    (h : parseGeminiGrounding root out = .ok out') :
    out'.Reads parts (grounded || documentGrounded root) done := by
  unfold parseGeminiGrounding at h
  dsimp only at h
  split at h
  · next hnone =>
    have hgrounded : documentGrounded root = false := by
      unfold documentGrounded
      dsimp only
      rcases hnone with hnone | hnone
      · rw [Option.isNone_iff_eq_none.mp hnone]
        rfl
      · rw [hnone]
        exact Bool.and_false _
    cases h
    rw [hgrounded, Bool.or_false]
    exact hreads
  · next hsome =>
    have hgrounded : documentGrounded root = true := by
      unfold documentGrounded
      rw [not_or] at hsome
      simp [hsome.1, hsome.2, Option.isSome_iff_ne_none, ← Option.isNone_iff_eq_none]
    obtain ⟨argumentsJson, -, h⟩ := Res.bind_eq_ok.mp h
    have hout : ∃ (call : ProviderToolCall) (result : Bytes), call.name = str "google_search" ∧
        out' = { out with preExecutedToolCall := some call, preExecutedToolResult := result } := by
      split at h
      all_goals
        obtain ⟨resultJson, -, h⟩ := Res.bind_eq_ok.mp h
        cases h
        exact ⟨_, _, rfl, rfl⟩
    obtain ⟨call, result, hname, rfl⟩ := hout
    have hsearched : ((some call).filter (·.name ≠ [])).isSome = true := by
      rw [Option.filter_some, hname]
      rfl
    rw [hgrounded, Bool.or_true]
    exact ⟨hreads.text, hreads.calls, hsearched, nofun, hreads.ended⟩

/-- The fields of an answer that are not read may be anything. -/
theorem Answer.Reads.of_same (hreads : out.Reads parts grounded done) (htext : out'.text = out.text)
    (hcalls : out'.toolCalls = out.toolCalls) (hsearched : out'.preExecutedToolCall = out.preExecutedToolCall)
    (hresult : out'.preExecutedToolResult = out.preExecutedToolResult)
    (hended : out'.streamingComplete = out.streamingComplete) : out'.Reads parts grounded done where
  text := htext.trans hreads.text
  calls := by rw [hcalls, hreads.calls]
  searched := by rw [hsearched, hreads.searched]
  result := fun h => hresult.trans (hreads.result h)
  ended := hended.trans hreads.ended

/-- One document adds its parts. -/
theorem parseGeminiJsonResponse_reads {payload : Bytes} (hreads : out.Reads parts grounded done)
    (h : parseGeminiJsonResponse payload out = .ok out') :
    ∃ root, jsonParseStatus payload = .ok root ∧
      out'.Reads (parts ++ documentParts root) (grounded || documentGrounded root) done := by
  obtain ⟨root, hroot, h⟩ := Res.bind_eq_ok.mp h
  refine ⟨root, hroot, ?_⟩
  by_cases herror : (root.objectGet (str "error")).isSome = true
  · rw [if_pos herror] at h
    exact absurd h (by rw [parseGeminiErrorStatus]; exact nofun)
  · rw [if_neg herror] at h
    obtain ⟨searched, hsearched, h⟩ := Res.bind_eq_ok.mp h
    have hbefore : Answer.Reads { out with
        model := nonEmptyText (some root) "modelVersion" out.model
        usage := geminiUsage root out.usage } parts grounded done := hreads.of_same rfl rfl rfl rfl rfl
    have hnext := parseGeminiGrounding_reads hbefore hsearched
    have hafter : Answer.Reads { searched with
        finishReason := nonEmptyText (arrayItems (member (some root) "candidates")).head? "finishReason"
          searched.finishReason } parts (grounded || documentGrounded root) done :=
      hnext.of_same rfl rfl rfl rfl rfl
    by_cases hparts : (member (member (arrayItems (member (some root) "candidates")).head? "content")
        "parts").isNone = true
    · rw [if_pos hparts] at h
      exact absurd h (Status.parse_ne_ok _ _)
    · rw [if_neg hparts] at h
      exact parseGeminiParts_reads hafter h

/-- One line of an event stream. -/
theorem parseGeminiLine_reads {line : Bytes} (hreads : out.Reads parts grounded done)
    (h : parseGeminiLine out line = .ok out') :
    out'.Reads (parts ++ (lineDocument line).toList.flatMap documentParts)
      (grounded || (lineDocument line).toList.any documentGrounded) (done || lineDone line) := by
  unfold parseGeminiLine at h
  split at h
  · next hdata =>
    dsimp only at h
    split at h
    · next hdone =>
      have hline : lineDocument line = none := if_neg fun h => h.2 hdone
      have hends : lineDone line = true := by
        rw [lineDone, decide_eq_true hdata, Bool.true_and]
        exact decide_eq_true hdone
      cases h
      rw [hline, hends, Bool.or_true]
      simp only [Option.toList_none, List.flatMap_nil, List.append_nil, List.any_nil, Bool.or_false]
      exact ⟨hreads.text, hreads.calls, hreads.searched, hreads.result, rfl⟩
    · next hdone =>
      have hends : lineDone line = false := by
        rw [lineDone, decide_eq_true hdata, Bool.true_and]
        exact decide_eq_false hdone
      obtain ⟨root, hroot, hnext⟩ := parseGeminiJsonResponse_reads hreads h
      have hline : lineDocument line = some root := by
        rw [lineDocument, if_pos ⟨hdata, hdone⟩]
        show (jsonParseStatus (linePayload line)).toOption = some root
        rw [linePayload, hroot]
        rfl
      rw [hline, hends, Bool.or_false]
      simpa using hnext
  · next hdata =>
    have hline : lineDocument line = none := if_neg fun h => hdata h.1
    have hends : lineDone line = false := by
      rw [lineDone, decide_eq_false hdata]
      rfl
    cases h
    rw [hline, hends]
    simpa using hreads

theorem foldlM_parseGeminiLine_reads {lines : List Bytes} : ∀ {out : Answer} {parts : List Json}
    {grounded done : Bool}, out.Reads parts grounded done → lines.foldlM parseGeminiLine out = .ok out' →
      out'.Reads (parts ++ (lines.filterMap lineDocument).flatMap documentParts)
        (grounded || (lines.filterMap lineDocument).any documentGrounded) (done || lines.any lineDone) := by
  induction lines with
  | nil =>
    intro out parts grounded done hreads h
    cases h
    simpa using hreads
  | cons line lines ih =>
    intro out parts grounded done hreads h
    rw [List.foldlM_cons] at h
    obtain ⟨next, hline, h⟩ := Res.bind_eq_ok.mp h
    have hnext := ih (parseGeminiLine_reads hreads hline) h
    cases hdocument : lineDocument line with
    | none =>
      rw [hdocument] at hnext
      simpa [List.filterMap_cons, hdocument, Bool.or_assoc] using hnext
    | some root =>
      rw [hdocument] at hnext
      simpa [List.filterMap_cons, hdocument, Bool.or_assoc, List.append_assoc] using hnext

/-- **What an accepted Gemini event's answer holds.** -/
theorem geminiParseResponse_reads {sseEvent : Bytes} (h : geminiParseResponse sseEvent = .ok out) :
    out.Reads (geminiParts sseEvent) ((geminiDocuments sseEvent).any documentGrounded)
      (geminiDone sseEvent) := by
  unfold geminiParseResponse at h
  unfold geminiParts geminiDone geminiDocuments
  split at h
  · next hdata =>
    rw [if_pos hdata, hdata, Bool.true_and]
    simpa using foldlM_parseGeminiLine_reads Answer.reads_nil h
  · next hdata =>
    obtain ⟨root, hroot, hreads⟩ := parseGeminiJsonResponse_reads Answer.reads_nil h
    rw [if_neg hdata, hroot, Bool.eq_false_iff.mpr hdata, Bool.false_and]
    show out.Reads ([root].flatMap documentParts) ([root].any documentGrounded) false
    simpa using hreads

/-- A text among the parts stands in the text they add up to. -/
theorem partText_infix {part : Json} (hpart : part ∈ parts) : partText part <:+: parts.flatMap partText := by
  obtain ⟨before, after, rfl⟩ := List.append_of_mem hpart
  rw [List.flatMap_append, List.flatMap_cons, ← List.append_assoc]
  exact List.infix_append _ _ _

theorem geminiCall_isCall {part : Json} {piece : Piece} (h : geminiCall part = some piece) :
    piece.isCall = true := by
  obtain ⟨functionCall, -, rfl⟩ := Option.map_eq_some_iff.mp h
  rfl

/-- The calls among the pieces are those of the parts. -/
theorem filter_isCall_parts (parts : List Json) :
    (parts.flatMap partPieces).filter Piece.isCall = parts.filterMap geminiCall := by
  induction parts with
  | nil => rfl
  | cons part parts ih =>
    rw [List.flatMap_cons, List.filter_append, ih, partPieces, List.filter_append,
      filter_isCall_textPiece fun _ => rfl, List.nil_append]
    cases hcall : geminiCall part with
    | none => rw [List.filterMap_cons_none hcall]; rfl
    | some piece =>
      rw [List.filterMap_cons_some hcall, Option.toList_some, List.filter_cons,
        if_pos (geminiCall_isCall hcall)]
      rfl

theorem mem_parts {piece : Piece} :
    piece ∈ parts.flatMap partPieces ↔
      (∃ part ∈ parts, partText part ≠ [] ∧ piece = .text (partText part)) ∨
        piece ∈ parts.filterMap geminiCall := by
  simp only [List.mem_flatMap, partPieces, List.mem_append, mem_textPiece, Option.mem_toList,
    List.mem_filterMap]
  constructor
  · rintro ⟨part, hpart, ⟨text, htext, hne, rfl⟩ | hcall⟩
    · have hsame : partText part = text := by rw [partText, htext]; rfl
      exact Or.inl ⟨part, hpart, hsame ▸ hne, by rw [hsame]⟩
    · exact Or.inr ⟨part, hpart, hcall⟩
  · rintro (⟨part, hpart, hne, rfl⟩ | ⟨part, hpart, hcall⟩)
    · refine ⟨part, hpart, Or.inl ⟨partText part, ?_, hne, rfl⟩⟩
      cases htext : memberText (some part) "text" with
      | none => exact absurd (by rw [partText, htext]; rfl) hne
      | some text => rw [partText, htext]; rfl
    · exact ⟨part, hpart, Or.inr hcall⟩

/-- A call that was taken is a call of the parts. -/
theorem takenCall_sublist (parts : List Json) :
    (parts.filterMap takenCall).Sublist (parts.filterMap geminiCall) := by
  induction parts with
  | nil => exact List.Sublist.slnil
  | cons part parts ih =>
    by_cases htext : (memberText (some part) "text").isSome
    · rw [List.filterMap_cons_none (by rw [takenCall, if_pos htext])]
      cases hcall : geminiCall part with
      | none => rwa [List.filterMap_cons_none hcall]
      | some piece =>
        rw [List.filterMap_cons_some hcall]
        exact ih.cons piece
    · have hsame : takenCall part = geminiCall part := by rw [takenCall, if_neg htext]
      cases hcall : geminiCall part with
      | none => rwa [List.filterMap_cons_none (hsame.trans hcall), List.filterMap_cons_none hcall]
      | some piece =>
        rw [List.filterMap_cons_some (hsame.trans hcall), List.filterMap_cons_some hcall]
        exact ih.cons_cons piece

/-- What the one event of an answer can keep: texts without a call in an answer that goes on, or one call
    that is taken and no text; and nothing of a grounded answer. -/
def PartsKept (parts : List Json) (grounded done : Bool) : Prop :=
  parts.flatMap partPieces = [] ∨
    (grounded = false ∧
      ((parts.filterMap geminiCall = [] ∧ done = false) ∨
        ∃ call, parts.filterMap geminiCall = [call] ∧ parts.filterMap takenCall = [call] ∧
          ∀ part ∈ parts, partText part = []))

/-- The event of an answer, by what the answer has read. -/
theorem geminiEvent_cases (hreads : out.Reads parts grounded done) :
    (grounded = true ∧ (geminiEvent out).type = .preExecutedToolCall) ∨
      (grounded = false ∧ ∃ call calls, out.toolCalls = call :: calls ∧
        geminiEvent out = eventOfCall .toolCall call) ∨
      (grounded = false ∧ out.toolCalls = [] ∧ done = true ∧ geminiEvent out = { type := .done }) ∨
      (grounded = false ∧ out.toolCalls = [] ∧ done = false ∧ geminiEvent out = { text := out.text }) := by
  have hsearched := hreads.searched
  have hended := hreads.ended
  unfold geminiEvent
  split
  · next call hcall =>
    rw [hcall] at hsearched
    exact Or.inl ⟨hsearched.symm, rfl⟩
  · next hcall =>
    rw [hcall] at hsearched
    have hgrounded : grounded = false := hsearched.symm
    rw [if_neg (not_not_intro (hreads.result hgrounded))]
    refine Or.inr ?_
    split
    · next call calls htool => exact Or.inl ⟨hgrounded, call, calls, htool, rfl⟩
    · next htool =>
      cases hdone : done with
      | true =>
        rw [hdone] at hended
        exact Or.inr (Or.inl ⟨hgrounded, htool, rfl, by rw [if_pos hended]⟩)
      | false =>
        rw [hdone] at hended
        exact Or.inr (Or.inr ⟨hgrounded, htool, rfl, by rw [hended]; rfl⟩)

/-- The event of a call keeps that call and no text. -/
theorem keeps_taken {call : ProviderToolCall} {calls : List ProviderToolCall}
    (hreads : out.Reads parts false done) (htool : out.toolCalls = call :: calls) :
    Keeps (eventOfCall .toolCall call) (parts.flatMap partPieces) ↔ PartsKept parts false done := by
  have htaken : parts.filterMap takenCall = callPiece call :: calls.map callPiece := by
    rw [← hreads.calls, htool, List.map_cons]
  have hsublist := takenCall_sublist parts
  rw [htaken] at hsublist
  constructor
  · intro hkeeps
    have hlength := hkeeps.2
    rw [filter_isCall_parts] at hlength
    have hsame := hsublist.eq_of_length_le (by rw [List.length_cons]; omega)
    have hone : calls.map callPiece = [] := by
      rw [← hsame, List.length_cons] at hlength
      exact List.length_eq_zero_iff.mp (by omega)
    rw [hone] at hsame htaken
    refine Or.inr ⟨rfl, Or.inr ⟨callPiece call, hsame.symm, htaken, fun part hpart => ?_⟩⟩
    by_contra hne
    exact nomatch (hkeeps.1 _ (mem_parts.mpr (Or.inl ⟨part, hpart, hne, rfl⟩))).1
  · rintro (hpieces | ⟨-, ⟨hnone, -⟩ | ⟨piece, hcalls, hpiece, htext⟩⟩)
    · exact hpieces ▸ keeps_nil _
    · rw [hnone] at hsublist
      exact absurd (List.sublist_nil.mp hsublist) (List.cons_ne_nil _ _)
    · have hsame : piece = callPiece call := (List.cons.inj (hpiece.symm.trans htaken)).1
      refine ⟨fun told htold => ?_, by rw [filter_isCall_parts, hcalls]; exact Nat.le_refl 1⟩
      rcases mem_parts.mp htold with ⟨part, hpart, hne, -⟩ | hcall
      · exact absurd (htext part hpart) hne
      · rw [hcalls, List.mem_singleton, hsame] at hcall
        rw [hcall]
        exact ⟨rfl, nofun, rfl, rfl⟩

/-- The event of the texts keeps texts. -/
theorem keeps_texts (hreads : out.Reads parts false false) (htool : out.toolCalls = []) :
    Keeps { text := out.text } (parts.flatMap partPieces) ↔ PartsKept parts false false := by
  have htaken : parts.filterMap takenCall = [] := by rw [← hreads.calls, htool, List.map_nil]
  constructor
  · intro hkeeps
    refine Or.inr ⟨rfl, Or.inl ⟨?_, rfl⟩⟩
    rw [List.eq_nil_iff_forall_not_mem]
    intro piece hpiece
    have htold := hkeeps.1 piece (mem_parts.mpr (Or.inr hpiece))
    obtain ⟨part, -, hcall⟩ := List.mem_filterMap.mp hpiece
    obtain ⟨functionCall, -, rfl⟩ := Option.map_eq_some_iff.mp hcall
    exact nomatch htold.1
  · rintro (hpieces | ⟨-, ⟨hnone, -⟩ | ⟨piece, -, hpiece, -⟩⟩)
    · exact hpieces ▸ keeps_nil _
    · refine ⟨fun piece hpiece => ?_, by rw [filter_isCall_parts, hnone]; exact Nat.zero_le 1⟩
      rcases mem_parts.mp hpiece with ⟨part, hpart, -, rfl⟩ | hcall
      · exact ⟨rfl, hreads.text ▸ partText_infix hpart⟩
      · exact absurd (hnone ▸ hcall) List.not_mem_nil
    · exact absurd (htaken.symm.trans hpiece) (List.cons_ne_nil _ _).symm

theorem geminiEvent_kept (hreads : out.Reads parts grounded done) :
    Keeps (geminiEvent out) (parts.flatMap partPieces) ↔ PartsKept parts grounded done := by
  rcases geminiEvent_cases hreads with ⟨rfl, htype⟩ | ⟨rfl, call, calls, htool, hevent⟩ |
    ⟨rfl, htool, rfl, hevent⟩ | ⟨rfl, htool, rfl, hevent⟩
  · rw [keeps_iff_of_not_told (not_told (by rw [htype]; decide)), PartsKept]
    exact ⟨Or.inl, fun hkept => hkept.elim id fun hkept => nomatch hkept.1⟩
  · rw [hevent]
    exact keeps_taken hreads htool
  · rw [hevent, keeps_iff_of_not_told (not_told (by decide)), PartsKept]
    refine ⟨Or.inl, fun hkept => hkept.elim id ?_⟩
    rintro ⟨-, ⟨-, hdone⟩ | ⟨call, -, hcall, -⟩⟩
    · exact nomatch hdone
    · rw [← hreads.calls, htool] at hcall
      exact nomatch hcall
  · rw [hevent]
    exact keeps_texts hreads htool

/-! ## All three -/

/-- The tree of an event's payload. -/
def payloadRoot (payload : Bytes) : Option Json := (jsonParseStatus payload).toOption

/-- What an OpenAI event carries. -/
def openaiEventPieces (sseEvent : Bytes) : List Piece :=
  (payloadRoot (sseDataPayload sseEvent)).elim [] fun root => openaiPieces (openaiChoiceDelta root)

/-- What an Anthropic event carries. -/
def anthropicEventPieces (sseEvent : Bytes) : List Piece :=
  (payloadRoot (sseEventPayload sseEvent)).elim [] anthropicPieces

/-- What a Gemini event carries. -/
def geminiEventPieces (sseEvent : Bytes) : List Piece := (geminiParts sseEvent).flatMap partPieces

/-- Exactly the events of the three that lose nothing. -/
def OpenaiEventKept (sseEvent : Bytes) : Prop :=
  ∀ root ∈ payloadRoot (sseDataPayload sseEvent), OpenaiKept root

def AnthropicEventKept (sseEvent : Bytes) : Prop :=
  ∀ root ∈ payloadRoot (sseEventPayload sseEvent), AnthropicKept root

def GeminiEventKept (sseEvent : Bytes) : Prop :=
  PartsKept (geminiParts sseEvent) ((geminiDocuments sseEvent).any documentGrounded) (geminiDone sseEvent)

theorem payloadRoot_done : payloadRoot (str "[DONE]") = none := by decide +kernel

theorem payloadRoot_nil : payloadRoot [] = none := by decide

/-- **Which events lose nothing.**  For each of the three parsers and every event it accepts, the event
    handed on tells every piece of the payload exactly when the pieces are of one kind that has a branch,
    there is one call at most, and no error, search or end stands beside them. -/
theorem kept_iff (sseEvent : Bytes) :
    (∀ event, openaiParseSseEvent sseEvent = .ok event →
        (Keeps event (openaiEventPieces sseEvent) ↔ OpenaiEventKept sseEvent)) ∧
      (∀ event, anthropicParseSseEvent sseEvent = .ok event →
        (Keeps event (anthropicEventPieces sseEvent) ↔ AnthropicEventKept sseEvent)) ∧
      ∀ event, geminiParseSseEvent sseEvent = .ok event →
        (Keeps event (geminiEventPieces sseEvent) ↔ GeminiEventKept sseEvent) := by
  refine ⟨fun event h => ?_, fun event h => ?_, fun event h => ?_⟩
  · unfold openaiParseSseEvent at h
    unfold openaiEventPieces OpenaiEventKept
    dsimp only at h
    split at h
    · next hdone =>
      rw [hdone, payloadRoot_done]
      exact ⟨fun _ => nofun, fun _ => keeps_nil event⟩
    · obtain ⟨root, hroot, h⟩ := Res.bind_eq_ok.mp h
      have hpayload : payloadRoot (sseDataPayload sseEvent) = some root := by rw [payloadRoot, hroot]; rfl
      simpa [hpayload] using openaiParseRoot_kept h
  · unfold anthropicParseSseEvent at h
    unfold anthropicEventPieces AnthropicEventKept
    dsimp only at h
    split at h
    · next hnil =>
      rw [hnil, payloadRoot_nil]
      exact ⟨fun _ => nofun, fun _ => keeps_nil event⟩
    · obtain ⟨root, hroot, h⟩ := Res.bind_eq_ok.mp h
      have hpayload : payloadRoot (sseEventPayload sseEvent) = some root := by rw [payloadRoot, hroot]; rfl
      simpa [hpayload] using anthropicParseRoot_kept h
  · obtain ⟨response, hresponse, h⟩ := Res.bind_eq_ok.mp h
    cases h
    exact geminiEvent_kept (geminiParseResponse_reads hresponse)

/-- An event of one line of JSON. -/
def dataEvent (root : Json) : Bytes := str "data: " ++ jsonText root

theorem payloadRoot_text {payload : Bytes} {root : Json} (hpayload : payload = jsonText root)
    (h : root.Writable 0) (htexts : root.validTexts = true) : payloadRoot payload = some root := by
  rw [hpayload, payloadRoot, jsonParseStatus, jsonParse_text h htexts]
  rfl

theorem jsonParseStatus_of_root {payload : Bytes} {root : Json} (h : payloadRoot payload = some root) :
    jsonParseStatus payload = .ok root := by
  unfold payloadRoot at h
  cases hparse : jsonParseStatus payload with
  | error e =>
    rw [hparse] at h
    exact nomatch h
  | ok value =>
    rw [hparse] at h
    exact congrArg Except.ok (Option.some.inj h)

/-- An event with a tree is read from the tree. -/
theorem openaiParseSseEvent_root {sseEvent : Bytes} {root : Json}
    (h : payloadRoot (sseDataPayload sseEvent) = some root) :
    openaiParseSseEvent sseEvent = openaiParseRoot root := by
  unfold openaiParseSseEvent
  rw [if_neg, jsonParseStatus_of_root h]
  · rfl
  · intro hdone
    rw [hdone, payloadRoot_done] at h
    exact nomatch h

theorem anthropicParseSseEvent_root {sseEvent : Bytes} {root : Json}
    (h : payloadRoot (sseEventPayload sseEvent) = some root) :
    anthropicParseSseEvent sseEvent = anthropicParseRoot root := by
  unfold anthropicParseSseEvent
  rw [if_neg, jsonParseStatus_of_root h]
  · rfl
  · intro hnil
    rw [hnil, payloadRoot_nil] at h
    exact nomatch h

/-- An OpenAI chunk with a delta. -/
def openaiChunk (delta : List (Bytes × Json)) : Json :=
  .object [(str "choices", .array [.object [(str "delta", .object delta)]])]

/-- A text on its own. -/
def textChunk : Json := openaiChunk [(str "content", .string (str "a"))]

/-- A text on its own is kept. -/
theorem kept_text :
    openaiParseSseEvent (dataEvent textChunk) = .ok { text := str "a" } ∧
      openaiEventPieces (dataEvent textChunk) = [.text (str "a")] ∧
      Keeps { text := str "a" } (openaiEventPieces (dataEvent textChunk)) := by
  have hroot : payloadRoot (sseDataPayload (dataEvent textChunk)) = some textChunk :=
    payloadRoot_text (by decide +kernel) ⟨by decide +kernel, by decide +kernel, by decide +kernel⟩
      (by decide +kernel)
  have hparse : openaiParseSseEvent (dataEvent textChunk) = .ok { text := str "a" } := by
    rw [openaiParseSseEvent_root hroot]
    rfl
  refine ⟨hparse, ?_, ((kept_iff (dataEvent textChunk)).1 _ hparse).mpr fun root hmem => ?_⟩
  · rw [openaiEventPieces, hroot]
    decide +kernel
  · rw [hroot] at hmem
    obtain rfl := Option.some.inj hmem
    exact Or.inr ⟨by decide +kernel, by decide +kernel, rfl⟩

/-- A parser drops a piece that its event does not tell. -/
theorem not_forall_keeps {parse : Bytes → Res StreamEvent} {carried : Bytes → List Piece} {sseEvent : Bytes}
    {event : StreamEvent} {piece : Piece} (hparse : parse sseEvent = .ok event)
    (hpiece : piece ∈ carried sseEvent) (hnot : ¬ piece.Told event) :
    ¬ ∀ sseEvent event, parse sseEvent = .ok event → Keeps event (carried sseEvent) :=
  fun h => hnot ((h sseEvent event hparse).1 piece hpiece)

/-- A call beside a text that is empty. -/
def callChunk : Json :=
  openaiChunk [(str "content", .string []),
    (str "tool_calls", .array [.object [(str "function", .object [(str "name", .string (str "f"))])]])]

/-- A fragment of the arguments of a call. -/
def fragmentChunk : Json :=
  .object [(str "type", .string (str "content_block_delta")),
    (str "delta", .object [(str "type", .string (str "input_json_delta")),
      (str "partial_json", .string (str "1"))])]

/-- A text, and a call behind it. -/
def twoPartsChunk : Json :=
  .object [(str "candidates", .array [.object [(str "content", .object [(str "parts", .array [
    .object [(str "text", .string (str "a"))],
    .object [(str "functionCall", .object [(str "name", .string (str "f"))])]])])]])]

/-- An event of one `data:` line is read as the document on it. -/
theorem geminiParseResponse_line {line : Bytes} (hdata : str "data:" <+: line) (hline : chr '\n' ∉ line)
    (hdone : ¬ str "[DONE]" <+: linePayload line) :
    geminiParseResponse line = parseGeminiJsonResponse (linePayload line) {} := by
  unfold geminiParseResponse
  rw [containsDataPrefix, decide_eq_true hdata.isInfix, if_pos rfl, List.splitOn_eq_singleton hline,
    List.foldlM_cons]
  have hone : parseGeminiLine {} line = parseGeminiJsonResponse (linePayload line) {} := by
    rw [parseGeminiLine, if_pos hdata]
    exact if_neg hdone
  rw [hone]
  exact bind_pure _

/-- **Calls, fragments and texts are dropped**: the call beside an empty OpenAI text, Anthropic's fragment
    of a call's arguments, and Gemini's text beside a call. -/
theorem delta_dropped :
    (¬ ∀ sseEvent event, openaiParseSseEvent sseEvent = .ok event →
        Keeps event (openaiEventPieces sseEvent)) ∧
      (¬ ∀ sseEvent event, anthropicParseSseEvent sseEvent = .ok event →
        Keeps event (anthropicEventPieces sseEvent)) ∧
      ¬ ∀ sseEvent event, geminiParseSseEvent sseEvent = .ok event →
        Keeps event (geminiEventPieces sseEvent) := by
  refine ⟨?_, ?_, ?_⟩
  · have hroot : payloadRoot (sseDataPayload (dataEvent callChunk)) = some callChunk :=
      payloadRoot_text (by decide +kernel) ⟨by decide +kernel, by decide +kernel, by decide +kernel⟩
        (by decide +kernel)
    have hpiece : Piece.call (some []) (str "f") [] ∈ openaiEventPieces (dataEvent callChunk) := by
      rw [openaiEventPieces, hroot]
      decide +kernel
    have hparse : openaiParseSseEvent (dataEvent callChunk) = .ok { type := .delta } := by
      rw [openaiParseSseEvent_root hroot]
      rfl
    exact not_forall_keeps hparse hpiece fun htold => nomatch htold.1
  · have hroot : payloadRoot (sseEventPayload (dataEvent fragmentChunk)) = some fragmentChunk :=
      payloadRoot_text (by decide +kernel) ⟨by decide +kernel, by decide +kernel, by decide +kernel⟩
        (by decide +kernel)
    have hpiece : Piece.fragment (str "1") ∈ anthropicEventPieces (dataEvent fragmentChunk) := by
      rw [anthropicEventPieces, hroot]
      decide +kernel
    have hparse : anthropicParseSseEvent (dataEvent fragmentChunk) = .ok {} := by
      rw [anthropicParseSseEvent_root hroot]
      rfl
    exact not_forall_keeps hparse hpiece fun htold => nomatch htold.1
  · have hroot : payloadRoot (linePayload (dataEvent twoPartsChunk)) = some twoPartsChunk :=
      payloadRoot_text (by decide +kernel) ⟨by decide +kernel, by decide +kernel, by decide +kernel⟩
        (by decide +kernel)
    have hdata : str "data:" <+: dataEvent twoPartsChunk := by decide +kernel
    have hline : chr '\n' ∉ dataEvent twoPartsChunk := by decide +kernel
    have hdone : ¬ str "[DONE]" <+: linePayload (dataEvent twoPartsChunk) := by decide +kernel
    have hdocuments : geminiDocuments (dataEvent twoPartsChunk) = [twoPartsChunk] := by
      have hone : lineDocument (dataEvent twoPartsChunk) = some twoPartsChunk :=
        (if_pos ⟨hdata, hdone⟩).trans hroot
      rw [geminiDocuments, containsDataPrefix, decide_eq_true hdata.isInfix, if_pos rfl,
        List.splitOn_eq_singleton hline, List.filterMap_cons_some hone]
      rfl
    have hpiece : Piece.text (str "a") ∈ geminiEventPieces (dataEvent twoPartsChunk) := by
      rw [geminiEventPieces, geminiParts, hdocuments]
      decide +kernel
    have hparse : geminiParseSseEvent (dataEvent twoPartsChunk) = .ok (eventOfCall .toolCall {
        callId := str "gemini-call-2", name := str "f", argumentsJson := str "\x7b\x7d",
        arguments := some (.object []) }) := by
      rw [geminiParseSseEvent, geminiParseResponse_line hdata hline hdone, parseGeminiJsonResponse,
        jsonParseStatus_of_root hroot]
      rfl
    exact not_forall_keeps hparse hpiece fun htold => nomatch htold.1

end SmolClaw.Providers
