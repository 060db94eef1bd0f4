/-
  The two readers of Ollama's streams: `ollama_stream_push` with `ollama_stream_finish`, which take chunks, and
  `sc_provider_ollama_parse_stream`, which takes the whole text (`src/providers/http_providers.c`).

  1. **Objects** — `streamObjects`: the lines of a stream that are not blank, without their line ends.  Passing
     over line ends hides none of them (`streamObjects_skip`), whichever of the two readers does it and wherever
     it stops for the next chunk.

  2. **Chunks** — `run_lines`, by induction on the chunks: the bytes that are left over, with the chunks to
     come, have the objects that are still to be told.  What a line does is BLIND to the bytes that are left
     over (`Blind`), so the state between two chunks matters by its events and its flag only.

  3. **Whole texts** — `ollamaStreamLoop_lines`: the loop over the text tells the same objects.

  4. **Defect** — behind an object with a finish reason the whole-text reader tells the usage and the end, the
     incremental one the end only; it is the one that is used over HTTP.

  5. **Result** — `readers_agree_iff`: they agree exactly if no object has a finish reason, or the callback
     stops both of them in front of it.

  `cost_usd` is left out of the events: nothing sets it for Ollama.
-/
import SmolClaw.Lib.Separated
import SmolClaw.Providers.Streams

namespace SmolClaw.Providers

open Lib.Infix Lib.Separated

/-! ## The reader of whole texts -/

/-- The usage of an answer. -/
def finalUsageEvent (response : Answer) : StreamEvent :=
  { type := .finalUsage
    inputTokens := response.usage.inputTokens
    outputTokens := response.usage.outputTokens
    totalTokens := response.usage.totalTokens }

/-- The end of an answer as `sc_provider_ollama_parse_stream` tells it: the usage, and the end. -/
def endWithUsage (callback : StreamCallback) (response : Answer) (s : StreamState) : Streamed :=
  (deliver callback s (finalUsageEvent response)).andThen fun s =>
    (deliver callback s { type := .done }).andThen fun s => ({ s with done := true }, .ok ())

/-- A line of `sc_provider_ollama_parse_stream`. -/
def ollamaParseLine (callback : StreamCallback) (s : StreamState) (line : Bytes) : Streamed :=
  match ollamaParseResponse line with
  | .error e => (s, .error e)
  | .ok response =>
      (emitResponseAsStream callback s response).andThen fun s =>
        if response.finishReason ≠ [] then endWithUsage callback response s else (s, .ok ())

/-- A byte that is passed over if it is the next one. -/
def passByte (c : UInt8) (left : Bytes) : Bytes := if left.head? = some c then left.tail else left

/-- The loop of `sc_provider_ollama_parse_stream`. -/
def ollamaStreamLoop (callback : StreamCallback) : Nat → StreamState → Bytes → Streamed
  | 0, s, _ => (s, .ok ())
  | rounds + 1, s, left =>
      if left = [] then (s, .ok ())
      else
        let line := withoutCr (left.takeWhile (· != chr '\n'))
        if line = [] then ollamaStreamLoop callback rounds s (left.dropWhile isLineEnd)
        else
          (ollamaParseLine callback s line).andThen fun s =>
            ollamaStreamLoop callback rounds s
              (passByte (chr '\n') (passByte (chr '\r') (left.drop line.length)))

/-- `sc_provider_ollama_parse_stream`: `done` is its `saw_done`, and no bytes are ever left over. -/
def ollamaParseStream (callback : StreamCallback) (s : StreamState) (streamJson : Bytes) : Streamed :=
  (ollamaStreamLoop callback (streamJson.length + 1) s streamJson).andThen (closeStream callback)

/-! ## Streams of lines -/

/-- A line without its line end's CR, and without the CRs in front, which are whitespace to the parser. -/
def lineBody (line : Bytes) : Bytes := (withoutCr line).dropWhile (· == chr '\r')

/-- The objects on some lines. -/
def lineObjects (lines : List Bytes) : List Bytes := (lines.map lineBody).filter (· ≠ [])

/-- The objects of a stream: its lines that are not blank. -/
def streamObjects (stream : Bytes) : List Bytes := lineObjects (stream.splitOn (chr '\n'))

/-- A line is blank, or a response object. -/
def LineOk (line : Bytes) : Prop :=
  withoutCr line = [] ∨ ∃ response, ollamaParseResponse (withoutCr line) = .ok response

/-- **A stream of response objects**: lines that end in LF or CRLF, where the last one may have no line end,
    and no `done_reason` but on the last object. -/
structure Ndjson (stream : Bytes) : Prop where
  lines : ∀ line ∈ stream.splitOn (chr '\n'), LineOk line
  ended : stream.getLast? ≠ some (chr '\r')
  reason : ∀ line ∈ (streamObjects stream).dropLast, finishes line = false

/-- The same events, and the same status. -/
def Agree (r t : Streamed) : Prop := r.1.received = t.1.received ∧ r.2 = t.2

/-- Lines are told one after the other, until one fails. -/
def tellLines (tell : StreamState → Bytes → Streamed) : StreamState → List Bytes → Streamed
  | s, [] => (s, .ok ())
  | s, line :: lines => (tell s line).andThen fun s => tellLines tell s lines

/-- The answer on a line, without an end. -/
def tellAnswer (callback : StreamCallback) (s : StreamState) (line : Bytes) : Streamed :=
  match ollamaParseResponse line with
  | .error e => (s, .error e)
  | .ok response => emitResponseAsStream callback s response

/-! ## Whitespace -/

/-- Whitespace in front of a text makes no difference. -/
theorem jsonParseStatus_ws {w : Bytes} (hw : ∀ c ∈ w, c = chr '\r') (t : Bytes) :
    jsonParseStatus (w ++ t) = jsonParseStatus t := by
  have hskip : skipWs (w ++ t) = skipWs t :=
    List.dropWhile_append_of_pos fun c hc => hw c hc ▸ (by decide : isWs (chr '\r') = true)
  have hutf8 : strIsValidUtf8 (w ++ t) = strIsValidUtf8 t :=
    utf8_append (utf8_ascii fun c hc => hw c hc ▸ (by decide : chr '\r' ≤ 0x7F)) t
  unfold jsonParseStatus jsonParse
  rw [hskip, hutf8]
  cases strIsValidUtf8 t with
  | false => rfl
  | true =>
    cases parseValue (jsonMaxDepth + 1) (skipWs t) with
    | error e => rfl
    | ok read =>
      by_cases hend : skipWs read.2 = []
      · simp only [hend, if_pos]
      · simp only [if_neg hend]
        rfl

theorem ollamaParseResponse_ws {w : Bytes} (hw : ∀ c ∈ w, c = chr '\r') (t : Bytes) :
    ollamaParseResponse (w ++ t) = ollamaParseResponse t := by
  unfold ollamaParseResponse
  rw [jsonParseStatus_ws hw]

/-- What is cut off a line in front are CRs. -/
theorem withoutCr_eq (line : Bytes) :
    ∃ w, (∀ c ∈ w, c = chr '\r') ∧ withoutCr line = w ++ lineBody line := by
  refine ⟨(withoutCr line).takeWhile (· == chr '\r'), fun c hc => ?_, List.takeWhile_append_dropWhile.symm⟩
  exact beq_iff_eq.mp (List.mem_takeWhile_imp (p := (· == chr '\r')) hc)

/-- A line and its body have one answer. -/
theorem ollamaParseResponse_body (line : Bytes) :
    ollamaParseResponse (withoutCr line) = ollamaParseResponse (lineBody line) := by
  obtain ⟨w, hw, hline⟩ := withoutCr_eq line
  rw [hline, ollamaParseResponse_ws hw]

theorem ollamaParseResponse_nil : ∃ e, ollamaParseResponse [] = .error e := ⟨_, rfl⟩

/-- So a line that is not blank has a body. -/
theorem LineOk.body {line : Bytes} (h : LineOk line) : lineBody line = [] ↔ withoutCr line = [] := by
  constructor
  · intro hbody
    rcases h with hblank | ⟨response, hresponse⟩
    · exact hblank
    · obtain ⟨e, he⟩ := ollamaParseResponse_nil
      rw [ollamaParseResponse_body, hbody, he] at hresponse
      cases hresponse
  · intro hblank
    rw [lineBody, hblank]
    rfl

/-- A CR in front of a line. -/
theorem withoutCr_cons {line : Bytes} (hline : line ≠ []) :
    withoutCr (chr '\r' :: line) = chr '\r' :: withoutCr line := by
  obtain ⟨c, rest, rfl⟩ := List.exists_cons_of_ne_nil hline
  unfold withoutCr
  rw [List.getLast?_cons_cons]
  split
  · rfl
  · rfl

theorem lineBody_cons (line : Bytes) : lineBody (chr '\r' :: line) = lineBody line := by
  by_cases hline : line = []
  · rw [hline]
    decide
  · rw [lineBody, withoutCr_cons hline]
    exact List.dropWhile_cons_of_pos (by decide)

theorem LineOk.tail {line : Bytes} (h : LineOk (chr '\r' :: line)) : LineOk line := by
  by_cases hline : line = []
  · exact Or.inl (by rw [hline]; rfl)
  · unfold LineOk at h ⊢
    rw [withoutCr_cons hline] at h
    refine Or.inr ((h.resolve_left (List.cons_ne_nil _ _)).imp fun response hresponse => ?_)
    have hcr : ∀ c ∈ [chr '\r'], c = chr '\r' := fun c hc => List.mem_singleton.mp hc
    have hsame := ollamaParseResponse_ws hcr (withoutCr line)
    exact hsame.symm.trans hresponse

/-! ## Lines of a text -/

/-- A text is one line, or a line with more behind it. -/
theorem line_cases (t : Bytes) :
    chr '\n' ∉ t ∨ ∃ line rest, chr '\n' ∉ line ∧ t = line ++ chr '\n' :: rest := by
  by_cases hline : chr '\n' ∈ t
  · obtain ⟨line, rest, hsplit, hnot⟩ := List.eq_append_cons_of_mem hline
    exact Or.inr ⟨line, rest, hnot, hsplit⟩
  · exact Or.inl hline

/-- All lines of a text are blank or objects. -/
def LinesOk (t : Bytes) : Prop := ∀ line ∈ t.splitOn (chr '\n'), LineOk line

variable {line rest t : Bytes}

theorem linesOk_line (hline : chr '\n' ∉ line) : LinesOk line ↔ LineOk line := by
  unfold LinesOk
  rw [List.splitOn_eq_singleton hline]
  exact List.forall_mem_singleton

theorem linesOk_append (hline : chr '\n' ∉ line) :
    LinesOk (line ++ chr '\n' :: rest) ↔ LineOk line ∧ LinesOk rest := by
  unfold LinesOk
  rw [List.splitOn_append_cons_self_of_not_mem hline]
  exact List.forall_mem_cons

theorem streamObjects_line (hline : chr '\n' ∉ line) : streamObjects line = lineObjects [line] := by
  rw [streamObjects, List.splitOn_eq_singleton hline]

theorem streamObjects_append (hline : chr '\n' ∉ line) :
    streamObjects (line ++ chr '\n' :: rest) = lineObjects [line] ++ streamObjects rest := by
  rw [streamObjects, List.splitOn_append_cons_self_of_not_mem hline, streamObjects, lineObjects, lineObjects,
    lineObjects, ← List.filter_append, ← List.map_append]
  rfl

theorem not_mem_cr (hline : chr '\n' ∉ line) : chr '\n' ∉ chr '\r' :: line := by
  intro hmem
  rcases List.mem_cons.mp hmem with h | h
  · exact absurd h (by decide)
  · exact hline h

theorem lineObjects_cr (line : Bytes) : lineObjects [chr '\r' :: line] = lineObjects [line] := by
  rw [lineObjects, lineObjects, List.map_singleton, List.map_singleton, lineBody_cons]

/-- A line end in front of a text hides no object and adds none. -/
theorem streamObjects_cons {c : UInt8} (hc : isLineEnd c = true) (t : Bytes) :
    streamObjects (c :: t) = streamObjects t := by
  unfold isLineEnd at hc
  rw [Bool.or_eq_true, beq_iff_eq, beq_iff_eq] at hc
  rcases hc with rfl | rfl
  · exact @streamObjects_append [] t List.not_mem_nil
  · rcases line_cases t with hline | ⟨line, rest, hline, rfl⟩
    · rw [streamObjects_line (not_mem_cr hline), streamObjects_line hline, lineObjects_cr]
    · rw [← List.cons_append, streamObjects_append (not_mem_cr hline), streamObjects_append hline,
        lineObjects_cr]

theorem LinesOk.cons {c : UInt8} (hc : isLineEnd c = true) (h : LinesOk (c :: t)) : LinesOk t := by
  unfold isLineEnd at hc
  rw [Bool.or_eq_true, beq_iff_eq, beq_iff_eq] at hc
  rcases hc with rfl | rfl
  · exact ((@linesOk_append [] t List.not_mem_nil).mp h).2
  · rcases line_cases t with hline | ⟨line, rest, hline, rfl⟩
    · exact (linesOk_line hline).mpr ((linesOk_line (not_mem_cr hline)).mp h).tail
    · rw [← List.cons_append] at h
      obtain ⟨hfirst, hrest⟩ := (linesOk_append (not_mem_cr hline)).mp h
      exact (linesOk_append hline).mpr ⟨hfirst.tail, hrest⟩

/-- **Line ends may be passed over.** -/
theorem streamObjects_skip (x y : Bytes) :
    streamObjects (x.dropWhile isLineEnd ++ y) = streamObjects (x ++ y) := by
  induction x with
  | nil => rfl
  | cons c x ih =>
    by_cases hc : isLineEnd c = true
    · rw [List.dropWhile_cons_of_pos hc, ih, List.cons_append, streamObjects_cons hc]
    · rw [List.dropWhile_cons_of_neg hc]

theorem LinesOk.skip {x y : Bytes} (h : LinesOk (x ++ y)) : LinesOk (x.dropWhile isLineEnd ++ y) := by
  induction x with
  | nil => exact h
  | cons c x ih =>
    by_cases hc : isLineEnd c = true
    · rw [List.dropWhile_cons_of_pos hc]
      exact ih (h.cons hc)
    · rw [List.dropWhile_cons_of_neg hc]
      exact h

/-! ## Steps that do not see the buffer -/

/-- The events and the flag of one state, with the buffer of another. -/
def StreamState.onto (s u : StreamState) : StreamState := { u with received := s.received, done := s.done }

/-- The same for a state with a status. -/
def Streamed.onto (r : Streamed) (u : StreamState) : Streamed := (r.1.onto u, r.2)

/-- A step that neither reads nor writes the buffer. -/
def Blind (f : StreamState → Streamed) : Prop := ∀ s u : StreamState, f (s.onto u) = (f s).onto u

variable {f g : StreamState → Streamed} {callback : StreamCallback} {tell : StreamState → Bytes → Streamed}

theorem Blind.andThen (hf : Blind f) (hg : Blind g) : Blind fun s => (f s).andThen g := by
  intro s u
  show (f (s.onto u)).andThen g = ((f s).andThen g).onto u
  rw [hf]
  rcases f s with ⟨t, e | ⟨⟩⟩
  · rfl
  · exact hg t u

/-- The buffer stays as it is. -/
theorem Blind.keeps (hf : Blind f) (s : StreamState) : (f s).1 = (f s).1.onto s :=
  congrArg Prod.fst (hf s s)

theorem blind_ok : Blind fun s => (s, .ok ()) := fun _ _ => rfl

theorem blind_error (e : ScError) : Blind fun s => (s, .error e) := fun _ _ => rfl

theorem blind_deliver (callback : StreamCallback) (event : StreamEvent) :
    Blind fun s => deliver callback s event := fun _ _ => rfl

theorem blind_set : Blind fun s => ({ s with done := true }, .ok ()) := fun _ _ => rfl

theorem blind_closeStream (callback : StreamCallback) : Blind (closeStream callback) := by
  intro s u
  unfold closeStream
  cases hdone : s.done with
  | true => rw [if_pos rfl, if_pos (show (s.onto u).done = true from hdone)]; rfl
  | false =>
    have hnot : ¬ (s.onto u).done = true := by
      rw [StreamState.onto, hdone]
      decide
    rw [if_neg Bool.false_ne_true, if_neg hnot]
    exact (blind_deliver callback { type := .done }).andThen blind_set s u

theorem blind_deliverAll (callback : StreamCallback) (events : List StreamEvent) :
    Blind fun s => deliverAll callback s events := by
  induction events with
  | nil => exact blind_ok
  | cons event events ih => exact (blind_deliver callback event).andThen ih

theorem blind_emitResponseAsStream (callback : StreamCallback) (response : Answer) :
    Blind fun s => emitResponseAsStream callback s response := by
  have htools := blind_deliverAll callback (toolEvents response)
  intro s u
  unfold emitResponseAsStream
  by_cases hreasoning : response.reasoningText = []
  · by_cases htext : response.text = []
    · simp only [if_pos hreasoning, if_pos htext]
      exact blind_ok.andThen htools s u
    · simp only [if_pos hreasoning, if_neg htext]
      exact (blind_deliver callback _).andThen htools s u
  · by_cases htext : response.text = []
    · simp only [if_neg hreasoning, if_pos htext]
      exact (blind_deliver callback _).andThen htools s u
    · simp only [if_neg hreasoning, if_neg htext]
      exact (blind_deliver callback _).andThen htools (deliver callback s _).1 u

theorem blind_tellAnswer (callback : StreamCallback) (line : Bytes) :
    Blind fun s => tellAnswer callback s line := by
  unfold tellAnswer
  cases ollamaParseResponse line with
  | error e => exact blind_error e
  | ok response => exact blind_emitResponseAsStream callback response

theorem blind_tellLines (htell : ∀ line, Blind fun s => tell s line) (lines : List Bytes) :
    Blind fun s => tellLines tell s lines := by
  induction lines with
  | nil => exact blind_ok
  | cons line lines ih => exact (htell line).andThen ih

theorem Streamed.andThen_assoc (r : Streamed) (f g : StreamState → Streamed) :
    (r.andThen f).andThen g = r.andThen fun s => (f s).andThen g := by
  rcases r with ⟨t, e | ⟨⟩⟩
  · rfl
  · rfl

theorem Streamed.andThen_ok (r : Streamed) : r.andThen (fun s => (s, .ok ())) = r := by
  rcases r with ⟨t, e | ⟨⟩⟩
  · rfl
  · rfl

theorem tellLines_append (tell : StreamState → Bytes → Streamed) (more : List Bytes) :
    ∀ (lines : List Bytes) (s : StreamState),
      tellLines tell s (lines ++ more) = (tellLines tell s lines).andThen fun s => tellLines tell s more := by
  intro lines
  induction lines with
  | nil => exact fun s => rfl
  | cons line lines ih =>
    intro s
    rw [List.cons_append, tellLines, tellLines, Streamed.andThen_assoc]
    exact congrArg (Streamed.andThen (tell s line)) (funext ih)

/-- An end of an answer that comes if there is a reason for it. -/
def endIf (finished : Bool) (ending : StreamState → Streamed) (s : StreamState) : Streamed :=
  if finished then ending s else (s, .ok ())

/-- The incremental reader tells the answer of a line, and ends the stream behind it. -/
theorem ollamaStreamEmitLine_eq (callback : StreamCallback) (s : StreamState) (line : Bytes) :
    ollamaStreamEmitLine callback s line =
      (tellAnswer callback s line).andThen (endIf (finishes line) (closeStream callback)) := by
  unfold ollamaStreamEmitLine tellAnswer finishes endIf
  cases ollamaParseResponse line with
  | error e => rfl
  | ok response => simp [Except.toOption]

/-- The whole-text reader tells the usage too. -/
theorem ollamaParseLine_eq {response : Answer} (h : ollamaParseResponse line = .ok response)
    (s : StreamState) : ollamaParseLine callback s line =
      (tellAnswer callback s line).andThen (endIf (finishes line) (endWithUsage callback response)) := by
  unfold ollamaParseLine tellAnswer finishes endIf
  rw [h]
  simp [Except.toOption]

theorem blind_emitLine (callback : StreamCallback) (line : Bytes) :
    Blind fun s => ollamaStreamEmitLine callback s line := by
  have hend : Blind (endIf (finishes line) (closeStream callback)) := by
    unfold endIf
    split
    · exact blind_closeStream callback
    · exact blind_ok
  have hline := (blind_tellAnswer callback line).andThen hend
  intro s u
  simp only [ollamaStreamEmitLine_eq]
  exact hline s u

/-! ## The whole text -/

/-- The objects of a line that is fine. -/
theorem lineObjects_ok (h : LineOk line) :
    lineObjects [line] = if withoutCr line = [] then [] else [lineBody line] := by
  rw [lineObjects, List.map_singleton, List.filter_singleton]
  by_cases hblank : withoutCr line = []
  · rw [if_pos hblank, h.body.mpr hblank]
    rfl
  · rw [if_neg hblank]
    have hbody : lineBody line ≠ [] := fun hbody => hblank (h.body.mp hbody)
    simp [hbody]

/-- A line loses nothing, or its CR. -/
theorem withoutCr_cases (line : Bytes) :
    (line = withoutCr line ∧ line.getLast? ≠ some (chr '\r')) ∨ line = withoutCr line ++ [chr '\r'] := by
  unfold withoutCr
  split
  · next hlast =>
    refine Or.inr ?_
    obtain ⟨front, rfl⟩ := List.getLast?_eq_some_iff.mp hlast
    rw [List.dropLast_concat]
  · next hlast => exact Or.inl ⟨rfl, hlast⟩

theorem not_lineFeed (hline : chr '\n' ∉ line) : ∀ c ∈ line, (c != chr '\n') = true :=
  fun _ hc => bne_iff_ne.mpr fun h => hline (h ▸ hc)

theorem takeWhile_line (hline : chr '\n' ∉ line) : line.takeWhile (· != chr '\n') = line :=
  List.takeWhile_eq_self_iff.mpr (not_lineFeed hline)

/-- Behind a line its end is passed over. -/
theorem passByte_line (line rest : Bytes) :
    passByte (chr '\n') (passByte (chr '\r') ((line ++ chr '\n' :: rest).drop (withoutCr line).length)) =
      rest := by
  rcases withoutCr_cases line with ⟨hline, -⟩ | hline
  · rw [← hline, List.drop_left]
    rfl
  · generalize withoutCr line = body at hline
    rw [hline, List.append_assoc, List.drop_left]
    rfl

theorem passByte_last (line : Bytes) :
    passByte (chr '\n') (passByte (chr '\r') (line.drop (withoutCr line).length)) = [] := by
  rcases withoutCr_cases line with ⟨hline, -⟩ | hline
  · rw [← hline, List.drop_length]
    rfl
  · generalize withoutCr line = body at hline
    rw [hline, List.drop_left]
    rfl

theorem ollamaParseLine_body (callback : StreamCallback) (s : StreamState) (line : Bytes) :
    ollamaParseLine callback s (withoutCr line) = ollamaParseLine callback s (lineBody line) := by
  unfold ollamaParseLine
  rw [ollamaParseResponse_body]

/-- **The whole text is told object by object.** -/
theorem ollamaStreamLoop_lines (callback : StreamCallback) : ∀ (rounds : Nat) {t : Bytes},
    t.length < rounds → LinesOk t → ∀ s, ollamaStreamLoop callback rounds s t =
      tellLines (ollamaParseLine callback) s (streamObjects t) := by
  intro rounds
  induction rounds with
  | zero => exact fun h => absurd h (Nat.not_lt_zero _)
  | succ rounds ih =>
    intro t hlength hok s
    unfold ollamaStreamLoop
    by_cases ht : t = []
    · rw [if_pos ht, ht]
      rfl
    rw [if_neg ht]
    dsimp only
    have hpositive := List.length_pos_of_ne_nil ht
    rcases line_cases t with hline | ⟨line, rest, hline, rfl⟩
    · have hone := (linesOk_line hline).mp hok
      rw [takeWhile_line hline, streamObjects_line hline, lineObjects_ok hone]
      by_cases hblank : withoutCr t = []
      · rw [if_pos hblank, if_pos hblank]
        have hall : t.dropWhile isLineEnd = [] := by
          rcases withoutCr_cases t with ⟨hsame, -⟩ | hsame
          · exact absurd (hsame.trans hblank) ht
          · rw [hsame, hblank]
            rfl
        rw [hall, ih (by rw [List.length_nil]; omega) ((linesOk_line List.not_mem_nil).mpr (Or.inl rfl))]
        rfl
      · rw [if_neg hblank, if_neg hblank, passByte_last, ollamaParseLine_body]
        refine congrArg (Streamed.andThen _) (funext fun s => ?_)
        rw [ih (by rw [List.length_nil]; omega) ((linesOk_line List.not_mem_nil).mpr (Or.inl rfl))]
        rfl
    · obtain ⟨hone, hrest⟩ := (linesOk_append hline).mp hok
      rw [List.length_append, List.length_cons] at hlength
      rw [takeWhile_stretch (not_lineFeed hline) (by simp), streamObjects_append hline, lineObjects_ok hone]
      by_cases hblank : withoutCr line = []
      · rw [if_pos hblank, if_pos hblank, List.nil_append]
        have hskip : (line ++ chr '\n' :: rest).dropWhile isLineEnd = rest.dropWhile isLineEnd := by
          rcases withoutCr_cases line with ⟨hsame, -⟩ | hsame
          · rw [hsame, hblank]
            exact List.dropWhile_cons_of_pos (by decide)
          · rw [hsame, hblank]
            exact (List.dropWhile_cons_of_pos (by decide)).trans (List.dropWhile_cons_of_pos (by decide))
        have hshort := List.length_dropWhile_le isLineEnd rest
        have hsame := streamObjects_skip rest []
        have hlater := LinesOk.skip (x := rest) (y := []) (by rwa [List.append_nil])
        rw [List.append_nil, List.append_nil] at hsame
        rw [List.append_nil] at hlater
        rw [hskip, ih (by omega) hlater, hsame]
      · rw [if_neg hblank, if_neg hblank, passByte_line, ollamaParseLine_body]
        exact congrArg (Streamed.andThen _) (funext fun s => ih (by omega) hrest s)

/-! ## Chunks -/

theorem takeLine_body (callback : StreamCallback) (hok : LineOk line) (s : StreamState) :
    takeLine callback s line = tellLines (ollamaStreamEmitLine callback) s (lineObjects [line]) := by
  rw [lineObjects_ok hok, takeLine]
  by_cases hblank : withoutCr line = []
  · rw [if_pos hblank, if_pos hblank]
    rfl
  · rw [if_neg hblank, if_neg hblank]
    have hbody : ollamaStreamEmitLine callback s (withoutCr line) =
        ollamaStreamEmitLine callback s (lineBody line) := by
      unfold ollamaStreamEmitLine
      rw [ollamaParseResponse_body]
    rw [hbody]
    exact (Streamed.andThen_ok _).symm

/-- Bytes of the buffer that are set. -/
def keepLeft (left : Bytes) (s : StreamState) : Streamed := ({ s with partialBytes := left }, .ok ())

/-- A step behind another one, where they only differ in what cannot come out of it. -/
theorem Streamed.andThen_congr {r : Streamed} {f g : StreamState → Streamed}
    (h : ∀ t, r = (t, .ok ()) → f t = g t) : r.andThen f = r.andThen g := by
  rcases r with ⟨t, e | ⟨⟩⟩
  · rfl
  · exact h t rfl

theorem separator_eq : str "\n" = [chr '\n'] := by decide

/-- **A chunk is told object by object**, and what is left has the objects that are to come, with the bytes
    `y` that follow. -/
theorem pushLoop_lines (callback : StreamCallback) (y : Bytes) : ∀ (rounds : Nat) {x : Bytes},
    x.length < rounds → LinesOk (x ++ y) → ∃ objects left,
      streamObjects (x ++ y) = objects ++ streamObjects (left ++ y) ∧ chr '\n' ∉ left ∧ left <:+ x ∧
        LinesOk (left ++ y) ∧ ∀ s : StreamState, s.partialBytes = [] →
          pushLoop (str "\n") (takeLine callback) rounds s x =
            (tellLines (ollamaStreamEmitLine callback) s objects).andThen (keepLeft left) := by
  intro rounds
  induction rounds with
  | zero => exact fun h => absurd h (Nat.not_lt_zero _)
  | succ rounds ih =>
    intro x hlength hok
    by_cases hx : x = []
    · refine ⟨[], [], by rw [hx]; rfl, List.not_mem_nil, hx ▸ List.suffix_refl _, hx ▸ hok, fun s hs => ?_⟩
      rw [pushLoop, if_pos hx]
      show (s, _) = ({ s with partialBytes := [] }, _)
      rw [← hs]
    rcases line_cases x with hline | ⟨line, rest, hline, rfl⟩
    · refine ⟨[], x, rfl, hline, List.suffix_refl x, hok, fun s hs => ?_⟩
      have hnone : firstInfix (str "\n") x = none := by
        rw [separator_eq, firstInfix_eq_none (List.cons_ne_nil _ _)]
        refine Free.of_not_mem (List.cons_ne_nil _ _) fun c hc h => hline ?_
        rwa [← List.mem_singleton.mp h]
      rw [pushLoop, if_neg hx, hnone]
      rfl
    · rw [List.append_assoc, List.cons_append] at hok
      obtain ⟨hone, hrest⟩ := (linesOk_append hline).mp hok
      have hshort := List.length_dropWhile_le isLineEnd rest
      rw [List.length_append, List.length_cons] at hlength
      obtain ⟨objects, left, hobjects, hleft, hsuffix, hokLeft, hloop⟩ :=
        ih (x := rest.dropWhile isLineEnd) (by omega) hrest.skip
      refine ⟨lineObjects [line] ++ objects, left, ?_, hleft, ?_, hokLeft, fun s hs => ?_⟩
      · rw [List.append_assoc, List.cons_append, streamObjects_append hline, ← streamObjects_skip, hobjects,
          List.append_assoc]
      · have hrest := hsuffix.trans (List.dropWhile_suffix isLineEnd)
        exact (hrest.trans (List.suffix_cons (chr '\n') rest)).trans (List.suffix_append line _)
      · have hcut : firstInfix (str "\n") (line ++ chr '\n' :: rest) = some (line, chr '\n' :: rest) := by
          have hskip := firstInfix_skip (n := []) hline (chr '\n' :: rest)
          have hfront : firstInfix [chr '\n'] (chr '\n' :: rest) = some ([], chr '\n' :: rest) :=
            firstInfix_front (List.cons_ne_nil _ _) rest
          rw [hfront] at hskip
          simpa [separator_eq] using hskip
        rw [pushLoop, if_neg hx, hcut]
        show (takeLine callback s line).andThen _ = _
        rw [tellLines_append, Streamed.andThen_assoc, takeLine_body callback hone]
        refine Streamed.andThen_congr fun t ht => ?_
        have hkeeps := (blind_tellLines (blind_emitLine callback) (lineObjects [line])).keeps s
        simp only [ht] at hkeeps
        have hpartial : t.partialBytes = [] := by rw [hkeeps]; exact hs
        rw [List.dropWhile_cons_of_pos (by decide)]
        exact hloop t hpartial

theorem Agree.trans {q r t : Streamed} (h : Agree q r) (hnext : Agree r t) : Agree q t :=
  ⟨h.1.trans hnext.1, h.2.trans hnext.2⟩

/-- From states with the same events and flag, a blind step gives the same. -/
theorem Blind.agree (hf : Blind f) {s u : StreamState} (hreceived : s.received = u.received)
    (hdone : s.done = u.done) : Agree (f s) (f u) := by
  have hsame : s.onto u = u := by
    rw [StreamState.onto, hreceived, hdone]
  rw [← hsame, hf]
  exact ⟨rfl, rfl⟩

/-- The flag that a failure leaves. -/
def failing : Streamed → Streamed
  | (s, .ok ()) => (s, .ok ())
  | (s, .error e) => ({ s with failed := true }, .error e)

/-- A chunk that fits is put behind the bytes that are left over, and the loop goes over both. -/
theorem StreamReader.push_eq (r : StreamReader) {s : StreamState} {chunk : Bytes} (hfailed : s.failed = false)
    (hchunk : chunk ≠ []) (hfits : ¬ s.maxPartialBytes < s.partialBytes.length + chunk.length) :
    r.push s chunk = failing (pushLoop r.separator r.take ((s.partialBytes ++ chunk).length + 1)
      { s with partialBytes := [] } (s.partialBytes ++ chunk)) := by
  unfold StreamReader.push
  rw [if_neg (by rw [hfailed]; decide), if_neg hchunk, if_neg hfits]
  rfl

/-- Telling the objects of a stream, and its end. -/
def tellStream (callback : StreamCallback) (objects : List Bytes) (s : StreamState) : Streamed :=
  (tellLines (ollamaStreamEmitLine callback) s objects).andThen (closeStream callback)

theorem blind_tellStream (callback : StreamCallback) (objects : List Bytes) :
    Blind (tellStream callback objects) :=
  (blind_tellLines (blind_emitLine callback) objects).andThen (blind_closeStream callback)

/-- What is left in the end is the last object, if there is anything. -/
theorem finish_lines (callback : StreamCallback) {s : StreamState} (hfailed : s.failed = false)
    (hline : chr '\n' ∉ s.partialBytes) (hok : LineOk s.partialBytes)
    (hended : s.partialBytes.getLast? ≠ some (chr '\r')) :
    Agree ((ollamaStream callback).finish callback s)
      (tellStream callback (streamObjects s.partialBytes) s) := by
  have hwhole : withoutCr s.partialBytes = s.partialBytes := if_neg hended
  rw [streamObjects_line hline, lineObjects_ok hok, hwhole]
  unfold StreamReader.finish
  rw [if_neg (by rw [hfailed]; decide)]
  by_cases hempty : s.partialBytes = []
  · rw [if_neg (not_not_intro hempty), if_pos hempty]
    exact ⟨rfl, rfl⟩
  · rw [if_pos hempty, if_neg hempty]
    have hbody : (ollamaStream callback).finishPartial s s.partialBytes =
        tellLines (ollamaStreamEmitLine callback) { s with partialBytes := [] }
          [lineBody s.partialBytes] := by
      refine Eq.trans ?_ (Streamed.andThen_ok _).symm
      show ollamaStreamEmitLine callback _ s.partialBytes = _
      unfold ollamaStreamEmitLine
      rw [← ollamaParseResponse_body, hwhole]
    rw [hbody]
    exact (blind_tellStream callback [lineBody s.partialBytes]).agree rfl rfl

/-- **However the stream is cut into chunks, its objects are told one after the other**, and the end is told
    behind them. -/
theorem run_lines (callback : StreamCallback) : ∀ (chunks : List Bytes) (s : StreamState),
    s.failed = false → chr '\n' ∉ s.partialBytes →
    (s.partialBytes ++ chunks.flatten).length ≤ s.maxPartialBytes →
    LinesOk (s.partialBytes ++ chunks.flatten) →
    (s.partialBytes ++ chunks.flatten).getLast? ≠ some (chr '\r') → (∀ chunk ∈ chunks, chunk ≠ []) →
    Agree ((ollamaStream callback).run callback s chunks)
      (tellStream callback (streamObjects (s.partialBytes ++ chunks.flatten)) s) := by
  intro chunks
  induction chunks with
  | nil =>
    intro s hfailed hline _ hok hended _
    rw [List.flatten_nil, List.append_nil] at hok hended ⊢
    exact finish_lines callback hfailed hline ((linesOk_line hline).mp hok) hended
  | cons chunk chunks ih =>
    intro s hfailed hline hsize hok hended hne
    have hchunk := hne chunk List.mem_cons_self
    rw [List.flatten_cons, ← List.append_assoc] at hok hended hsize ⊢
    obtain ⟨objects, left, hobjects, hleft, hsuffix, hokLeft, hloop⟩ :=
      pushLoop_lines callback chunks.flatten ((s.partialBytes ++ chunk).length + 1)
        (Nat.lt_succ_self (s.partialBytes ++ chunk).length) hok
    have hfits : ¬ s.maxPartialBytes < s.partialBytes.length + chunk.length := by
      rw [List.length_append, List.length_append] at hsize
      omega
    have hblind := blind_tellLines (blind_emitLine callback) objects
    have hkeeps := hblind.keeps { s with partialBytes := [] }
    have honto : tellLines (ollamaStreamEmitLine callback) s objects =
        (tellLines (ollamaStreamEmitLine callback) { s with partialBytes := [] } objects).onto s :=
      hblind { s with partialBytes := [] } s
    rw [hobjects, tellStream, tellLines_append, Streamed.andThen_assoc, honto, StreamReader.run,
      (ollamaStream callback).push_eq hfailed hchunk hfits]
    show Agree ((failing (pushLoop (str "\n") (takeLine callback) _ _ _)).andThen _) _
    rw [hloop _ rfl]
    generalize tellLines (ollamaStreamEmitLine callback) { s with partialBytes := [] } objects = r at hkeeps
    rcases r with ⟨t, e | ⟨⟩⟩
    · exact ⟨rfl, rfl⟩
    · have hsuffixAll : left ++ chunks.flatten <:+ s.partialBytes ++ chunk ++ chunks.flatten := by
        obtain ⟨front, hfront⟩ := hsuffix
        exact ⟨front, by rw [← hfront, List.append_assoc]⟩
      have hfailed' : t.failed = false := by
        simp only at hkeeps
        rw [hkeeps]
        exact hfailed
      have hsize' : (left ++ chunks.flatten).length ≤ t.maxPartialBytes := by
        simp only at hkeeps
        rw [hkeeps]
        exact Nat.le_trans hsuffixAll.length_le hsize
      have hended' : (left ++ chunks.flatten).getLast? ≠ some (chr '\r') := by
        intro hlast
        obtain ⟨front, hfront⟩ := hsuffixAll
        rw [← hfront, List.getLast?_append, hlast] at hended
        exact hended rfl
      have hnext := ih { t with partialBytes := left } hfailed' hleft hsize' hokLeft hended'
        fun other hother => hne other (List.mem_cons_of_mem chunk hother)
      exact hnext.trans ((blind_tellStream callback _).agree rfl rfl)

/-! ## Where the two part -/

/-- Objects without a finish reason are told as answers, whatever the end would be. -/
theorem tellLines_congr {tell other : StreamState → Bytes → Streamed} {objects : List Bytes}
    (h : ∀ line ∈ objects, ∀ s, tell s line = other s line) (s : StreamState) :
    tellLines tell s objects = tellLines other s objects := by
  induction objects generalizing s with
  | nil => rfl
  | cons line objects ih =>
    rw [tellLines, tellLines, h line List.mem_cons_self]
    exact congrArg (Streamed.andThen _)
      (funext fun s => ih (fun more hmore => h more (List.mem_cons_of_mem line hmore)) s)

theorem emitLine_quiet (callback : StreamCallback) (h : finishes line = false) (s : StreamState) :
    ollamaStreamEmitLine callback s line = tellAnswer callback s line := by
  rw [ollamaStreamEmitLine_eq, h]
  exact Streamed.andThen_ok _

theorem parseLine_quiet (callback : StreamCallback) (h : finishes line = false) (s : StreamState) :
    ollamaParseLine callback s line = tellAnswer callback s line := by
  cases hparse : ollamaParseResponse line with
  | error e => rw [ollamaParseLine, tellAnswer, hparse]
  | ok response =>
    rw [ollamaParseLine_eq hparse, h]
    exact Streamed.andThen_ok _

/-- Answers do not set the flag. -/
theorem tellAnswers_done (callback : StreamCallback) {objects : List Bytes} : ∀ {s t : StreamState},
    tellLines (tellAnswer callback) s objects = (t, .ok ()) → t.done = s.done := by
  induction objects with
  | nil =>
    intro s t h
    cases h
    rfl
  | cons line objects ih =>
    intro s t h
    obtain ⟨u, hline, hrest⟩ := Streamed.andThen_eq_ok.mp h
    rw [ih hrest]
    unfold tellAnswer at hline
    split at hline
    · cases hline
    · exact (emitResponseAsStream_adds hline).done

/-- The end that the incremental reader tells. -/
theorem closed_received (callback : StreamCallback) {t : StreamState} (hdone : t.done = false) :
    ((closeStream callback t).andThen (closeStream callback)).1.received =
      t.received ++ [{ type := .done }] := by
  have hclose : closeStream callback t =
      (deliver callback t { type := .done }).andThen fun s => ({ s with done := true }, .ok ()) := by
    rw [closeStream, if_neg (by rw [hdone]; decide)]
  rw [hclose]
  unfold deliver
  rcases callback t.received { type := .done } with e | ⟨⟩
  · rfl
  · rfl

/-- What the whole-text reader tells there starts with the usage. -/
theorem usage_received (callback : StreamCallback) (response : Answer) (t : StreamState) :
    ∃ more, ((endWithUsage callback response t).andThen (closeStream callback)).1.received =
      t.received ++ finalUsageEvent response :: more := by
  unfold endWithUsage deliver
  rcases callback t.received (finalUsageEvent response) with e | ⟨⟩
  · exact ⟨[], rfl⟩
  · simp only [Streamed.andThen]
    rcases callback (t.received ++ [finalUsageEvent response]) { type := .done } with e | ⟨⟩
    · exact ⟨[{ type := .done }], List.append_assoc _ _ _⟩
    · exact ⟨[{ type := .done }], List.append_assoc _ _ _⟩

/-- **They part behind the last answer** if there is a reason for an end and the callback has taken all
    answers. -/
theorem ends_agree_iff (callback : StreamCallback) {front : List Bytes} {last : Bytes} {response : Answer}
    {s : StreamState} (hdone : s.done = false) (hparse : ollamaParseResponse last = .ok response)
    (hfront : ∀ line ∈ front, finishes line = false) (hlast : finishes last = true) :
    Agree (tellStream callback (front ++ [last]) s)
        ((tellLines (ollamaParseLine callback) s (front ++ [last])).andThen (closeStream callback)) ↔
      (tellLines (tellAnswer callback) s (front ++ [last])).2.isOk = false := by
  have hone : ∀ (tell : StreamState → Bytes → Streamed) (s : StreamState),
      tellLines tell s [last] = tell s last := fun tell s => Streamed.andThen_ok (tell s last)
  have hemit : ∀ line ∈ front, ∀ s, ollamaStreamEmitLine callback s line = tellAnswer callback s line :=
    fun line hline => emitLine_quiet callback (hfront line hline)
  have hparseLine : ∀ line ∈ front, ∀ s, ollamaParseLine callback s line = tellAnswer callback s line :=
    fun line hline => parseLine_quiet callback (hfront line hline)
  have hincremental : tellStream callback (front ++ [last]) s =
      (tellLines (tellAnswer callback) s (front ++ [last])).andThen fun s =>
        (closeStream callback s).andThen (closeStream callback) := by
    rw [tellStream, tellLines_append, tellLines_append, tellLines_congr hemit]
    simp only [hone, Streamed.andThen_assoc, ollamaStreamEmitLine_eq, hlast]
    rfl
  have hwhole : (tellLines (ollamaParseLine callback) s (front ++ [last])).andThen (closeStream callback) =
      (tellLines (tellAnswer callback) s (front ++ [last])).andThen fun s =>
        (endWithUsage callback response s).andThen (closeStream callback) := by
    rw [tellLines_append, tellLines_append, tellLines_congr hparseLine]
    simp only [hone, Streamed.andThen_assoc, ollamaParseLine_eq hparse, hlast]
    rfl
  rw [hincremental, hwhole]
  have hflag : ∀ t, tellLines (tellAnswer callback) s (front ++ [last]) = (t, .ok ()) → t.done = false :=
    fun t ht => (tellAnswers_done callback ht).trans hdone
  generalize tellLines (tellAnswer callback) s (front ++ [last]) = r at hflag
  rcases r with ⟨t, e | ⟨⟩⟩
  · exact iff_of_true ⟨rfl, rfl⟩ rfl
  · refine iff_of_false (fun hagree => ?_) (show ¬ true = false by decide)
    obtain ⟨more, husage⟩ := usage_received callback response t
    have hreceived := (closed_received callback (hflag t rfl)).symm.trans (hagree.1.trans husage)
    have htype := congrArg StreamEvent.type (List.cons.inj (List.append_cancel_left hreceived)).1
    exact absurd htype (show StreamEventType.done ≠ .finalUsage by decide)

/-- A state that nothing was told to, with the room of `ollama_stream` for a line. -/
def streamStart : StreamState := { maxPartialBytes := 64 * 1024 }

/-- **When the two readers agree.**  On every stream of objects, cut into chunks in any way, they tell the
    same events with the same status exactly if no object has a finish reason, or the callback refuses one of
    the events in front of the end. -/
theorem readers_agree_iff (callback : StreamCallback) {stream : Bytes} {chunks : List Bytes}
    (h : Ndjson stream) (hsize : stream.length ≤ 64 * 1024) (hchunks : chunks.flatten = stream)
    (hne : ∀ chunk ∈ chunks, chunk ≠ []) :
    Agree ((ollamaStream callback).run callback streamStart chunks)
        (ollamaParseStream callback streamStart stream) ↔
      (∀ line ∈ streamObjects stream, finishes line = false) ∨
        (tellLines (tellAnswer callback) streamStart (streamObjects stream)).2.isOk = false := by
  have hincremental := run_lines callback chunks streamStart rfl List.not_mem_nil
    (by rw [hchunks]; exact hsize) (by rw [hchunks]; exact h.lines) (by rw [hchunks]; exact h.ended) hne
  rw [hchunks] at hincremental
  have hwhole := ollamaStreamLoop_lines callback (stream.length + 1) (Nat.lt_succ_self _) h.lines streamStart
  have hboth : Agree ((ollamaStream callback).run callback streamStart chunks)
        (ollamaParseStream callback streamStart stream) ↔
      Agree (tellStream callback (streamObjects stream) streamStart)
        ((tellLines (ollamaParseLine callback) streamStart (streamObjects stream)).andThen
          (closeStream callback)) := by
    rw [ollamaParseStream, hwhole]
    constructor
    · exact fun hagree => ⟨hincremental.1.symm.trans hagree.1, hincremental.2.symm.trans hagree.2⟩
    · exact fun hagree => hincremental.trans hagree
  rw [hboth]
  by_cases hquiet : ∀ line ∈ streamObjects stream, finishes line = false
  · refine iff_of_true ?_ (Or.inl hquiet)
    rw [tellStream, tellLines_congr fun line hline => emitLine_quiet callback (hquiet line hline),
      tellLines_congr fun line hline => parseLine_quiet callback (hquiet line hline)]
    exact ⟨rfl, rfl⟩
  · rw [or_iff_right hquiet]
    rcases List.eq_nil_or_concat (streamObjects stream) with hnil | ⟨front, last, hobjects⟩
    · rw [hnil] at hquiet
      exact absurd (fun line hline => absurd hline List.not_mem_nil) hquiet
    · rw [List.concat_eq_append] at hobjects
      have hfront := h.reason
      rw [hobjects, List.dropLast_concat] at hfront
      have hlast : finishes last = true := by
        by_contra hlast
        refine hquiet fun line hline => ?_
        rw [hobjects, List.mem_append, List.mem_singleton] at hline
        rcases hline with hline | rfl
        · exact hfront line hline
        · exact Bool.eq_false_iff.mpr hlast
      have hparse : ∃ response, ollamaParseResponse last = .ok response := by
        unfold finishes at hlast
        cases hresponse : ollamaParseResponse last with
        | error e => rw [hresponse] at hlast; cases hlast
        | ok response => exact ⟨response, rfl⟩
      obtain ⟨response, hparse⟩ := hparse
      rw [hobjects]
      exact ends_agree_iff callback rfl hparse hfront hlast

theorem exists_of_isOk {α : Type} {x : Res α} (h : x.isOk = true) : ∃ a, x = .ok a := by
  cases x with
  | error e => cases h
  | ok a => exact ⟨a, rfl⟩

/-- A stream of one line. -/
theorem ndjson_line (hline : chr '\n' ∉ line) (hok : LineOk line) : Ndjson (line ++ [chr '\n']) where
  lines := (linesOk_append hline).mpr ⟨hok, (linesOk_line List.not_mem_nil).mpr (Or.inl rfl)⟩
  ended := by
    rw [List.getLast?_concat]
    decide
  reason := by
    have hone : streamObjects (line ++ [chr '\n']) = lineObjects [line] ++ streamObjects [] :=
      streamObjects_append hline
    have hnil : streamObjects [] = [] := rfl
    rw [hone, hnil, List.append_nil, lineObjects_ok hok]
    intro object hobject
    split at hobject
    · exact absurd hobject List.not_mem_nil
    · exact absurd hobject List.not_mem_nil

/-- A text in two chunks. -/
def textChunks : List Bytes := [str "\x7b\"response\":", str "\"a\"\x7d\r\n"]

/-- The line that they make. -/
def textLine : Bytes := str "\x7b\"response\":\"a\"\x7d\r"

/-- Without a finish reason the two agree. -/
theorem readers_agree_text : Agree ((ollamaStream agreeing).run agreeing streamStart textChunks)
    (ollamaParseStream agreeing streamStart (textLine ++ [chr '\n'])) := by
  have hok : (ollamaParseResponse (withoutCr textLine)).isOk = true := by decide +kernel
  have hstream : Ndjson (textLine ++ [chr '\n']) := ndjson_line (by decide) (Or.inr (exists_of_isOk hok))
  have hquiet : ∀ line ∈ streamObjects (textLine ++ [chr '\n']), finishes line = false := by decide +kernel
  exact (readers_agree_iff agreeing hstream (by decide) (by decide) (by decide)).mpr (Or.inl hquiet)

/-- A line with a finish reason. -/
def finishedLine : Bytes := str "\x7b\"done_reason\":\"stop\"\x7d"

/-- **The usage is only told by the reader of whole texts.** -/
theorem usage_dropped : ¬ ∀ callback stream chunks, Ndjson stream → stream.length ≤ 64 * 1024 →
    chunks.flatten = stream → (∀ chunk ∈ chunks, chunk ≠ []) →
      Agree ((ollamaStream callback).run callback streamStart chunks)
        (ollamaParseStream callback streamStart stream) := by
  intro h
  have hok : (ollamaParseResponse (withoutCr finishedLine)).isOk = true := by decide +kernel
  have hstream : Ndjson (finishedLine ++ [chr '\n']) := ndjson_line (by decide) (Or.inr (exists_of_isOk hok))
  have hagree := h agreeing _ [finishedLine, [chr '\n']] hstream (by decide) (by decide) (by decide)
  have hone : ((ollamaStream agreeing).run agreeing streamStart
      [finishedLine, [chr '\n']]).1.received.length = 1 := by
    decide +kernel
  rw [hagree.1] at hone
  exact absurd hone (by decide +kernel)

end SmolClaw.Providers
