/-
  The parser of event streams, held to the format of event streams (`sc_provider_sse_parser_push` and
  `sse_data_payload`, `src/providers/compatible.c`).

  1. **Format** — a stream is written as lines with their line ends, an empty line behind every event
     (`WireEvent`); what it means is what `Lib.EventStream.decode` reads in its bytes.

  2. **Arrival** — chunks arrive one by one.  What is left over of an event is a proper prefix of it, in
     which the parser finds no separator, and what a chunk completes is taken (`run_arrives`, by induction
     on the arrival).

  3. **Defects** — the parser looks for two LF.  A CR ends no line, an empty line that is a CR LF ends no
     event, an event without data is handed on as an empty payload, and a `data` line without a value is
     passed over.

  4. **Result** — `tells_format`: on events that reach none of these, the parser follows the format.
-/
import SmolClaw.Lib.EventStream
import SmolClaw.Lib.Separated
import SmolClaw.Providers.OllamaReaders

namespace SmolClaw.Providers

open Lib.EndMarker Lib.EventStream Lib.Infix SmolClaw.Runtime

/-! ## Format -/

/-- An event as it is written: its lines with their line ends, and the line end of the empty line. -/
structure WireEvent where
  lines : List (Bytes × Bytes)
  close : Bytes

/-- The bytes of an event. -/
def WireEvent.bytes (e : WireEvent) : Bytes := (e.lines.flatMap fun line => line.1 ++ line.2) ++ e.close

/-- The bytes of a stream. -/
def wire (events : List WireEvent) : Bytes := events.flatMap WireEvent.bytes

/-- The line ends of the format. -/
def lineEnds : List Bytes := [str "\n", str "\r", str "\r\n"]

/-- **A stream that follows the grammar**, in which no CR that ends a line stands in front of an LF that ends
    another: its lines are the ones that are read. -/
structure Grammatical (events : List WireEvent) : Prop where
  line : ∀ e ∈ events, ∀ line ∈ e.lines, line.1 ≠ [] ∧ OneLine line.1 ∧ line.2 ∈ lineEnds
  close : ∀ e ∈ events, e.close ∈ lineEnds
  read : lines (wire events) = events.flatMap fun e => e.lines.map Prod.fst ++ [[]]

/-- The data payloads of a stream that are not empty. -/
def payloads (stream : Bytes) : List Bytes := ((decode stream).map Event.data).filter (· ≠ [])

/-- `sc_provider_openai_parse_sse_event` behind `sse_data_payload` -/
def readPayload (payload : Bytes) : Res StreamEvent :=
  if payload = str "[DONE]" then .ok { type := .done }
  else do
    let root ← jsonParseStatus payload
    openaiParseRoot root

theorem openaiParseSseEvent_eq (sseEvent : Bytes) :
    openaiParseSseEvent sseEvent = readPayload (sseDataPayload sseEvent) := rfl

/-- The first tool call of a delta without a text has its function. -/
def CallsNamed (delta : Option Json) : Prop :=
  memberText delta "content" = none → reasoningText delta = none → ∀ calls,
    member delta "tool_calls" = some calls →
      ∃ call rest, arrayItems (some calls) = call :: rest ∧ (member (some call) "function").isSome = true

/-- **A chunk of a chat completion**: no error, and a first choice with a delta, or a usage without
    choices. -/
structure ChunkObject (root : Json) : Prop where
  noError : responseErrorStatus root = none
  content : (arrayItems (member (some root) "choices") = [] ∧ (member (some root) "usage").isSome = true) ∨
    ((openaiChoiceDelta root).isSome = true ∧ CallsNamed (openaiChoiceDelta root))

/-- The payloads that a provider sends. -/
def ChunkPayload (payload : Bytes) : Prop :=
  payload = str "[DONE]" ∨ ∃ root, jsonParseStatus payload = .ok root ∧ ChunkObject root

/-- **What a run that follows the format does**: it succeeds, and the callback receives the events of the
    payloads, one for each; the end of the stream is told behind them unless the last one is it. -/
def TellsFormat (callback : StreamCallback) (maxPartialBytes : Nat) (events : List WireEvent)
    (chunks : List Bytes) : Prop :=
  ∃ s told, (sseParser callback).run callback { maxPartialBytes := maxPartialBytes } chunks = (s, .ok ()) ∧
    List.Forall₂ (fun payload event => readPayload payload = .ok event) (payloads (wire events)) told ∧
    s.received = close (told.getLast?.any isDone) told { type := .done }

/-! ## Arrival -/

/-- The chunks of every event. -/
def HoldsOne (events : List WireEvent) (chunks : List Bytes) : Prop :=
  ∃ pieces : List (List Bytes), pieces.map List.flatten = events.map WireEvent.bytes ∧ chunks = pieces.flatten

/-- Nothing, or a proper prefix of the first block. -/
def Begins (left : Bytes) (blocks : List Bytes) : Prop :=
  left = [] ∨ ∃ block rest, blocks = block :: rest ∧ left <+: block ∧ left ≠ block

/-- **Chunks that arrive**: what is left over of an event and the chunk behind it fit. -/
inductive Arrives (maxPartialBytes : Nat) : Bytes → List Bytes → List Bytes → Prop
  | nil : Arrives maxPartialBytes [] [] []
  | skip {left : Bytes} {chunks blocks : List Bytes} (hrest : Arrives maxPartialBytes left chunks blocks) :
      Arrives maxPartialBytes left ([] :: chunks) blocks
  | chunk {left chunk next : Bytes} {done chunks blocks : List Bytes} (hne : chunk ≠ [])
      (hwhole : left ++ chunk = done.flatten ++ next) (hnext : Begins next blocks)
      (hfits : left.length + chunk.length ≤ maxPartialBytes)
      (hrest : Arrives maxPartialBytes next chunks blocks) :
      Arrives maxPartialBytes left (chunk :: chunks) (done ++ blocks)

/-- **An event as the parser takes it**: its lines end with LF or CR LF, the empty line is an LF, and there
    are data lines, all of them with a value. -/
structure PlainEvent (e : WireEvent) : Prop where
  ends : ∀ line ∈ e.lines, line.2 = str "\n" ∨ line.2 = str "\r\n"
  close : e.close = str "\n"
  data : ∃ line ∈ e.lines, (field line.1).1 = dataName
  full : ∀ line ∈ e.lines, (field line.1).1 = dataName → (field line.1).2 ≠ []

variable {callback : StreamCallback} {maxPartialBytes : Nat} {events : List WireEvent} {e : WireEvent}
  {chunks blocks : List Bytes} {left : Bytes}

theorem Arrives.skips {more : List Bytes} (hempty : more.flatten = [])
    (h : Arrives maxPartialBytes left chunks blocks) :
    Arrives maxPartialBytes left (more ++ chunks) blocks := by
  induction more with
  | nil => exact h
  | cons chunk more ih =>
    rw [List.flatten_cons, List.append_eq_nil_iff] at hempty
    rw [hempty.1, List.cons_append]
    exact .skip (ih hempty.2)

/-- The chunks of one event. -/
theorem Arrives.event {block : Bytes} (hfits : block.length ≤ maxPartialBytes)
    (hrest : Arrives maxPartialBytes [] chunks blocks) : ∀ {more : List Bytes} {left : Bytes},
      left ++ more.flatten = block → left ≠ block →
      Arrives maxPartialBytes left (more ++ chunks) (block :: blocks) := by
  intro more
  induction more with
  | nil =>
    intro left hwhole hne
    rw [List.flatten_nil, List.append_nil] at hwhole
    exact absurd hwhole hne
  | cons chunk more ih =>
    intro left hwhole hne
    rw [List.flatten_cons, ← List.append_assoc] at hwhole
    by_cases hchunk : chunk = []
    · rw [hchunk, List.append_nil] at hwhole
      rw [hchunk, List.cons_append]
      exact .skip (ih hwhole hne)
    have hlength : left.length + chunk.length ≤ maxPartialBytes := by
      rw [← hwhole, List.length_append, List.length_append] at hfits
      omega
    by_cases hdone : left ++ chunk = block
    · -- the event is complete, and what is left of its chunks is empty
      have hempty : more.flatten = [] := by
        rw [hdone] at hwhole
        exact List.append_right_eq_self.mp hwhole
      have hevents : left ++ chunk = [block].flatten ++ [] := by
        rw [hdone]
        simp
      exact Arrives.chunk hchunk hevents (Or.inl rfl) hlength (hrest.skips hempty)
    · have hbegins : Begins (left ++ chunk) (block :: blocks) :=
        Or.inr ⟨block, blocks, rfl, ⟨more.flatten, hwhole⟩, hdone⟩
      have hnone : left ++ chunk = ([] : List Bytes).flatten ++ (left ++ chunk) := rfl
      exact Arrives.chunk hchunk hnone hbegins hlength (ih hwhole hdone)

/-- **Chunks that hold one event each arrive.** -/
theorem HoldsOne.arrives (h : HoldsOne events chunks) (hne : ∀ e ∈ events, e.bytes ≠ [])
    (hfits : ∀ e ∈ events, e.bytes.length ≤ maxPartialBytes) :
    Arrives maxPartialBytes [] chunks (events.map WireEvent.bytes) := by
  obtain ⟨pieces, hpieces, rfl⟩ := h
  induction events generalizing pieces with
  | nil =>
    rw [List.map_nil, List.map_eq_nil_iff] at hpieces
    rw [hpieces]
    exact .nil
  | cons e events ih =>
    rw [List.map_cons] at hpieces ⊢
    obtain ⟨more, pieces, rfl, hevent, hpieces⟩ := List.map_eq_cons_iff.mp hpieces
    rw [List.forall_mem_cons] at hne hfits
    rw [List.flatten_cons]
    exact .event hfits.1 (ih hne.2 hfits.2 pieces hpieces) hevent hne.1.symm

/-! ## One chunk -/

/-- The separator behind an event. -/
theorem blankLine_eq : str "\n\n" = [chr '\n', chr '\n'] := by decide

/-- A text that the parser cuts off and reads as an event. -/
structure Taken (maxPartialBytes : Nat) (text : Bytes) (event : StreamEvent) : Prop where
  free : Free (str "\n\n") (text ++ str "\n")
  starts : ∃ c rest, text = c :: rest ∧ isLineEnd c = false
  short : text.length ≤ maxPartialBytes
  parsed : openaiParseSseEvent text = .ok event

/-- The state when these events were told. -/
def toldState (maxPartialBytes : Nat) (left : Bytes) (told : List StreamEvent) : StreamState where
  partialBytes := left
  maxPartialBytes := maxPartialBytes
  done := told.getLast?.any isDone
  received := told

/-- What is cut off is told. -/
theorem Taken.take {text : Bytes} {event : StreamEvent}
    (hagrees : ∀ before event, callback before event = .ok ()) (h : Taken maxPartialBytes text event)
    (told : List StreamEvent) :
    (sseParser callback).take (toldState maxPartialBytes [] told) text =
      (toldState maxPartialBytes [] (told ++ [event]), .ok ()) := by
  obtain ⟨c, rest, hstarts, -⟩ := h.starts
  have hne : text ≠ [] := hstarts ▸ List.cons_ne_nil c rest
  have hshort : ¬ (toldState maxPartialBytes [] told).maxPartialBytes < text.length := Nat.not_lt.mpr h.short
  have hstate : toldState maxPartialBytes [] (told ++ [event]) =
      { maxPartialBytes := maxPartialBytes, done := isDone event, received := told ++ [event] } := by
    rw [toldState, List.getLast?_concat]
    rfl
  show takeSseText (sseParserEmitEvent callback) _ text = _
  rw [takeSseText, if_neg hshort, if_neg hne, sseParserEmitEvent, h.parsed, hstate]
  show (_, callback told event) = _
  rw [hagrees]
  rfl

/-- What a chunk completes is told, and the beginning of the next event is kept. -/
theorem pushLoop_taken (hagrees : ∀ before event, callback before event = .ok ()) {next : Bytes}
    (hfree : Free (str "\n\n") next) (hnext : next.dropWhile isLineEnd = next) :
    ∀ {parts : List (Bytes × StreamEvent)}, (∀ part ∈ parts, Taken maxPartialBytes part.1 part.2) →
      ∀ (rounds : Nat) (told : List StreamEvent),
        ((parts.flatMap fun part => part.1 ++ str "\n\n") ++ next).length < rounds →
        pushLoop (str "\n\n") (sseParser callback).take rounds (toldState maxPartialBytes [] told)
            ((parts.flatMap fun part => part.1 ++ str "\n\n") ++ next) =
          (toldState maxPartialBytes next (told ++ parts.map Prod.snd), .ok ()) := by
  have hne : str "\n\n" ≠ [] := by decide
  intro parts
  induction parts with
  | nil =>
    intro _ rounds told hrounds
    obtain ⟨rounds, rfl⟩ : ∃ k, rounds = k + 1 := ⟨rounds - 1, by omega⟩
    rw [List.flatMap_nil, List.nil_append, List.map_nil, List.append_nil, pushLoop]
    split
    · next hempty => rw [hempty]
    · rw [(firstInfix_eq_none hne).mpr hfree]
      rfl
  | cons part parts ih =>
    intro hparts rounds told hrounds
    obtain ⟨rounds, rfl⟩ : ∃ k, rounds = k + 1 := ⟨rounds - 1, by omega⟩
    rw [List.forall_mem_cons] at hparts
    obtain ⟨htaken, hparts⟩ := hparts
    obtain ⟨c, rest, hstarts, hc⟩ := htaken.starts
    rw [List.flatMap_cons, List.append_assoc, List.append_assoc] at hrounds ⊢
    have hnonempty : part.1 ++ (str "\n\n" ++ ((parts.flatMap fun part => part.1 ++ str "\n\n") ++ next)) ≠
        [] := by
      rw [hstarts]
      exact List.cons_ne_nil _ _
    -- what stands behind the separator starts with no line end
    have hdrop : (str "\n\n" ++ ((parts.flatMap fun part => part.1 ++ str "\n\n") ++ next)).dropWhile
        isLineEnd = (parts.flatMap fun part => part.1 ++ str "\n\n") ++ next := by
      rw [blankLine_eq]
      show List.dropWhile isLineEnd _ = _
      cases parts with
      | nil => exact hnext
      | cons other parts =>
        obtain ⟨d, more, hother, hd⟩ := (hparts other List.mem_cons_self).starts
        have hneg : ¬ isLineEnd d = true := by
          rw [hd]
          decide
        rw [List.flatMap_cons, hother]
        exact List.dropWhile_cons_of_neg hneg
    rw [pushLoop, if_neg hnonempty, firstInfix_append hne htaken.free]
    dsimp only
    rw [htaken.take hagrees, Streamed.andThen, hdrop, ih hparts rounds, List.map_cons, List.append_assoc,
      List.singleton_append]
    simp only [List.length_append, blankLine_eq, List.length_cons] at hrounds ⊢
    omega

/-! ## A run -/

/-- The bytes of texts that are cut off. -/
def partBytes (parts : List (Bytes × StreamEvent)) : List Bytes := parts.map fun part => part.1 ++ str "\n\n"

theorem partBytes_flatten (parts : List (Bytes × StreamEvent)) :
    (partBytes parts).flatten = parts.flatMap fun part => part.1 ++ str "\n\n" := List.flatMap_def.symm

/-- **The beginning of an event holds no separator**, and starts with no line end. -/
theorem Begins.waits {parts : List (Bytes × StreamEvent)} (h : Begins left (partBytes parts))
    (hparts : ∀ part ∈ parts, Taken maxPartialBytes part.1 part.2) :
    Free (str "\n\n") left ∧ left.dropWhile isLineEnd = left := by
  rcases h with rfl | ⟨block, rest, hblocks, ⟨more, hprefix⟩, hproper⟩
  · exact ⟨Free.nil (by decide), rfl⟩
  obtain ⟨part, others, rfl, rfl, -⟩ := List.map_eq_cons_iff.mp hblocks
  have htaken := hparts part List.mem_cons_self
  rcases List.eq_nil_or_concat' more with rfl | ⟨more, last, rfl⟩
  · rw [List.append_nil] at hprefix
    exact absurd hprefix hproper
  have hends : part.1 ++ str "\n\n" = (part.1 ++ str "\n") ++ [chr '\n'] := by
    rw [List.append_assoc]
    rfl
  rw [hends, ← List.append_assoc] at hprefix
  have hsplit := List.append_inj' hprefix rfl
  have hshort : left ++ more = part.1 ++ str "\n" := hsplit.1
  refine ⟨fun hin => htaken.free (hin.trans ⟨[], more, by rw [List.nil_append, hshort]⟩), ?_⟩
  cases left with
  | nil => rfl
  | cons d left =>
    obtain ⟨c, text, hstarts, hc⟩ := htaken.starts
    rw [hstarts] at hshort
    obtain ⟨rfl, -⟩ := List.cons.inj hshort
    exact List.dropWhile_cons_of_neg (by rw [hc]; decide)

/-- **Every run tells its events**: by induction on the arrival of its chunks. -/
theorem run_arrives (hagrees : ∀ before event, callback before event = .ok ())
    (h : Arrives maxPartialBytes left chunks blocks) :
    ∀ {parts : List (Bytes × StreamEvent)} (told : List StreamEvent), blocks = partBytes parts →
      (∀ part ∈ parts, Taken maxPartialBytes part.1 part.2) →
      ∃ s, (sseParser callback).run callback (toldState maxPartialBytes left told) chunks = (s, .ok ()) ∧
        s.received = close ((told ++ parts.map Prod.snd).getLast?.any isDone) (told ++ parts.map Prod.snd)
          { type := .done } := by
  induction h with
  | nil =>
    intro parts told hblocks _
    obtain rfl := List.map_eq_nil_iff.mp hblocks.symm
    rw [List.map_nil, List.append_nil]
    show ∃ s, closeStream callback (toldState maxPartialBytes [] told) = (s, .ok ()) ∧ _
    unfold closeStream
    by_cases hdone : (toldState maxPartialBytes [] told).done = true
    · rw [if_pos hdone]
      exact ⟨_, rfl, (if_pos hdone).symm⟩
    · rw [if_neg hdone, deliver, hagrees]
      exact ⟨_, rfl, (if_neg hdone).symm⟩
  | skip _ ih =>
    intro parts told hblocks hparts
    exact ih told hblocks hparts
  | @chunk left chunk next done chunks blocks hne hwhole hnext hfits hrest ih =>
    intro parts told hblocks hparts
    obtain ⟨taken, parts, rfl, rfl, rfl⟩ := List.append_eq_map_iff.mp hblocks
    have htaken : ∀ part ∈ taken, Taken maxPartialBytes part.1 part.2 := fun part hpart =>
      hparts part (List.mem_append_left _ hpart)
    have hlater : ∀ part ∈ parts, Taken maxPartialBytes part.1 part.2 := fun part hpart =>
      hparts part (List.mem_append_right _ hpart)
    obtain ⟨hfree, hstarts⟩ := Begins.waits hnext hlater
    have hpush : (sseParser callback).push (toldState maxPartialBytes left told) chunk =
        (toldState maxPartialBytes next (told ++ taken.map Prod.snd), .ok ()) := by
      rw [StreamReader.push_eq _ rfl hne (Nat.not_lt.mpr hfits)]
      show failing (pushLoop (str "\n\n") _ ((left ++ chunk).length + 1) (toldState maxPartialBytes [] told)
        (left ++ chunk)) = _
      rw [hwhole, ← partBytes, partBytes_flatten,
        pushLoop_taken hagrees hfree hstarts htaken _ told (Nat.lt_succ_self _)]
      rfl
    rw [StreamReader.run, hpush, Streamed.andThen, List.map_append, ← List.append_assoc]
    exact ih _ rfl hlater

/-! ## Plain events -/

/-- The lines of an event, without their line feeds. -/
def WireEvent.rows (e : WireEvent) : List Bytes := e.lines.map fun line => line.1 ++ line.2.dropLast

/-- The text in front of the separator. -/
def WireEvent.text (e : WireEvent) : Bytes := [chr '\n'].intercalate e.rows

/-- The values of the data lines. -/
def WireEvent.values (e : WireEvent) : List Bytes := (e.lines.map Prod.fst).filterMap dataValue

/-- The data lines, joined. -/
def WireEvent.payload (e : WireEvent) : Bytes := [lf].intercalate e.values

theorem PlainEvent.lines_ne (h : PlainEvent e) : e.lines ≠ [] := by
  obtain ⟨line, hline, -⟩ := h.data
  exact List.ne_nil_of_mem hline

theorem PlainEvent.rows_ne (h : PlainEvent e) : e.rows ≠ [] :=
  fun hrows => h.lines_ne (List.map_eq_nil_iff.mp hrows)

/-- A line end that is read is a line feed behind nothing or a CR. -/
theorem PlainEvent.lineEnd (h : PlainEvent e) {line : Bytes × Bytes} (hline : line ∈ e.lines) :
    line.2 = line.2.dropLast ++ [chr '\n'] ∧ (line.2.dropLast = [] ∨ line.2.dropLast = [chr '\r']) := by
  rcases h.ends line hline with hends | hends
  · rw [hends]
    decide
  · rw [hends]
    decide

theorem PlainEvent.lines_bytes (h : PlainEvent e) :
    (e.lines.flatMap fun line => line.1 ++ line.2) = e.text ++ str "\n" := by
  have hrows : (e.lines.flatMap fun line => line.1 ++ line.2) = e.rows.flatMap (· ++ [chr '\n']) := by
    rw [WireEvent.rows, List.flatMap_map]
    refine List.flatMap_congr fun line hline => ?_
    rw [List.append_assoc, ← (h.lineEnd hline).1]
  rw [hrows, Lib.Separated.flatMap_terminated h.rows_ne]
  rfl

/-- **A plain event is its text and the separator.** -/
theorem PlainEvent.bytes_eq (h : PlainEvent e) : e.bytes = e.text ++ str "\n\n" := by
  rw [WireEvent.bytes, h.lines_bytes, h.close, List.append_assoc]
  rfl

/-- Rows that are not empty and hold no line feed hold no separator. -/
theorem free_rows : ∀ {rows : List Bytes}, (∀ row ∈ rows, row ≠ [] ∧ chr '\n' ∉ row) →
    Free (str "\n\n") (rows.flatMap (· ++ [chr '\n'])) := by
  have hne : str "\n\n" ≠ [] := by decide
  intro rows
  induction rows with
  | nil => exact fun _ => Free.nil hne
  | cons row rows ih =>
    intro hrows
    rw [List.forall_mem_cons] at hrows
    rw [List.flatMap_cons, List.append_assoc]
    refine Free.append_of_not_mem hne (fun c hc hmem => ?_) ?_
    · rw [blankLine_eq, List.mem_cons, List.mem_singleton, or_self] at hmem
      exact hrows.1.2 (hmem ▸ hc)
    · intro hin
      rcases List.infix_cons_iff.mp hin with hstart | hlater
      · rw [blankLine_eq] at hstart
        obtain ⟨-, hstart⟩ := List.cons_prefix_cons.mp hstart
        cases rows with
        | nil => exact absurd (List.prefix_nil.mp hstart) (List.cons_ne_nil _ _)
        | cons other rows =>
          obtain ⟨hother, hmem⟩ := hrows.2 other List.mem_cons_self
          obtain ⟨c, other, rfl⟩ := List.exists_cons_of_ne_nil hother
          obtain ⟨hc, -⟩ := List.cons_prefix_cons.mp hstart
          exact hmem (hc ▸ List.mem_cons_self)
      · exact ih hrows.2 hlater

/-- The lines of an event are not empty and hold no line ends. -/
def LinesHold (e : WireEvent) : Prop := ∀ line ∈ e.lines, line.1 ≠ [] ∧ OneLine line.1

theorem PlainEvent.row_clean (h : PlainEvent e) (hlines : LinesHold e) :
    ∀ row ∈ e.rows, row ≠ [] ∧ chr '\n' ∉ row := by
  intro row hrow
  obtain ⟨line, hline, rfl⟩ := List.mem_map.mp hrow
  obtain ⟨hne, hone⟩ := hlines line hline
  refine ⟨List.append_ne_nil_of_left_ne_nil hne _, fun hmem => ?_⟩
  rcases List.mem_append.mp hmem with hmem | hmem
  · exact hone.1 hmem
  · rcases (h.lineEnd hline).2 with hends | hends
    · rw [hends] at hmem
      exact absurd hmem List.not_mem_nil
    · rw [hends] at hmem
      exact absurd hmem (by decide)

/-- A plain event starts with the first byte of a line. -/
theorem PlainEvent.text_starts (h : PlainEvent e) (hlines : LinesHold e) :
    ∃ c rest, e.text = c :: rest ∧ isLineEnd c = false := by
  obtain ⟨line, others, hcons⟩ := List.exists_cons_of_ne_nil h.lines_ne
  obtain ⟨hne, hone⟩ := hlines line (hcons ▸ List.mem_cons_self)
  obtain ⟨c, rest, hline⟩ := List.exists_cons_of_ne_nil hne
  have hc : c ≠ lf ∧ c ≠ cr := (oneLine_cons.mp (hline ▸ hone)).1
  have hbytes := h.lines_bytes
  rw [hcons, List.flatMap_cons, hline, List.append_assoc, List.cons_append] at hbytes
  cases htext : e.text with
  | nil =>
    rw [htext] at hbytes
    exact absurd (List.cons.inj hbytes).1 hc.1
  | cons d text =>
    rw [htext] at hbytes
    obtain ⟨rfl, -⟩ := List.cons.inj hbytes
    refine ⟨c, text, rfl, ?_⟩
    rw [isLineEnd, Bool.or_eq_false_iff]
    exact ⟨beq_false_of_ne hc.1, beq_false_of_ne hc.2⟩

/-! ## Payloads -/

theorem withoutCr_row {line ending : Bytes} (hone : OneLine line)
    (hends : ending = [] ∨ ending = [chr '\r']) : withoutCr (line ++ ending) = line := by
  rcases hends with rfl | rfl
  · rw [List.append_nil, withoutCr, if_neg]
    exact fun hlast => hone.2 (List.mem_of_getLast? hlast)
  · rw [withoutCr, List.getLast?_concat, if_pos rfl, List.dropLast_concat]

/-- The name and the value of a `data` line. -/
theorem field_data (value : Bytes) : field (str "data:" ++ value) =
    (dataName, if value.head? = some blank then value.tail else value) := by
  have hdata : str "data:" = [100, 97, 116, 97, 58] := by decide
  rw [hdata]
  rfl

/-- A line whose name is `data` and whose value is not empty has the colon. -/
theorem data_begins {line : Bytes} (hname : (field line).1 = dataName) (hvalue : (field line).2 ≠ []) :
    str "data:" <+: line := by
  have hdata : str "data:" = dataName ++ [colon] := by decide
  have hsplit := List.takeWhile_append_dropWhile (p := (· ≠ colon)) (l := line)
  change line.takeWhile (· ≠ colon) = dataName at hname
  rw [hname] at hsplit
  cases hrest : line.dropWhile (· ≠ colon) with
  | nil =>
    rw [hrest, List.append_nil] at hsplit
    rw [← hsplit] at hvalue
    exact absurd rfl hvalue
  | cons c rest =>
    have hc := List.head_dropWhile_not (· ≠ colon) (l := line) (by rw [hrest]; exact List.cons_ne_nil c rest)
    simp only [hrest, List.head_cons, decide_eq_false_iff_not, not_not] at hc
    rw [hrest, hc] at hsplit
    exact ⟨rest, by rw [hdata, List.append_assoc, ← hsplit]; rfl⟩

/-- **What the parser takes from a line** is the value of a data line. -/
theorem dataOfLine_row {line ending : Bytes} (hone : OneLine line) (hends : ending = [] ∨ ending = [chr '\r'])
    (hfull : (field line).1 = dataName → (field line).2 ≠ []) :
    dataOfLine 6 (line ++ ending) = dataValue line := by
  unfold dataOfLine
  rw [withoutCr_row hone hends]
  dsimp only
  by_cases hprefix : str "data:" <+: line
  · obtain ⟨value, rfl⟩ := hprefix
    rw [field_data] at hfull
    have hvalue : value ≠ [] := by
      rintro rfl
      exact hfull rfl rfl
    have hlength : 6 ≤ (str "data:" ++ value).length := by
      have hpos := List.length_pos_iff.mpr hvalue
      have hfive : (str "data:").length = 5 := by decide
      rw [List.length_append, hfive]
      omega
    have hdrop : (str "data:" ++ value).drop 5 = value := List.drop_left' (by decide)
    rw [if_pos ⟨hlength, List.prefix_append _ _⟩, hdrop, dataValue, field_data, if_pos rfl]
    rfl
  · have hother : (field line).1 ≠ dataName := fun hname => hprefix (data_begins hname (hfull hname))
    rw [if_neg fun hboth => hprefix hboth.2, dataValue, if_neg hother]

/-- Values that are not empty are joined as the format has it. -/
theorem joined_values : ∀ {values : List Bytes} {payload : Bytes}, payload ≠ [] → (∀ v ∈ values, v ≠ []) →
    values.foldl (fun payload data => (if payload = [] then payload else payload ++ str "\n") ++ data)
      payload = [lf].intercalate (payload :: values) := by
  intro values
  induction values with
  | nil => exact fun _ _ => (List.intercalate_singleton).symm
  | cons value values ih =>
    intro payload hpayload hvalues
    rw [List.forall_mem_cons] at hvalues
    have hnext : (payload ++ str "\n") ++ value ≠ [] := List.append_ne_nil_of_right_ne_nil _ hvalues.1
    have hsplit : ∀ (a b : Bytes) (rest : List Bytes),
        [lf].intercalate ((a ++ b) :: rest) = a ++ [lf].intercalate (b :: rest) := by
      intro a b rest
      induction a with
      | nil => rfl
      | cons c a iha => rw [List.cons_append, List.intercalate_cons_cons_left, iha, List.cons_append]
    rw [List.foldl_cons, if_neg hpayload, ih hnext hvalues.2, hsplit, List.intercalate_cons_cons]
    rfl

theorem PlainEvent.values_ne (h : PlainEvent e) : e.values ≠ [] ∧ ∀ value ∈ e.values, value ≠ [] := by
  constructor
  · obtain ⟨line, hline, hname⟩ := h.data
    refine List.ne_nil_of_mem (List.mem_filterMap.mpr ⟨line.1, List.mem_map_of_mem hline, if_pos hname⟩)
  · intro value hvalue
    obtain ⟨row, hrow, hvalue⟩ := List.mem_filterMap.mp hvalue
    obtain ⟨line, hline, rfl⟩ := List.mem_map.mp hrow
    unfold dataValue at hvalue
    split at hvalue
    · next hname =>
      cases hvalue
      exact h.full line hline hname
    · cases hvalue

/-- **The payload that is parsed** is the data of the event. -/
theorem PlainEvent.sseDataPayload_text (h : PlainEvent e) (hlines : LinesHold e) :
    sseDataPayload e.text = e.payload := by
  have hrows : ∀ row ∈ e.rows, chr '\n' ∉ row := fun row hrow => (h.row_clean hlines row hrow).2
  have hvalues : e.rows.filterMap (dataOfLine 6) = e.values := by
    rw [WireEvent.rows, WireEvent.values, List.filterMap_map, List.filterMap_map]
    refine List.filterMap_congr fun line hline => ?_
    exact dataOfLine_row (hlines line hline).2 (h.lineEnd hline).2 (h.full line hline)
  obtain ⟨hne, hfull⟩ := h.values_ne
  rw [sseDataPayload, eventPayload, WireEvent.text, List.splitOn_intercalate _ hrows h.rows_ne, hvalues,
    WireEvent.payload]
  obtain ⟨value, values, hcons⟩ := List.exists_cons_of_ne_nil hne
  rw [hcons] at hfull ⊢
  rw [List.forall_mem_cons] at hfull
  exact joined_values hfull.1 hfull.2

theorem PlainEvent.payload_ne (h : PlainEvent e) : e.payload ≠ [] := by
  obtain ⟨hne, hfull⟩ := h.values_ne
  obtain ⟨value, values, hcons⟩ := List.exists_cons_of_ne_nil hne
  obtain ⟨c, rest, rfl⟩ := List.exists_cons_of_ne_nil (hfull value (hcons ▸ List.mem_cons_self))
  rw [WireEvent.payload, hcons, List.intercalate_cons_cons_left]
  exact List.cons_ne_nil _ _

/-- **The payloads of plain events.** -/
theorem payloads_plain (hgrammar : Grammatical events) (hplain : ∀ e ∈ events, PlainEvent e) :
    payloads (wire events) = events.map WireEvent.payload := by
  have hdecode : ∀ {events : List WireEvent}, (∀ e ∈ events, LinesHold e) → (∀ e ∈ events, PlainEvent e) →
      ((decodeLines .none (events.flatMap fun e => e.lines.map Prod.fst ++ [[]])).map Event.data) =
        events.map WireEvent.payload := by
    intro events
    induction events with
    | nil => exact fun _ _ => rfl
    | cons e events ih =>
      intro hlines hplain
      rw [List.forall_mem_cons] at hlines hplain
      have hblank : [] ∉ e.lines.map Prod.fst := by
        intro hmem
        obtain ⟨line, hline, hempty⟩ := List.mem_map.mp hmem
        exact (hlines.1 line hline).1 hempty
      rw [List.flatMap_cons, List.append_assoc, List.singleton_append, decodeLines_block hblank,
        List.map_append, dispatch_foldl_take hplain.1.values_ne.1, ih hlines.2 hplain.2]
      rfl
  have hlines : ∀ e ∈ events, LinesHold e := fun e he line hline =>
    ⟨(hgrammar.line e he line hline).1, (hgrammar.line e he line hline).2.1⟩
  rw [payloads, decode, hgrammar.read, hdecode hlines hplain, List.filter_eq_self]
  intro payload hpayload
  obtain ⟨e, he, rfl⟩ := List.mem_map.mp hpayload
  exact decide_eq_true (hplain e he).payload_ne

/-! ## Chunks of a completion -/

theorem openaiDelta_ok {delta : Option Json} (h : CallsNamed delta) (out : StreamEvent) :
    ∃ event, openaiDelta delta out = .ok event := by
  unfold openaiDelta
  cases hcontent : memberText delta "content" with
  | some text => exact ⟨_, rfl⟩
  | none =>
    cases hreasoning : reasoningText delta with
    | some text => exact ⟨_, rfl⟩
    | none =>
      cases hcalls : member delta "tool_calls" with
      | none => exact ⟨_, rfl⟩
      | some calls =>
        obtain ⟨call, rest, hitems, hnamed⟩ := h hcontent hreasoning calls hcalls
        obtain ⟨function, hfunction⟩ := Option.isSome_iff_exists.mp hnamed
        dsimp only
        rw [hitems]
        dsimp only
        rw [parseOneStreamToolCall, hfunction]
        exact ⟨_, rfl⟩

/-- **A chunk of a completion is an event.** -/
theorem ChunkObject.event {root : Json} (h : ChunkObject root) :
    ∃ event, openaiParseRoot root = .ok event := by
  have hnone : CallsNamed none := fun _ _ calls hcalls => by cases hcalls
  unfold openaiParseRoot
  rw [h.noError]
  dsimp only
  rcases h.content with ⟨hchoices, husage⟩ | ⟨hdelta, hnamed⟩
  · obtain ⟨usage, husage⟩ := Option.isSome_iff_exists.mp husage
    rw [husage]
    dsimp only
    by_cases hmissing : (member (some root) "choices").isNone = true
    · rw [if_pos hmissing]
      exact ⟨_, rfl⟩
    · have hempty : openaiChoiceDelta root = none := by
        rw [openaiChoiceDelta, hchoices]
        rfl
      rw [if_neg hmissing, if_pos hchoices, hempty]
      exact openaiDelta_ok hnone _
  · have hsome : ¬ (openaiChoiceDelta root).isNone = true := by
      rw [Option.isNone_iff_eq_none]
      intro hnil
      rw [hnil] at hdelta
      cases hdelta
    have hchoices : arrayItems (member (some root) "choices") ≠ [] := by
      intro hempty
      rw [openaiChoiceDelta, hempty] at hdelta
      cases hdelta
    cases member (some root) "usage" with
    | none =>
      dsimp only
      rw [if_neg hsome]
      exact openaiDelta_ok hnamed _
    | some usage =>
      dsimp only
      by_cases hmissing : (member (some root) "choices").isNone = true
      · rw [if_pos hmissing]
        exact ⟨_, rfl⟩
      · rw [if_neg hmissing, if_neg hchoices, if_neg hsome]
        exact openaiDelta_ok hnamed _

theorem ChunkPayload.event {payload : Bytes} (h : ChunkPayload payload) :
    ∃ event, readPayload payload = .ok event := by
  unfold readPayload
  rcases h with hdone | ⟨root, hroot, hchunk⟩
  · rw [if_pos hdone]
    exact ⟨_, rfl⟩
  · split
    · exact ⟨_, rfl⟩
    · rw [hroot]
      exact hchunk.event

/-! ## The parser and the format -/

/-- **When the parser follows the format**: on every stream of plain events whose payloads are chunks of a
    completion, however its chunks arrive, if the callback agrees. -/
theorem tells_format (hagrees : ∀ before event, callback before event = .ok ())
    (hgrammar : Grammatical events) (hfits : ∀ e ∈ events, e.bytes.length ≤ maxPartialBytes)
    (hpayloads : ∀ payload ∈ payloads (wire events), ChunkPayload payload)
    (hchunks : HoldsOne events chunks ∨ Arrives maxPartialBytes [] chunks (events.map WireEvent.bytes))
    (hplain : ∀ e ∈ events, PlainEvent e) : TellsFormat callback maxPartialBytes events chunks := by
  have hlines : ∀ e ∈ events, LinesHold e := fun e he line hline =>
    ⟨(hgrammar.line e he line hline).1, (hgrammar.line e he line hline).2.1⟩
  have harrives : Arrives maxPartialBytes [] chunks (events.map WireEvent.bytes) := by
    refine hchunks.elim (fun hone => hone.arrives (fun e he hempty => ?_) hfits) id
    rw [(hplain e he).bytes_eq, List.append_eq_nil_iff] at hempty
    exact absurd hempty.2 (by decide)
  have hread : ∀ e ∈ events, ∃ event, readPayload e.payload = .ok event := by
    intro e he
    refine (hpayloads e.payload ?_).event
    rw [payloads_plain hgrammar hplain]
    exact List.mem_map_of_mem he
  -- the event of a payload
  let event : WireEvent → StreamEvent := fun e => (readPayload e.payload).toOption.getD {}
  have hevent : ∀ e ∈ events, readPayload e.payload = .ok (event e) := by
    intro e he
    obtain ⟨told, htold⟩ := hread e he
    show _ = Except.ok ((readPayload e.payload).toOption.getD {})
    rw [htold]
    rfl
  have htaken : ∀ part ∈ events.map fun e => (e.text, event e), Taken maxPartialBytes part.1 part.2 := by
    intro part hpart
    obtain ⟨e, he, rfl⟩ := List.mem_map.mp hpart
    have hshort := hfits e he
    have hrows := free_rows ((hplain e he).row_clean (hlines e he))
    rw [(hplain e he).bytes_eq, List.length_append] at hshort
    rw [Lib.Separated.flatMap_terminated (hplain e he).rows_ne] at hrows
    refine ⟨hrows, (hplain e he).text_starts (hlines e he), Nat.le_of_add_right_le hshort, ?_⟩
    rw [openaiParseSseEvent_eq, (hplain e he).sseDataPayload_text (hlines e he)]
    exact hevent e he
  have hblocks : events.map WireEvent.bytes = partBytes (events.map fun e => (e.text, event e)) := by
    rw [partBytes, List.map_map]
    exact List.map_congr_left fun e he => (hplain e he).bytes_eq
  obtain ⟨s, hrun, hreceived⟩ := run_arrives hagrees harrives [] hblocks htaken
  rw [List.nil_append, List.map_map] at hreceived
  refine ⟨s, events.map event, hrun, ?_, hreceived⟩
  rw [payloads_plain hgrammar hplain, List.forall₂_map_left_iff, List.forall₂_map_right_iff,
    List.forall₂_same]
  exact hevent

/-- A comment and a marker. -/
def commentedEnd : List WireEvent :=
  [{ lines := [(str ": ping", str "\r\n"), (str "data: [DONE]", str "\n")], close := str "\n" }]

/-- It comes in two chunks. -/
def commentedChunks : List Bytes := [str ": ping\r\ndata: [DO", str "NE]\n\n"]

/-- A marker whose lines end with CR LF. -/
def crlfEnd : List WireEvent := [{ lines := [(str "data: [DONE]", str "\r\n")], close := str "\r\n" }]

theorem commentedEnd_grammatical : Grammatical commentedEnd where
  line := by
    simp only [commentedEnd, List.forall_mem_cons, List.not_mem_nil, false_implies, implies_true, and_true]
    decide
  close := by
    simp only [commentedEnd, List.forall_mem_cons, List.not_mem_nil, false_implies, implies_true, and_true]
    decide
  read := by decide

theorem crlfEnd_grammatical : Grammatical crlfEnd where
  line := by
    simp only [crlfEnd, List.forall_mem_cons, List.not_mem_nil, false_implies, implies_true, and_true]
    decide
  close := by
    simp only [crlfEnd, List.forall_mem_cons, List.not_mem_nil, false_implies, implies_true, and_true]
    decide
  read := by decide

/-- Its payloads are markers. -/
theorem marker_payloads {stream : Bytes} (h : payloads stream = [str "[DONE]"]) :
    ∀ payload ∈ payloads stream, ChunkPayload payload := by
  intro payload hpayload
  rw [h] at hpayload
  exact Or.inl (List.mem_singleton.mp hpayload)

/-- A comment in front of the marker is passed over. -/
theorem commentedEnd_told : TellsFormat agreeing 65536 commentedEnd commentedChunks :=
  tells_format (fun _ _ => rfl) commentedEnd_grammatical
    (fun e he => by
      rw [List.mem_singleton.mp he]
      decide)
    (marker_payloads (by decide)) (Or.inl ⟨[commentedChunks], by decide, by decide⟩)
    (fun e he => by
      rw [List.mem_singleton.mp he]
      constructor
      · simp only [List.forall_mem_cons, List.not_mem_nil, false_implies, implies_true, and_true]
        decide
      · rfl
      · exact ⟨(str "data: [DONE]", str "\n"), by simp, by decide⟩
      · simp only [List.forall_mem_cons, List.not_mem_nil, false_implies, implies_true, and_true]
        decide)

/-- **A stream whose lines end with CR LF** breaks off in its only event. -/
theorem crlf_unread : ¬ ∀ (callback : StreamCallback) (maxPartialBytes : Nat) (events : List WireEvent)
    (chunks : List Bytes), (∀ before event, callback before event = .ok ()) → Grammatical events →
      (∀ e ∈ events, e.bytes.length ≤ maxPartialBytes) →
      (∀ payload ∈ payloads (wire events), ChunkPayload payload) → HoldsOne events chunks →
      TellsFormat callback maxPartialBytes events chunks := by
  intro h
  obtain ⟨s, -, hrun, -, -⟩ := h agreeing 65536 crlfEnd [wire crlfEnd] (fun _ _ => rfl) crlfEnd_grammatical
    (fun e he => by
      rw [List.mem_singleton.mp he]
      decide)
    (marker_payloads (by decide)) ⟨[[wire crlfEnd]], by decide, by decide⟩
  have hfails : ((sseParser agreeing).run agreeing { maxPartialBytes := 65536 } [wire crlfEnd]).2.isOk =
      false := by
    decide +kernel
  rw [hrun] at hfails
  cases hfails

end SmolClaw.Providers
