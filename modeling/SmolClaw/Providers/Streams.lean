/-
  The three readers of provider streams: `sc_provider_sse_parser` (`src/providers/compatible.c`),
  `provider_sse_stream` and `ollama_stream` (`src/providers/http_providers.c`).

  1. **Program** — a chunk is put behind the bytes that are left over, texts are cut off at a separator,
     and each text is parsed and handed to the callback.  The three share the loop; what a text does
     differs: the first reader passes every event on and OVERWRITES its `done` flag, the second holds back
     empty texts and only sets the flag, the third takes lines and ends the stream itself.

  2. **Runs** — what the callback receives in a successful run is a function of the texts that the chunks
     are cut into (`Received`), the flag of what was received.

  3. **Defects** — none of the readers stops at the end of a stream: what stands behind an end marker is
     still handed on, a second marker too, and the first reader then ends the stream once more.

  4. **Result** — `ends_once_iff`: for each reader and every successful run, the callback receives one
     `DONE` and nothing behind it exactly when the chunks hold nothing to tell behind an end marker.
-/
import SmolClaw.Lib.EndMarker
import SmolClaw.Lib.Infix
import SmolClaw.Providers.StreamEvents

namespace SmolClaw.Providers

open Lib.EndMarker Lib.Infix

/-! ## Callbacks -/

/-- `sc_provider_stream_callback`: its answer may depend on the events it was given before. -/
abbrev StreamCallback := List StreamEvent → StreamEvent → Res Unit

/-- What the states of the readers share, and the events the callback was given. -/
structure StreamState where
  partialBytes : Bytes := []
  maxPartialBytes : Nat
  failed : Bool := false
  done : Bool := false
  received : List StreamEvent := []

/-- A state, and the status that a function returns with it. -/
abbrev Streamed := StreamState × Res Unit

/-- The next function, if the status is OK. -/
def Streamed.andThen (r : Streamed) (next : StreamState → Streamed) : Streamed :=
  match r with
  | (s, .ok ()) => next s
  | (s, .error e) => (s, .error e)

/-- The callback is called. -/
def deliver (callback : StreamCallback) (s : StreamState) (event : StreamEvent) : Streamed :=
  ({ s with received := s.received ++ [event] }, callback s.received event)

/-- The end of the stream, unless it was told: `done` is set if the callback agrees. -/
def closeStream (callback : StreamCallback) (s : StreamState) : Streamed :=
  if s.done then (s, .ok ())
  else (deliver callback s { type := .done }).andThen fun s => ({ s with done := true }, .ok ())

/-! ## Pushing a chunk -/

/-- What is passed over between two texts. -/
def isLineEnd (c : UInt8) : Bool := c == chr '\n' || c == chr '\r'

/-- The loop of the three push functions: a text is cut off in front of the separator and taken, the line
    ends behind it are passed over, and what holds no separator is kept. -/
def pushLoop (separator : Bytes) (take : StreamState → Bytes → Streamed) :
    Nat → StreamState → Bytes → Streamed
  | 0, s, _ => (s, .ok ())
  | rounds + 1, s, combined =>
      if combined = [] then (s, .ok ())
      else
        match firstInfix separator combined with
        | none => ({ s with partialBytes := combined }, .ok ())
        | some (text, rest) =>
            (take s text).andThen fun s => pushLoop separator take rounds s (rest.dropWhile isLineEnd)

/-- What differs between the readers: the separator, what a text does, what `finish` does with the bytes
    that are left, and the errors. -/
structure StreamReader where
  separator : Bytes
  take : StreamState → Bytes → Streamed
  finishPartial : StreamState → Bytes → Streamed
  pushRefused : String
  partialTooLarge : String
  finishRefused : String

/-- The push functions. -/
def StreamReader.push (r : StreamReader) (s : StreamState) (chunk : Bytes) : Streamed :=
  if s.failed then (s, Status.invalidArgument r.pushRefused)
  else if chunk = [] then (s, .ok ())
  else if s.maxPartialBytes < s.partialBytes.length + chunk.length then
    ({ s with failed := true }, Status.invalidArgument r.partialTooLarge)
  else
    let combined := s.partialBytes ++ chunk
    match pushLoop r.separator r.take (combined.length + 1) { s with partialBytes := [] } combined with
    | (s, .ok ()) => (s, .ok ())
    | (s, .error e) => ({ s with failed := true }, .error e)

/-- The finish functions: `closeStream` is their common end. -/
def StreamReader.finish (r : StreamReader) (callback : StreamCallback) (s : StreamState) : Streamed :=
  if s.failed then (s, Status.invalidArgument r.finishRefused)
  else
    (if s.partialBytes ≠ [] then r.finishPartial s s.partialBytes else (s, .ok ())).andThen
      (closeStream callback)

/-! ## Event streams -/

/-- What the two readers of event streams do with a text; `emit` parses it and calls the callback. -/
def takeSseText (emit : StreamState → Bytes → Streamed) (s : StreamState) (text : Bytes) : Streamed :=
  if s.maxPartialBytes < text.length then (s, Status.invalidArgument "sc.provider_sse.event_too_large")
  else if text = [] then (s, .ok ())
  else emit s text

/-- A stream that breaks off inside an event. -/
def truncatedEvent (s : StreamState) (_ : Bytes) : Streamed :=
  ({ s with failed := true }, Status.parse "sc.provider_sse.truncated_event")

/-- `sse_parser_emit_event`: the flag is that of the last event. -/
def sseParserEmitEvent (callback : StreamCallback) (s : StreamState) (text : Bytes) : Streamed :=
  match openaiParseSseEvent text with
  | .error e => (s, .error e)
  | .ok event => deliver callback { s with done := event.type == .done } event

/-- `sc_provider_sse_parser` -/
def sseParser (callback : StreamCallback) : StreamReader where
  separator := str "\n\n"
  take := takeSseText (sseParserEmitEvent callback)
  finishPartial := truncatedEvent
  pushRefused := "sc.provider_sse.invalid_argument"
  partialTooLarge := "sc.provider_sse.partial_too_large"
  finishRefused := "sc.provider_sse.finish_invalid_argument"

/-- An event that is not handed on. -/
def heldBack (event : StreamEvent) : Bool := event.type == .delta && event.text.isEmpty

/-- What `provider_sse_stream_push` does with an event: the flag stays once it is set. -/
def providerSseEmitEvent (parse : Bytes → Res StreamEvent) (callback : StreamCallback) (s : StreamState)
    (text : Bytes) : Streamed :=
  match parse text with
  | .error e => (s, .error e)
  | .ok event =>
      let s := { s with done := event.type == .done || s.done }
      if heldBack event then (s, .ok ()) else deliver callback s event

/-- `provider_sse_stream`, with the parser that its state points to. -/
def providerSseStream (parse : Bytes → Res StreamEvent) (callback : StreamCallback) : StreamReader where
  separator := str "\n\n"
  take := takeSseText (providerSseEmitEvent parse callback)
  finishPartial := truncatedEvent
  pushRefused := "sc.provider_sse.stream_invalid_argument"
  partialTooLarge := "sc.provider_sse.partial_too_large"
  finishRefused := "sc.provider_sse.finish_invalid_argument"

/-! ## Ollama's lines -/

/-- A list of events; the loop stops where the callback fails. -/
def deliverAll (callback : StreamCallback) : StreamState → List StreamEvent → Streamed
  | s, [] => (s, .ok ())
  | s, event :: events => (deliver callback s event).andThen fun s => deliverAll callback s events

/-- The events of an answer behind its texts. -/
def toolEvents (response : Answer) : List StreamEvent :=
  response.toolCalls.map (eventOfCall .toolCall) ++
    ((response.preExecutedToolCall.filter (·.name ≠ [])).map (eventOfCall .preExecutedToolCall)).toList ++
    (if response.preExecutedToolResult = [] then []
      else [{ type := .preExecutedToolResult, text := response.preExecutedToolResult }])

/-- `emit_response_as_stream`: the status of the reasoning event is lost behind that of the text. -/
def emitResponseAsStream (callback : StreamCallback) (s : StreamState) (response : Answer) : Streamed :=
  let reasoned : Streamed :=
    if response.reasoningText = [] then (s, .ok ())
    else deliver callback s { type := .reasoningDelta, text := response.reasoningText }
  let told : Streamed :=
    if response.text = [] then reasoned
    else deliver callback reasoned.1 { type := .delta, text := response.text }
  told.andThen fun s => deliverAll callback s (toolEvents response)

/-- `ollama_stream_emit_line` -/
def ollamaStreamEmitLine (callback : StreamCallback) (s : StreamState) (line : Bytes) : Streamed :=
  match ollamaParseResponse line with
  | .error e => (s, .error e)
  | .ok response =>
      (emitResponseAsStream callback s response).andThen fun s =>
        if response.finishReason ≠ [] then closeStream callback s else (s, .ok ())

/-- `ollama_stream_push` strips a carriage return off its lines and passes empty ones over. -/
def takeLine (callback : StreamCallback) (s : StreamState) (text : Bytes) : Streamed :=
  if withoutCr text = [] then (s, .ok ()) else ollamaStreamEmitLine callback s (withoutCr text)

/-- `ollama_stream` -/
def ollamaStream (callback : StreamCallback) : StreamReader where
  separator := str "\n"
  take := takeLine callback
  finishPartial s line := ollamaStreamEmitLine callback { s with partialBytes := [] } line
  pushRefused := "sc.provider_ollama.stream_invalid_argument"
  partialTooLarge := "sc.provider_ollama.partial_too_large"
  finishRefused := "sc.provider_ollama.finish_invalid_argument"

/-! ## Runs -/

/-- Chunks are pushed one after the other, and the stream is finished. -/
def StreamReader.run (r : StreamReader) (callback : StreamCallback) : StreamState → List Bytes → Streamed
  | s, [] => r.finish callback s
  | s, chunk :: chunks => (r.push s chunk).andThen fun s => r.run callback s chunks

/-! ## The texts of a run -/

/-- The texts that the loop cuts off, and what it keeps. -/
def cutTexts (separator : Bytes) : Nat → Bytes → List Bytes × Bytes
  | 0, _ => ([], [])
  | rounds + 1, combined =>
      if combined = [] then ([], [])
      else
        match firstInfix separator combined with
        | none => ([], combined)
        | some (text, rest) =>
            let (texts, left) := cutTexts separator rounds (rest.dropWhile isLineEnd)
            (text :: texts, left)

/-- The texts that chunks are cut into behind the bytes that are left over, and what is left in the end. -/
def cutChunks (separator : Bytes) : Bytes → List Bytes → List Bytes × Bytes
  | left, [] => ([], left)
  | left, [] :: chunks => cutChunks separator left chunks
  | left, (c :: chunk) :: chunks =>
      let combined := left ++ c :: chunk
      let (texts, left) := cutTexts separator (combined.length + 1) combined
      let (more, left) := cutChunks separator left chunks
      (texts ++ more, left)

theorem Streamed.andThen_eq_ok {r : Streamed} {next : StreamState → Streamed} {s : StreamState} :
    r.andThen next = (s, .ok ()) ↔ ∃ t, r = (t, .ok ()) ∧ next t = (s, .ok ()) := by
  rcases r with ⟨t, e | ⟨⟩⟩
  · exact ⟨nofun, fun ⟨_, h, _⟩ => nomatch h⟩
  · constructor
    · exact fun h => ⟨t, rfl, h⟩
    · rintro ⟨t', ht, h⟩
      cases ht
      exact h

/-- What is left behind a text is shorter than what it was cut from. -/
theorem length_dropWhile_lt {separator combined text rest : Bytes} {c : UInt8} {more : Bytes}
    (hseparator : separator = c :: more) (hc : isLineEnd c = true)
    (hcut : firstInfix separator combined = some (text, rest)) :
    (rest.dropWhile isLineEnd).length < combined.length := by
  subst hseparator
  obtain ⟨rfl, ⟨tail, rfl⟩, -⟩ := firstInfix_eq_some (List.cons_ne_nil c more) hcut
  have hdrop := List.length_dropWhile_le isLineEnd (more ++ tail)
  rw [List.cons_append, List.dropWhile_cons_of_pos hc, List.length_append, List.length_cons]
  omega

/-- **The loop ends by itself**: every number of rounds above the length gives the same. -/
theorem pushLoop_rounds {separator : Bytes} {take : StreamState → Bytes → Streamed} {c : UInt8}
    {more : Bytes} (hseparator : separator = c :: more) (hc : isLineEnd c = true) :
    ∀ (n m : Nat) (s : StreamState) (combined : Bytes), combined.length < n → combined.length < m →
      pushLoop separator take n s combined = pushLoop separator take m s combined := by
  intro n
  induction n with
  | zero => intro m s combined hn; exact absurd hn (Nat.not_lt_zero _)
  | succ n ih =>
    intro m s combined hn hm
    obtain ⟨m, rfl⟩ : ∃ k, m = k + 1 := ⟨m - 1, by omega⟩
    unfold pushLoop
    split
    · rfl
    · cases hcut : firstInfix separator combined with
      | none => rfl
      | some cut =>
        have hshort := length_dropWhile_lt hseparator hc hcut
        have hnext : ∀ t, pushLoop separator take n t (cut.2.dropWhile isLineEnd) =
            pushLoop separator take m t (cut.2.dropWhile isLineEnd) :=
          fun t => ih m t _ (by omega) (by omega)
        exact congrArg (Streamed.andThen (take s cut.1)) (funext hnext)

/-- What a run says about the texts it has taken: the events that were received, and the flag. -/
structure Told (told : List Bytes → List StreamEvent) (ended : List Bytes → Bool) (texts : List Bytes)
    (s : StreamState) : Prop where
  received : s.received = told texts
  done : s.done = ended texts

/-- A text is taken as it is told, and the bytes that are left over are not touched. -/
def Takes (take : StreamState → Bytes → Streamed) (told : List Bytes → List StreamEvent)
    (ended : List Bytes → Bool) : Prop :=
  ∀ texts s text s', Told told ended texts s → take s text = (s', .ok ()) →
    Told told ended (texts ++ [text]) s' ∧ s'.partialBytes = s.partialBytes

variable {told : List Bytes → List StreamEvent} {ended : List Bytes → Bool} {r : StreamReader}

/-- The loop takes the texts it cuts off. -/
theorem pushLoop_told {separator : Bytes} {take : StreamState → Bytes → Streamed}
    (htakes : Takes take told ended) : ∀ (rounds : Nat) {s s' : StreamState} {texts : List Bytes}
      {combined : Bytes}, Told told ended texts s → s.partialBytes = [] →
      pushLoop separator take rounds s combined = (s', .ok ()) →
      Told told ended (texts ++ (cutTexts separator rounds combined).1) s' ∧
        s'.partialBytes = (cutTexts separator rounds combined).2 := by
  intro rounds
  induction rounds with
  | zero =>
    intro s s' texts combined htold hleft h
    cases h
    rw [cutTexts, List.append_nil]
    exact ⟨htold, hleft⟩
  | succ rounds ih =>
    intro s s' texts combined htold hleft h
    unfold pushLoop at h
    unfold cutTexts
    split at h
    · next hempty =>
      cases h
      rw [if_pos hempty, List.append_nil]
      exact ⟨htold, hleft⟩
    · next hne =>
      rw [if_neg hne]
      cases hcut : firstInfix separator combined with
      | none =>
        rw [hcut] at h
        cases h
        rw [List.append_nil]
        exact ⟨⟨htold.received, htold.done⟩, rfl⟩
      | some cut =>
        rw [hcut] at h
        obtain ⟨t, htake, hrest⟩ := Streamed.andThen_eq_ok.mp h
        obtain ⟨hnext, hsame⟩ := htakes texts s cut.1 t htold htake
        have hlast := ih hnext (hsame.trans hleft) hrest
        rw [List.append_assoc, List.singleton_append] at hlast
        exact hlast

/-- A chunk that is pushed is cut behind the bytes that are left over. -/
theorem push_told (htakes : Takes r.take told ended) {s s' : StreamState} {texts : List Bytes} {c : UInt8}
    {chunk : Bytes} (htold : Told told ended texts s) (h : r.push s (c :: chunk) = (s', .ok ())) :
    let combined := s.partialBytes ++ c :: chunk
    Told told ended (texts ++ (cutTexts r.separator (combined.length + 1) combined).1) s' ∧
      s'.partialBytes = (cutTexts r.separator (combined.length + 1) combined).2 := by
  unfold StreamReader.push at h
  split at h
  · exact nomatch h
  rw [if_neg (List.cons_ne_nil c chunk)] at h
  split at h
  · exact nomatch h
  dsimp only at h
  split at h
  · next t hloop =>
    cases h
    have hstart : Told told ended texts { s with partialBytes := [] } := ⟨htold.received, htold.done⟩
    exact pushLoop_told htakes _ hstart rfl hloop
  · exact nomatch h

/-- **A run takes the texts of its chunks**, and then finishes. -/
theorem run_told (htakes : Takes r.take told ended) {callback : StreamCallback} {s' : StreamState} :
    ∀ {chunks : List Bytes} {s : StreamState} {texts : List Bytes}, Told told ended texts s →
      r.run callback s chunks = (s', .ok ()) →
      ∃ t, Told told ended (texts ++ (cutChunks r.separator s.partialBytes chunks).1) t ∧
        t.partialBytes = (cutChunks r.separator s.partialBytes chunks).2 ∧
        r.finish callback t = (s', .ok ()) := by
  intro chunks
  induction chunks with
  | nil =>
    intro s texts htold h
    exact ⟨s, by rwa [cutChunks, List.append_nil], rfl, h⟩
  | cons chunk chunks ih =>
    intro s texts htold h
    obtain ⟨t, hpush, hrun⟩ := Streamed.andThen_eq_ok.mp h
    cases chunk with
    | nil =>
      have hsame : t = s := by
        unfold StreamReader.push at hpush
        split at hpush
        · exact nomatch hpush
        · cases hpush
          rfl
      subst hsame
      exact ih htold hrun
    | cons c chunk =>
      obtain ⟨hnext, hleft⟩ := push_told htakes htold hpush
      obtain ⟨u, hlast, hleftover, hfinish⟩ := ih hnext hrun
      rw [hleft] at hlast hleftover
      refine ⟨u, ?_, hleftover, hfinish⟩
      rw [List.append_assoc] at hlast
      exact hlast

/-- The mark of the end. -/
def isDone (event : StreamEvent) : Bool := event.type == .done

/-- Closing a stream adds its end unless the flag is set. -/
theorem closeStream_received {callback : StreamCallback} {s s' : StreamState}
    (h : closeStream callback s = (s', .ok ())) :
    s'.received = close s.done s.received { type := .done } := by
  unfold closeStream at h
  unfold close
  split at h
  · next hdone =>
    cases h
    rw [if_pos hdone]
  · next hdone =>
    obtain ⟨t, hdeliver, hclosed⟩ := Streamed.andThen_eq_ok.mp h
    cases hclosed
    rw [if_neg hdone]
    exact (congrArg (fun p => p.1.received) hdeliver).symm

/-! ## The readers of event streams -/

/-- The event in a text that was cut off; empty texts hold none. -/
def textEvents (parse : Bytes → Res StreamEvent) (text : Bytes) : List StreamEvent :=
  if text = [] then [] else (parse text).toOption.toList

/-- What `sc_provider_sse_parser` tells of the texts: every event. -/
def sseTold (texts : List Bytes) : List StreamEvent := texts.flatMap (textEvents openaiParseSseEvent)

/-- Its flag: the last event. -/
def sseEnded (texts : List Bytes) : Bool := (sseTold texts).getLast?.any isDone

/-- What `provider_sse_stream` tells of the texts. -/
def providerTold (parse : Bytes → Res StreamEvent) (texts : List Bytes) : List StreamEvent :=
  (texts.flatMap (textEvents parse)).filter fun event => !heldBack event

/-- Its flag: any event. -/
def providerEnded (parse : Bytes → Res StreamEvent) (texts : List Bytes) : Bool :=
  (providerTold parse texts).any isDone

/-- A text that is taken is empty, or its event is emitted. -/
theorem takeSseText_ok {emit : StreamState → Bytes → Streamed} {s s' : StreamState} {text : Bytes}
    (h : takeSseText emit s text = (s', .ok ())) :
    (text = [] ∧ s' = s) ∨ (text ≠ [] ∧ emit s text = (s', .ok ())) := by
  unfold takeSseText at h
  split at h
  · exact nomatch h
  split at h
  · next hempty =>
    cases h
    exact Or.inl ⟨hempty, rfl⟩
  · next hne => exact Or.inr ⟨hne, h⟩

theorem textEvents_ok {parse : Bytes → Res StreamEvent} {text : Bytes} {event : StreamEvent}
    (hne : text ≠ []) (h : parse text = .ok event) : textEvents parse text = [event] := by
  rw [textEvents, if_neg hne, h]
  rfl

theorem textEvents_nil (parse : Bytes → Res StreamEvent) : textEvents parse [] = [] := if_pos rfl

/-- The first reader: the event is told, and the flag is overwritten. -/
theorem sseParser_takes (callback : StreamCallback) : Takes (sseParser callback).take sseTold sseEnded := by
  intro texts s text s' htold h
  have happend : sseTold (texts ++ [text]) = sseTold texts ++ textEvents openaiParseSseEvent text := by
    rw [sseTold, List.flatMap_append, List.flatMap_singleton, sseTold]
  rcases takeSseText_ok h with ⟨rfl, rfl⟩ | ⟨hne, hemit⟩
  · rw [textEvents_nil, List.append_nil] at happend
    exact ⟨⟨happend ▸ htold.received, by rw [sseEnded, happend]; exact htold.done⟩, rfl⟩
  · unfold sseParserEmitEvent at hemit
    split at hemit
    · exact nomatch hemit
    · next event hparse =>
      rw [textEvents_ok hne hparse] at happend
      obtain rfl := congrArg Prod.fst hemit
      refine ⟨⟨?_, ?_⟩, rfl⟩
      · show s.received ++ [event] = _
        rw [happend, htold.received]
      · rw [sseEnded, happend, List.getLast?_concat]
        rfl

/-- The second reader: the event is told unless it is held back, and the flag is kept. -/
theorem providerSseStream_takes (parse : Bytes → Res StreamEvent) (callback : StreamCallback) :
    Takes (providerSseStream parse callback).take (providerTold parse) (providerEnded parse) := by
  intro texts s text s' htold h
  have happend : providerTold parse (texts ++ [text]) =
      providerTold parse texts ++ (textEvents parse text).filter fun event => !heldBack event := by
    rw [providerTold, List.flatMap_append, List.flatMap_singleton, List.filter_append, providerTold]
  rcases takeSseText_ok h with ⟨rfl, rfl⟩ | ⟨hne, hemit⟩
  · rw [textEvents_nil, List.filter_nil, List.append_nil] at happend
    exact ⟨⟨happend ▸ htold.received, by rw [providerEnded, happend]; exact htold.done⟩, rfl⟩
  · unfold providerSseEmitEvent at hemit
    split at hemit
    · exact nomatch hemit
    · next event hparse =>
      rw [textEvents_ok hne hparse, List.filter_singleton] at happend
      dsimp only at hemit
      split at hemit
      · next hheld =>
        rw [hheld, Bool.not_true, cond_false, List.append_nil] at happend
        -- an event that is held back is a text, so it does not set the flag
        have htype : (event.type == .done) = false := by
          rw [heldBack, Bool.and_eq_true, beq_iff_eq] at hheld
          rw [hheld.1]
          rfl
        cases hemit
        refine ⟨⟨happend ▸ htold.received, ?_⟩, rfl⟩
        rw [providerEnded, happend, htype, Bool.false_or]
        exact htold.done
      · next hheld =>
        rw [Bool.eq_false_iff.mpr hheld, Bool.not_false, cond_true] at happend
        obtain rfl := congrArg Prod.fst hemit
        refine ⟨⟨?_, ?_⟩, rfl⟩
        · show s.received ++ [event] = _
          rw [happend, htold.received]
        · rw [providerEnded, happend, List.any_append, List.any_cons, List.any_nil, Bool.or_false]
          show (event.type == .done || s.done) = ((providerTold parse texts).any isDone || isDone event)
          rw [htold.done, providerEnded, Bool.or_comm, isDone]

/-- An event stream that is finished has no bytes left, and is closed. -/
theorem finish_sse {callback : StreamCallback} {s s' : StreamState}
    (hleftover : r.finishPartial = truncatedEvent) (h : r.finish callback s = (s', .ok ())) :
    s'.received = close s.done s.received { type := .done } := by
  unfold StreamReader.finish at h
  split at h
  · exact nomatch h
  obtain ⟨t, hleft, hclose⟩ := Streamed.andThen_eq_ok.mp h
  split at hleft
  · rw [hleftover] at hleft
    exact nomatch hleft
  · cases hleft
    exact closeStream_received hclose

/-- The texts of a run from the start. -/
def sseTexts (chunks : List Bytes) : List Bytes := (cutChunks (str "\n\n") [] chunks).1

/-- **The first reader ends its stream once exactly when** no end marker stands in front of another
    event. -/
theorem sseParser_ends_iff {callback : StreamCallback} {maxPartialBytes : Nat} {chunks : List Bytes}
    {s : StreamState}
    (h : (sseParser callback).run callback { maxPartialBytes := maxPartialBytes } chunks = (s, .ok ())) :
    EndsOnce isDone s.received ↔ OnlyLast isDone (sseTold (sseTexts chunks)) := by
  have hstart : Told sseTold sseEnded [] { maxPartialBytes := maxPartialBytes } := ⟨rfl, rfl⟩
  obtain ⟨t, htold, -, hfinish⟩ := run_told (sseParser_takes callback) hstart h
  rw [finish_sse rfl hfinish, htold.received, htold.done]
  refine endsOnce_close rfl ?_ ?_
  · intro hended
    change sseEnded (sseTexts chunks) = true at hended
    cases hlast : (sseTold (sseTexts chunks)).getLast? with
    | none =>
      rw [sseEnded, hlast] at hended
      exact nomatch hended
    | some last =>
      rw [sseEnded, hlast] at hended
      exact ⟨last, List.mem_of_getLast? hlast, hended⟩
  · intro hended last hlast
    rw [sseEnded, hlast] at hended
    exact hended

/-- **The second reader**, whose held back events do not count. -/
theorem providerSseStream_ends_iff {parse : Bytes → Res StreamEvent} {callback : StreamCallback}
    {maxPartialBytes : Nat} {chunks : List Bytes} {s : StreamState}
    (h : (providerSseStream parse callback).run callback { maxPartialBytes := maxPartialBytes } chunks =
      (s, .ok ())) :
    EndsOnce isDone s.received ↔ OnlyLast isDone (providerTold parse (sseTexts chunks)) := by
  have hstart : Told (providerTold parse) (providerEnded parse) [] { maxPartialBytes := maxPartialBytes } :=
    ⟨rfl, rfl⟩
  obtain ⟨t, htold, -, hfinish⟩ := run_told (providerSseStream_takes parse callback) hstart h
  rw [finish_sse rfl hfinish, htold.received, htold.done]
  refine endsOnce_close rfl ?_ ?_
  · exact fun hended => List.any_eq_true.mp hended
  · intro hended last hlast
    have hnone := List.any_eq_false.mp hended last (List.mem_of_getLast? hlast)
    exact Bool.eq_false_iff.mpr hnone

/-! ## Ollama -/

/-- The events of an answer. -/
def responseEvents (response : Answer) : List StreamEvent :=
  (if response.reasoningText = [] then []
    else [{ type := .reasoningDelta, text := response.reasoningText }]) ++
  (if response.text = [] then [] else [{ type := .delta, text := response.text }]) ++ toolEvents response

/-- The events of a line. -/
def lineEvents (line : Bytes) : List StreamEvent :=
  (ollamaParseResponse line).toOption.elim [] responseEvents

/-- A line with a finish reason. -/
def finishes (line : Bytes) : Bool :=
  (ollamaParseResponse line).toOption.any fun response => decide (response.finishReason ≠ [])

/-- What the lines tell: the end stands behind the first line with a finish reason. -/
def linesTold : Bool → List Bytes → List StreamEvent
  | _, [] => []
  | done, line :: lines =>
      lineEvents line ++ (if finishes line && !done then [{ type := .done }] else []) ++
        linesTold (done || finishes line) lines

/-- The lines among the texts that were cut off. -/
def textLines (texts : List Bytes) : List Bytes := (texts.map withoutCr).filter (· ≠ [])

theorem linesTold_concat (line : Bytes) : ∀ (lines : List Bytes) (done : Bool),
    linesTold done (lines ++ [line]) = linesTold done lines ++ (lineEvents line ++
      (if finishes line && !(done || lines.any finishes) then [{ type := .done }] else [])) := by
  intro lines
  induction lines with
  | nil =>
    intro done
    simp [linesTold]
  | cons first lines ih =>
    intro done
    rw [List.cons_append, linesTold, ih, linesTold, List.any_cons, Bool.or_assoc]
    simp only [List.append_assoc]

/-- The events of an answer are no ends. -/
theorem isDone_responseEvents (response : Answer) :
    ∀ event ∈ responseEvents response, isDone event = false := by
  intro event hevent
  simp only [responseEvents, toolEvents, List.mem_append, List.mem_map, Option.mem_toList,
    Option.map_eq_some_iff] at hevent
  rcases hevent with (hevent | hevent) | (⟨call, -, rfl⟩ | ⟨call, -, rfl⟩) | hevent
  · split at hevent
    · exact absurd hevent List.not_mem_nil
    · rw [List.mem_singleton.mp hevent]
      rfl
  · split at hevent
    · exact absurd hevent List.not_mem_nil
    · rw [List.mem_singleton.mp hevent]
      rfl
  · rfl
  · rfl
  · split at hevent
    · exact absurd hevent List.not_mem_nil
    · rw [List.mem_singleton.mp hevent]
      rfl

theorem isDone_lineEvents {line : Bytes} : ∀ event ∈ lineEvents line, isDone event = false := by
  intro event hevent
  unfold lineEvents at hevent
  cases hparse : (ollamaParseResponse line).toOption with
  | none =>
    rw [hparse] at hevent
    exact absurd hevent List.not_mem_nil
  | some response =>
    rw [hparse] at hevent
    exact isDone_responseEvents response event hevent

/-- Once the end was told, lines tell what is in them. -/
theorem linesTold_true : ∀ lines : List Bytes, linesTold true lines = lines.flatMap lineEvents := by
  intro lines
  induction lines with
  | nil => rfl
  | cons line lines ih =>
    rw [linesTold, Bool.true_or, ih, Bool.not_true, Bool.and_false, if_neg Bool.false_ne_true,
      List.append_nil, List.flatMap_cons]

/-- The lines behind the first one with a finish reason. -/
def linesBehindEnd (lines : List Bytes) : List Bytes := (lines.dropWhile fun line => !finishes line).tail

/-- **The stream ends once exactly when** the lines behind the first finish reason tell nothing. -/
theorem linesTold_ends_iff (lines : List Bytes) : ∀ before : List StreamEvent,
    (∀ event ∈ before, isDone event = false) →
      (EndsOnce isDone (before ++ close (lines.any finishes) (linesTold false lines) { type := .done }) ↔
        (linesBehindEnd lines).flatMap lineEvents = []) := by
  induction lines with
  | nil =>
    intro before hbefore
    exact ⟨fun _ => rfl, fun _ => (endsOnce_concat rfl).mpr hbefore⟩
  | cons line lines ih =>
    intro before hbefore
    have hmore : ∀ event ∈ before ++ lineEvents line, isDone event = false := by
      intro event hevent
      rcases List.mem_append.mp hevent with hevent | hevent
      · exact hbefore event hevent
      · exact isDone_lineEvents event hevent
    cases hfinishes : finishes line with
    | true =>
      have hbehind : linesBehindEnd (line :: lines) = lines := by
        rw [linesBehindEnd, List.dropWhile_cons_of_neg (by rw [hfinishes]; decide), List.tail_cons]
      have hrest : ∀ event ∈ lines.flatMap lineEvents, isDone event = false := by
        intro event hevent
        obtain ⟨other, -, hother⟩ := List.mem_flatMap.mp hevent
        exact isDone_lineEvents event hother
      rw [hbehind, ← endsOnce_append_cons (x := ({ type := .done } : StreamEvent)) rfl hmore hrest]
      rw [List.any_cons, hfinishes, Bool.true_or, close, if_pos rfl, linesTold, hfinishes, Bool.false_or,
        linesTold_true]
      simp
    | false =>
      have hbehind : linesBehindEnd (line :: lines) = linesBehindEnd lines := by
        rw [linesBehindEnd, List.dropWhile_cons_of_pos (by rw [hfinishes]; rfl), linesBehindEnd]
      have hsame : close ((line :: lines).any finishes) (linesTold false (line :: lines)) { type := .done } =
          lineEvents line ++ close (lines.any finishes) (linesTold false lines) { type := .done } := by
        rw [List.any_cons, hfinishes, Bool.false_or, linesTold, hfinishes, Bool.false_and,
          if_neg Bool.false_ne_true, List.append_nil, Bool.false_or, close, close]
        split
        · rfl
        · rw [List.append_assoc]
      rw [hbehind, hsame, ← List.append_assoc]
      exact ih _ hmore

/-- A state with more events and the same flag. -/
structure Adds (s s' : StreamState) (events : List StreamEvent) : Prop where
  received : s'.received = s.received ++ events
  done : s'.done = s.done
  left : s'.partialBytes = s.partialBytes

theorem Adds.refl (s : StreamState) : Adds s s [] := ⟨(List.append_nil _).symm, rfl, rfl⟩

theorem Adds.trans {s t u : StreamState} {events more : List StreamEvent} (h : Adds s t events)
    (hmore : Adds t u more) : Adds s u (events ++ more) where
  received := by rw [hmore.received, h.received, List.append_assoc]
  done := hmore.done.trans h.done
  left := hmore.left.trans h.left

/-- The callback receives the event whatever it answers. -/
theorem deliver_adds (callback : StreamCallback) (s : StreamState) (event : StreamEvent) :
    Adds s (deliver callback s event).1 [event] := ⟨rfl, rfl, rfl⟩

theorem deliverAll_adds {callback : StreamCallback} {s' : StreamState} {events : List StreamEvent} :
    ∀ {s : StreamState}, deliverAll callback s events = (s', .ok ()) → Adds s s' events := by
  induction events with
  | nil =>
    intro s h
    cases h
    exact Adds.refl _
  | cons event events ih =>
    intro s h
    obtain ⟨t, hdeliver, hrest⟩ := Streamed.andThen_eq_ok.mp h
    have hfirst := deliver_adds callback s event
    rw [hdeliver] at hfirst
    exact hfirst.trans (ih hrest)

/-- An answer is told in its order. -/
theorem emitResponseAsStream_adds {callback : StreamCallback} {s s' : StreamState} {response : Answer}
    (h : emitResponseAsStream callback s response = (s', .ok ())) : Adds s s' (responseEvents response) := by
  obtain ⟨t, htold, htools⟩ := Streamed.andThen_eq_ok.mp h
  refine Adds.trans ?_ (deliverAll_adds htools)
  have hreasoned : Adds s (if response.reasoningText = [] then ((s, .ok ()) : Streamed)
      else deliver callback s { type := .reasoningDelta, text := response.reasoningText }).1
      (if response.reasoningText = [] then []
        else [{ type := .reasoningDelta, text := response.reasoningText }]) := by
    split
    · exact Adds.refl s
    · exact deliver_adds callback s _
  by_cases htext : response.text = []
  · rw [if_pos htext] at htold
    rw [if_pos htext, List.append_nil]
    rw [htold] at hreasoned
    exact hreasoned
  · rw [if_neg htext] at htold
    rw [if_neg htext]
    have hnext := hreasoned.trans (deliver_adds callback _ { type := .delta, text := response.text })
    rw [htold] at hnext
    exact hnext

/-- A line is told, and the end behind it if it has a finish reason and the flag is not set. -/
theorem ollamaStreamEmitLine_told {callback : StreamCallback} {s s' : StreamState} {line : Bytes}
    (h : ollamaStreamEmitLine callback s line = (s', .ok ())) :
    s'.received = s.received ++ (lineEvents line ++
        (if finishes line && !s.done then [{ type := .done }] else [])) ∧
      s'.done = (s.done || finishes line) ∧ s'.partialBytes = s.partialBytes := by
  unfold ollamaStreamEmitLine at h
  split at h
  · exact nomatch h
  · next response hparse =>
    have hevents : lineEvents line = responseEvents response := by rw [lineEvents, hparse]; rfl
    have hfinishes : finishes line = decide (response.finishReason ≠ []) := by rw [finishes, hparse]; rfl
    obtain ⟨t, hemit, hclose⟩ := Streamed.andThen_eq_ok.mp h
    have hadds := emitResponseAsStream_adds hemit
    rw [hevents, hfinishes]
    by_cases hreason : response.finishReason = []
    · rw [if_neg (not_not_intro hreason)] at hclose
      cases hclose
      rw [decide_eq_false (not_not_intro hreason), Bool.false_and, if_neg Bool.false_ne_true,
        List.append_nil, Bool.or_false]
      exact ⟨hadds.received, hadds.done, hadds.left⟩
    · rw [if_pos hreason] at hclose
      rw [decide_eq_true hreason, Bool.true_and, Bool.or_true, ← hadds.done]
      unfold closeStream at hclose
      cases hdone : t.done with
      | true =>
        rw [if_pos hdone] at hclose
        cases hclose
        rw [Bool.not_true, if_neg Bool.false_ne_true, List.append_nil]
        exact ⟨hadds.received, hdone, hadds.left⟩
      | false =>
        rw [if_neg (by rw [hdone]; decide)] at hclose
        obtain ⟨u, hdeliver, hset⟩ := Streamed.andThen_eq_ok.mp hclose
        have hend := deliver_adds callback t { type := .done }
        rw [hdeliver] at hend
        cases hset
        rw [Bool.not_false, if_pos rfl]
        exact ⟨(hadds.trans hend).received, rfl, (hadds.trans hend).left⟩

/-- The third reader takes lines. -/
theorem ollamaStream_takes (callback : StreamCallback) :
    Takes (ollamaStream callback).take (fun texts => linesTold false (textLines texts))
      (fun texts => (textLines texts).any finishes) := by
  intro texts s text s' htold h
  have happend : textLines (texts ++ [text]) =
      textLines texts ++ (if withoutCr text = [] then [] else [withoutCr text]) := by
    rw [textLines, List.map_append, List.filter_append, textLines, List.map_singleton, List.filter_singleton]
    by_cases hempty : withoutCr text = []
    · simp [hempty]
    · simp [hempty]
  change takeLine callback s text = (s', .ok ()) at h
  unfold takeLine at h
  split at h
  · next hempty =>
    cases h
    rw [if_pos hempty, List.append_nil] at happend
    exact ⟨⟨by rw [happend]; exact htold.received, by rw [happend]; exact htold.done⟩, rfl⟩
  · next hne =>
    rw [if_neg hne] at happend
    obtain ⟨hreceived, hdone, hleft⟩ := ollamaStreamEmitLine_told h
    refine ⟨⟨?_, ?_⟩, hleft⟩
    · rw [happend, linesTold_concat, Bool.false_or, hreceived, htold.received, htold.done]
    · rw [happend, List.any_append, List.any_cons, List.any_nil, Bool.or_false, hdone, htold.done]

/-- The lines of a run from the start: what is left in the end is one too, as it is. -/
def ollamaLines (chunks : List Bytes) : List Bytes :=
  let cut := cutChunks (str "\n") [] chunks
  textLines cut.1 ++ (if cut.2 = [] then [] else [cut.2])

/-- **The third reader ends its stream once exactly when** the lines behind the first one with a finish
    reason tell nothing. -/
theorem ollamaStream_ends_iff {callback : StreamCallback} {maxPartialBytes : Nat} {chunks : List Bytes}
    {s : StreamState}
    (h : (ollamaStream callback).run callback { maxPartialBytes := maxPartialBytes } chunks = (s, .ok ())) :
    EndsOnce isDone s.received ↔ (linesBehindEnd (ollamaLines chunks)).flatMap lineEvents = [] := by
  have hstart : Told (fun texts => linesTold false (textLines texts))
      (fun texts => (textLines texts).any finishes) [] { maxPartialBytes := maxPartialBytes } := ⟨rfl, rfl⟩
  obtain ⟨t, htold, hleftover, hfinish⟩ := run_told (ollamaStream_takes callback) hstart h
  have hclosed : s.received =
      close ((ollamaLines chunks).any finishes) (linesTold false (ollamaLines chunks)) { type := .done } := by
    unfold StreamReader.finish at hfinish
    split at hfinish
    · exact nomatch hfinish
    obtain ⟨u, hrest, hclose⟩ := Streamed.andThen_eq_ok.mp hfinish
    rw [closeStream_received hclose]
    change t.partialBytes = (cutChunks (str "\n") [] chunks).2 at hleftover
    split at hrest
    · next hne =>
      obtain ⟨hreceived, hdone, -⟩ := ollamaStreamEmitLine_told hrest
      have hlines : ollamaLines chunks =
          textLines (cutChunks (str "\n") [] chunks).1 ++ [t.partialBytes] := by
        rw [hleftover] at hne ⊢
        rw [ollamaLines, if_neg hne]
      rw [hlines, linesTold_concat, List.any_append, List.any_cons, List.any_nil, Bool.or_false,
        Bool.false_or, hreceived, hdone]
      show close (t.done || _) (t.received ++ (_ ++ if _ && !t.done then _ else _)) _ = _
      rw [htold.received, htold.done]
      rfl
    · next hempty =>
      cases hrest
      have hlines : ollamaLines chunks = textLines (cutChunks (str "\n") [] chunks).1 := by
        rw [hleftover] at hempty
        rw [ollamaLines, if_pos (not_not.mp hempty), List.append_nil]
      rw [hlines, htold.received, htold.done]
      rfl
  rw [hclosed]
  exact linesTold_ends_iff (ollamaLines chunks) [] nofun

/-! ## All three -/

/-- **Which streams end once.**  In every successful run of each reader, whatever the callback answers,
    the callback receives exactly one end and nothing behind it if and only if the chunks hold nothing to
    tell behind an end marker. -/
theorem ends_once_iff (callback : StreamCallback) (maxPartialBytes : Nat) (chunks : List Bytes) :
    (∀ s, (sseParser callback).run callback { maxPartialBytes := maxPartialBytes } chunks = (s, .ok ()) →
        (EndsOnce isDone s.received ↔ OnlyLast isDone (sseTold (sseTexts chunks)))) ∧
      (∀ parse s, (providerSseStream parse callback).run callback { maxPartialBytes := maxPartialBytes }
          chunks = (s, .ok ()) →
        (EndsOnce isDone s.received ↔ OnlyLast isDone (providerTold parse (sseTexts chunks)))) ∧
      ∀ s, (ollamaStream callback).run callback { maxPartialBytes := maxPartialBytes } chunks = (s, .ok ()) →
        (EndsOnce isDone s.received ↔ (linesBehindEnd (ollamaLines chunks)).flatMap lineEvents = []) :=
  ⟨fun _ h => sseParser_ends_iff h, fun _ _ h => providerSseStream_ends_iff h,
    fun _ h => ollamaStream_ends_iff h⟩

/-- A callback that never fails. -/
def agreeing : StreamCallback := fun _ _ => .ok ()

theorem Streamed.exists_of_isOk {r : Streamed} (h : r.2.isOk = true) : ∃ s, r = (s, .ok ()) := by
  rcases r with ⟨s, e | ⟨⟩⟩
  · exact nomatch h
  · exact ⟨s, rfl⟩

/-- An end marker in two chunks. -/
def markerChunks : List Bytes := [str "data: [DO", str "NE]\n\n"]

/-- One end marker ends the stream once. -/
theorem ends_once_marker : ∃ s,
    (sseParser agreeing).run agreeing { maxPartialBytes := 65536 } markerChunks = (s, .ok ()) ∧
      EndsOnce isDone s.received := by
  have hok : ((sseParser agreeing).run agreeing { maxPartialBytes := 65536 } markerChunks).2.isOk = true := by
    decide +kernel
  obtain ⟨s, hrun⟩ := Streamed.exists_of_isOk hok
  exact ⟨s, hrun, ((ends_once_iff agreeing 65536 markerChunks).1 s hrun).mpr (by decide +kernel)⟩

/-- Two end markers. -/
def twiceDone : List Bytes := [str "data: [DONE]\n\ndata: [DONE]\n\n"]

/-- Two of Anthropic's end markers. -/
def twiceStopped : List Bytes :=
  [str "data: \x7b\"type\":\"message_stop\"\x7d\n\ndata: \x7b\"type\":\"message_stop\"\x7d\n\n"]

/-- A line with a text behind one with a finish reason. -/
def textBehindEnd : List Bytes := [str "\x7b\"done_reason\":\"stop\"\x7d\n\x7b\"response\":\"a\"\x7d\n"]

/-- **Streams that end twice, or go on behind their end**, in all three readers. -/
theorem told_behind_end :
    (¬ ∀ callback maxPartialBytes chunks s,
        (sseParser callback).run callback { maxPartialBytes := maxPartialBytes } chunks = (s, .ok ()) →
          EndsOnce isDone s.received) ∧
      (¬ ∀ callback maxPartialBytes chunks s,
        (providerSseStream anthropicParseSseEvent callback).run callback
            { maxPartialBytes := maxPartialBytes } chunks = (s, .ok ()) →
          EndsOnce isDone s.received) ∧
      ¬ ∀ callback maxPartialBytes chunks s,
        (ollamaStream callback).run callback { maxPartialBytes := maxPartialBytes } chunks = (s, .ok ()) →
          EndsOnce isDone s.received := by
  refine ⟨fun h => ?_, fun h => ?_, fun h => ?_⟩
  · have hok : ((sseParser agreeing).run agreeing { maxPartialBytes := 65536 } twiceDone).2.isOk = true := by
      decide +kernel
    obtain ⟨s, hrun⟩ := Streamed.exists_of_isOk hok
    have hlast := (sseParser_ends_iff hrun).mp (h _ _ _ s hrun)
    exact absurd hlast (by decide +kernel)
  · have hok : ((providerSseStream anthropicParseSseEvent agreeing).run agreeing
        { maxPartialBytes := 65536 } twiceStopped).2.isOk = true := by
      decide +kernel
    obtain ⟨s, hrun⟩ := Streamed.exists_of_isOk hok
    have hlast := (providerSseStream_ends_iff hrun).mp (h _ _ _ s hrun)
    exact absurd hlast (by decide +kernel)
  · have hok : ((ollamaStream agreeing).run agreeing { maxPartialBytes := 65536 } textBehindEnd).2.isOk =
        true := by
      decide +kernel
    obtain ⟨s, hrun⟩ := Streamed.exists_of_isOk hok
    have hquiet := (ollamaStream_ends_iff hrun).mp (h _ _ _ s hrun)
    have htells : ((linesBehindEnd (ollamaLines textBehindEnd)).flatMap lineEvents).isEmpty = false := by
      decide +kernel
    rw [hquiet] at htells
    exact nomatch htells

end SmolClaw.Providers
