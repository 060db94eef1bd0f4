/-
  A stream in chunks, and the same stream in one (`sc_provider_sse_parser_push`, `src/providers/compatible.c`;
  `provider_sse_stream_push` and `ollama_stream_push`, `src/providers/http_providers.c`; each with its `finish`).

  1. **One more chunk** — `pushLoop_append`, by induction on the texts that are cut off: the loop over a buffer,
     and then over what it keeps with the next chunk behind it, does what the loop over both together does.

  2. **Runs** — `run_whole`, by induction on the chunks.  The state between two chunks is the one that the loop
     over the whole stream is in at that place, apart from the bytes that are kept, so the two runs are equal.

  3. **Defect** — the line ends behind a separator are passed over in one buffer only.  When a chunk ends among
     them, those that the next one starts with are bytes of the next text: at the end of a stream they are an
     event that breaks off.

  4. **Result** — `chunking_agrees`: the cuts do not matter unless one falls there (`unbroken`).
-/
import SmolClaw.Providers.OllamaReaders

namespace SmolClaw.Providers

open Lib.Infix

/-! ## Cuts -/

/-- A chunk that starts with a line end. -/
def startsWithLineEnd (chunk : Bytes) : Bool := chunk.head?.any isLineEnd

/-- **No chunk that is pushed when nothing is left over starts with a line end**, the first one apart. -/
def unbroken (separator : Bytes) : Bytes → List Bytes → Bool
  | left, chunk :: next :: chunks =>
      let kept := (cutTexts separator ((left ++ chunk).length + 1) (left ++ chunk)).2
      (!kept.isEmpty || !startsWithLineEnd next) && unbroken separator kept (next :: chunks)
  | _, _ => true

/-- The loop of a push function over a whole buffer. -/
def pushAll (separator : Bytes) (take : StreamState → Bytes → Streamed) (s : StreamState) (combined : Bytes) :
    Streamed :=
  pushLoop separator take (combined.length + 1) s combined

/-! ## One more chunk -/

/-- What a text leaves as it is. -/
structure SameFrame (s t : StreamState) : Prop where
  left : t.partialBytes = s.partialBytes
  limit : t.maxPartialBytes = s.maxPartialBytes
  failed : t.failed = s.failed

/-- A text changes the events and the flag only. -/
def TakesFramed (take : StreamState → Bytes → Streamed) : Prop :=
  ∀ (s t : StreamState) (text : Bytes), take s text = (t, .ok ()) → SameFrame s t

variable {separator : Bytes} {take : StreamState → Bytes → Streamed} {c : UInt8} {more : Bytes}
  {s t : StreamState}

/-- The buffer is emptied before the loop, which finds it empty. -/
theorem StreamState.emptied (h : s.partialBytes = []) : { s with partialBytes := [] } = s := by
  rw [← h]

/-- What the loop keeps. -/
theorem pushLoop_keeps (htake : TakesFramed take) : ∀ (rounds : Nat) {s t : StreamState} {x : Bytes},
    s.partialBytes = [] → pushLoop separator take rounds s x = (t, .ok ()) →
      t.partialBytes = (cutTexts separator rounds x).2 ∧ t.maxPartialBytes = s.maxPartialBytes ∧
        t.failed = s.failed := by
  intro rounds
  induction rounds with
  | zero =>
    intro s t x hs h
    cases h
    exact ⟨hs, rfl, rfl⟩
  | succ rounds ih =>
    intro s t x hs h
    unfold pushLoop at h
    unfold cutTexts
    split at h
    · next hempty =>
      cases h
      rw [if_pos hempty]
      exact ⟨hs, rfl, rfl⟩
    · next hne =>
      rw [if_neg hne]
      cases hcut : firstInfix separator x with
      | none =>
        rw [hcut] at h
        cases h
        exact ⟨rfl, rfl, rfl⟩
      | some cut =>
        rw [hcut] at h
        obtain ⟨u, htext, hrest⟩ := Streamed.andThen_eq_ok.mp h
        have hframe := htake _ _ _ htext
        obtain ⟨hleft, hlimit, hfailed⟩ := ih (hframe.left.trans hs) hrest
        exact ⟨hleft, hlimit.trans hframe.limit, hfailed.trans hframe.failed⟩

/-- It is part of the buffer. -/
theorem cutTexts_length (hseparator : separator ≠ []) : ∀ (rounds : Nat) (x : Bytes),
    (cutTexts separator rounds x).2.length ≤ x.length := by
  intro rounds
  induction rounds with
  | zero => exact fun x => Nat.zero_le _
  | succ rounds ih =>
    intro x
    unfold cutTexts
    split
    · exact Nat.zero_le _
    · cases hcut : firstInfix separator x with
      | none => exact Nat.le_refl _
      | some cut =>
        have hdrop := List.length_dropWhile_le isLineEnd cut.2
        have hsplit := congrArg List.length (firstInfix_eq_some hseparator hcut).1
        rw [List.length_append] at hsplit
        exact Nat.le_trans (ih _) (by omega)

/-- Line ends are passed over up to the end of the buffer, and no further if the next chunk has none. -/
theorem dropWhile_append_chunk {rest y : Bytes}
    (h : rest.dropWhile isLineEnd = [] → startsWithLineEnd y = false) :
    (rest ++ y).dropWhile isLineEnd = rest.dropWhile isLineEnd ++ y := by
  rw [List.dropWhile_append]
  split
  · next hempty =>
    rw [List.isEmpty_iff] at hempty
    rw [hempty, List.nil_append]
    cases y with
    | nil => rfl
    | cons d y => exact List.dropWhile_cons_of_neg (by rw [show isLineEnd d = false from h hempty]; decide)
  · rfl

/-- **The loop goes on where it stopped**: over what it kept, with the next chunk behind it. -/
theorem pushLoop_append (hseparator : separator = c :: more) (hc : isLineEnd c = true)
    (htake : TakesFramed take) {y : Bytes} : ∀ (rounds : Nat) {s : StreamState} {x : Bytes},
      x.length < rounds → s.partialBytes = [] →
      ((cutTexts separator rounds x).2 = [] → startsWithLineEnd y = false) →
      pushAll separator take s (x ++ y) = (pushLoop separator take rounds s x).andThen fun t =>
        pushAll separator take { t with partialBytes := [] } (t.partialBytes ++ y) := by
  intro rounds
  induction rounds with
  | zero => exact fun h => absurd h (Nat.not_lt_zero _)
  | succ rounds ih =>
    intro s x hlength hs hstart
    by_cases hx : x = []
    · rw [pushLoop, if_pos hx, hx, List.nil_append]
      show _ = pushAll separator take { s with partialBytes := [] } (s.partialBytes ++ y)
      rw [hs, List.nil_append, StreamState.emptied hs]
    have hne : x ++ y ≠ [] := List.append_ne_nil_of_left_ne_nil hx y
    rw [cutTexts, if_neg hx] at hstart
    cases hcut : firstInfix separator x with
    | none =>
      rw [pushLoop, if_neg hx, hcut]
      show _ = pushAll separator take { s with partialBytes := [] } (x ++ y)
      rw [StreamState.emptied hs]
    | some cut =>
      obtain ⟨text, rest⟩ := cut
      rw [hcut] at hstart
      have hnonempty : separator ≠ [] := hseparator ▸ List.cons_ne_nil c more
      have hwhole := firstInfix_append_right hnonempty hcut y
      have hdrop : (rest ++ y).dropWhile isLineEnd = rest.dropWhile isLineEnd ++ y := by
        refine dropWhile_append_chunk fun hempty => hstart ?_
        dsimp only
        rw [hempty]
        cases rounds with
        | zero => rfl
        | succ rounds => rw [cutTexts, if_pos rfl]
      have hshort := length_dropWhile_lt hseparator hc hcut
      have hshortWhole := length_dropWhile_lt hseparator hc hwhole
      rw [pushAll, pushLoop, if_neg hne, hwhole, pushLoop, if_neg hx, hcut]
      show (take s text).andThen _ = ((take s text).andThen _).andThen _
      rw [Streamed.andThen_assoc]
      refine Streamed.andThen_congr fun t ht => ?_
      rw [← ih (by omega) ((htake _ _ _ ht).left.trans hs) hstart, hdrop]
      rw [hdrop] at hshortWhole
      exact pushLoop_rounds hseparator hc _ _ t _ hshortWhole (Nat.lt_succ_self _)

/-! ## Runs -/

theorem failing_andThen (r : Streamed) (f : StreamState → Streamed) :
    failing (r.andThen f) = (failing r).andThen fun t => failing (f t) := by
  rcases r with ⟨t, e | ⟨⟩⟩
  · rfl
  · rfl

variable {r : StreamReader} {callback : StreamCallback}

/-- **A run is the loop over the whole stream**, and the finish. -/
theorem run_whole (hseparator : r.separator = c :: more) (hc : isLineEnd c = true)
    (htake : TakesFramed r.take) : ∀ {chunks : List Bytes} {s : StreamState}, s.failed = false →
      chunks ≠ [] → (∀ chunk ∈ chunks, chunk ≠ []) →
      (s.partialBytes ++ chunks.flatten).length ≤ s.maxPartialBytes →
      unbroken r.separator s.partialBytes chunks = true →
      r.run callback s chunks = (failing (pushAll r.separator r.take { s with partialBytes := [] }
        (s.partialBytes ++ chunks.flatten))).andThen (r.finish callback) := by
  intro chunks
  induction chunks with
  | nil => exact fun _ h => absurd rfl h
  | cons chunk chunks ih =>
    intro s hfailed _ hne hsize hbreak
    have hchunk := hne chunk List.mem_cons_self
    rw [List.flatten_cons, ← List.append_assoc] at hsize ⊢
    have hfits : ¬ s.maxPartialBytes < s.partialBytes.length + chunk.length := by
      rw [List.length_append, List.length_append] at hsize
      omega
    rw [StreamReader.run, r.push_eq hfailed hchunk hfits]
    change (failing (pushAll r.separator r.take _ _)).andThen _ = _
    cases chunks with
    | nil =>
      rw [List.flatten_nil, List.append_nil]
      rfl
    | cons next chunks =>
      rw [unbroken, Bool.and_eq_true, Bool.or_eq_true, Bool.not_eq_true', Bool.not_eq_true'] at hbreak
      have hstart : (cutTexts r.separator ((s.partialBytes ++ chunk).length + 1) (s.partialBytes ++ chunk)).2 =
          [] → startsWithLineEnd ((next :: chunks).flatten) = false := by
        intro hempty
        have hnext := hbreak.1.resolve_left (by rw [hempty]; decide)
        obtain ⟨d, tail, rfl⟩ := List.exists_cons_of_ne_nil (hne next (by simp))
        exact hnext
      have hloop := pushLoop_append hseparator hc htake ((s.partialBytes ++ chunk).length + 1)
        (s := { s with partialBytes := [] }) (Nat.lt_succ_self _) rfl hstart
      change pushAll r.separator r.take { s with partialBytes := [] } (s.partialBytes ++ chunk ++ _) =
        (pushAll r.separator r.take { s with partialBytes := [] } (s.partialBytes ++ chunk)).andThen _ at hloop
      rw [hloop, failing_andThen, Streamed.andThen_assoc]
      -- behind a push that failed both runs stop; behind one that did not, the bytes that are kept are known
      cases hpush : pushAll r.separator r.take { s with partialBytes := [] } (s.partialBytes ++ chunk) with
      | mk t status =>
        rcases status with e | ⟨⟩
        · rfl
        · obtain ⟨hleft, hlimit, hkept⟩ := pushLoop_keeps htake ((s.partialBytes ++ chunk).length + 1) rfl hpush
          rw [← hleft] at hbreak
          refine ih (hkept.trans hfailed) (List.cons_ne_nil next chunks)
            (fun other hother => hne other (List.mem_cons_of_mem chunk hother)) ?_ hbreak.2
          have hshort := cutTexts_length (hseparator ▸ List.cons_ne_nil c more)
            ((s.partialBytes ++ chunk).length + 1) (s.partialBytes ++ chunk)
          rw [hlimit, List.length_append, hleft]
          rw [List.length_append] at hsize
          exact Nat.le_trans (Nat.add_le_add_right hshort _) hsize

/-- **A stream in chunks is the stream in one.** -/
theorem run_flatten (hseparator : r.separator = c :: more) (hc : isLineEnd c = true)
    (htake : TakesFramed r.take) {chunks : List Bytes} {maxPartialBytes : Nat}
    (hne : ∀ chunk ∈ chunks, chunk ≠ []) (hsize : chunks.flatten.length ≤ maxPartialBytes)
    (hbreak : unbroken r.separator [] chunks = true) :
    r.run callback { maxPartialBytes := maxPartialBytes } chunks =
      r.run callback { maxPartialBytes := maxPartialBytes } [chunks.flatten] := by
  by_cases hchunks : chunks = []
  · subst hchunks
    rfl
  have hstream : chunks.flatten ≠ [] := by
    obtain ⟨chunk, rest, rfl⟩ := List.exists_cons_of_ne_nil hchunks
    rw [List.flatten_cons]
    exact List.append_ne_nil_of_left_ne_nil (hne chunk List.mem_cons_self) _
  have hwhole : ∀ {pieces : List Bytes}, pieces ≠ [] → (∀ piece ∈ pieces, piece ≠ []) →
      pieces.flatten = chunks.flatten → unbroken r.separator [] pieces = true →
      r.run callback { maxPartialBytes := maxPartialBytes } pieces =
        (failing (pushAll r.separator r.take { maxPartialBytes := maxPartialBytes }
          chunks.flatten)).andThen (r.finish callback) := by
    intro pieces hpieces hnonempty hsame hcuts
    rw [← hsame] at hsize ⊢
    exact run_whole hseparator hc htake rfl hpieces hnonempty hsize hcuts
  rw [hwhole hchunks hne rfl hbreak]
  exact (hwhole (List.cons_ne_nil _ _) (List.forall_mem_singleton.mpr hstream) List.flatten_singleton rfl).symm

/-! ## The three readers -/

/-- An event reader's text leaves the frame if its emission does. -/
theorem takeSseText_framed {emit : StreamState → Bytes → Streamed} (h : TakesFramed emit) :
    TakesFramed (takeSseText emit) := by
  intro s t text htext
  rcases takeSseText_ok htext with ⟨-, rfl⟩ | ⟨-, hemit⟩
  · exact ⟨rfl, rfl, rfl⟩
  · exact h _ _ _ hemit

theorem sseParserEmitEvent_framed (callback : StreamCallback) : TakesFramed (sseParserEmitEvent callback) := by
  intro s t text h
  unfold sseParserEmitEvent at h
  split at h
  · cases h
  · obtain rfl := congrArg Prod.fst h
    exact ⟨rfl, rfl, rfl⟩

theorem providerSseEmitEvent_framed (parse : Bytes → Res StreamEvent) (callback : StreamCallback) :
    TakesFramed (providerSseEmitEvent parse callback) := by
  intro s t text h
  unfold providerSseEmitEvent at h
  split at h
  · cases h
  · dsimp only at h
    split at h
    · obtain rfl := congrArg Prod.fst h
      exact ⟨rfl, rfl, rfl⟩
    · obtain rfl := congrArg Prod.fst h
      exact ⟨rfl, rfl, rfl⟩

theorem takeLine_framed (callback : StreamCallback) : TakesFramed (takeLine callback) := by
  intro s t text h
  unfold takeLine at h
  split at h
  · obtain rfl := congrArg Prod.fst h
    exact ⟨rfl, rfl, rfl⟩
  · have hkeeps := (blind_emitLine callback (withoutCr text)).keeps s
    simp only [h] at hkeeps
    rw [hkeeps]
    exact ⟨rfl, rfl, rfl⟩

/-- **Cuts that do not matter.**  Each reader tells the same events, ends with the same status and is left in
    the same state, whether the stream comes in chunks or in one, whatever the callback answers, if no chunk
    behind a separator starts with a line end. -/
theorem chunking_agrees (callback : StreamCallback) (maxPartialBytes : Nat) {chunks : List Bytes}
    (hne : ∀ chunk ∈ chunks, chunk ≠ []) (hsize : chunks.flatten.length ≤ maxPartialBytes) :
    (unbroken (str "\n\n") [] chunks = true →
        (sseParser callback).run callback { maxPartialBytes := maxPartialBytes } chunks =
          (sseParser callback).run callback { maxPartialBytes := maxPartialBytes } [chunks.flatten] ∧
        ∀ parse, (providerSseStream parse callback).run callback { maxPartialBytes := maxPartialBytes } chunks =
          (providerSseStream parse callback).run callback { maxPartialBytes := maxPartialBytes }
            [chunks.flatten]) ∧
      (unbroken (str "\n") [] chunks = true →
        (ollamaStream callback).run callback { maxPartialBytes := maxPartialBytes } chunks =
          (ollamaStream callback).run callback { maxPartialBytes := maxPartialBytes } [chunks.flatten]) := by
  have hends : str "\n\n" = [chr '\n', chr '\n'] := by decide
  refine ⟨fun hbreak => ⟨?_, fun parse => ?_⟩, fun hbreak => ?_⟩
  · exact run_flatten (r := sseParser callback) hends (by decide)
      (takeSseText_framed (sseParserEmitEvent_framed callback)) hne hsize hbreak
  · exact run_flatten (r := providerSseStream parse callback) hends (by decide)
      (takeSseText_framed (providerSseEmitEvent_framed parse callback)) hne hsize hbreak
  · exact run_flatten (r := ollamaStream callback) separator_eq (by decide) (takeLine_framed callback) hne hsize
      hbreak

/-- A marker that is cut in two is the marker. -/
theorem chunking_marker :
    (sseParser agreeing).run agreeing { maxPartialBytes := 65536 } markerChunks =
      (sseParser agreeing).run agreeing { maxPartialBytes := 65536 } [markerChunks.flatten] :=
  ((@chunking_agrees agreeing 65536 markerChunks
    (fun chunk h => by
      rcases List.mem_cons.mp h with rfl | h
      · decide
      · rw [List.mem_singleton.mp h]
        decide) (by decide)).1 (by decide +kernel)).1

/-- An end marker, and a line end behind it that comes late. -/
def lateLineEnd : List Bytes := [str "data: [DONE]\n\n", str "\n"]

/-- **A line end that comes late breaks the stream off**; in one chunk it is passed over. -/
theorem late_line_end :
    ¬ ∀ (callback : StreamCallback) (maxPartialBytes : Nat) (chunks : List Bytes),
        (∀ chunk ∈ chunks, chunk ≠ []) → chunks.flatten.length ≤ maxPartialBytes →
        Agree ((sseParser callback).run callback { maxPartialBytes := maxPartialBytes } chunks)
            ((sseParser callback).run callback { maxPartialBytes := maxPartialBytes } [chunks.flatten]) ∧
          (∀ parse ∈ [anthropicParseSseEvent, geminiParseSseEvent],
            Agree ((providerSseStream parse callback).run callback { maxPartialBytes := maxPartialBytes } chunks)
              ((providerSseStream parse callback).run callback { maxPartialBytes := maxPartialBytes }
                [chunks.flatten])) ∧
          Agree ((ollamaStream callback).run callback { maxPartialBytes := maxPartialBytes } chunks)
            ((ollamaStream callback).run callback { maxPartialBytes := maxPartialBytes } [chunks.flatten]) := by
  intro h
  have hne : ∀ chunk ∈ lateLineEnd, chunk ≠ [] := by
    intro chunk hchunk
    rcases List.mem_cons.mp hchunk with rfl | hchunk
    · decide
    · rw [List.mem_singleton.mp hchunk]
      decide
  have hsame := congrArg Except.isOk (h agreeing 65536 lateLineEnd hne (by decide)).1.2
  have hlate : ((sseParser agreeing).run agreeing { maxPartialBytes := 65536 } lateLineEnd).2.isOk = false := by
    decide +kernel
  have hone : ((sseParser agreeing).run agreeing { maxPartialBytes := 65536 }
      [lateLineEnd.flatten]).2.isOk = true := by
    decide +kernel
  rw [hlate, hone] at hsame
  cases hsame

end SmolClaw.Providers
