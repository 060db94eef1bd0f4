/-
  The event buffer of the gateway and the event stream written from it
  (`src/gateway/gateway.c`: `gateway_observer_emit`, `gateway_events_push`, `handle_sse`).

  1. **Buffer** — an emitted event is stored as its name, its session and one `key=value` line for each
     field; the oldest events make room, so the buffer is always the last `max_sse_events` of those
     emitted (`observed_eq`).  An event comes as `sc_observer_emit` hands it on: the values of fields that
     are to be hidden are replaced already.

  2. **Stream** — every visible event becomes `event: NAME`, `data: DATA` and an empty line.

  3. **Decoding** — the data text is put behind ONE `data: `, so only its first line is data of the
     event.  Blocks decode independently (`decode_block_append`), a block whose data text is at most one
     line decodes to its event, and any other block LOSES data, which no later block makes up for
     (`weight_block_lt`).  Hence the exact conditions of `eventStream_iff`.
-/
import Mathlib.Data.List.DropRight
import SmolClaw.Gateway.Message
import SmolClaw.Observability.LogLines
import SmolClaw.Lib.EventStream

namespace SmolClaw.Gateway

open Lib.EventStream SmolClaw.Log

/-! ## Observed events -/

/-- `sc_observer_event`: what the gateway keeps of one. -/
structure ObserverEvent where
  name : Bytes
  fields : List LogField
  deriving DecidableEq, Repr

/-- `gateway_event` -/
structure GatewayEvent where
  name : Bytes
  data : Bytes
  sessionId : Bytes
  deriving DecidableEq, Repr

/-- `event_field_session_id`: the value of the first field with that key, as it is. -/
def eventFieldSessionId (event : ObserverEvent) : Bytes :=
  ((event.fields.find? fun f => f.key == some (str "session_id")).map (·.value)).getD []

/-- The line of a field, without its LF. -/
def fieldLine (field : LogField) : Bytes := field.key.getD [] ++ chr '=' :: logRedactField field

/-- The data text of an event: one line for each field. -/
def eventData (event : ObserverEvent) : Bytes := event.fields.flatMap fun f => fieldLine f ++ [chr '\n']

/-- What `gateway_observer_emit` stores. -/
def storedEvent (event : ObserverEvent) : GatewayEvent :=
  ⟨event.name, eventData event, eventFieldSessionId event⟩

/-- The loop of `gateway_events_push`: the oldest event goes while the buffer is full. -/
def evictOldest (maxSseEvents : Nat) : List GatewayEvent → List GatewayEvent
  | [] => []
  | oldest :: events =>
    if maxSseEvents ≤ events.length + 1 then evictOldest maxSseEvents events else oldest :: events

/-- `gateway_events_push` -/
def gatewayEventsPush (maxSseEvents : Nat) (events : List GatewayEvent) (event : GatewayEvent) :
    List GatewayEvent :=
  if maxSseEvents = 0 then events else evictOldest maxSseEvents events ++ [event]

/-- `gateway_observer_emit` -/
def gatewayObserverEmit (maxSseEvents : Nat) (events : List GatewayEvent) (event : ObserverEvent) :
    List GatewayEvent :=
  gatewayEventsPush maxSseEvents events (storedEvent event)

/-- The buffer after a sequence of emitted events. -/
def observed (maxSseEvents : Nat) (emitted : List ObserverEvent) : List GatewayEvent :=
  emitted.foldl (gatewayObserverEmit maxSseEvents) []

theorem evictOldest_eq {maxSseEvents : Nat} (hmax : 0 < maxSseEvents) (events : List GatewayEvent) :
    evictOldest maxSseEvents events = events.rtake (maxSseEvents - 1) := by
  induction events with
  | nil => rw [evictOldest, List.rtake_nil]
  | cons e events ih =>
    rw [evictOldest]
    split
    · rw [ih, List.rtake, List.rtake, List.length_cons,
        show events.length + 1 - (maxSseEvents - 1) = events.length - (maxSseEvents - 1) + 1 by omega,
        List.drop_succ_cons]
    · rw [List.rtake, List.length_cons, show events.length + 1 - (maxSseEvents - 1) = 0 by omega,
        List.drop_zero]

/-- One more event keeps the buffer the last ones of those emitted. -/
theorem gatewayEventsPush_rtake (maxSseEvents : Nat) (all : List GatewayEvent) (event : GatewayEvent) :
    gatewayEventsPush maxSseEvents (all.rtake maxSseEvents) event =
      (all ++ [event]).rtake maxSseEvents := by
  rw [gatewayEventsPush]
  split
  · next h => simp [h]
  · next h =>
    have hlength : (all.rtake maxSseEvents).length = min maxSseEvents all.length := by
      rw [List.rtake, List.length_drop]
      omega
    rw [evictOldest_eq (by omega), List.rtake, hlength, List.rtake, List.rtake, List.drop_drop,
      List.length_append, List.length_singleton, List.drop_append_of_le_length (by omega)]
    congr 2
    omega

/-- **The buffer holds the last `max_sse_events` emitted events**, in emission order. -/
theorem observed_eq (maxSseEvents : Nat) (emitted : List ObserverEvent) :
    observed maxSseEvents emitted = (emitted.rtake maxSseEvents).map storedEvent := by
  have hfold : ∀ (rest done : List ObserverEvent),
      rest.foldl (gatewayObserverEmit maxSseEvents) ((done.map storedEvent).rtake maxSseEvents) =
        ((done ++ rest).map storedEvent).rtake maxSseEvents := by
    intro rest
    induction rest with
    | nil => simp
    | cons e rest ih =>
      intro done
      have hpush := gatewayEventsPush_rtake maxSseEvents (done.map storedEvent) (storedEvent e)
      rw [List.foldl_cons, gatewayObserverEmit, hpush, ← List.map_singleton, ← List.map_append, ih,
        List.append_assoc, List.singleton_append]
  have h := hfold emitted []
  rw [List.map_nil, List.rtake_nil, List.nil_append] at h
  rw [observed, h, List.rtake, List.rtake, List.length_map, List.map_drop]

/-! ## The stream -/

/-- `event_visible_to_session` -/
def eventVisibleToSession (event : GatewayEvent) (sessionId : Bytes) : Bool :=
  sessionId.isEmpty || event.sessionId.isEmpty || event.sessionId == sessionId

/-- What `handle_sse` writes for one event. -/
def eventBlock (event : GatewayEvent) : Bytes :=
  str "event: " ++ event.name ++ str "\ndata: " ++ event.data ++ str "\n\n"

/-- `handle_sse` -/
def handleSse (events : List GatewayEvent) (sessionId : Bytes) : GatewayResponse :=
  responseSetTyped 200 ((events.filter (eventVisibleToSession · sessionId)).flatMap eventBlock)
    (str "text/event-stream")

/-! ## Decoding the stream -/

/-- The events as a reader of the stream sees them; `text` is what counts of the data text. -/
def asDecoded (text : Bytes → Bytes) (e : GatewayEvent) : Event := ⟨e.name, text e.data⟩

/-- The two lines a block starts with. -/
theorem lines_block {e : GatewayEvent} (hname : OneLine e.name) (rest : Bytes) :
    lines (eventBlock e ++ rest) =
      (str "event: " ++ e.name) :: lines (str "data: " ++ (e.data ++ (str "\n\n" ++ rest))) := by
  have hblock : eventBlock e ++ rest =
      (str "event: " ++ e.name) ++ lf :: (str "data: " ++ (e.data ++ (str "\n\n" ++ rest))) := by
    simp only [eventBlock, show str "\ndata: " = lf :: str "data: " from rfl, List.append_assoc,
      List.cons_append]
  have hline : OneLine (str "event: " ++ e.name) := OneLine.append (by decide) hname
  rw [hblock, lines_cons hline]

/-- A data text is empty or ends in the LF of its last field. -/
def LfEnded (data : Bytes) : Prop := data = [] ∨ data = data.dropLast ++ [lf]

/-- **A block whose data text is at most one line decodes to its event**, whatever follows. -/
theorem decode_block_append {e : GatewayEvent} (hname : OneLine e.name) (hended : LfEnded e.data)
    (hdata : OneLine e.data.dropLast) (rest : Bytes) :
    decode (eventBlock e ++ rest) = asDecoded List.dropLast e :: decode rest := by
  have hfieldName : field (str "event: " ++ e.name) = (eventName, e.name) :=
    field_cons eventName (by decide) e.name
  have hfieldData : field (str "data: " ++ e.data.dropLast) = (dataName, e.data.dropLast) :=
    field_cons dataName (by decide) e.data.dropLast
  have hline : OneLine (str "data: " ++ e.data.dropLast) := OneLine.append (by decide) hdata
  -- the data line, and then one empty line or two
  have hlines : ∃ more, (more = [] ∨ more = [[]]) ∧
      lines (str "data: " ++ (e.data ++ (str "\n\n" ++ rest))) =
        (str "data: " ++ e.data.dropLast) :: [] :: (more ++ lines rest) := by
    have hempty : ∀ l, lines (lf :: l) = [] :: lines l := fun l => lines_cons OneLine.nil l
    rcases hended with hnil | hlf
    · refine ⟨[], Or.inl rfl, ?_⟩
      rw [hnil] at hline ⊢
      rw [show str "data: " ++ (([] : Bytes) ++ (str "\n\n" ++ rest)) =
        (str "data: " ++ ([] : Bytes).dropLast) ++ lf :: lf :: rest from rfl, lines_cons hline, hempty]
      rfl
    · refine ⟨[[]], Or.inr rfl, ?_⟩
      have htext : str "data: " ++ (e.data ++ (str "\n\n" ++ rest)) =
          (str "data: " ++ e.data.dropLast) ++ lf :: lf :: lf :: rest := by
        rw [hlf, List.dropLast_concat, List.append_assoc, List.append_assoc]
        rfl
      rw [htext, lines_cons hline, hempty, hempty]
      rfl
  obtain ⟨more, hmore, hlines⟩ := hlines
  have hdispatch : decode (eventBlock e ++ rest) =
      asDecoded List.dropLast e :: decodeLines .none (more ++ lines rest) := by
    rw [decode, lines_block hname, hlines, decodeLines, if_neg (by simp [str]), decodeLines,
      if_neg (by simp [str]), decodeLines, if_pos rfl]
    have hpending : (Pending.none.take (str "event: " ++ e.name)).take (str "data: " ++ e.data.dropLast) =
        ⟨e.name, e.data.dropLast ++ [lf]⟩ := by
      simp only [Pending.take, hfieldName, hfieldData, if_true, Pending.none, List.nil_append,
        if_neg (show ¬ dataName = eventName by decide)]
    rw [hpending, Pending.dispatch, if_neg (by simp), List.dropLast_concat]
    rfl
  rw [hdispatch]
  rcases hmore with rfl | rfl
  · rfl
  · rw [List.singleton_append, decodeLines, if_pos rfl]
    rfl

/-- What the lines of a block add to the data of events. -/
def blockGain (e : GatewayEvent) : Nat := ((lines (eventBlock e)).map gain).sum

/-- The lines behind the event line. -/
theorem blockGain_eq {e : GatewayEvent} (hname : OneLine e.name) :
    blockGain e = ((lines (str "data: " ++ (e.data ++ str "\n\n"))).map gain).sum := by
  have hfieldName : field (str "event: " ++ e.name) = (eventName, e.name) :=
    field_cons eventName (by decide) e.name
  have hgain : gain (str "event: " ++ e.name) = 0 := by
    rw [gain, hfieldName]
    exact if_neg (show ¬ eventName = dataName by decide)
  have hlines := lines_block hname []
  rw [List.append_nil, List.append_nil] at hlines
  rw [blockGain, hlines, List.map_cons, List.sum_cons, hgain, Nat.zero_add]

/-- A block adds at most its data text. -/
theorem blockGain_le {e : GatewayEvent} (hname : OneLine e.name) (hended : LfEnded e.data) :
    blockGain e ≤ e.data.dropLast.length + 1 ∧
      (¬ OneLine e.data.dropLast → blockGain e ≤ e.data.dropLast.length) := by
  -- what stands behind the data text are line ends only
  obtain ⟨tail, htail, htext⟩ : ∃ tail : Bytes, (tail.countP fun c => c ≠ lf ∧ c ≠ cr) = 0 ∧
      str "data: " ++ (e.data ++ str "\n\n") = str "data: " ++ e.data.dropLast ++ lf :: tail := by
    rcases hended with hnil | hlf
    · exact ⟨[lf], by decide, by rw [hnil]; rfl⟩
    · refine ⟨[lf, lf], by decide, ?_⟩
      conv_lhs => rw [hlf]
      rw [List.append_assoc, List.append_assoc]
      rfl
  have hgain : ∀ l, OneLine l → gain (str "data: " ++ l) = l.length + 1 := by
    intro l _
    have hfield : field (str "data: " ++ l) = (dataName, l) :=
      field_cons dataName (by decide) l
    rw [gain, hfield, if_pos rfl]
  rw [blockGain_eq hname, htext]
  by_cases hone : OneLine e.data.dropLast
  · have hline : OneLine (str "data: " ++ e.data.dropLast) := OneLine.append (by decide) hone
    have hrest := sum_gain_linesFrom_le tail false
    rw [lines_cons hline, List.map_cons, List.sum_cons, hgain _ hone]
    rw [htail] at hrest
    refine ⟨?_, fun h => absurd hone h⟩
    have : ((lines tail).map gain).sum = 0 := Nat.le_zero.mp hrest
    omega
  · obtain ⟨a, c, more, hcut, ha, hc⟩ := exists_line_end hone
    have hline : OneLine (str "data: " ++ a) := OneLine.append (by decide) ha
    obtain ⟨afterCr, hlines⟩ := lines_cons_end hline hc (more ++ lf :: tail)
    have hrest := sum_gain_linesFrom_le (more ++ lf :: tail) afterCr
    have hmore : (more.countP fun c => c ≠ lf ∧ c ≠ cr) ≤ more.length := List.countP_le_length
    rw [hcut, show str "data: " ++ (a ++ c :: more) ++ lf :: tail =
      str "data: " ++ a ++ c :: (more ++ lf :: tail) by simp, hlines, List.map_cons, List.sum_cons,
      hgain a ha]
    rw [List.countP_append, List.countP_cons, htail, if_neg (by decide)] at hrest
    simp only [List.length_append, List.length_cons]
    omega

/-! ## Faithfulness -/

section Faithful

variable (maxSseEvents : Nat) (emitted : List ObserverEvent) (sessionId : Bytes)

/-- An event without a session, or of the session asked for; every event when none is asked for. -/
def belongsTo (event : ObserverEvent) : Bool :=
  sessionId = [] || eventFieldSessionId event = [] || eventFieldSessionId event = sessionId

/-- The events a reader is owed: those among the last `max_sse_events` that belong to the session. -/
def lastVisible : List ObserverEvent := (emitted.rtake maxSseEvents).filter (belongsTo sessionId)

/-- The body `handle_sse` produces after the emitted events. -/
def sseBody : Bytes := (handleSse (observed maxSseEvents emitted) sessionId).body

/-- The body decodes to the visible events, each with its name and `text` of its data text. -/
def Faithful (text : Bytes → Bytes) : Prop :=
  decode (sseBody maxSseEvents emitted sessionId) =
    (lastVisible maxSseEvents emitted sessionId).map fun e => ⟨e.name, text (eventData e)⟩

end Faithful

theorem sseBody_eq (maxSseEvents : Nat) (emitted : List ObserverEvent) (sessionId : Bytes) :
    sseBody maxSseEvents emitted sessionId =
      ((lastVisible maxSseEvents emitted sessionId).map storedEvent).flatMap eventBlock := by
  have hvisible : ∀ e, eventVisibleToSession (storedEvent e) sessionId = belongsTo sessionId e := by
    intro e
    rw [Bool.eq_iff_iff]
    simp [eventVisibleToSession, storedEvent, belongsTo]
  have hfilter : ((emitted.rtake maxSseEvents).map storedEvent).filter
      (eventVisibleToSession · sessionId) = (lastVisible maxSseEvents emitted sessionId).map storedEvent := by
    rw [List.filter_map, lastVisible]
    exact congrArg (List.map storedEvent) (List.filter_congr fun e _ => hvisible e)
  show ((observed maxSseEvents emitted).filter (eventVisibleToSession · sessionId)).flatMap eventBlock = _
  rw [observed_eq, hfilter]

/-- A data text ends in the LF of its last field, if there is one. -/
theorem lfEnded_eventData (event : ObserverEvent) : LfEnded (eventData event) := by
  rcases List.eq_nil_or_concat event.fields with hnil | ⟨fields, f, hlast⟩
  · exact Or.inl (by rw [eventData, hnil]; rfl)
  · refine Or.inr ?_
    have hend : eventData event = (fields.flatMap (fun f => fieldLine f ++ [lf]) ++ fieldLine f) ++ [lf] := by
      rw [eventData, hlast, List.concat_eq_append, List.flatMap_append, List.append_assoc,
        List.flatMap_singleton]
      rfl
    rw [hend, List.dropLast_concat]

theorem eventData_eq_nil (event : ObserverEvent) : eventData event = [] ↔ event.fields = [] := by
  constructor
  · intro h
    cases hfields : event.fields with
    | nil => rfl
    | cons f fields =>
      rw [eventData, hfields, List.flatMap_cons] at h
      exact absurd (List.append_eq_nil_iff.mp (List.append_eq_nil_iff.mp h).1).2 (List.cons_ne_nil _ _)
  · intro h
    rw [eventData, h]
    rfl

/-- The data text is one line: at most one field, and no line break in it. -/
theorem oneLine_eventData_iff (event : ObserverEvent) :
    OneLine (eventData event).dropLast ↔
      ∀ f ∈ event.fields, event.fields = [f] ∧ OneLine (fieldLine f) := by
  have hdata : eventData event = event.fields.flatMap fun f => fieldLine f ++ [lf] := rfl
  rw [hdata]
  rcases event.fields with - | ⟨f, - | ⟨g, fields⟩⟩
  · simp [OneLine.nil]
  · simp
  · -- the first field's line end lies inside the text
    have hinner : lf ∈ ((f :: g :: fields).flatMap fun f => fieldLine f ++ [lf]).dropLast := by
      rw [List.flatMap_cons, List.dropLast_append_of_ne_nil (by simp)]
      exact List.mem_append_left _ (List.mem_append_right _ List.mem_cons_self)
    refine iff_of_false (fun h => h.1 hinner) fun h => ?_
    have hshort := (h f List.mem_cons_self).1
    simp at hshort

/-- **Data that is lost is missing**: the decoded body has no room for the texts when a block loses
    some of its own. -/
theorem decode_ne_of_lost {events : List GatewayEvent} (text : Bytes → Bytes)
    (hle : ∀ e ∈ events, blockGain e ≤ (text e.data).length + 1)
    (hlost : ∃ e ∈ events, blockGain e < (text e.data).length + 1) :
    decode (events.flatMap eventBlock) ≠ events.map (asDecoded text) := by
  intro heq
  have hlines : ((lines (events.flatMap eventBlock)).map gain).sum = (events.map blockGain).sum := by
    clear heq hle hlost
    induction events with
    | nil => rfl
    | cons e events ih =>
      have hsplit : ∀ rest, lines (eventBlock e ++ rest) = lines (eventBlock e) ++ lines rest := by
        intro rest
        have hblock : ∃ s, eventBlock e = s ++ [lf] :=
          ⟨str "event: " ++ e.name ++ str "\ndata: " ++ e.data ++ [lf], by
            rw [eventBlock, List.append_assoc _ [lf]]; rfl⟩
        obtain ⟨s, hs⟩ := hblock
        rw [hs, List.append_assoc, List.singleton_append]
        exact linesFrom_append_lf rest s [] false
      rw [List.flatMap_cons, hsplit, List.map_append, List.sum_append, ih, List.map_cons, List.sum_cons]
      rfl
  have hweight : weight (decode (events.flatMap eventBlock)) ≤ (events.map blockGain).sum := by
    have h := weight_decodeLines (lines (events.flatMap eventBlock)) .none
    rw [hlines] at h
    exact h.trans_eq (Nat.zero_add _)
  have hsum : (events.map blockGain).sum < (events.map fun e => (text e.data).length + 1).sum :=
    List.sum_lt_sum _ _ hle hlost
  have hfull : weight (events.map (asDecoded text)) =
      (events.map fun e => (text e.data).length + 1).sum := by
    rw [weight, List.map_map]
    rfl
  rw [heq, hfull] at hweight
  omega

/-- **When the stream is faithful.**  Each data text ends in an LF that no decoder returns, so the body
    decodes to the FULL data texts only when no visible event has a field.  Without that last LF it
    decodes to them exactly when every visible event has at most one field, written on one line. -/
theorem eventStream_iff (maxSseEvents : Nat) (emitted : List ObserverEvent) (sessionId : Bytes)
    (hnames : ∀ e ∈ emitted, OneLine e.name) :
    (Faithful maxSseEvents emitted sessionId id ↔
      ∀ e ∈ lastVisible maxSseEvents emitted sessionId, e.fields = []) ∧
    (Faithful maxSseEvents emitted sessionId List.dropLast ↔
      ∀ e ∈ lastVisible maxSseEvents emitted sessionId,
        ∀ f ∈ e.fields, e.fields = [f] ∧ OneLine (fieldLine f)) := by
  have hvisible : ∀ e ∈ lastVisible maxSseEvents emitted sessionId, OneLine e.name := by
    intro e he
    have hlast : e ∈ emitted.rtake maxSseEvents := (List.mem_filter.mp he).1
    exact hnames e (List.mem_of_mem_drop hlast)
  have hfaithful : ∀ text, Faithful maxSseEvents emitted sessionId text ↔
      decode (((lastVisible maxSseEvents emitted sessionId).map storedEvent).flatMap eventBlock) =
        ((lastVisible maxSseEvents emitted sessionId).map storedEvent).map (asDecoded text) := by
    intro text
    rw [Faithful, sseBody_eq, List.map_map]
    rfl
  simp only [hfaithful]
  generalize lastVisible maxSseEvents emitted sessionId = events at hvisible ⊢
  -- blocks of one line decode to their events
  have hgood : (∀ e ∈ events, OneLine (eventData e).dropLast) →
      decode ((events.map storedEvent).flatMap eventBlock) =
        (events.map storedEvent).map (asDecoded List.dropLast) := by
    induction events with
    | nil => intro _; rfl
    | cons e events ih =>
      intro hone
      rw [List.map_cons, List.flatMap_cons, decode_block_append (hvisible e List.mem_cons_self)
        (lfEnded_eventData e) (hone e List.mem_cons_self), List.map_cons,
        ih (fun e he => hvisible e (List.mem_cons_of_mem _ he))
          fun e he => hone e (List.mem_cons_of_mem _ he)]
  have hle : ∀ e ∈ events, blockGain (storedEvent e) ≤ (eventData e).dropLast.length + 1 :=
    fun e he => (blockGain_le (hvisible e he) (lfEnded_eventData e)).1
  have hdrop : ∀ e : ObserverEvent, (eventData e).dropLast.length ≤ (eventData e).length := by
    intro e
    rw [List.length_dropLast]
    omega
  constructor
  · constructor
    · -- a field's line end is in the text and not in the decoded data
      intro heq
      by_contra hfield
      obtain ⟨e, hfield⟩ := not_forall.mp hfield
      obtain ⟨he, hne⟩ := Classical.not_imp.mp hfield
      have hlonger : (eventData e).dropLast.length < (eventData e).length := by
        have hpos : 0 < (eventData e).length :=
          List.length_pos_of_ne_nil fun h => hne ((eventData_eq_nil e).mp h)
        rw [List.length_dropLast]
        omega
      refine decode_ne_of_lost id ?_ ?_ heq
      · intro s hs
        obtain ⟨g, hg, rfl⟩ := List.mem_map.mp hs
        exact (hle g hg).trans (Nat.succ_le_succ (hdrop g))
      · exact ⟨storedEvent e, List.mem_map_of_mem he, (hle e he).trans_lt (Nat.succ_lt_succ hlonger)⟩
    · intro hnil
      have hdata : ∀ e ∈ events, eventData e = [] := fun e he => (eventData_eq_nil e).mpr (hnil e he)
      rw [hgood fun e he => by rw [hdata e he]; exact OneLine.nil, List.map_map, List.map_map]
      refine List.map_congr_left fun e he => ?_
      show Event.mk e.name (eventData e).dropLast = ⟨e.name, eventData e⟩
      rw [hdata e he]
      rfl
  · have hcond : (∀ e ∈ events, ∀ f ∈ e.fields, e.fields = [f] ∧ OneLine (fieldLine f)) ↔
        ∀ e ∈ events, OneLine (eventData e).dropLast :=
      forall₂_congr fun e _ => (oneLine_eventData_iff e).symm
    rw [hcond]
    refine ⟨fun heq => ?_, hgood⟩
    by_contra hbroken
    obtain ⟨e, hbroken⟩ := not_forall.mp hbroken
    obtain ⟨he, hne⟩ := Classical.not_imp.mp hbroken
    refine decode_ne_of_lost List.dropLast ?_ ?_ heq
    · intro s hs
      obtain ⟨g, hg, rfl⟩ := List.mem_map.mp hs
      exact hle g hg
    · exact ⟨storedEvent e, List.mem_map_of_mem he,
        Nat.lt_succ_of_le ((blockGain_le (hvisible e he) (lfEnded_eventData e)).2 hne)⟩

/-- An event with one field, and with two. -/
def turnStarted : ObserverEvent := ⟨str "turn.started", [⟨some (str "model"), str "m", false⟩]⟩
def turnEnded : ObserverEvent :=
  ⟨str "turn.ended", [⟨some (str "ok"), str "yes", false⟩, ⟨some (str "steps"), str "2", false⟩]⟩

/-- The conditions on a stream of one event with one field. -/
theorem eventStream_started :
    (Faithful 128 [turnStarted] [] id ↔
      ∀ e ∈ lastVisible 128 [turnStarted] [], e.fields = []) ∧
    (Faithful 128 [turnStarted] [] List.dropLast ↔
      ∀ e ∈ lastVisible 128 [turnStarted] [], ∀ f ∈ e.fields, e.fields = [f] ∧ OneLine (fieldLine f)) :=
  eventStream_iff 128 [turnStarted] [] (by decide)

/-- **The second field of an event is lost**, with or without the last LF of the data text. -/
theorem second_field_lost :
    (∀ e ∈ [turnEnded], OneLine e.name) ∧
      ¬ Faithful 128 [turnEnded] [] id ∧ ¬ Faithful 128 [turnEnded] [] List.dropLast ∧
      decode (sseBody 128 [turnEnded] []) = [⟨str "turn.ended", str "ok=yes"⟩] := by
  unfold Faithful
  decide

end SmolClaw.Gateway
