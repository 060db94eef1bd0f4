/-
  The buffer of diagnostic events (`sc_observer_emit`, `src/contracts/contracts.c`; `buffer_emit`,
  `event_fields_json`, `sc_observer_event_buffer_export_json`, `src/observability/observer_impls.c`, where
  memory never runs out).

  1. **Events** — target, name, fields, and five texts and numbers that are looked up among the fields where
     the event leaves them empty (`event_field_value`: the first field with the key).  Every event passes
     `sc_observer_emit`, which replaces hidden values before an observer sees them.

  2. **Records** — an event is kept as its target, its name and one object of its redacted fields, followed by
     what the event says of itself, with what was looked up among it.

  3. **Buffer** — a full buffer drops its oldest record: it is a window (`push`) over the records.

  4. **Specification** — `Exact`: the last records are held, the others are counted; the export decodes to
     them; and events that differ only in hidden values have one export.

  5. **Result** — `exact_iff`.  A look-up returns the value as it is, and the record shows it under a key of
     its own; so what `sc_observer_emit` does in front of the buffer is what keeps the secrets.  A buffer that
     is larger than an array which the reader takes is exported nevertheless.
-/
import SmolClaw.Core.WholeNumber
import SmolClaw.Lib.Window
import SmolClaw.Net.Url
import SmolClaw.Observability.LogLines

namespace SmolClaw.Observer

open Lib.Window SmolClaw.Log SmolClaw.Net

/-! ## Events -/

/-- `sc_observer_event`, without its kind, which the buffer does not read. -/
structure ObserverEvent where
  target : Bytes
  name : Bytes
  fields : List LogField := []
  subsystem : Bytes := []
  operation : Bytes := []
  outcome : Bytes := []
  errorKey : Bytes := []
  redactedTarget : Bytes := []
  durationMs : Int := 0
  correlationId : Bytes := []
  turnId : Bytes := []
  traceId : Bytes := []
  spanId : Bytes := []

/-- `sc_event_family` -/
inductive EventFamily where
  | runtime
  | provider
  | tool
  | security
  | memory
  | gateway
  | channel
  | hardware
  | unknown
  deriving DecidableEq

/-- `sc_observer_event_family` -/
def observerEventFamily (eventName : Bytes) : EventFamily :=
  if str "turn." <+: eventName ∨ str "runtime." <+: eventName then .runtime
  else if str "provider." <+: eventName then .provider
  else if str "tool." <+: eventName then .tool
  else if str "security." <+: eventName ∨ str "audit." <+: eventName ∨ str "sandbox." <+: eventName ∨
    str "estop." <+: eventName then .security
  else if str "memory." <+: eventName then .memory
  else if str "gateway." <+: eventName ∨ str "websocket." <+: eventName then .gateway
  else if str "channel." <+: eventName then .channel
  else if str "hardware." <+: eventName ∨ str "peripheral." <+: eventName then .hardware
  else .unknown

/-- `sc_observer_event_family_name` -/
def observerEventFamilyName : EventFamily → Bytes
  | .runtime => str "runtime"
  | .provider => str "provider"
  | .tool => str "tool"
  | .security => str "security"
  | .memory => str "memory"
  | .gateway => str "gateway"
  | .channel => str "channel"
  | .hardware => str "hardware"
  | .unknown => str "unknown"

/-- The field that a look-up finds: the first one with the key. -/
def eventField (event : ObserverEvent) (key : String) : Option LogField :=
  event.fields.find? fun field => field.key == some (str key)

/-- A field as `sc_observer_emit` hands it on. -/
def sanitizedField (field : LogField) : LogField where
  key := field.key
  value := logRedactField field
  secret := field.secret || logRedactField field != field.value

/-- The event that `sc_observer_emit` hands on to the observer. -/
def sanitized (event : ObserverEvent) : ObserverEvent :=
  { event with fields := event.fields.map sanitizedField }

/-- `event_field_value` -/
def eventFieldValue (event : ObserverEvent) (key : String) : Bytes :=
  ((eventField event key).map (·.value)).getD []

/-- A text, or the next one where it is empty. -/
def orText (text next : Bytes) : Bytes := if text = [] then next else text

/-- `observer_event_subsystem` -/
def observerEventSubsystem (event : ObserverEvent) : Bytes :=
  orText (orText event.subsystem (eventFieldValue event "subsystem"))
    (observerEventFamilyName (observerEventFamily event.name))

/-- `observer_event_operation` -/
def observerEventOperation (event : ObserverEvent) : Bytes :=
  orText (orText event.operation (eventFieldValue event "operation")) event.name

/-- `observer_event_outcome` -/
def observerEventOutcome (event : ObserverEvent) : Bytes :=
  orText (orText event.outcome (eventFieldValue event "outcome")) (eventFieldValue event "status")

/-- `observer_event_error_key` -/
def observerEventErrorKey (event : ObserverEvent) : Bytes :=
  orText event.errorKey (eventFieldValue event "error_key")

/-- `observer_event_duration_ms`: `strtoll` on the first 31 bytes of the field. -/
def observerEventDurationMs (event : ObserverEvent) : Int :=
  let value := eventFieldValue event "duration_ms"
  if 0 < event.durationMs then event.durationMs
  else if value = [] then 0
  else ((strtol10 (value.take 31)).map Prod.fst).getD 0

/-! ## Records -/

theorem eventLetters_read :
    ([(chr '\n', chr 'n'), (chr '\r', chr 'r'), (chr '\t', chr 't')].all fun p =>
      simpleEscape p.2 == some p.1) = true := by decide

/-- What `append_json_string` knows. -/
def eventTable : EscapeTable :=
  ⟨[(chr '\n', chr 'n'), (chr '\r', chr 'r'), (chr '\t', chr 't')], true, eventLetters_read⟩

/-- `append_json_string` -/
def appendJsonString (text : Bytes) : Bytes := quoted eventTable.byte text

/-- The fields that `event_fields_json` adds. -/
def normalizedFields (event : ObserverEvent) : List LogField :=
  [⟨some (str "event_key"), event.name, false⟩,
    ⟨some (str "subsystem"), observerEventSubsystem event, false⟩,
    ⟨some (str "operation"), observerEventOperation event, false⟩,
    ⟨some (str "outcome"), observerEventOutcome event, false⟩,
    ⟨some (str "error_key"), observerEventErrorKey event, false⟩,
    ⟨some (str "redacted_target"), event.redactedTarget, false⟩,
    ⟨some (str "correlation_id"), event.correlationId, false⟩,
    ⟨some (str "turn_id"), event.turnId, false⟩,
    ⟨some (str "trace_id"), event.traceId, false⟩,
    ⟨some (str "span_id"), event.spanId, false⟩]

/-- A field as a member: its key and its redacted value. -/
def fieldMember (field : LogField) : Bytes × Bytes := (field.key.getD [], logRedactField field)

/-- The duration as a member. -/
def durationMember (event : ObserverEvent) : List (Bytes × Bytes) :=
  if 0 < observerEventDurationMs event then
    [(str "duration_ms", decimalInt (observerEventDurationMs event))]
  else []

/-- The members that `event_fields_json` writes in front of the duration. -/
def shownMembers (event : ObserverEvent) : List (Bytes × Bytes) :=
  event.fields.map fieldMember ++
    ((normalizedFields event).filter fun field => field.value ≠ []).map fieldMember

/-- The members that `event_fields_json` writes. -/
def eventMembers (event : ObserverEvent) : List (Bytes × Bytes) :=
  shownMembers event ++ durationMember event

/-- One member of `event_fields_json`. -/
def memberJson (m : Bytes × Bytes) : Bytes := appendJsonString m.1 ++ str ":" ++ appendJsonString m.2

/-- `event_fields_json` -/
def eventFieldsJson (event : ObserverEvent) : Bytes :=
  str "\x7b" ++ commaSeparated ((eventMembers event).map memberJson) ++ str "\x7d"

/-- `sc_event_buffer_record` -/
structure EventBufferRecord where
  target : Bytes
  name : Bytes
  fieldsJson : Bytes

/-- The record of an event. -/
def eventRecord (event : ObserverEvent) : EventBufferRecord :=
  ⟨event.target, event.name, eventFieldsJson event⟩

/-! ## The buffer -/

/-- `sc_event_buffer_observer` -/
structure EventBuffer where
  limit : Nat
  droppedEvents : Nat := 0
  events : List EventBufferRecord := []

/-- `sc_observer_event_buffer_new` -/
def eventBufferNew (limit : Nat) : EventBuffer := { limit := if limit = 0 then 64 else limit }

/-- `buffer_emit`: a full buffer drops its oldest record. -/
def bufferEmit (buffer : EventBuffer) (event : ObserverEvent) : EventBuffer :=
  let record := eventRecord event
  let buffer :=
    if buffer.events.length = buffer.limit then
      { buffer with events := buffer.events.tail, droppedEvents := buffer.droppedEvents + 1 }
    else buffer
  { buffer with events := buffer.events ++ [record] }

/-- A record of the export. -/
def recordJson (record : EventBufferRecord) : Bytes :=
  str "\x7b\"target\":" ++ appendJsonString record.target ++ str ",\"name\":" ++
    appendJsonString record.name ++ str ",\"fields\":" ++ record.fieldsJson ++ str "\x7d"

/-- `sc_observer_event_buffer_export_json` -/
def eventBufferExportJson (buffer : EventBuffer) : Bytes :=
  str "[" ++ commaSeparated (buffer.events.map recordJson) ++ str "]"

/-- `sc_observer_emit` on an event buffer. -/
def observerEmit (buffer : EventBuffer) (event : ObserverEvent) : EventBuffer :=
  bufferEmit buffer (sanitized event)

/-- The buffer behind a sequence of events. -/
def emitted (limit : Nat) (events : List ObserverEvent) : EventBuffer :=
  events.foldl observerEmit (eventBufferNew limit)

/-! ## Specification -/

/-- How many events a buffer holds at most. -/
def capacity (limit : Nat) : Nat := if limit = 0 then 64 else limit

/-- The events that are held: the last ones. -/
def retained (limit : Nat) (events : List ObserverEvent) : List ObserverEvent :=
  events.drop (events.length - min (capacity limit) events.length)

/-- The texts of an event are valid UTF-8. -/
structure ObserverEvent.Valid (event : ObserverEvent) : Prop where
  texts : ∀ text ∈ [event.target, event.name, event.subsystem, event.operation, event.outcome, event.errorKey,
    event.redactedTarget, event.correlationId, event.turnId, event.traceId, event.spanId],
    strIsValidUtf8 text = true
  fields : ∀ field ∈ event.fields,
    strIsValidUtf8 (field.key.getD []) = true ∧ strIsValidUtf8 field.value = true

/-- The tree of an event: its target, its name, and what was kept of its fields. -/
def ObserverEvent.tree (event : ObserverEvent) : Json :=
  .object [(str "target", .string event.target), (str "name", .string event.name),
    (str "fields", EscapeTable.flatTree (eventMembers event))]

/-- The same event, but perhaps for values that must not be seen. -/
structure Alike (event other : ObserverEvent) : Prop where
  fields : List.Forall₂ AlikeField event.fields other.fields
  same : other = { event with fields := other.fields }

/-- **The buffer is exact and keeps secrets.** -/
structure Exact (limit : Nat) (events : List ObserverEvent) : Prop where
  held : (emitted limit events).events = (retained limit events).map fun event => eventRecord (sanitized event)
  dropped : (emitted limit events).droppedEvents = events.length - min (capacity limit) events.length
  decodes : (∀ event ∈ events, event.Valid) →
    jsonParse (eventBufferExportJson (emitted limit events)) =
      .ok (.array ((retained limit events).map fun event => (sanitized event).tree))
  secrecy : ∀ others, List.Forall₂ Alike events others →
    eventBufferExportJson (emitted limit others) = eventBufferExportJson (emitted limit events)

/-! ## What is held -/

/-- A buffer with room for one event at least is a window. -/
theorem bufferEmit_events {buffer : EventBuffer} (hlimit : 0 < buffer.limit)
    (hlen : buffer.events.length ≤ buffer.limit) (event : ObserverEvent) :
    (bufferEmit buffer event).events = push buffer.limit buffer.events (eventRecord event) ∧
      (bufferEmit buffer event).limit = buffer.limit ∧
      (bufferEmit buffer event).droppedEvents + (bufferEmit buffer event).events.length =
        buffer.droppedEvents + buffer.events.length + 1 := by
  unfold bufferEmit
  by_cases hfull : buffer.events.length = buffer.limit
  · have hdrop : trimFront (buffer.limit - 1) buffer.events = buffer.events.tail := by
      rw [trimFront_eq_drop, show buffer.events.length - (buffer.limit - 1) = 1 by omega, List.drop_one]
    simp only [hfull, if_pos, push, hdrop, List.length_append, List.length_tail, List.length_singleton]
    exact ⟨trivial, trivial, by omega⟩
  · rw [if_neg hfull]
    simp only [push_of_lt (show buffer.events.length < buffer.limit by omega), List.length_append,
      List.length_singleton]
    exact ⟨trivial, trivial, by omega⟩

/-- **A run of events**: the window, and what was dropped of all. -/
theorem foldl_bufferEmit (events : List ObserverEvent) : ∀ buffer : EventBuffer, 0 < buffer.limit →
    buffer.events.length ≤ buffer.limit →
    (events.foldl bufferEmit buffer).events =
        (events.map eventRecord).foldl (push buffer.limit) buffer.events ∧
      (events.foldl bufferEmit buffer).droppedEvents + (events.foldl bufferEmit buffer).events.length =
        buffer.droppedEvents + buffer.events.length + events.length := by
  induction events with
  | nil => exact fun _ _ _ => ⟨rfl, rfl⟩
  | cons event events ih =>
    intro buffer hlimit hlen
    obtain ⟨hevents, hsame, hcount⟩ := bufferEmit_events hlimit hlen event
    have hnext : (bufferEmit buffer event).events.length ≤ (bufferEmit buffer event).limit := by
      rw [hevents, hsame]
      exact length_push_le hlimit _ _
    obtain ⟨hrest, hrestCount⟩ := ih (bufferEmit buffer event) (by rw [hsame]; exact hlimit) hnext
    rw [List.foldl_cons, List.map_cons, List.foldl_cons, hrest, hsame, hevents]
    refine ⟨rfl, ?_⟩
    rw [hrest, hsame, hevents] at hrestCount
    rw [hevents] at hcount
    rw [List.length_cons]
    omega

theorem capacity_pos (limit : Nat) : 0 < capacity limit := by
  unfold capacity
  split <;> omega

theorem retained_eq (limit : Nat) (events : List ObserverEvent) :
    retained limit events = trimFront (capacity limit) events := by
  rw [retained, trimFront_eq_drop]
  congr 1
  omega

theorem emitted_events (limit : Nat) (events : List ObserverEvent) :
    (emitted limit events).events = (retained limit events).map fun event => eventRecord (sanitized event) := by
  obtain ⟨hevents, -⟩ := foldl_bufferEmit (events.map sanitized) (eventBufferNew limit) (capacity_pos limit)
    (Nat.zero_le _)
  have hall := foldl_push (capacity_pos limit) ((events.map sanitized).map eventRecord) [] (Nat.zero_le _)
  rw [List.foldl_map] at hevents
  refine hevents.trans (hall.trans ?_)
  rw [retained_eq, trimFront_eq_drop, trimFront_eq_drop, List.nil_append, List.map_map, List.map_drop,
    List.length_map]
  rfl

theorem length_retained (limit : Nat) (events : List ObserverEvent) :
    (retained limit events).length = min (capacity limit) events.length := by
  rw [retained_eq, length_trimFront]

theorem emitted_dropped (limit : Nat) (events : List ObserverEvent) :
    (emitted limit events).droppedEvents = events.length - min (capacity limit) events.length := by
  obtain ⟨-, hcount⟩ := foldl_bufferEmit (events.map sanitized) (eventBufferNew limit) (capacity_pos limit)
    (Nat.zero_le _)
  have hlen : (emitted limit events).events.length = min (capacity limit) events.length := by
    rw [emitted_events, List.length_map, length_retained]
  rw [List.foldl_map, List.length_map] at hcount
  change (emitted limit events).droppedEvents + (emitted limit events).events.length =
    0 + 0 + events.length at hcount
  omega

theorem exportJson_eq (limit : Nat) (events : List ObserverEvent) :
    eventBufferExportJson (emitted limit events) =
      arrayText ((retained limit events).map fun event => recordJson (eventRecord (sanitized event))) := by
  rw [eventBufferExportJson, emitted_events, List.map_map]
  rfl

/-! ## Decoding -/

theorem eventTable_clean (s : Bytes) : eventTable.Clean s :=
  fun _ _ hraw => absurd hraw.2.1 (Bool.noConfusion)

/-- The members of a record. -/
def recordTexts (event : ObserverEvent) : List MemberText :=
  [eventTable.member (str "target") event.target, eventTable.member (str "name") event.name,
    { key := str "fields"
      text := eventTable.flatText (eventMembers event)
      value := EscapeTable.flatTree (eventMembers event) }]

theorem eventFieldsJson_eq (event : ObserverEvent) :
    eventFieldsJson event = eventTable.flatText (eventMembers event) := by
  have hmembers : (eventMembers event).map memberJson =
      ((eventMembers event).map fun m => eventTable.member m.1 m.2).map (·.render eventTable.byte) := by
    rw [List.map_map]
    refine List.map_congr_left fun m _ => ?_
    rw [memberJson, List.append_assoc]
    rfl
  rw [eventFieldsJson, hmembers, List.append_assoc]
  rfl

theorem recordJson_eq (event : ObserverEvent) :
    recordJson (eventRecord event) = objectText eventTable.byte (recordTexts event) := by
  have htarget : ∀ s : Bytes, str "\x7b\"target\":" ++ s =
      chr '\x7b' :: (quoted eventTable.byte (str "target") ++ chr ':' :: s) := fun _ => rfl
  have hname : ∀ s : Bytes, str ",\"name\":" ++ s =
      chr ',' :: (quoted eventTable.byte (str "name") ++ chr ':' :: s) := fun _ => rfl
  have hfields : ∀ s : Bytes, str ",\"fields\":" ++ s =
      chr ',' :: (quoted eventTable.byte (str "fields") ++ chr ':' :: s) := fun _ => rfl
  have hclose : str "\x7d" = [chr '\x7d'] := rfl
  have hjson : (eventRecord event).fieldsJson = eventTable.flatText (eventMembers event) :=
    eventFieldsJson_eq event
  rw [recordJson, hclose, hjson]
  simp only [List.append_assoc, htarget, hname, hfields]
  simp only [recordTexts, objectText, List.map_cons, List.map_nil, commaSeparated, MemberText.render,
    EscapeTable.member, appendJsonString, eventRecord, List.append_assoc, List.cons_append]

/-- The record of an event is read back as its tree. -/
theorem record_reads (event : ObserverEvent) :
    ReadsTo (parseValue jsonMaxDepth) (recordJson (eventRecord event)) event.tree := by
  have hflat : ∀ m ∈ (eventMembers event).map fun m => eventTable.member m.1 m.2,
      m.Reads eventTable.byte (parseValue (61 + 1)) := by
    intro m hm
    obtain ⟨member, -, rfl⟩ := List.mem_map.mp hm
    exact EscapeTable.member_reads (eventTable_clean _) (eventTable_clean _) 61
  have hfields : ReadsTo (parseValue (62 + 1)) (eventTable.flatText (eventMembers event))
      (EscapeTable.flatTree (eventMembers event)) := by
    have hread := ReadsTo.members hflat
    rwa [List.map_map] at hread
  have hmembers : ∀ m ∈ recordTexts event, m.Reads eventTable.byte (parseValue (62 + 1)) := by
    intro m hm
    rw [recordTexts, List.mem_cons, List.mem_cons, List.mem_singleton] at hm
    rcases hm with rfl | rfl | rfl
    · exact EscapeTable.member_reads (eventTable_clean _) (eventTable_clean _) 62
    · exact EscapeTable.member_reads (eventTable_clean _) (eventTable_clean _) 62
    · exact ⟨fun b hb => EscapeTable.byte_escapes (eventTable_clean (str "fields") b hb), hfields⟩
  rw [recordJson_eq]
  exact ReadsTo.members hmembers

/-! ## Valid texts -/

theorem orText_utf8 {text next : Bytes} (htext : strIsValidUtf8 text = true)
    (hnext : strIsValidUtf8 next = true) : strIsValidUtf8 (orText text next) = true := by
  unfold orText
  split
  · exact hnext
  · exact htext

theorem familyName_utf8 (family : EventFamily) : strIsValidUtf8 (observerEventFamilyName family) = true := by
  have hprintable : printable (observerEventFamilyName family) = true := by cases family <;> decide
  exact printable_utf8 hprintable

theorem decimalInt_utf8 {n : Int} (hn : 0 < n) : strIsValidUtf8 (decimalInt n) = true := by
  rw [decimalInt, if_neg (by omega)]
  refine utf8_ascii fun c hc => ?_
  have hdigit := decimal_isDigit n.natAbs c hc
  unfold isDigit at hdigit
  rw [Bool.and_eq_true, decide_eq_true_eq, decide_eq_true_eq] at hdigit
  exact UInt8.le_trans hdigit.2 (by decide)

theorem ObserverEvent.Valid.fieldValue {event : ObserverEvent} (h : event.Valid) (key : String) :
    strIsValidUtf8 (eventFieldValue event key) = true := by
  unfold eventFieldValue eventField
  cases hfind : event.fields.find? fun field => field.key == some (str key) with
  | none => rfl
  | some field => exact (h.fields field (List.mem_of_find?_eq_some hfind)).2

/-- The keys that are added. -/
def normalizedKeys : List Bytes :=
  [str "event_key", str "subsystem", str "operation", str "outcome", str "error_key", str "redacted_target",
    str "correlation_id", str "turn_id", str "trace_id", str "span_id"]

theorem normalizedKeys_printable : normalizedKeys.all printable = true := by decide

theorem normalizedFields_keys (event : ObserverEvent) :
    (normalizedFields event).map (fun field => field.key.getD []) = normalizedKeys := rfl

/-- What is handed on of a valid event is valid. -/
theorem ObserverEvent.Valid.sanitized {event : ObserverEvent} (h : event.Valid) : (sanitized event).Valid where
  texts := h.texts
  fields := by
    intro field hfield
    obtain ⟨origin, horigin, rfl⟩ := List.mem_map.mp hfield
    exact ⟨(h.fields origin horigin).1, redacted_utf8 (h.fields origin horigin).2⟩

/-- What is added to an event is as valid as the event. -/
theorem normalizedFields_utf8 {event : ObserverEvent} (h : event.Valid) : ∀ field ∈ normalizedFields event,
    strIsValidUtf8 (field.key.getD []) = true ∧ strIsValidUtf8 field.value = true := by
  have htexts := h.texts
  simp only [List.forall_mem_cons, List.not_mem_nil, false_implies, implies_true, and_true] at htexts
  obtain ⟨-, hname, hsubsystem, hoperation, houtcome, herror, hrest⟩ := htexts
  obtain ⟨hredacted, hcorrelation, hturn, htrace, hspan⟩ := hrest
  intro field hfield
  constructor
  · have hkey : field.key.getD [] ∈ normalizedKeys := normalizedFields_keys event ▸ List.mem_map_of_mem hfield
    exact printable_utf8 (List.all_eq_true.mp normalizedKeys_printable _ hkey)
  · simp only [normalizedFields, List.mem_cons, List.not_mem_nil, or_false] at hfield
    rcases hfield with rfl | rfl | rfl | rfl | rfl | rfl | rfl | rfl | rfl | rfl
    · exact hname
    · exact orText_utf8 (orText_utf8 hsubsystem (h.fieldValue "subsystem")) (familyName_utf8 _)
    · exact orText_utf8 (orText_utf8 hoperation (h.fieldValue "operation")) hname
    · exact orText_utf8 (orText_utf8 houtcome (h.fieldValue "outcome")) (h.fieldValue "status")
    · exact orText_utf8 herror (h.fieldValue "error_key")
    · exact hredacted
    · exact hcorrelation
    · exact hturn
    · exact htrace
    · exact hspan

theorem eventMembers_utf8 {event : ObserverEvent} (h : event.Valid) : ∀ m ∈ eventMembers event,
    strIsValidUtf8 m.1 = true ∧ strIsValidUtf8 m.2 = true := by
  intro m hm
  rw [eventMembers, shownMembers, List.mem_append, List.mem_append] at hm
  rcases hm with (hm | hm) | hm
  · obtain ⟨field, hfield, rfl⟩ := List.mem_map.mp hm
    exact ⟨(h.fields field hfield).1, redacted_utf8 (h.fields field hfield).2⟩
  · obtain ⟨field, hfield, rfl⟩ := List.mem_map.mp hm
    have hvalid := normalizedFields_utf8 h field (List.mem_filter.mp hfield).1
    exact ⟨hvalid.1, redacted_utf8 hvalid.2⟩
  · unfold durationMember at hm
    split at hm
    · next hpositive =>
      rw [List.mem_singleton.mp hm]
      exact ⟨printable_utf8 (show printable (str "duration_ms") = true by decide), decimalInt_utf8 hpositive⟩
    · exact absurd hm List.not_mem_nil

theorem record_utf8 {event : ObserverEvent} (h : event.Valid) :
    strIsValidUtf8 (recordJson (eventRecord event)) = true := by
  have hword : ∀ {w : Bytes}, strIsValidUtf8 w = true → strIsValidUtf8 (quoted eventTable.byte w) = true :=
    fun hw => EscapeTable.quoted_utf8 hw
  have hkey : ∀ {w : Bytes}, printable w = true → strIsValidUtf8 (quoted eventTable.byte w) = true :=
    fun hw => hword (printable_utf8 hw)
  have hflat : strIsValidUtf8 (eventTable.flatText (eventMembers event)) = true := by
    refine utf8_objectText fun m hm => ?_
    obtain ⟨member, hmember, rfl⟩ := List.mem_map.mp hm
    exact ⟨hword (eventMembers_utf8 h member hmember).1, hword (eventMembers_utf8 h member hmember).2⟩
  rw [recordJson_eq]
  refine utf8_objectText fun m hm => ?_
  rw [recordTexts, List.mem_cons, List.mem_cons, List.mem_singleton] at hm
  rcases hm with hm | hm | hm
  · rw [hm]
    exact ⟨hkey (show printable (str "target") = true by decide), hword (h.texts _ (by simp))⟩
  · rw [hm]
    exact ⟨hkey (show printable (str "name") = true by decide), hword (h.texts _ (by simp))⟩
  · rw [hm]
    exact ⟨hkey (show printable (str "fields") = true by decide), hflat⟩

theorem mem_retained {limit : Nat} {events : List ObserverEvent} {event : ObserverEvent}
    (h : event ∈ retained limit events) : event ∈ events := List.mem_of_mem_drop h

/-- **Valid texts are decoded** exactly while the records are as many as an array may have. -/
theorem export_decodes {limit : Nat} {events : List ObserverEvent} (h : ∀ event ∈ events, event.Valid) :
    jsonParse (eventBufferExportJson (emitted limit events)) =
        .ok (.array ((retained limit events).map fun event => (sanitized event).tree)) ↔
      min (capacity limit) events.length ≤ jsonMaxArrayItems := by
  rw [← length_retained]
  constructor
  · intro hparse
    have hbounded := (Json.bounded_array.mp (jsonParse_valid hparse).2).1
    rwa [List.length_map] at hbounded
  · intro hlen
    have hitems : ∀ t ∈ (retained limit events).map fun event =>
        (recordJson (eventRecord (sanitized event)), (sanitized event).tree),
        ReadsTo (parseValue jsonMaxDepth) t.1 t.2 := by
      intro t ht
      obtain ⟨event, -, rfl⟩ := List.mem_map.mp ht
      exact record_reads (sanitized event)
    have hutf8 : strIsValidUtf8 (eventBufferExportJson (emitted limit events)) = true := by
      rw [exportJson_eq]
      refine utf8_arrayText fun t ht => ?_
      obtain ⟨event, hevent, rfl⟩ := List.mem_map.mp ht
      exact record_utf8 (h event (mem_retained hevent)).sanitized
    have hparse := jsonParse_array hitems (by rwa [List.length_map])
    rw [List.map_map, List.map_map] at hparse
    rw [exportJson_eq] at hutf8 ⊢
    exact hparse hutf8

/-! ## Hidden values -/

variable {event other : ObserverEvent}

/-- Redacting twice is redacting once. -/
theorem redact_sanitized (field : LogField) : logRedactField (sanitizedField field) = logRedactField field := by
  by_cases hhidden : Hidden field
  · have hstill : Hidden (sanitizedField field) :=
      hhidden.imp (fun hsecret => by rw [sanitizedField, hsecret]; rfl) fun hkey => hkey
    rw [logRedactField_hidden hhidden, logRedactField_hidden hstill]
  · have hopen : sanitizedField field = field := by
      rw [sanitizedField, logRedactField_open hhidden, bne_self_eq_false, Bool.or_false]
    rw [hopen]

/-- A look-up sees keys and redacted values only. -/
theorem eventFieldValue_sanitized (event : ObserverEvent) (key : String) :
    eventFieldValue (sanitized event) key =
      (((event.fields.map fun field => (field.key, logRedactField field)).find? fun shown =>
        shown.1 == some (str key)).map Prod.snd).getD [] := by
  rw [eventFieldValue, eventField, sanitized, List.find?_map, List.find?_map, Option.map_map, Option.map_map]
  rfl

/-- **Alike events are recorded alike.** -/
theorem Alike.eventRecord (h : Alike event other) :
    eventRecord (sanitized other) = eventRecord (sanitized event) := by
  have hshown : (other.fields.map fun field => (field.key, logRedactField field)) =
      event.fields.map fun field => (field.key, logRedactField field) :=
    map_alike (fun f g halike => by rw [halike.key, halike.redact]) h.fields
  have hlook : ∀ key, eventFieldValue (sanitized other) key = eventFieldValue (sanitized event) key := by
    intro key
    rw [eventFieldValue_sanitized, eventFieldValue_sanitized, hshown]
  have hfields : (sanitized other).fields.map fieldMember = (sanitized event).fields.map fieldMember := by
    rw [sanitized, sanitized, List.map_map, List.map_map]
    refine map_alike (fun f g halike => ?_) h.fields
    rw [Function.comp_apply, Function.comp_apply, fieldMember, fieldMember, redact_sanitized, redact_sanitized,
      halike.redact, sanitizedField, sanitizedField, halike.key]
  -- what the event says of itself is the same
  have hsame : sanitized other = { sanitized event with fields := (sanitized other).fields } := by
    rw [sanitized, h.same]
    rfl
  have hnormalized : normalizedFields (sanitized other) = normalizedFields (sanitized event) := by
    unfold normalizedFields observerEventSubsystem observerEventOperation observerEventOutcome
      observerEventErrorKey
    simp only [hlook]
    rw [hsame]
  have hduration : observerEventDurationMs (sanitized other) = observerEventDurationMs (sanitized event) := by
    rw [observerEventDurationMs, observerEventDurationMs, hlook, hsame]
  have hmembers : eventMembers (sanitized other) = eventMembers (sanitized event) := by
    rw [eventMembers, eventMembers, shownMembers, shownMembers, durationMember, durationMember, hfields,
      hnormalized, hduration]
  rw [Observer.eventRecord, Observer.eventRecord, eventFieldsJson, eventFieldsJson, hmembers, hsame]

/-- **Sequences that differ in hidden values only have one export.** -/
theorem export_alike {limit : Nat} {events others : List ObserverEvent} (h : List.Forall₂ Alike events others) :
    eventBufferExportJson (emitted limit others) = eventBufferExportJson (emitted limit events) := by
  have hheld : List.Forall₂ Alike (retained limit events) (retained limit others) := by
    rw [retained, retained, h.length_eq]
    exact List.forall₂_drop _ h
  rw [exportJson_eq, exportJson_eq]
  generalize retained limit events = held, retained limit others = shown at hheld
  congr 1
  induction hheld with
  | nil => rfl
  | cons halike _ ih => rw [List.map_cons, List.map_cons, halike.eventRecord, ih]

/-! ## The result -/

/-- **The buffer always holds what it should and keeps secrets; its export** is exact exactly if it has no more
    records than the reader takes. -/
theorem exact_iff (limit : Nat) (events : List ObserverEvent) :
    Exact limit events ↔
      ((∀ event ∈ events, event.Valid) → min (capacity limit) events.length ≤ jsonMaxArrayItems) := by
  constructor
  · exact fun h hvalid => (export_decodes hvalid).mp (h.decodes hvalid)
  · intro hroom
    exact {
      held := emitted_events limit events
      dropped := emitted_dropped limit events
      decodes := fun hvalid => (export_decodes hvalid).mpr (hroom hvalid)
      secrecy := fun _ halike => export_alike halike }

/-- An event without fields. -/
def plainEvent : ObserverEvent := { target := str "tool", name := str "tool.call" }

theorem plainEvent_valid : plainEvent.Valid where
  texts := fun text htext => printable_utf8 (List.all_eq_true.mp (by decide) text htext)
  fields := fun _ hfield => absurd hfield List.not_mem_nil

/-- **One record more than the reader takes.** -/
theorem oversized_export : ¬ ∀ limit events, Exact limit events := by
  intro h
  obtain ⟨n, hn⟩ : ∃ n, n = 100001 := ⟨100001, rfl⟩
  have hvalid : ∀ event ∈ List.replicate n plainEvent, event.Valid := fun event hevent =>
    List.eq_of_mem_replicate hevent ▸ plainEvent_valid
  have hroom := (exact_iff n (List.replicate n plainEvent)).mp (h _ _) hvalid
  have hcapacity : capacity n = n := if_neg (by omega)
  have hmax : jsonMaxArrayItems = 100000 := rfl
  rw [List.length_replicate, hcapacity, hmax] at hroom
  omega

end SmolClaw.Observer
