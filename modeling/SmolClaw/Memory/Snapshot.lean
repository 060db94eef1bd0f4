/-
  Snapshots of a memory store: `sc_memory_store_export_snapshot` writes them, byte by byte, and
  `sc_memory_store_import_snapshot` reads them back through `sc_json_parse`
  (`src/memory/memory_common.c`, `src/memory/memory_hydrate.c`).

  1. **Writing** — an array of objects with eleven members each.  Strings are escaped by
     `jsonEscapeByte`; an entry that is redacted or deleted is written with the content it HAS, any
     other entry with `[REDACTED]` unless the raw content is asked for.

  2. **Reading** — each object becomes a record (`hydrateRecord`) and goes through `storePut`.

  3. **Result** — `import_export`: a raw snapshot of everything, imported into an empty store, gives
     back every entry (`asRecord` is the part a snapshot keeps), and importing it AGAIN changes nothing.
-/
import Mathlib.Algebra.GroupWithZero.Nat
import SmolClaw.Json.Serialize
import SmolClaw.Memory.Store

namespace SmolClaw.Memory

open Lib.Run Lib.Table

/-! ## Writing -/

/-- What `sc_memory_append_json_string` writes for one byte. -/
def jsonEscapeByte (b : UInt8) : Bytes :=
  if b = chr '"' ∨ b = chr '\\' then [chr '\\', b]
  else if b = chr '\n' then [chr '\\', chr 'n']
  else if b = chr '\r' then [chr '\\', chr 'r']
  else if b = chr '\t' then [chr '\\', chr 't']
  else if b < 0x20 then chr '\\' :: chr 'u' :: chr '0' :: chr '0' :: hexByte b
  else [b]

/-- `sc_memory_append_json_string` -/
def appendJsonString (value : Bytes) : Bytes := quoted jsonEscapeByte value

/-- `sc_memory_export_options`; the two `include_` flags beside it are read nowhere. -/
structure ExportOptions where
  includeRawSensitiveContent : Bool

/-- A member of an entry's object that holds a string. -/
def stringMember (key : String) (value : Bytes) : MemberText :=
  { key := str key, text := appendJsonString value, value := .string value }

/-- The last member: `,"redaction_state":%d` -/
def stateMember (state : RedactionState) : MemberText :=
  { key := str "redaction_state", text := decimalInt state.toInt
    value := .number ((strtod (decimalInt state.toInt)).getD ⟨0⟩) }

/-- The `raw` flag of `sc_memory_append_entry_json`. -/
def isRaw (options : Option ExportOptions) : Bool :=
  match options with
  | some o => o.includeRawSensitiveContent
  | none => false

/-- The content `sc_memory_append_entry_json` writes: a redacted or deleted entry always shows what
    it holds. -/
def shownContent (options : Option ExportOptions) (e : MemoryEntry) : Bytes :=
  if e.redactionState ≠ .none then e.content
  else if isRaw options then e.content
  else redactedText

/-- The metadata it writes. -/
def shownMetadata (options : Option ExportOptions) (e : MemoryEntry) : Bytes :=
  if e.redactionState ≠ .none then e.metadataJson
  else if isRaw options then e.metadataJson
  else str "\x7b\x7d"

/-- The members `sc_memory_append_entry_json` writes, in order, for given content and metadata. -/
def entryMembers (e : MemoryEntry) (content metadata : Bytes) : List MemberText :=
  [ stringMember "id" e.id,
    stringMember "namespace" e.namespaceName,
    stringMember "session_id" e.sessionId,
    stringMember "category" e.category,
    stringMember "key" e.key,
    stringMember "content" content,
    stringMember "metadata" metadata,
    stringMember "source" e.source,
    stringMember "content_ref" e.contentRef,
    stringMember "superseded_by" e.supersededById,
    stateMember e.redactionState ]

/-- `sc_memory_append_entry_json` -/
def appendEntryJson (options : Option ExportOptions) (e : MemoryEntry) : Bytes :=
  objectText jsonEscapeByte (entryMembers e (shownContent options e) (shownMetadata options e))

/-- The text of a snapshot: the entries between brackets, a comma before every one but the first. -/
def snapshotText (options : Option ExportOptions) (entries : List MemoryEntry) : Bytes :=
  arrayText (entries.map (appendEntryJson options))

/-- `sc_memory_store_export_snapshot` -/
def storeExportSnapshot (store : MemoryStore) (query : Option MemoryQuery)
    (options : Option ExportOptions) : Res Bytes := do
  let result ← storeSearch store query
  .ok (snapshotText options result)

/-! ## Reading -/

/-- `SC_MEMORY_IMPORT_MAX_BYTES` -/
def importMaxBytes : Nat := 4194304
/-- `SC_MEMORY_IMPORT_MAX_RECORDS` -/
def importMaxRecords : Nat := 10000

/-- `sc_memory_import_options` -/
structure ImportOptions where
  maxBytes : Nat := 0
  maxRecords : Nat := 0
  allowSecrets : Bool := false

/-- A string member, `none` when it is missing or no string. -/
def textMember (object : Json) (key : String) : Option Bytes :=
  Json.asStr (object.objectGet (str key))

/-- The record `sc_memory_hydrate_store_entry` builds from an object. -/
def hydrateRecord (object : Json) (allowSecrets : Bool) : Res MemoryRecord :=
  match object with
  | .object _ =>
      match textMember object "namespace" with
      | none => Status.parse "sc.memory.hydrate_missing_namespace"
      | some namespaceName =>
          match textMember object "key" with
          | none => Status.parse "sc.memory.hydrate_missing_key"
          | some key =>
              match textMember object "content" with
              | none => Status.parse "sc.memory.hydrate_missing_content"
              | some content =>
                  .ok { id := (textMember object "id").getD []
                        namespaceName := namespaceName
                        sessionId := (textMember object "session_id").getD []
                        category := (textMember object "category").getD []
                        key := key
                        value := content
                        score := ⟨0⟩
                        importance := 0
                        supersededById := (textMember object "superseded_by").getD []
                        source := (textMember object "source").getD []
                        metadataJson := (textMember object "metadata").getD []
                        redactionState :=
                          ((Json.asNumber (object.objectGet (str "redaction_state"))).getD ⟨0⟩).toInt
                        contentRef := (textMember object "content_ref").getD []
                        allowSensitiveContent := allowSecrets }
  | _ => Status.parse "sc.memory.hydrate_expected_object"

/-- `sc_memory_hydrate_store_entry` -/
def hydrateStoreEntry (store : MemoryStore) (env : PutEnv) (object : Json) (allowSecrets : Bool) :
    Res MemoryStore := do
  let record ← hydrateRecord object allowSecrets
  storePut store env record

/-- The loop of `sc_memory_store_import_snapshot`; `env i` is what the `i`-th put is told. -/
def importLoop (env : Nat → PutEnv) (allowSecrets : Bool) :
    Nat → MemoryStore → List Json → Res MemoryStore
  | _, store, [] => .ok store
  | i, store, object :: rest => do
      let store ← hydrateStoreEntry store (env i) object allowSecrets
      importLoop env allowSecrets (i + 1) store rest

/-- A limit of the import options, or its default when it is zero. -/
def limitOr (limit default : Nat) : Nat := if 0 < limit then limit else default

/-- `sc_memory_store_import_snapshot` -/
def storeImportSnapshot (store : MemoryStore) (env : Nat → PutEnv) (snapshot : Bytes)
    (options : Option ImportOptions) : Res MemoryStore :=
  let opts := options.getD {}
  if snapshot = [] then Status.invalidArgument "sc.memory.hydrate_invalid_argument"
  else if limitOr opts.maxBytes importMaxBytes < snapshot.length then
    Status.invalidArgument "sc.memory.import_too_large"
  else
    match jsonParseStatus snapshot with
    | .error e => .error e
    | .ok (.array items) =>
        if limitOr opts.maxRecords importMaxRecords < items.length then
          Status.invalidArgument "sc.memory.import_too_many_records"
        else importLoop env opts.allowSecrets 0 store items
    | .ok _ => Status.parse "sc.memory.hydrate_expected_array"

/-! ## Every byte escapes, every entry reads back -/

/-- The hand writer escapes as the JSON writer does. -/
theorem jsonEscapeByte_escapes (b : UInt8) : EscapesTo jsonEscapeByte b := mjsonEscapeByte_escapes b

theorem appendJsonString_utf8 {s : Bytes} (hs : strIsValidUtf8 s = true) :
    strIsValidUtf8 (appendJsonString s) = true :=
  utf8_quoted mjsonEscapeByte_ascii mjsonEscapeByte_other hs

theorem stringMember_reads (key : String) (value : Bytes) (levels : Nat) :
    (stringMember key value).Reads jsonEscapeByte (parseValue (levels + 1)) :=
  ⟨fun b _ => jsonEscapeByte_escapes b, ReadsTo.quoted (fun b _ => jsonEscapeByte_escapes b) levels⟩

/-- A state is one digit, and the digit is read as the state's number. -/
theorem stateMember_digit (state : RedactionState) :
    ∃ k d, decimalInt state.toInt = [k] ∧ isDigit k = true ∧ k ≤ 0x7F ∧ strtod [k] = some d ∧
      d.isFinite = true ∧ d.toInt = state.toInt := by
  cases state with
  | none => exact ⟨chr '0', ⟨0⟩, by decide +kernel⟩
  | redacted => exact ⟨chr '1', ⟨0x3FF0000000000000⟩, by decide⟩
  | deleted => exact ⟨chr '2', ⟨0x4000000000000000⟩, by decide⟩

theorem stateMember_reads (state : RedactionState) (levels : Nat) :
    (stateMember state).Reads jsonEscapeByte (parseValue (levels + 1)) := by
  obtain ⟨k, d, htext, hk, -, hd, hf, -⟩ := stateMember_digit state
  refine ⟨fun b _ => jsonEscapeByte_escapes b, ?_⟩
  simp only [stateMember, htext, hd, Option.getD_some]
  exact ReadsTo.digit hk hd hf levels

/-- The object an entry's text stands for. -/
def entryValue (e : MemoryEntry) (content metadata : Bytes) : Json :=
  .object ((entryMembers e content metadata).map fun m => (m.key, m.value))

theorem entryMembers_read (e : MemoryEntry) (content metadata : Bytes) (levels : Nat) :
    ∀ m ∈ entryMembers e content metadata, m.Reads jsonEscapeByte (parseValue (levels + 1)) := by
  intro m hm
  simp only [entryMembers, List.mem_cons, List.not_mem_nil, or_false] at hm
  rcases hm with rfl | rfl | rfl | rfl | rfl | rfl | rfl | rfl | rfl | rfl | rfl
  all_goals first
    | exact stringMember_reads _ _ levels
    | exact stateMember_reads _ levels

/-- **An entry's text reads back** as the object of its members. -/
theorem appendEntryJson_reads (options : Option ExportOptions) (e : MemoryEntry) (levels : Nat) :
    ReadsTo (parseValue (levels + 2)) (appendEntryJson options e)
      (entryValue e (shownContent options e) (shownMetadata options e)) :=
  ReadsTo.object (List.cons_ne_nil _ _) (entryMembers_read e _ _ levels)

/-- The keys of an entry's object are distinct, whatever the entry. -/
theorem entryMembers_keys (e : MemoryEntry) (content metadata : Bytes) :
    (((entryMembers e content metadata).map fun m => (m.key, m.value)).map Prod.fst).Nodup := by
  rw [List.map_map]
  show ([str "id", str "namespace", str "session_id", str "category", str "key", str "content",
    str "metadata", str "source", str "content_ref", str "superseded_by", str "redaction_state"]
      : List Bytes).Nodup
  decide

theorem entryValue_get {e : MemoryEntry} {content metadata : Bytes} {m : MemberText}
    (h : m ∈ entryMembers e content metadata) :
    (entryValue e content metadata).objectGet m.key = some m.value :=
  objectGet_of_mem (entryMembers_keys e content metadata) (List.mem_map.mpr ⟨m, h, rfl⟩)

theorem textMember_entryValue {e : MemoryEntry} {content metadata : Bytes} {key : String}
    {value : Bytes} (h : stringMember key value ∈ entryMembers e content metadata) :
    textMember (entryValue e content metadata) key = some value := by
  show Json.asStr ((entryValue e content metadata).objectGet (stringMember key value).key) = _
  rw [entryValue_get h]
  rfl

/-- The number the last member stands for is the state's. -/
theorem stateMember_entryValue (e : MemoryEntry) (content metadata : Bytes) :
    ((Json.asNumber ((entryValue e content metadata).objectGet (str "redaction_state"))).getD
      ⟨0⟩).toInt = e.redactionState.toInt := by
  have hmem : stateMember e.redactionState ∈ entryMembers e content metadata := by
    simp [entryMembers]
  show ((Json.asNumber ((entryValue e content metadata).objectGet
    (stateMember e.redactionState).key)).getD ⟨0⟩).toInt = _
  obtain ⟨k, d, htext, -, -, hd, -, hint⟩ := stateMember_digit e.redactionState
  rw [entryValue_get hmem]
  simp only [stateMember, htext, hd, Option.getD_some, Json.asNumber, hint]

/-- **Reading undoes writing**, entry by entry: the object of an entry that shows what it holds gives
    the record the entry is restored from. -/
theorem hydrateRecord_entryValue (e : MemoryEntry) :
    hydrateRecord (entryValue e e.content e.metadataJson) true = .ok e.asRecord := by
  have hstate := stateMember_entryValue e e.content e.metadataJson
  have text : ∀ (key : String) (value : Bytes),
      stringMember key value ∈ entryMembers e e.content e.metadataJson →
      textMember (entryValue e e.content e.metadataJson) key = some value :=
    fun _ _ h => textMember_entryValue h
  have hid := text "id" e.id (by simp [entryMembers])
  have hnamespace := text "namespace" e.namespaceName (by simp [entryMembers])
  have hsession := text "session_id" e.sessionId (by simp [entryMembers])
  have hcategory := text "category" e.category (by simp [entryMembers])
  have hkey := text "key" e.key (by simp [entryMembers])
  have hcontent := text "content" e.content (by simp [entryMembers])
  have hmetadata := text "metadata" e.metadataJson (by simp [entryMembers])
  have hsource := text "source" e.source (by simp [entryMembers])
  have href := text "content_ref" e.contentRef (by simp [entryMembers])
  have hsuperseded := text "superseded_by" e.supersededById (by simp [entryMembers])
  clear text
  -- only the looked-up members matter from here on, not the object they stand in
  obtain ⟨ms, hms⟩ : ∃ ms, entryValue e e.content e.metadataJson = .object ms := ⟨_, rfl⟩
  rw [hms] at hstate hid hnamespace hsession hcategory hkey hcontent hmetadata hsource href hsuperseded
  simp only [hms, hydrateRecord, hstate, hid, hnamespace, hsession, hcategory, hkey, hcontent,
    hmetadata, hsource, href, hsuperseded, Option.getD_some]
  rfl

/-! ## A snapshot is valid UTF-8 -/

/-- The three strings that no check looks at. -/
structure MemoryEntry.Utf8 (e : MemoryEntry) : Prop where
  id : strIsValidUtf8 e.id = true
  supersededById : strIsValidUtf8 e.supersededById = true
  contentRef : strIsValidUtf8 e.contentRef = true

theorem stringMember_utf8 {key : String} {value : Bytes} (hk : strIsValidUtf8 (str key) = true)
    (hv : strIsValidUtf8 value = true) :
    strIsValidUtf8 (quoted jsonEscapeByte (stringMember key value).key) = true ∧
      strIsValidUtf8 (stringMember key value).text = true :=
  ⟨appendJsonString_utf8 hk, appendJsonString_utf8 hv⟩

theorem stateMember_utf8 (state : RedactionState) :
    strIsValidUtf8 (quoted jsonEscapeByte (stateMember state).key) = true ∧
      strIsValidUtf8 (stateMember state).text = true := by
  obtain ⟨k, d, htext, -, hk, -⟩ := stateMember_digit state
  have hkey : strIsValidUtf8 (str "redaction_state") = true := by decide +kernel
  refine ⟨appendJsonString_utf8 hkey, ?_⟩
  show strIsValidUtf8 (decimalInt state.toInt) = true
  rw [htext, utf8_one [] hk]
  rfl

theorem appendEntryJson_utf8 {e : MemoryEntry} (hok : e.Ok) (hutf8 : e.Utf8) {content metadata : Bytes}
    (hc : strIsValidUtf8 content = true) (hm : strIsValidUtf8 metadata = true) :
    strIsValidUtf8 (objectText jsonEscapeByte (entryMembers e content metadata)) = true := by
  apply utf8_objectText
  intro m hmem
  simp only [entryMembers, List.mem_cons, List.not_mem_nil, or_false] at hmem
  rcases hmem with rfl | rfl | rfl | rfl | rfl | rfl | rfl | rfl | rfl | rfl | rfl
  · exact stringMember_utf8 (by decide) hutf8.id
  · exact stringMember_utf8 (by decide +kernel) hok.record.namespaceName.2
  · exact stringMember_utf8 (by decide +kernel) hok.record.sessionId.2
  · exact stringMember_utf8 (by decide +kernel) hok.record.category.2
  · exact stringMember_utf8 (by decide) hok.record.key.2
  · exact stringMember_utf8 (by decide +kernel) hc
  · exact stringMember_utf8 (by decide +kernel) hm
  · exact stringMember_utf8 (by decide +kernel) hok.record.source.2
  · exact stringMember_utf8 (by decide +kernel) hutf8.contentRef
  · exact stringMember_utf8 (by decide +kernel) hutf8.supersededById
  · exact stateMember_utf8 e.redactionState

/-! ## Importing a raw snapshot -/

/-- The options of a raw export. -/
def rawExport : Option ExportOptions := some { includeRawSensitiveContent := true }

/-- The options of an import that may bring back sensitive keys. -/
def allowSecrets : Option ImportOptions := some { allowSecrets := true }

theorem appendEntryJson_raw (e : MemoryEntry) :
    appendEntryJson rawExport e = objectText jsonEscapeByte (entryMembers e e.content e.metadataJson) := by
  have hc : shownContent rawExport e = e.content := by
    unfold shownContent
    split
    · rfl
    · rfl
  have hm : shownMetadata rawExport e = e.metadataJson := by
    unfold shownMetadata
    split
    · rfl
    · rfl
  rw [appendEntryJson, hc, hm]

/-- What comes back: everything but the time, the score and the importance. -/
def MemoryEntry.restored (e : MemoryEntry) (now : Int64) : MemoryEntry :=
  { e with timestamp := now, score := ⟨0⟩, importance := 0 }

/-- An acceptable entry is accepted again. -/
theorem storePut_asRecord {e : MemoryEntry} (hok : e.Ok) {env : PutEnv} {now : Int64}
    (hclock : env.clock = .ok now) (store : MemoryStore) :
    storePut store env e.asRecord = .ok (upsert MemoryEntry.slot (e.restored now) store) := by
  have hid : entryId env e.asRecord = .ok e.id := if_neg hok.id_ne
  have hentry : e.asRecord.toEntry e.id now = e.restored now := by
    show { e.restored now with
      redactionState := (RedactionState.ofInt? e.redactionState.toInt).getD .none } = _
    rw [RedactionState.ofInt_toInt]
    rfl
  rw [storePut_of_ok hok.record hid hclock, hentry]

/-- **The import loop loads the entries**, one put after the other. -/
theorem importLoop_entries {env : Nat → PutEnv} (hclock : ∀ i, ∃ now, (env i).clock = .ok now) :
    ∀ (es : List MemoryEntry) (i : Nat) (store : MemoryStore), (∀ e ∈ es, e.Ok) →
      ∃ rs, importLoop env true i store (es.map fun e => entryValue e e.content e.metadataJson)
          = .ok (load MemoryEntry.slot store rs) ∧
        rs.map MemoryEntry.asRecord = es.map MemoryEntry.asRecord := by
  intro es
  induction es with
  | nil => intro i store _; exact ⟨[], rfl, rfl⟩
  | cons e es ih =>
    intro i store hok
    obtain ⟨now, hnow⟩ := hclock i
    obtain ⟨rs, hrs, hmap⟩ := ih (i + 1) (upsert MemoryEntry.slot (e.restored now) store)
      fun x hx => hok x (List.mem_cons_of_mem e hx)
    refine ⟨e.restored now :: rs, ?_, by rw [List.map_cons, List.map_cons, hmap]; rfl⟩
    rw [List.map_cons, importLoop, hydrateStoreEntry, hydrateRecord_entryValue]
    show (storePut store (env i) e.asRecord >>= _) = _
    rw [storePut_asRecord (hok e List.mem_cons_self) hnow]
    exact hrs

/-- The text of a raw snapshot is a JSON array of the entries' objects. -/
theorem jsonParse_snapshotText {es : List MemoryEntry} (hok : ∀ e ∈ es, e.Ok)
    (hutf8 : ∀ e ∈ es, e.Utf8) (hlen : es.length ≤ importMaxRecords) :
    jsonParseStatus (snapshotText rawExport es)
      = .ok (.array (es.map fun e => entryValue e e.content e.metadataJson)) := by
  have hfst : es.map (appendEntryJson rawExport) = (es.map fun e =>
      (appendEntryJson rawExport e, entryValue e e.content e.metadataJson)).map Prod.fst := by
    rw [List.map_map]
    rfl
  have hsnd : es.map (fun e => entryValue e e.content e.metadataJson) = (es.map fun e =>
      (appendEntryJson rawExport e, entryValue e e.content e.metadataJson)).map Prod.snd := by
    rw [List.map_map]
    rfl
  have hparse : jsonParse (snapshotText rawExport es)
      = .ok (.array (es.map fun e => entryValue e e.content e.metadataJson)) := by
    rw [snapshotText, hfst, hsnd]
    apply jsonParse_array
    · intro t ht
      obtain ⟨e, he, rfl⟩ := List.mem_map.mp ht
      show ReadsTo (parseValue (62 + 2)) (appendEntryJson rawExport e) _
      rw [appendEntryJson_raw]
      exact ReadsTo.object (List.cons_ne_nil _ _) (entryMembers_read e _ _ 62)
    · rw [List.length_map]
      exact Nat.le_trans hlen (by decide)
    · apply utf8_arrayText
      intro t ht
      rw [← hfst] at ht
      obtain ⟨e, he, rfl⟩ := List.mem_map.mp ht
      rw [appendEntryJson_raw]
      exact appendEntryJson_utf8 (hok e he) (hutf8 e he) (hok e he).record.value.2
        (hok e he).record.metadataJson.2
  rw [jsonParseStatus, hparse]

/-- **Importing a raw snapshot loads its entries.** -/
theorem storeImportSnapshot_snapshotText {es : List MemoryEntry} (hok : ∀ e ∈ es, e.Ok)
    (hutf8 : ∀ e ∈ es, e.Utf8) (hlen : es.length ≤ importMaxRecords)
    (hbytes : (snapshotText rawExport es).length ≤ importMaxBytes) {env : Nat → PutEnv}
    (hclock : ∀ i, ∃ now, (env i).clock = .ok now) (store : MemoryStore) :
    ∃ rs, storeImportSnapshot store env (snapshotText rawExport es) allowSecrets
        = .ok (load MemoryEntry.slot store rs) ∧
      rs.map MemoryEntry.asRecord = es.map MemoryEntry.asRecord := by
  obtain ⟨rs, hloop, hmap⟩ := importLoop_entries hclock es 0 store hok
  refine ⟨rs, ?_, hmap⟩
  have hne : snapshotText rawExport es ≠ [] := List.cons_ne_nil _ _
  rw [storeImportSnapshot, if_neg hne, jsonParse_snapshotText hok hutf8 hlen]
  refine (if_neg (Nat.not_lt.mpr hbytes)).trans ?_
  show (if importMaxRecords < (es.map _).length then _ else _) = _
  rw [List.length_map, if_neg (Nat.not_lt.mpr hlen)]
  exact hloop

/-- Equal records stand in the same slot. -/
theorem slot_of_asRecord {a b : MemoryEntry} (h : a.asRecord = b.asRecord) : a.slot = b.slot :=
  congrArg (fun r : MemoryRecord => (r.namespaceName, r.key)) h

theorem Keyed.of_asRecord {rs es : List MemoryEntry}
    (h : rs.map MemoryEntry.asRecord = es.map MemoryEntry.asRecord)
    (hk : Keyed MemoryEntry.slot es) : Keyed MemoryEntry.slot rs := by
  have hslot : ∀ xs : List MemoryEntry, xs.map MemoryEntry.slot
      = (xs.map MemoryEntry.asRecord).map fun r => (r.namespaceName, r.key) := by
    intro xs
    rw [List.map_map]
    rfl
  unfold Keyed at hk ⊢
  rw [hslot, h, ← hslot]
  exact hk

/-! ## The round trip -/

theorem sortEntries_perm (es : List MemoryEntry) : (sortEntries es).Perm es :=
  List.perm_insertionSort _ es

/-- The bytes an entry counts for in `max_total_result_bytes`. -/
def MemoryEntry.resultBytes (e : MemoryEntry) : Nat := e.content.length + e.metadataJson.length

/-- The numbers of a query cut nothing off a store. -/
structure MemoryQuery.Roomy (q : MemoryQuery) (store : MemoryStore) : Prop where
  results : ∀ n, resultCap (some q) = some n → store.length ≤ n
  bytes : q.maxTotalResultBytes = 0 ∨
    (store.map MemoryEntry.resultBytes).sum ≤ q.maxTotalResultBytes

/-- **A query for the whole store**: it includes superseded, redacted and deleted entries, has no
    filter, and cuts nothing off. -/
structure MemoryQuery.Whole (q : MemoryQuery) (store : MemoryStore) : Prop where
  superseded : q.includeSuperseded = true
  redacted : q.includeRedacted = true
  deleted : q.includeDeleted = true
  filters : q.namespaceName = [] ∧ q.sessionId = [] ∧ q.category = [] ∧ q.query = []
  roomy : q.Roomy store

/-- The plainest query for the whole of any store. -/
def everything : MemoryQuery :=
  { includeSuperseded := true, includeRedacted := true, includeDeleted := true }

theorem everything_whole (store : MemoryStore) : everything.Whole store where
  superseded := rfl
  redacted := rfl
  deleted := rfl
  filters := ⟨rfl, rfl, rfl, rfl⟩
  roomy := ⟨fun _ h => (nomatch h), Or.inl rfl⟩

/-- A budget that covers all entries drops none. -/
theorem takeBytes_all {budget : Nat} :
    ∀ (es : List MemoryEntry) (total : Nat),
      total + (es.map MemoryEntry.resultBytes).sum ≤ budget → takeBytes budget total es = es := by
  intro es
  induction es with
  | nil => intro total _; rfl
  | cons e es ih =>
    intro total h
    rw [List.map_cons, List.sum_cons] at h
    have hfits : ¬ budget < total + (e.content.length + e.metadataJson.length) := by
      show ¬ budget < total + e.resultBytes
      omega
    have hrest : total + e.resultBytes + (es.map MemoryEntry.resultBytes).sum ≤ budget := by omega
    show (if _ then _ else _) = _
    rw [if_neg hfits]
    exact congrArg (e :: ·) (ih (total + e.resultBytes) hrest)

/-- A search that finds every entry and has room for all returns the whole store, sorted. -/
theorem storeSearch_all {store : MemoryStore} {q : MemoryQuery}
    (hvalid : validateQuery (some q) = .ok ())
    (hall : ∀ e ∈ store, queryMatchesEntry (some q) e = true) (hroom : q.Roomy store) :
    storeSearch store (some q) = .ok (sortEntries store) := by
  have hcap : takeCap (resultCap (some q)) (sortEntries store) = sortEntries store := by
    cases hn : resultCap (some q) with
    | none => rfl
    | some n =>
      refine List.take_of_length_le ?_
      rw [(sortEntries_perm store).length_eq]
      exact hroom.results n hn
  rw [storeSearch, hvalid, List.filter_eq_self.mpr hall, hcap]
  show Except.ok (if 0 < q.maxTotalResultBytes then _ else _) = _
  rcases hroom.bytes with hzero | hsum
  · rw [hzero, if_neg (Nat.lt_irrefl 0)]
  · have hsorted : ((sortEntries store).map MemoryEntry.resultBytes).sum
        = (store.map MemoryEntry.resultBytes).sum :=
      ((sortEntries_perm store).map MemoryEntry.resultBytes).sum_nat
    rw [takeBytes_all (sortEntries store) 0 (by rw [hsorted]; omega), ite_self]

/-- **A query for the whole store finds all of it**, sorted. -/
theorem storeSearch_whole {store : MemoryStore} {q : MemoryQuery} (h : q.Whole store) :
    storeSearch store (some q) = .ok (sortEntries store) := by
  obtain ⟨hnamespace, hsession, hcategory, hquery⟩ := h.filters
  refine storeSearch_all ?_ (fun e _ => ?_) h.roomy
  · have hsmall : ¬ (0 < q.maxQueryBytes ∧ q.maxQueryBytes < q.query.length) := by
      rw [hquery, List.length_nil]
      omega
    rw [validateQuery, if_neg hsmall, hnamespace, hsession, hcategory, hquery]
    rfl
  · simp only [queryMatchesEntry, h.superseded, h.redacted, h.deleted, hnamespace, hsession,
      hcategory, hquery]
    rfl

/-- **Import undoes raw export**, and undoes it for good. -/
theorem import_export (calls : List StoreCall) (hutf8 : ∀ e ∈ storeAfter calls, e.Utf8)
    (hlen : (storeAfter calls).length ≤ importMaxRecords) (q : MemoryQuery)
    (hq : q.Whole (storeAfter calls)) (env env' : Nat → PutEnv)
    (hclock : ∀ i, ∃ now, (env i).clock = .ok now) (hclock' : ∀ i, ∃ now, (env' i).clock = .ok now) :
    ∃ text, storeExportSnapshot (storeAfter calls) (some q) rawExport = .ok text ∧
      (text.length ≤ importMaxBytes →
        ∃ once, storeImportSnapshot [] env text allowSecrets = .ok once ∧
          (once.map MemoryEntry.asRecord).Perm ((storeAfter calls).map MemoryEntry.asRecord) ∧
          ∃ twice, storeImportSnapshot once env' text allowSecrets = .ok twice ∧
            twice.map MemoryEntry.asRecord = once.map MemoryEntry.asRecord) := by
  have hstore := storeAfter_storeOk calls
  have hperm := sortEntries_perm (storeAfter calls)
  have hmem : ∀ e ∈ sortEntries (storeAfter calls), e ∈ storeAfter calls := fun _ he =>
    hperm.mem_iff.mp he
  have hok : ∀ e ∈ sortEntries (storeAfter calls), e.Ok := fun e he => hstore.entries e (hmem e he)
  have hutf8' : ∀ e ∈ sortEntries (storeAfter calls), e.Utf8 := fun e he => hutf8 e (hmem e he)
  have hlen' : (sortEntries (storeAfter calls)).length ≤ importMaxRecords := by
    rw [hperm.length_eq]
    exact hlen
  refine ⟨snapshotText rawExport (sortEntries (storeAfter calls)), ?_, fun hbytes => ?_⟩
  · rw [storeExportSnapshot, storeSearch_whole hq]
    rfl
  · obtain ⟨rs, himport, hmap⟩ :=
      storeImportSnapshot_snapshotText hok hutf8' hlen' hbytes hclock []
    obtain ⟨rs', himport', hmap'⟩ :=
      storeImportSnapshot_snapshotText hok hutf8' hlen' hbytes hclock' rs
    have hkeyed : Keyed MemoryEntry.slot rs := Keyed.of_asRecord hmap (hstore.keyed.perm hperm.symm)
    -- into the empty store the rows are appended; the second time each one finds its own slot
    rw [load_nil hkeyed] at himport
    refine ⟨rs, himport, by rw [hmap]; exact hperm.map _, load MemoryEntry.slot rs rs', himport', ?_⟩
    refine load_same (fun _ _ h => slot_of_asRecord h) rs' rs hkeyed ?_
    intro x hx
    rw [hmap, ← hmap']
    exact List.mem_map_of_mem hx

/-- A put by someone who may put anything, at time 7. -/
def samplePut (namespaceName key content superseded : Bytes) : StoreCall :=
  .put { random := .ok (Vector.replicate 16 0xA5), clock := .ok 7 }
    { id := [], namespaceName := namespaceName, sessionId := str "s", category := []
      key := key, value := content, score := ⟨0⟩, importance := 3, supersededById := superseded
      source := [], metadataJson := [], redactionState := 0, contentRef := []
      allowSensitiveContent := true }

/-- Three entries: one with a quote, a line break, a control byte and a two-byte character in its
    content, one superseded, one forgotten. -/
def sampleStoreCalls : List StoreCall :=
  [ samplePut (str "n") (str "k") [chr '"', 10, 1, 0xC3, 0xA9] [],
    samplePut (str "n") (str "token") (str "t") (str "x"),
    samplePut (str "m") (str "k") (str "old") [],
    .forget (str "m") (str "k") ]

/-- An environment in which the clock always answers. -/
def steadyEnv (_i : Nat) : PutEnv := { random := .ok (Vector.replicate 16 0), clock := .ok 11 }

theorem import_export_sample :
    (storeAfter sampleStoreCalls).length = 3 ∧
      ∃ text, storeExportSnapshot (storeAfter sampleStoreCalls) (some everything) rawExport
          = .ok text ∧ text.length ≤ importMaxBytes ∧
        ∃ once, storeImportSnapshot [] steadyEnv text allowSecrets = .ok once ∧
          (once.map MemoryEntry.asRecord).Perm
            ((storeAfter sampleStoreCalls).map MemoryEntry.asRecord) ∧
          ∃ twice, storeImportSnapshot once steadyEnv text allowSecrets = .ok twice ∧
            twice.map MemoryEntry.asRecord = once.map MemoryEntry.asRecord := by
  refine ⟨by decide, ?_⟩
  have hutf8 : ∀ e ∈ storeAfter sampleStoreCalls, strIsValidUtf8 e.id = true ∧
      strIsValidUtf8 e.supersededById = true ∧ strIsValidUtf8 e.contentRef = true := by
    decide
  have hshort : ∀ text ∈ (storeExportSnapshot (storeAfter sampleStoreCalls) (some everything)
      rawExport).toOption, text.length ≤ importMaxBytes := by
    decide +kernel
  obtain ⟨text, hexport, himport⟩ := import_export sampleStoreCalls
    (fun e he => ⟨(hutf8 e he).1, (hutf8 e he).2.1, (hutf8 e he).2.2⟩)
    (by decide) everything (everything_whole _) steadyEnv steadyEnv (fun _ => ⟨11, rfl⟩)
    (fun _ => ⟨11, rfl⟩)
  have hbytes : text.length ≤ importMaxBytes := hshort text (by rw [hexport]; rfl)
  exact ⟨text, hexport, hbytes, himport hbytes⟩

end SmolClaw.Memory
