/-
  The in-memory record store behind every memory backend (`sc_memory_store_*`,
  `src/memory/memory_common.c`).

  1. **Program** — records are checked field by field (`validateRecord`) and become entries; the store
     is a table keyed by namespace and key, `storePut` replaces in place or appends.  `storeForget` and
     `storeRedact` blank an entry but keep its row; the purges drop rows.  `storeSearch` filters,
     sorts and cuts.

  2. **Environment** — a put asks for a wall time and, when the record has no id, for 16 random bytes;
     both may fail (`PutEnv`).  `qsort` is a stable sort here: C leaves the order of rows that compare
     equal open, and no result below depends on it.

  3. **Invariant** — `StoreOk`: one row for each namespace and key, and every row still passes the
     checks its record passed.  `storeAfter_storeOk` carries it along every run of calls, refused
     ones included.
-/
import Mathlib.Data.List.Sort
import SmolClaw.Lib.Run
import SmolClaw.Lib.Table
import SmolClaw.Core.Text
import SmolClaw.Json.Parse

namespace SmolClaw.Memory

open Lib.Run Lib.Table

/-! ## Data -/

/-- `sc_memory_redaction_state` -/
inductive RedactionState where
  | none
  | redacted
  | deleted
  deriving DecidableEq, Repr

/-- The state's number in the C enumeration. -/
def RedactionState.toInt : RedactionState → Int
  | .none => 0
  | .redacted => 1
  | .deleted => 2

/-- `redaction_state_valid`: the numbers that are states. -/
def RedactionState.ofInt? (n : Int) : Option RedactionState :=
  if n = 0 then some .none
  else if n = 1 then some .redacted
  else if n = 2 then some .deleted
  else .none

/-- `sc_memory_record`.  The retention fields are copied along and read by no function here. -/
structure MemoryRecord where
  id : Bytes
  namespaceName : Bytes
  sessionId : Bytes
  category : Bytes
  key : Bytes
  value : Bytes
  score : Double
  importance : Int64
  supersededById : Bytes
  source : Bytes
  metadataJson : Bytes
  redactionState : Int
  contentRef : Bytes
  allowSensitiveContent : Bool

/-- `sc_memory_entry` -/
structure MemoryEntry where
  id : Bytes
  namespaceName : Bytes
  sessionId : Bytes
  category : Bytes
  key : Bytes
  content : Bytes
  timestamp : Int64
  score : Double
  importance : Int64
  supersededById : Bytes
  source : Bytes
  metadataJson : Bytes
  redactionState : RedactionState
  contentRef : Bytes
  deriving DecidableEq

/-- `sc_memory_store`: its entries, in the order of the vector. -/
abbrev MemoryStore := List MemoryEntry

/-- What identifies an entry. -/
def MemoryEntry.slot (e : MemoryEntry) : Bytes × Bytes := (e.namespaceName, e.key)

/-- What a put is told by its surroundings: `sc_random_bytes` and `sc_clock_wall`. -/
structure PutEnv where
  random : Res (Vector UInt8 16)
  clock : Res Int64

/-! ## Checking a record -/

/-- `SC_MEMORY_MAX_NAMESPACE_BYTES` -/
def maxNamespaceBytes : Nat := 256
/-- `SC_MEMORY_MAX_SESSION_BYTES` -/
def maxSessionBytes : Nat := 256
/-- `SC_MEMORY_MAX_CATEGORY_BYTES` -/
def maxCategoryBytes : Nat := 128
/-- `SC_MEMORY_MAX_KEY_BYTES` -/
def maxKeyBytes : Nat := 512
/-- `SC_MEMORY_MAX_SOURCE_BYTES` -/
def maxSourceBytes : Nat := 256
/-- `SC_MEMORY_MAX_CONTENT_BYTES` -/
def maxContentBytes : Nat := 262144
/-- `SC_MEMORY_MAX_METADATA_BYTES` -/
def maxMetadataBytes : Nat := 65536
/-- `SC_MEMORY_MAX_QUERY_BYTES` -/
def maxQueryBytes : Nat := 8192
/-- `SC_MEMORY_DEFAULT_MAX_RESULTS` -/
def defaultMaxResults : Nat := 64

/-- `sc_memory_key_is_reserved` -/
def keyIsReserved (key : Bytes) : Bool :=
  [str "__smolclaw_autosave", str "__smolclaw_autosave_context", str "smolclaw.autosave",
    str "autosave.context"].contains key

/-- `key_looks_secret` -/
def keyLooksSecret (key : Bytes) : Bool :=
  [str "api_key", str "apikey", str "bot_token", str "token", str "secret", str "password",
    str "authorization", str "cookie"].any (strContainsCasefold key)

/-- `validate_text_field` -/
def validateTextField (value : Bytes) (maxLen : Nat) (errorKey : String) : Res Unit :=
  if maxLen < value.length then Status.invalidArgument errorKey
  else if !strIsValidUtf8 value then Status.parse errorKey
  else .ok ()

/-- The metadata check of `sc_memory_validate_record`: empty, or the text of a JSON object. -/
def validateMetadata (metadata : Bytes) : Res Unit :=
  if metadata = [] then .ok ()
  else
    match jsonParseStatus metadata with
    | .error e => .error e
    | .ok (.object _) => .ok ()
    | .ok _ => Status.parse "sc.memory.metadata_expected_object"

/-- `sc_memory_validate_record` -/
def validateRecord (r : MemoryRecord) : Res Unit :=
  if r.namespaceName = [] ∨ r.key = [] then Status.invalidArgument "sc.memory.record_invalid_argument"
  else if keyIsReserved r.key || (!r.allowSensitiveContent && keyLooksSecret r.key) then
    Status.securityDenied "sc.memory.secret_denied"
  else if (RedactionState.ofInt? r.redactionState).isNone then
    Status.invalidArgument "sc.memory.invalid_redaction_state"
  else do
    validateTextField r.namespaceName maxNamespaceBytes "sc.memory.namespace_invalid"
    validateTextField r.sessionId maxSessionBytes "sc.memory.session_invalid"
    validateTextField r.category maxCategoryBytes "sc.memory.category_invalid"
    validateTextField r.key maxKeyBytes "sc.memory.key_invalid"
    validateTextField r.value maxContentBytes "sc.memory.content_invalid"
    validateTextField r.source maxSourceBytes "sc.memory.source_invalid"
    validateTextField r.metadataJson maxMetadataBytes "sc.memory.metadata_invalid"
    validateMetadata r.metadataJson

/-! ## Changing the store -/

/-- The id of a new entry: the record's own, or a fresh one. -/
def entryId (env : PutEnv) (r : MemoryRecord) : Res Bytes :=
  if r.id = [] then env.random.map uuidV4 else .ok r.id

/-- The entry of a record, once its id and its time are known. -/
def MemoryRecord.toEntry (r : MemoryRecord) (id : Bytes) (now : Int64) : MemoryEntry :=
  { id := id, namespaceName := r.namespaceName, sessionId := r.sessionId
    category := r.category, key := r.key, content := r.value, timestamp := now
    score := r.score, importance := r.importance, supersededById := r.supersededById
    source := r.source, metadataJson := r.metadataJson
    redactionState := (RedactionState.ofInt? r.redactionState).getD .none
    contentRef := r.contentRef }

/-- `copy_entry_from_record` -/
def copyEntryFromRecord (env : PutEnv) (r : MemoryRecord) : Res MemoryEntry := do
  let id ← entryId env r
  let now ← env.clock
  .ok (r.toEntry id now)

/-- `sc_memory_store_put` -/
def storePut (store : MemoryStore) (env : PutEnv) (r : MemoryRecord) : Res MemoryStore :=
  if r.namespaceName = [] ∨ r.key = [] then Status.invalidArgument "sc.memory_store.invalid_record"
  else do
    validateRecord r
    let entry ← copyEntryFromRecord env r
    .ok (upsert MemoryEntry.slot entry store)

/-- `namespace_key_equal` -/
def namespaceKeyEqual (namespaceName key : Bytes) (e : MemoryEntry) : Bool :=
  e.namespaceName == namespaceName && e.key == key

/-- The text of `sc_string_redacted`. -/
def redactedText : Bytes := str "[REDACTED]"

/-- What `sc_memory_store_forget` and `sc_memory_store_redact` make of an entry. -/
def MemoryEntry.blank (state : RedactionState) (e : MemoryEntry) : MemoryEntry :=
  { e with content := redactedText, metadataJson := [], redactionState := state }

/-- The body the two functions share; a missing entry is no error. -/
def storeBlank (state : RedactionState) (store : MemoryStore) (namespaceName key : Bytes) :
    Res MemoryStore :=
  if namespaceName = [] ∨ key = [] then Status.invalidArgument "sc.memory_store.invalid_argument"
  else .ok (amend (namespaceKeyEqual namespaceName key) (MemoryEntry.blank state) store)

/-- `sc_memory_store_forget` -/
def storeForget (store : MemoryStore) (namespaceName key : Bytes) : Res MemoryStore :=
  storeBlank .deleted store namespaceName key

/-- `sc_memory_store_redact` -/
def storeRedact (store : MemoryStore) (namespaceName key : Bytes) : Res MemoryStore :=
  storeBlank .redacted store namespaceName key

/-- `sc_memory_store_purge_namespace` -/
def storePurgeNamespace (store : MemoryStore) (namespaceName : Bytes) : Res MemoryStore :=
  if namespaceName = [] then Status.invalidArgument "sc.memory_store.invalid_argument"
  else .ok (store.filter fun e => !(e.namespaceName == namespaceName))

/-- `sc_memory_store_purge_session` -/
def storePurgeSession (store : MemoryStore) (namespaceName sessionId : Bytes) : Res MemoryStore :=
  if namespaceName = [] ∨ sessionId = [] then
    Status.invalidArgument "sc.memory_store.invalid_argument"
  else .ok (store.filter fun e => !(e.namespaceName == namespaceName && e.sessionId == sessionId))

/-! ## Reading the store -/

/-- An entry `sc_memory_store_get` may return: neither superseded nor redacted nor deleted. -/
def MemoryEntry.live (e : MemoryEntry) : Bool :=
  e.supersededById.isEmpty && e.redactionState == .none

/-- `sc_memory_store_get` -/
def storeGet (store : MemoryStore) (namespaceName key : Bytes) : Res Bytes :=
  if namespaceName = [] ∨ key = [] then Status.invalidArgument "sc.memory_store.invalid_argument"
  else
    match store.find? fun e => namespaceKeyEqual namespaceName key e && e.live with
    | some e => .ok e.content
    | none => Status.invalidArgument "sc.memory_store.not_found"

/-- `sc_memory_query` -/
structure MemoryQuery where
  namespaceName : Bytes := []
  sessionId : Bytes := []
  category : Bytes := []
  query : Bytes := []
  limit : Nat := 0
  includeSuperseded : Bool := false
  maxQueryBytes : Nat := 0
  maxResults : Nat := 0
  maxTotalResultBytes : Nat := 0
  includeRedacted : Bool := false
  includeDeleted : Bool := false

/-- `sc_memory_validate_query` -/
def validateQuery : Option MemoryQuery → Res Unit
  | none => .ok ()
  | some q =>
      if 0 < q.maxQueryBytes ∧ q.maxQueryBytes < q.query.length then
        Status.invalidArgument "sc.memory.query_too_large"
      else do
        validateTextField q.namespaceName maxNamespaceBytes "sc.memory.query_namespace_invalid"
        validateTextField q.sessionId maxSessionBytes "sc.memory.query_session_invalid"
        validateTextField q.category maxCategoryBytes "sc.memory.query_category_invalid"
        validateTextField q.query Memory.maxQueryBytes "sc.memory.query_invalid"

/-- `sc_memory_query_matches_entry` -/
def queryMatchesEntry : Option MemoryQuery → MemoryEntry → Bool
  | none, e => e.supersededById.isEmpty && e.redactionState == .none
  | some q, e =>
      !(!q.includeSuperseded && !e.supersededById.isEmpty) &&
      !(!q.includeRedacted && e.redactionState == .redacted) &&
      !(!q.includeDeleted && e.redactionState == .deleted) &&
      (q.namespaceName.isEmpty || e.namespaceName == q.namespaceName) &&
      (q.sessionId.isEmpty || e.sessionId == q.sessionId) &&
      (q.category.isEmpty || e.category == q.category) &&
      (q.query.isEmpty || strContainsCasefold e.key q.query || strContainsCasefold e.content q.query)

/-- `compare_str`: `memcmp` on the common length, then the lengths. -/
def compareStr : Bytes → Bytes → Ordering
  | [], [] => .eq
  | [], _ :: _ => .lt
  | _ :: _, [] => .gt
  | a :: as, b :: bs => if a < b then .lt else if b < a then .gt else compareStr as bs

/-- `sc_memory_entry_compare_desc` -/
def entryCompareDesc (a b : MemoryEntry) : Ordering :=
  if a.score.lt b.score then .gt
  else if b.score.lt a.score then .lt
  else if a.importance < b.importance then .gt
  else if b.importance < a.importance then .lt
  else if a.timestamp < b.timestamp then .gt
  else if b.timestamp < a.timestamp then .lt
  else (compareStr a.key b.key).then (compareStr a.id b.id)

/-- `qsort(..., sc_memory_entry_compare_desc)` -/
def sortEntries (entries : List MemoryEntry) : List MemoryEntry :=
  entries.insertionSort fun a b => (entryCompareDesc a b).isLE = true

/-- The loop over `max_total_result_bytes`: entries are kept while the running total fits. -/
def takeBytes (budget : Nat) : Nat → List MemoryEntry → List MemoryEntry
  | _, [] => []
  | total, e :: rest =>
      let bytes := e.content.length + e.metadataJson.length
      if budget < total + bytes then [] else e :: takeBytes budget (total + bytes) rest

/-- How many entries a query wants: `max_results`, else `limit`, else all; a null query 64. -/
def resultCap : Option MemoryQuery → Option Nat
  | none => some defaultMaxResults
  | some q =>
      let cap := if 0 < q.maxResults then q.maxResults else q.limit
      if 0 < cap then some cap else none

/-- The cut at the number of entries. -/
def takeCap (cap : Option Nat) (entries : List MemoryEntry) : List MemoryEntry :=
  match cap with
  | some n => entries.take n
  | none => entries

/-- `sc_memory_store_search` -/
def storeSearch (store : MemoryStore) (query : Option MemoryQuery) : Res (List MemoryEntry) := do
  validateQuery query
  let found := takeCap (resultCap query) (sortEntries (store.filter (queryMatchesEntry query)))
  .ok (match query with
    | some q => if 0 < q.maxTotalResultBytes then takeBytes q.maxTotalResultBytes 0 found else found
    | none => found)

/-! ## Runs -/

/-- The calls that change a store. -/
inductive StoreCall where
  | put (env : PutEnv) (record : MemoryRecord)
  | forget (namespaceName key : Bytes)
  | redact (namespaceName key : Bytes)
  | purgeNamespace (namespaceName : Bytes)
  | purgeSession (namespaceName sessionId : Bytes)

/-- One call, as its function computes it. -/
def storeCall (store : MemoryStore) : StoreCall → Res MemoryStore
  | .put env record => storePut store env record
  | .forget namespaceName key => storeForget store namespaceName key
  | .redact namespaceName key => storeRedact store namespaceName key
  | .purgeNamespace namespaceName => storePurgeNamespace store namespaceName
  | .purgeSession namespaceName sessionId => storePurgeSession store namespaceName sessionId

/-- One call on the store: a refused call leaves the store as it was. -/
def storeStep (store : MemoryStore) (call : StoreCall) : MemoryStore :=
  match storeCall store call with
  | .ok store' => store'
  | .error _ => store

/-- The store after a sequence of calls, from the empty one. -/
def storeAfter (calls : List StoreCall) : MemoryStore := run storeStep [] calls

/-! ## What the checks let through -/

/-- A text that `validate_text_field` lets through. -/
def TextOk (value : Bytes) (maxLen : Nat) : Prop :=
  value.length ≤ maxLen ∧ strIsValidUtf8 value = true

theorem validateTextField_ok {value : Bytes} {maxLen : Nat} {errorKey : String} :
    validateTextField value maxLen errorKey = .ok () ↔ TextOk value maxLen := by
  unfold validateTextField TextOk
  by_cases hlen : maxLen < value.length
  · rw [if_pos hlen]
    exact ⟨fun h => absurd h (Status.invalidArgument_ne_ok _ _), fun h => absurd h.1 (by omega)⟩
  · rw [if_neg hlen]
    cases hutf8 : strIsValidUtf8 value with
    | false => exact ⟨fun h => absurd h (Status.parse_ne_ok _ _), fun h => nomatch h.2⟩
    | true => exact ⟨fun _ => ⟨Nat.le_of_not_lt hlen, rfl⟩, fun _ => rfl⟩

/-- What `sc_memory_validate_record` lets through. -/
structure MemoryRecord.Ok (r : MemoryRecord) : Prop where
  namespaceName_ne : r.namespaceName ≠ []
  key_ne : r.key ≠ []
  key_free : keyIsReserved r.key = false
  key_plain : r.allowSensitiveContent = true ∨ keyLooksSecret r.key = false
  state : (RedactionState.ofInt? r.redactionState).isSome = true
  namespaceName : TextOk r.namespaceName maxNamespaceBytes
  sessionId : TextOk r.sessionId maxSessionBytes
  category : TextOk r.category maxCategoryBytes
  key : TextOk r.key maxKeyBytes
  value : TextOk r.value maxContentBytes
  source : TextOk r.source maxSourceBytes
  metadataJson : TextOk r.metadataJson maxMetadataBytes
  metadata_object : validateMetadata r.metadataJson = .ok ()

/-- **What the record check checks.** -/
theorem validateRecord_ok {r : MemoryRecord} : validateRecord r = .ok () ↔ r.Ok := by
  unfold validateRecord
  constructor
  · intro h
    split at h
    · exact absurd h (Status.invalidArgument_ne_ok _ _)
    · rename_i hempty
      split at h
      · exact absurd h (Status.securityDenied_ne_ok _ _)
      · rename_i hsecret
        split at h
        · exact absurd h (Status.invalidArgument_ne_ok _ _)
        · rename_i hstate
          -- seven length and encoding checks in a row, then the metadata
          rw [not_or] at hempty
          rw [Bool.or_eq_true, not_or, Bool.and_eq_true, not_and_or] at hsecret
          obtain ⟨_, h1, h⟩ := Res.bind_eq_ok.mp h
          obtain ⟨_, h2, h⟩ := Res.bind_eq_ok.mp h
          obtain ⟨_, h3, h⟩ := Res.bind_eq_ok.mp h
          obtain ⟨_, h4, h⟩ := Res.bind_eq_ok.mp h
          obtain ⟨_, h5, h⟩ := Res.bind_eq_ok.mp h
          obtain ⟨_, h6, h⟩ := Res.bind_eq_ok.mp h
          obtain ⟨_, h7, h⟩ := Res.bind_eq_ok.mp h
          exact ⟨hempty.1, hempty.2, by simpa using hsecret.1, by simpa using hsecret.2,
            by simpa [Option.isSome_iff_ne_none] using hstate, validateTextField_ok.mp h1,
            validateTextField_ok.mp h2, validateTextField_ok.mp h3, validateTextField_ok.mp h4,
            validateTextField_ok.mp h5, validateTextField_ok.mp h6, validateTextField_ok.mp h7, h⟩
  · intro h
    have hsecret : (keyIsReserved r.key || (!r.allowSensitiveContent && keyLooksSecret r.key)) = false := by
      rw [h.key_free, Bool.false_or, Bool.and_eq_false_iff]
      exact h.key_plain.imp (by simp) id
    have hstate : (RedactionState.ofInt? r.redactionState).isNone = false := by
      simpa using h.state
    rw [if_neg (not_or.mpr ⟨h.namespaceName_ne, h.key_ne⟩), hsecret, hstate,
      if_neg Bool.false_ne_true, if_neg Bool.false_ne_true]
    simp only [validateTextField_ok.mpr h.namespaceName, validateTextField_ok.mpr h.sessionId,
      validateTextField_ok.mpr h.category, validateTextField_ok.mpr h.key,
      validateTextField_ok.mpr h.value, validateTextField_ok.mpr h.source,
      validateTextField_ok.mpr h.metadataJson, h.metadata_object]
    rfl

/-! ## What a call does -/

/-- The id of a new entry is the record's own or a fresh one, and never empty. -/
theorem entryId_ok {env : PutEnv} {r : MemoryRecord} {id : Bytes} (h : entryId env r = .ok id) :
    id ≠ [] ∧ (id = r.id ∨ ∃ random, id = uuidV4 random) := by
  unfold entryId at h
  split at h
  · cases hrandom : env.random with
    | error err => rw [hrandom] at h; exact nomatch h
    | ok random =>
      rw [hrandom] at h
      obtain rfl := Except.ok.inj h
      exact ⟨uuidV4_ne_nil random, Or.inr ⟨random, rfl⟩⟩
  · rename_i hne
    obtain rfl := Except.ok.inj h
    exact ⟨hne, Or.inl rfl⟩

/-- A successful put puts the entry of an accepted record in its slot. -/
theorem storePut_ok {store store' : MemoryStore} {env : PutEnv} {r : MemoryRecord}
    (h : storePut store env r = .ok store') :
    ∃ id now, r.Ok ∧ entryId env r = .ok id ∧ store' = upsert MemoryEntry.slot (r.toEntry id now) store := by
  unfold storePut at h
  split at h
  · exact absurd h (Status.invalidArgument_ne_ok _ _)
  · obtain ⟨_, hvalid, h⟩ := Res.bind_eq_ok.mp h
    obtain ⟨e, hcopy, h⟩ := Res.bind_eq_ok.mp h
    unfold copyEntryFromRecord at hcopy
    obtain ⟨id, hid, hcopy⟩ := Res.bind_eq_ok.mp hcopy
    obtain ⟨now, -, hcopy⟩ := Res.bind_eq_ok.mp hcopy
    obtain rfl := Except.ok.inj hcopy
    exact ⟨id, now, validateRecord_ok.mp hvalid, hid, (Except.ok.inj h).symm⟩

/-- An accepted record is put, once its id and the time are known. -/
theorem storePut_of_ok {env : PutEnv} {r : MemoryRecord} (hr : r.Ok) {id : Bytes} (hid : entryId env r = .ok id)
    {now : Int64} (hclock : env.clock = .ok now) (store : MemoryStore) :
    storePut store env r = .ok (upsert MemoryEntry.slot (r.toEntry id now) store) := by
  have hcopy : copyEntryFromRecord env r = .ok (r.toEntry id now) := by
    rw [copyEntryFromRecord, hid, hclock]
    rfl
  rw [storePut, if_neg (not_or.mpr ⟨hr.namespaceName_ne, hr.key_ne⟩), validateRecord_ok.mpr hr, hcopy]
  rfl

/-- **What a successful call does**: it puts the entry of an accepted record in its slot, blanks an
    entry, or drops entries. -/
theorem storeCall_cases {store store' : MemoryStore} {call : StoreCall}
    (h : storeCall store call = .ok store') :
    (∃ env r id now, call = .put env r ∧ r.Ok ∧ entryId env r = .ok id ∧
      store' = upsert MemoryEntry.slot (r.toEntry id now) store) ∨
    (∃ state namespaceName key,
      store' = amend (namespaceKeyEqual namespaceName key) (MemoryEntry.blank state) store) ∨
    (∃ p, store' = store.filter p) := by
  have hblank : ∀ state namespaceName key,
      storeBlank state store namespaceName key = .ok store' →
      store' = amend (namespaceKeyEqual namespaceName key) (MemoryEntry.blank state) store := by
    intro state namespaceName key h
    unfold storeBlank at h
    split at h
    · exact absurd h (Status.invalidArgument_ne_ok _ _)
    · exact (Except.ok.inj h).symm
  cases call with
  | put env r =>
    obtain ⟨id, now, hok, hid, hstore⟩ := storePut_ok h
    exact Or.inl ⟨env, r, id, now, rfl, hok, hid, hstore⟩
  | forget namespaceName key => exact Or.inr (Or.inl ⟨_, _, _, hblank .deleted namespaceName key h⟩)
  | redact namespaceName key => exact Or.inr (Or.inl ⟨_, _, _, hblank .redacted namespaceName key h⟩)
  | purgeNamespace namespaceName =>
    simp only [storeCall, storePurgeNamespace] at h
    split at h
    · exact absurd h (Status.invalidArgument_ne_ok _ _)
    · exact Or.inr (Or.inr ⟨_, (Except.ok.inj h).symm⟩)
  | purgeSession namespaceName sessionId =>
    simp only [storeCall, storePurgeSession] at h
    split at h
    · exact absurd h (Status.invalidArgument_ne_ok _ _)
    · exact Or.inr (Or.inr ⟨_, (Except.ok.inj h).symm⟩)

/-- **The rule for what every entry has**: new entries have it, and blanking keeps it. -/
theorem storeCall_forall {P : MemoryEntry → Prop} {store store' : MemoryStore} {call : StoreCall}
    (hnew : ∀ env r id now, call = .put env r → r.Ok → entryId env r = .ok id → P (r.toEntry id now))
    (hblank : ∀ e state, P e → P (e.blank state)) (hs : ∀ e ∈ store, P e)
    (h : storeCall store call = .ok store') : ∀ e ∈ store', P e := by
  obtain ⟨env, r, id, now, hcall, hok, hid, rfl⟩ | ⟨state, namespaceName, key, rfl⟩ | ⟨p, rfl⟩ :=
    storeCall_cases h
  · intro e he
    rcases mem_upsert he with rfl | he
    · exact hnew env r id now hcall hok hid
    · exact hs e he
  · intro e he
    rcases mem_amend he with ⟨y, hy, -, rfl⟩ | he
    · exact hblank y state (hs y hy)
    · exact hs e he
  · intro e he
    exact hs e (List.mem_of_mem_filter he)

/-! ## The invariant of a store -/

/-- The record an entry is restored from: everything a snapshot keeps, put by someone who may put
    sensitive content. -/
def MemoryEntry.asRecord (e : MemoryEntry) : MemoryRecord :=
  { id := e.id, namespaceName := e.namespaceName, sessionId := e.sessionId, category := e.category
    key := e.key, value := e.content, score := ⟨0⟩, importance := 0
    supersededById := e.supersededById, source := e.source, metadataJson := e.metadataJson
    redactionState := e.redactionState.toInt, contentRef := e.contentRef
    allowSensitiveContent := true }

@[simp] theorem RedactionState.ofInt_toInt (s : RedactionState) :
    RedactionState.ofInt? s.toInt = some s := by cases s <;> rfl

/-- An entry that is named and would be accepted again. -/
structure MemoryEntry.Ok (e : MemoryEntry) : Prop where
  id_ne : e.id ≠ []
  record : e.asRecord.Ok

/-- **The invariant**: one row for each slot, every row acceptable. -/
structure StoreOk (store : MemoryStore) : Prop where
  keyed : Keyed MemoryEntry.slot store
  entries : ∀ e ∈ store, e.Ok

theorem StoreOk.nil : StoreOk [] := ⟨Keyed.nil, fun _ h => absurd h List.not_mem_nil⟩

/-- The entry of an accepted record is acceptable. -/
theorem MemoryRecord.Ok.toEntry {r : MemoryRecord} (hr : r.Ok) {id : Bytes} (hid : id ≠ [])
    (now : Int64) : (r.toEntry id now).Ok :=
  ⟨hid, { hr with
    key_plain := Or.inl rfl
    state := by rw [MemoryEntry.asRecord, RedactionState.ofInt_toInt]; rfl }⟩

theorem redactedText_ok : TextOk redactedText maxContentBytes :=
  ⟨by decide, by decide +kernel⟩

/-- A blanked entry is acceptable: its new content is short ASCII and it has no metadata. -/
theorem MemoryEntry.Ok.blank {e : MemoryEntry} (h : e.Ok) (state : RedactionState) :
    (e.blank state).Ok :=
  ⟨h.id_ne, { h.record with
    state := by rw [MemoryEntry.asRecord, RedactionState.ofInt_toInt]; rfl
    value := redactedText_ok
    metadataJson := ⟨Nat.zero_le _, rfl⟩
    metadata_object := rfl }⟩

/-- A call keeps one row for each slot. -/
theorem storeCall_keyed {store store' : MemoryStore} {call : StoreCall}
    (hs : Keyed MemoryEntry.slot store) (h : storeCall store call = .ok store') :
    Keyed MemoryEntry.slot store' := by
  obtain ⟨env, r, id, now, -, -, -, rfl⟩ | ⟨state, namespaceName, key, rfl⟩ | ⟨p, rfl⟩ :=
    storeCall_cases h
  · exact hs.upsert _
  · exact hs.amend fun _ => rfl
  · exact hs.filter p

/-- **One call keeps the invariant.** -/
theorem storeCall_storeOk {store store' : MemoryStore} {call : StoreCall} (hs : StoreOk store)
    (h : storeCall store call = .ok store') : StoreOk store' where
  keyed := storeCall_keyed hs.keyed h
  entries := storeCall_forall (fun _ _ _ now _ hok hid => hok.toEntry (entryId_ok hid).1 now)
    (fun _ state he => he.blank state) hs.entries h

theorem storeStep_storeOk {store : MemoryStore} (call : StoreCall) (hs : StoreOk store) :
    StoreOk (storeStep store call) := by
  unfold storeStep
  cases h : storeCall store call with
  | error e => exact hs
  | ok store' => exact storeCall_storeOk hs h

/-- **Every reachable store keeps the invariant.** -/
theorem storeAfter_storeOk (calls : List StoreCall) : StoreOk (storeAfter calls) :=
  run_preserves (fun _ call hs => storeStep_storeOk call hs) calls [] StoreOk.nil

/-! ## What a get sees -/

/-- The test of `sc_memory_store_get`, on the record of an entry. -/
theorem get_test_asRecord (namespaceName key : Bytes) (e : MemoryEntry) :
    (namespaceKeyEqual namespaceName key e && e.live) =
      (e.asRecord.namespaceName == namespaceName && e.asRecord.key == key &&
        (e.asRecord.supersededById.isEmpty && e.asRecord.redactionState == 0)) := by
  have hstate : (e.redactionState == .none) = (e.redactionState.toInt == 0) := by
    cases e.redactionState <;> rfl
  simp only [namespaceKeyEqual, MemoryEntry.live, MemoryEntry.asRecord, hstate]

/-- In a table, a get finds the entry that passes its test. -/
theorem storeGet_of_mem {store : MemoryStore} (hk : Keyed MemoryEntry.slot store)
    {namespaceName key : Bytes} (hne : ¬ (namespaceName = [] ∨ key = [])) {e : MemoryEntry}
    (he : e ∈ store) (htest : (namespaceKeyEqual namespaceName key e && e.live) = true) :
    storeGet store namespaceName key = .ok e.content := by
  have hslot : ∀ x, (namespaceKeyEqual namespaceName key x && x.live) = true →
      x.slot = (namespaceName, key) := by
    intro x hx
    simp only [namespaceKeyEqual, Bool.and_eq_true, beq_iff_eq] at hx
    exact Prod.ext hx.1.1 hx.1.2
  rw [storeGet, if_neg hne]
  cases hfind : store.find? fun x => namespaceKeyEqual namespaceName key x && x.live with
  | none => exact absurd htest (List.find?_eq_none.mp hfind e he)
  | some x =>
    have hx := List.find?_some hfind
    have hxe : x = e := hk.eq_of_mem (List.mem_of_find?_eq_some hfind) he
      ((hslot x hx).trans (hslot e htest).symm)
    rw [hxe]

/-- **Gets see records**: tables with the same records, in any order, answer every get alike. -/
theorem storeGet_eq_of_perm {s t : MemoryStore} (hs : Keyed MemoryEntry.slot s)
    (ht : Keyed MemoryEntry.slot t)
    (h : (s.map MemoryEntry.asRecord).Perm (t.map MemoryEntry.asRecord)) (namespaceName key : Bytes) :
    storeGet s namespaceName key = storeGet t namespaceName key := by
  by_cases hne : namespaceName = [] ∨ key = []
  · rw [storeGet, storeGet, if_pos hne, if_pos hne]
  · -- an entry of one table has a partner with the same record in the other
    have hpartner : ∀ {a b : MemoryStore}, (a.map MemoryEntry.asRecord).Perm (b.map MemoryEntry.asRecord) →
        ∀ e ∈ a, (namespaceKeyEqual namespaceName key e && e.live) = true →
        ∃ x ∈ b, (namespaceKeyEqual namespaceName key x && x.live) = true ∧ x.content = e.content := by
      intro a b hab e he htest
      obtain ⟨x, hx, hrecord⟩ := List.mem_map.mp (hab.mem_iff.mp (List.mem_map_of_mem he))
      refine ⟨x, hx, ?_, congrArg MemoryRecord.value hrecord⟩
      rw [get_test_asRecord, hrecord, ← get_test_asRecord]
      exact htest
    cases hfind : s.find? fun x => namespaceKeyEqual namespaceName key x && x.live with
    | some e =>
      have he := List.mem_of_find?_eq_some hfind
      have htest := List.find?_some hfind
      obtain ⟨x, hx, hxtest, hcontent⟩ := hpartner h e he htest
      rw [storeGet_of_mem hs hne he htest, storeGet_of_mem ht hne hx hxtest, hcontent]
    | none =>
      have hnone : t.find? (fun x => namespaceKeyEqual namespaceName key x && x.live) = none := by
        refine List.find?_eq_none.mpr fun x hx hxtest => ?_
        obtain ⟨e, he, htest, -⟩ := hpartner h.symm x hx hxtest
        exact List.find?_eq_none.mp hfind e he htest
      rw [storeGet, storeGet, if_neg hne, if_neg hne, hfind, hnone]

end SmolClaw.Memory
