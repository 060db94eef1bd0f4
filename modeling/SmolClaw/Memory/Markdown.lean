/-
  Memory kept in a Markdown file (`src/memory/markdown_memory.c`).

  1. **Program** — every change rewrites the file: a title, the raw snapshot of the store as JSON inside
     an HTML comment, and a table for human readers.  Opening a file looks for the comment with
     `strstr`, takes what stands before the first ` -->`, and imports it; the table is never read.

  2. **Environment** — the file is a byte string: what was written is what is read.  A handle remembers
     the text `markdown_rewrite` last wrote through it (`written`, `none` while it has only read).

  3. **The defects** — the comment ends at the FIRST ` -->`, and that may stand in a stored string (JSON
     escapes neither blank, dash nor angle bracket); and the query that is called `all_records` leaves
     superseded entries out.

  4. **Result** — `markdown_survives_restart`: in every run whose puts neither supersede nor carry the
     terminator (`StoreCall.Inline`), reopening the file gives back the same entries.
-/
import SmolClaw.Lib.Infix
import SmolClaw.Memory.Snapshot

namespace SmolClaw.Memory

open Lib.Run Lib.Table Lib.Infix

/-! ## Writing the file -/

/-- What `append_markdown_escaped` writes for one byte. -/
def markdownEscapeByte (b : UInt8) : Bytes :=
  if b = chr '\\' ∨ b = chr '|' then [chr '\\', b]
  else if b = chr '\n' then [chr '\\', chr 'n']
  else if b = chr '\r' then [chr '\\', chr 'r']
  else [b]

/-- `append_markdown_escaped` -/
def appendMarkdownEscaped (value : Bytes) : Bytes := value.flatMap markdownEscapeByte

/-- The cells `" | %d | %.6f | %lld | "`, which have to fit a buffer of 96 bytes. -/
def numberCells (e : MemoryEntry) : Res Bytes :=
  let number := str " | " ++ decimalInt e.redactionState.toInt ++ str " | " ++ formatFixed6 e.score ++
    str " | " ++ decimalInt e.importance.toInt ++ str " | "
  if 96 ≤ number.length then Status.io "sc.memory_markdown.format_failed" else .ok number

/-- One row of the table. -/
def markdownRow (e : MemoryEntry) : Res Bytes := do
  let number ← numberCells e
  .ok (str "| " ++ appendMarkdownEscaped e.id ++ str " | " ++ appendMarkdownEscaped e.namespaceName ++
    str " | " ++ appendMarkdownEscaped e.sessionId ++ str " | " ++ appendMarkdownEscaped e.category ++
    str " | " ++ appendMarkdownEscaped e.key ++ str " | " ++ appendMarkdownEscaped e.content ++
    number ++ appendMarkdownEscaped e.supersededById ++ str " |\n")

/-- The loop over the entries. -/
def markdownRows : List MemoryEntry → Res Bytes
  | [] => .ok []
  | e :: rest => do
      let row ← markdownRow e
      let rows ← markdownRows rest
      .ok (row ++ rows)

/-- The query of `markdown_rewrite`. -/
def allRecords : MemoryQuery := { includeRedacted := true, includeDeleted := true }

def markdownTitle : Bytes := str "# SmolClaw memory"
def commentStart : Bytes := str "<!-- sc-memory-snapshot: "
def commentEnd : Bytes := str " -->"

/-- The two header lines of the table. -/
def tableHeader : Bytes :=
  str "| id | namespace | session | category | key | content | redaction | score | importance |" ++
    str " superseded_by |\n" ++ str "|---|---|---|---|---|---|---:|---:|---:|---|\n"

/-- The text `markdown_rewrite` writes. -/
def markdownText (store : MemoryStore) : Res Bytes := do
  let snapshot ← storeExportSnapshot store (some allRecords) rawExport
  let rows ← markdownRows store
  .ok (markdownTitle ++ str "\n\n" ++ (commentStart ++ (snapshot ++ (commentEnd ++
    (str "\n\n" ++ tableHeader ++ rows)))))

/-- `markdown_memory`, and the text last written through it. -/
structure MarkdownMemory where
  store : MemoryStore
  written : Option Bytes
  deriving DecidableEq

/-- `markdown_rewrite` -/
def markdownRewrite (store : MemoryStore) : Res MarkdownMemory := do
  let text ← markdownText store
  .ok { store := store, written := some text }

/-- The body of the five functions that change a memory: change the store, rewrite the file. -/
def markdownChange (changed : Res MemoryStore) : Res MarkdownMemory := do
  let store ← changed
  markdownRewrite store

/-- `markdown_put` -/
def markdownPut (m : MarkdownMemory) (env : PutEnv) (r : MemoryRecord) : Res MarkdownMemory :=
  markdownChange (storePut m.store env r)
/-- `markdown_forget` -/
def markdownForget (m : MarkdownMemory) (namespaceName key : Bytes) : Res MarkdownMemory :=
  markdownChange (storeForget m.store namespaceName key)
/-- `markdown_redact` -/
def markdownRedact (m : MarkdownMemory) (namespaceName key : Bytes) : Res MarkdownMemory :=
  markdownChange (storeRedact m.store namespaceName key)
/-- `markdown_purge_namespace` -/
def markdownPurgeNamespace (m : MarkdownMemory) (namespaceName : Bytes) : Res MarkdownMemory :=
  markdownChange (storePurgeNamespace m.store namespaceName)
/-- `markdown_purge_session` -/
def markdownPurgeSession (m : MarkdownMemory) (namespaceName sessionId : Bytes) :
    Res MarkdownMemory :=
  markdownChange (storePurgeSession m.store namespaceName sessionId)

/-- One call on a memory. -/
def markdownCall (m : MarkdownMemory) : StoreCall → Res MarkdownMemory
  | .put env record => markdownPut m env record
  | .forget namespaceName key => markdownForget m namespaceName key
  | .redact namespaceName key => markdownRedact m namespaceName key
  | .purgeNamespace namespaceName => markdownPurgeNamespace m namespaceName
  | .purgeSession namespaceName sessionId => markdownPurgeSession m namespaceName sessionId

/-! ## Reading the file -/

/-- `find_snapshot_comment`: both searches are `strstr`, which stops at the first NUL of the file. -/
def findSnapshotComment (text : Bytes) : Option Bytes :=
  match firstInfix commentStart (text.takeWhile (· != 0)) with
  | none => none
  | some (_, rest) => (firstInfix commentEnd (rest.drop commentStart.length)).map Prod.fst

/-- `markdown_load`, with the bytes of the file (`none` when there is no file). -/
def markdownLoad (env : Nat → PutEnv) (file : Option Bytes) : Res MarkdownMemory :=
  match file with
  | none => markdownRewrite []
  | some text =>
      if importMaxBytes < text.length then
        Status.invalidArgument "sc.memory_markdown.file_too_large"
      else if text = [] then markdownRewrite []
      else
        match findSnapshotComment text with
        | some snapshot => do
            let store ← storeImportSnapshot [] env snapshot allowSecrets
            .ok { store := store, written := none }
        | none =>
            if text.take markdownTitle.length = markdownTitle then markdownRewrite []
            else Status.parse "sc.memory_markdown.snapshot_missing"

/-- `sc_memory_markdown_open` -/
def markdownOpen (env : Nat → PutEnv) (path : Bytes) (file : Option Bytes) : Res MarkdownMemory :=
  if path = [] then Status.invalidArgument "sc.memory_markdown.invalid_argument"
  else markdownLoad env file

/-! ## Specification -/

/-- The strings of an entry that the comment holds. -/
def MemoryEntry.texts (e : MemoryEntry) : List Bytes :=
  [e.id, e.namespaceName, e.sessionId, e.category, e.key, e.content, e.metadataJson, e.source,
    e.contentRef, e.supersededById]

/-- The strings of a record. -/
def MemoryRecord.texts (r : MemoryRecord) : List Bytes :=
  [r.id, r.namespaceName, r.sessionId, r.category, r.key, r.value, r.metadataJson, r.source,
    r.contentRef, r.supersededById]

/-- An entry the file can hold: not superseded, and without the comment's terminator. -/
structure MemoryEntry.Inline (e : MemoryEntry) : Prop where
  current : e.supersededById = []
  texts : ∀ s ∈ e.texts, Free commentEnd s

/-- A put of such a record; every other call. -/
def StoreCall.Inline : StoreCall → Prop
  | .put _ r => r.supersededById = [] ∧ ∀ s ∈ r.texts, Free commentEnd s
  | _ => True

/-- A put whose strings are valid UTF-8 (the ones the record check does not look at). -/
def StoreCall.Utf8 : StoreCall → Prop
  | .put _ r => strIsValidUtf8 r.id = true ∧ strIsValidUtf8 r.supersededById = true ∧
      strIsValidUtf8 r.contentRef = true
  | _ => True

/-- **Surviving a restart**: when the text last written is within the limits, opening it succeeds and
    gives back the same entries, so that every get answers as before. -/
def Survives (m : MarkdownMemory) : Prop :=
  ∀ text, m.written = some text → text.length ≤ importMaxBytes →
    m.store.length ≤ importMaxRecords →
    ∀ (env : Nat → PutEnv) (path : Bytes), (∀ i, ∃ now, (env i).clock = .ok now) → path ≠ [] →
      ∃ m', markdownOpen env path (some text) = .ok m' ∧
        (m'.store.map MemoryEntry.asRecord).Perm (m.store.map MemoryEntry.asRecord) ∧
        ∀ namespaceName key, storeGet m'.store namespaceName key = storeGet m.store namespaceName key

/-! ## The comment is found whole -/

/-- A needle that stays away from the keys, the states and the strings of the entries stays away from
    the snapshot, and from what is written right behind it. -/
theorem snapshotText_free {needle : Bytes} (hne : needle ≠ [])
    (hpunct : ∀ c ∈ jsonPunctuation, c ∉ needle)
    (hkeys : ∀ key ∈ ["id", "namespace", "session_id", "category", "key", "content", "metadata",
      "source", "content_ref", "superseded_by", "redaction_state"],
      Free needle ((str key).flatMap jsonEscapeByte))
    (hstate : ∀ state : RedactionState, Free needle (decimalInt state.toInt))
    {es : List MemoryEntry}
    (htexts : ∀ e ∈ es, ∀ s ∈ e.texts, Free needle (s.flatMap jsonEscapeByte)) {rest : Bytes}
    (hrest : Free needle rest) : Free needle (snapshotText rawExport es ++ rest) := by
  refine free_arrayText hne hpunct ?_ hrest
  intro t ht
  obtain ⟨e, he, rfl⟩ := List.mem_map.mp ht
  rw [appendEntryJson_raw]
  apply free_objectText hne hpunct
  have htext : ∀ s ∈ e.texts, Free needle (appendJsonString s) := fun s hs =>
    free_quoted hne hpunct (htexts e he s hs)
  intro m hm
  simp only [entryMembers, List.mem_cons, List.not_mem_nil, or_false] at hm
  rcases hm with rfl | rfl | rfl | rfl | rfl | rfl | rfl | rfl | rfl | rfl | rfl
  · exact ⟨hkeys "id" (by simp), htext _ (by simp [MemoryEntry.texts])⟩
  · exact ⟨hkeys "namespace" (by simp), htext _ (by simp [MemoryEntry.texts])⟩
  · exact ⟨hkeys "session_id" (by simp), htext _ (by simp [MemoryEntry.texts])⟩
  · exact ⟨hkeys "category" (by simp), htext _ (by simp [MemoryEntry.texts])⟩
  · exact ⟨hkeys "key" (by simp), htext _ (by simp [MemoryEntry.texts])⟩
  · exact ⟨hkeys "content" (by simp), htext _ (by simp [MemoryEntry.texts])⟩
  · exact ⟨hkeys "metadata" (by simp), htext _ (by simp [MemoryEntry.texts])⟩
  · exact ⟨hkeys "source" (by simp), htext _ (by simp [MemoryEntry.texts])⟩
  · exact ⟨hkeys "content_ref" (by simp), htext _ (by simp [MemoryEntry.texts])⟩
  · exact ⟨hkeys "superseded_by" (by simp), htext _ (by simp [MemoryEntry.texts])⟩
  · exact ⟨hkeys "redaction_state" (by simp), hstate e.redactionState⟩

/-- The escapes are made of bytes the terminator does not have. -/
theorem jsonEscapeByte_commentEnd (b : UInt8) :
    jsonEscapeByte b = [b] ∨ (jsonEscapeByte b ≠ [] ∧ ∀ x ∈ jsonEscapeByte b, x ∉ commentEnd) := by
  have hbyte : jsonEscapeByte b = [b] ∨ (jsonEscapeByte b ≠ [] ∧
      (jsonEscapeByte b).all (fun x => !commentEnd.contains x) = true) := by
    apply byte_forall (p := fun b => jsonEscapeByte b = [b] ∨ (jsonEscapeByte b ≠ [] ∧
      (jsonEscapeByte b).all (fun x => !commentEnd.contains x) = true))
    decide +kernel
  refine hbyte.imp id fun h => ⟨h.1, fun x hx hmem => ?_⟩
  have hx' := List.all_eq_true.mp h.2 x hx
  rw [List.contains_iff_mem.mpr hmem] at hx'
  exact absurd hx' (by decide)

/-- No terminator starts inside the snapshot. -/
theorem snapshotText_commentEnd {es : List MemoryEntry} (hes : ∀ e ∈ es, e.Inline) :
    Free commentEnd (snapshotText rawExport es ++ commentEnd.dropLast) := by
  refine snapshotText_free (by decide) (bytes_forall (by decide)) (by decide) ?_ ?_
    (by decide)
  · intro state
    cases state <;> decide
  · intro e he s hs
    exact Free.flatMap jsonEscapeByte_commentEnd ((hes e he).texts s hs)

theorem jsonEscapeByte_no_nul (b : UInt8) : ∀ x ∈ jsonEscapeByte b, (x != 0) = true :=
  byte_forall_mem (by decide +kernel) b

/-- A NUL is written as an escape, so the snapshot has none. -/
theorem snapshotText_no_nul (es : List MemoryEntry) : (0 : UInt8) ∉ snapshotText rawExport es := by
  have hescape : ∀ s : Bytes, Free [0] (s.flatMap jsonEscapeByte) := by
    intro s
    refine Free.of_not_mem (List.cons_ne_nil _ _) fun x hx => ?_
    obtain ⟨b, -, hb⟩ := List.mem_flatMap.mp hx
    have hx0 := jsonEscapeByte_no_nul b x hb
    rw [List.mem_singleton]
    exact bne_iff_ne.mp hx0
  have hstate : ∀ state : RedactionState, Free [0] (decimalInt state.toInt) := by
    intro state
    cases state <;> decide
  have hfree : Free [0] (snapshotText rawExport es ++ []) :=
    snapshotText_free (List.cons_ne_nil (0 : UInt8) []) (bytes_forall (by decide))
      (fun key _ => hescape (str key)) hstate (fun _ _ s _ => hescape s)
      (Free.nil (List.cons_ne_nil _ _))
  rw [List.append_nil] at hfree
  exact not_mem_of_free hfree

/-- **The comment is found whole.** -/
theorem findSnapshotComment_text {es : List MemoryEntry} (hes : ∀ e ∈ es, e.Inline) (rest : Bytes) :
    findSnapshotComment (markdownTitle ++ str "\n\n" ++ (commentStart ++
      (snapshotText rawExport es ++ (commentEnd ++ rest)))) = some (snapshotText rawExport es) := by
  have htake : ∀ {a : Bytes} (b : Bytes), (0 : UInt8) ∉ a →
      (a ++ b).takeWhile (· != 0) = a ++ b.takeWhile (· != 0) := by
    intro a b ha
    refine List.takeWhile_append_of_pos fun x hx => ?_
    have hx0 : x ≠ 0 := by
      rintro rfl
      exact ha hx
    simpa using hx0
  -- the comment does not start earlier, and its terminator does not stand in the snapshot
  have hstart : Free commentStart (markdownTitle ++ str "\n\n" ++ commentStart.dropLast) := by
    decide
  rw [findSnapshotComment, htake _ (by decide), htake _ (by decide),
    htake _ (snapshotText_no_nul es), htake _ (by decide),
    firstInfix_append (by decide) hstart]
  show (firstInfix commentEnd (List.drop commentStart.length (commentStart ++ _))).map Prod.fst = _
  rw [List.drop_left, firstInfix_append (by decide) (snapshotText_commentEnd hes)]
  rfl

/-! ## Reopening what was written -/

/-- The query of `markdown_rewrite` finds every entry that is not superseded. -/
theorem storeSearch_allRecords {store : MemoryStore} (h : ∀ e ∈ store, e.Inline) :
    storeSearch store (some allRecords) = .ok (sortEntries store) := by
  refine storeSearch_all rfl (fun e he => ?_) ⟨fun _ h => (nomatch h), Or.inl rfl⟩
  simp only [queryMatchesEntry, allRecords, (h e he).current, List.isEmpty_nil, Bool.not_true,
    Bool.not_false, Bool.true_and, Bool.false_and, Bool.true_or, Bool.and_true]

/-- The text of a store that the file can hold, opened again. -/
theorem markdownOpen_text {store : MemoryStore} (hstore : StoreOk store)
    (hinline : ∀ e ∈ store, e.Inline) (hutf8 : ∀ e ∈ store, e.Utf8) {text : Bytes}
    (htext : markdownText store = .ok text) (hbytes : text.length ≤ importMaxBytes)
    (hlen : store.length ≤ importMaxRecords) {env : Nat → PutEnv}
    (hclock : ∀ i, ∃ now, (env i).clock = .ok now) {path : Bytes} (hpath : path ≠ []) :
    ∃ rs, markdownOpen env path (some text) = .ok { store := rs, written := none } ∧
      Keyed MemoryEntry.slot rs ∧
      (rs.map MemoryEntry.asRecord).Perm (store.map MemoryEntry.asRecord) := by
  have hperm := sortEntries_perm store
  have hmem : ∀ e ∈ sortEntries store, e ∈ store := fun _ he => hperm.mem_iff.mp he
  -- the text is the comment with the sorted store, and more behind it
  obtain ⟨rest, rfl⟩ : ∃ rest, text = markdownTitle ++ str "\n\n" ++ (commentStart ++
      (snapshotText rawExport (sortEntries store) ++ (commentEnd ++ rest))) := by
    unfold markdownText at htext
    obtain ⟨snapshot, hsnapshot, htext⟩ := Res.bind_eq_ok.mp htext
    obtain ⟨rows, -, htext⟩ := Res.bind_eq_ok.mp htext
    rw [storeExportSnapshot, storeSearch_allRecords hinline] at hsnapshot
    obtain rfl := Except.ok.inj hsnapshot
    exact ⟨_, (Except.ok.inj htext).symm⟩
  have hshort : (snapshotText rawExport (sortEntries store)).length ≤ importMaxBytes := by
    simp only [List.length_append] at hbytes
    omega
  obtain ⟨rs, himport, hmap⟩ := storeImportSnapshot_snapshotText
    (fun e he => hstore.entries e (hmem e he)) (fun e he => hutf8 e (hmem e he))
    (by rw [hperm.length_eq]; exact hlen) hshort hclock []
  have hkeyed : Keyed MemoryEntry.slot rs := Keyed.of_asRecord hmap (hstore.keyed.perm hperm.symm)
  refine ⟨rs, ?_, hkeyed, by rw [hmap]; exact hperm.map _⟩
  have hne : markdownTitle ++ str "\n\n" ++ (commentStart ++
      (snapshotText rawExport (sortEntries store) ++ (commentEnd ++ rest))) ≠ [] := by
    intro h
    exact absurd (List.append_eq_nil_iff.mp (List.append_eq_nil_iff.mp h).1).1 (by decide)
  rw [load_nil hkeyed] at himport
  rw [markdownOpen, if_neg hpath, markdownLoad]
  show (if _ then _ else _) = _
  rw [if_neg (Nat.not_lt.mpr hbytes), if_neg hne,
    findSnapshotComment_text fun e he => hinline e (hmem e he)]
  show (storeImportSnapshot [] env _ allowSecrets >>= _) = _
  rw [himport]
  rfl

/-! ## Runs -/

/-- The invariant of a memory: its store is one the file can hold, and what was last written is the
    text of that store. -/
structure MarkdownOk (m : MarkdownMemory) : Prop where
  store : StoreOk m.store
  inline : ∀ e ∈ m.store, e.Inline
  utf8 : ∀ e ∈ m.store, e.Utf8
  written : ∀ text, m.written = some text → markdownText m.store = .ok text

/-- **A memory in order survives a restart.** -/
theorem MarkdownOk.survives {m : MarkdownMemory} (h : MarkdownOk m) : Survives m := by
  intro text hwritten hbytes hlen env path hclock hpath
  obtain ⟨rs, hopen, hkeyed, hperm⟩ := markdownOpen_text h.store h.inline h.utf8
    (h.written text hwritten) hbytes hlen hclock hpath
  exact ⟨_, hopen, hperm, storeGet_eq_of_perm hkeyed h.store.keyed hperm⟩

theorem markdownRewrite_ok {store : MemoryStore} {m : MarkdownMemory}
    (h : markdownRewrite store = .ok m) :
    m.store = store ∧ ∀ text, m.written = some text → markdownText m.store = .ok text := by
  unfold markdownRewrite at h
  obtain ⟨text, htext, h⟩ := Res.bind_eq_ok.mp h
  obtain rfl := Except.ok.inj h
  refine ⟨rfl, fun t ht => ?_⟩
  rw [← Option.some.inj ht]
  exact htext

/-- Every call on a memory is the call on its store, and a rewrite. -/
theorem markdownCall_eq (m : MarkdownMemory) (call : StoreCall) :
    markdownCall m call = markdownChange (storeCall m.store call) := by
  cases call <;> rfl

/-- A fresh identifier has no blank, so no terminator. -/
theorem uuidV4_free (random : Vector UInt8 16) : Free commentEnd (uuidV4 random) := by
  have hblank : ∀ c : UInt8, isUuidByte c = true → c ≠ chr ' ' := by
    rintro c hc rfl
    exact absurd hc (by decide)
  intro h
  exact hblank _ (uuidV4_isUuidByte random _ (h.subset (by decide))) rfl

/-- The entry of an inline record is inline. -/
theorem toEntry_inline {env : PutEnv} {r : MemoryRecord} {id : Bytes} (now : Int64)
    (hr : (StoreCall.put env r).Inline) (hid : entryId env r = .ok id) : (r.toEntry id now).Inline := by
  refine ⟨hr.1, ?_⟩
  intro s hs
  rcases List.mem_cons.mp hs with hs | hs
  -- the id is the record's or a fresh one; every other text is the record's
  · rw [show s = id from hs]
    rcases (entryId_ok hid).2 with hown | ⟨random, hfresh⟩
    · rw [hown]
      exact hr.2 r.id List.mem_cons_self
    · rw [hfresh]
      exact uuidV4_free random
  · exact hr.2 s (List.mem_cons_of_mem _ hs)

theorem toEntry_utf8 {env : PutEnv} {r : MemoryRecord} {id : Bytes} (now : Int64)
    (hr : (StoreCall.put env r).Utf8) (hid : entryId env r = .ok id) : (r.toEntry id now).Utf8 := by
  refine ⟨?_, hr.2.1, hr.2.2⟩
  show strIsValidUtf8 id = true
  rcases (entryId_ok hid).2 with hown | ⟨random, hfresh⟩
  · rw [hown]
    exact hr.1
  · rw [hfresh]
    exact uuidV4_utf8 random

/-- Blanking an entry leaves it inline. -/
theorem MemoryEntry.Inline.blank {e : MemoryEntry} (h : e.Inline) (state : RedactionState) :
    (e.blank state).Inline := by
  refine ⟨h.current, ?_⟩
  have hredacted : Free commentEnd redactedText := by decide
  have hempty : Free commentEnd [] := by decide
  intro s hs
  simp only [MemoryEntry.texts, MemoryEntry.blank, List.mem_cons, List.not_mem_nil, or_false] at hs
  rcases hs with rfl | rfl | rfl | rfl | rfl | rfl | rfl | rfl | rfl | rfl
  · exact h.texts e.id (by simp [MemoryEntry.texts])
  · exact h.texts e.namespaceName (by simp [MemoryEntry.texts])
  · exact h.texts e.sessionId (by simp [MemoryEntry.texts])
  · exact h.texts e.category (by simp [MemoryEntry.texts])
  · exact h.texts e.key (by simp [MemoryEntry.texts])
  · exact hredacted
  · exact hempty
  · exact h.texts e.source (by simp [MemoryEntry.texts])
  · exact h.texts e.contentRef (by simp [MemoryEntry.texts])
  · exact h.texts e.supersededById (by simp [MemoryEntry.texts])

/-- **One call keeps a memory in order.** -/
theorem markdownCall_ok {m m' : MarkdownMemory} {call : StoreCall} (hinline : call.Inline)
    (hutf8 : call.Utf8) (hm : MarkdownOk m) (h : markdownCall m call = .ok m') : MarkdownOk m' := by
  rw [markdownCall_eq, markdownChange] at h
  obtain ⟨store, hcall, h⟩ := Res.bind_eq_ok.mp h
  obtain ⟨hstore, hwritten⟩ := markdownRewrite_ok h
  refine ⟨?_, ?_, ?_, hwritten⟩
  · rw [hstore]
    exact storeCall_storeOk hm.store hcall
  · rw [hstore]
    refine storeCall_forall ?_ (fun _ state he => he.blank state) hm.inline hcall
    intro env r id now hput _ hid
    subst hput
    exact toEntry_inline now hinline hid
  · rw [hstore]
    refine storeCall_forall ?_ (fun _ _ he => ⟨he.id, he.supersededById, he.contentRef⟩) hm.utf8 hcall
    intro env r id now hput _ hid
    subst hput
    exact toEntry_utf8 now hutf8 hid

/-- An import puts record by record, so it keeps the invariant of the store. -/
theorem importLoop_storeOk {env : Nat → PutEnv} {allow : Bool} :
    ∀ (objects : List Json) (i : Nat) {store store' : MemoryStore}, StoreOk store →
      importLoop env allow i store objects = .ok store' → StoreOk store' := by
  intro objects
  induction objects with
  | nil => intro i store store' hs h; rw [← Except.ok.inj h]; exact hs
  | cons object rest ih =>
    intro i store store' hs h
    rw [importLoop] at h
    obtain ⟨next, hnext, h⟩ := Res.bind_eq_ok.mp h
    unfold hydrateStoreEntry at hnext
    obtain ⟨record, -, hput⟩ := Res.bind_eq_ok.mp hnext
    have hcall : storeCall store (.put (env i) record) = .ok next := hput
    exact ih (i + 1) (storeCall_storeOk hs hcall) h

theorem storeImportSnapshot_storeOk {env : Nat → PutEnv} {snapshot : Bytes}
    {options : Option ImportOptions} {store store' : MemoryStore} (hs : StoreOk store)
    (h : storeImportSnapshot store env snapshot options = .ok store') : StoreOk store' := by
  unfold storeImportSnapshot at h
  dsimp only at h
  split at h
  · exact absurd h (Status.invalidArgument_ne_ok _ _)
  · split at h
    · exact absurd h (Status.invalidArgument_ne_ok _ _)
    · split at h
      · exact nomatch h
      · split at h
        · exact absurd h (Status.invalidArgument_ne_ok _ _)
        · exact importLoop_storeOk _ 0 hs h
      · exact absurd h (Status.parse_ne_ok _ _)

/-- What opening gives: a store that keeps the invariant, and, if something was written, its text. -/
theorem markdownOpen_ok {env : Nat → PutEnv} {path : Bytes} {file : Option Bytes}
    {m : MarkdownMemory} (h : markdownOpen env path file = .ok m) :
    StoreOk m.store ∧ ∀ text, m.written = some text → markdownText m.store = .ok text := by
  have hrewrite : markdownRewrite [] = .ok m →
      StoreOk m.store ∧ ∀ text, m.written = some text → markdownText m.store = .ok text := by
    intro h
    obtain ⟨hstore, hwritten⟩ := markdownRewrite_ok h
    exact ⟨by rw [hstore]; exact StoreOk.nil, hwritten⟩
  unfold markdownOpen markdownLoad at h
  split at h
  · exact absurd h (Status.invalidArgument_ne_ok _ _)
  · split at h
    · exact hrewrite h
    · split at h
      · exact absurd h (Status.invalidArgument_ne_ok _ _)
      · split at h
        · exact hrewrite h
        · split at h
          · obtain ⟨store, himport, h⟩ := Res.bind_eq_ok.mp h
            obtain rfl := Except.ok.inj h
            exact ⟨storeImportSnapshot_storeOk StoreOk.nil himport, fun _ h => absurd h.symm (Option.some_ne_none _)⟩
          · split at h
            · exact hrewrite h
            · exact absurd h (Status.parse_ne_ok _ _)

/-- **Markdown memory survives a restart**, after every run whose puts neither supersede nor carry the
    comment's terminator, on a memory opened from a file of such entries (or from no file). -/
theorem markdown_survives_restart (env : Nat → PutEnv) (path : Bytes) (file : Option Bytes)
    (opened : MarkdownMemory) (hopen : markdownOpen env path file = .ok opened)
    (hinline : ∀ e ∈ opened.store, e.Inline) (hutf8 : ∀ e ∈ opened.store, e.Utf8)
    (calls : List StoreCall) (hcalls : ∀ c ∈ calls, c.Inline) (hcalls8 : ∀ c ∈ calls, c.Utf8)
    (m : MarkdownMemory) (hrun : runOk markdownCall opened calls = .ok m) : Survives m := by
  obtain ⟨hstore, hwritten⟩ := markdownOpen_ok hopen
  have hopened : MarkdownOk opened := ⟨hstore, hinline, hutf8, hwritten⟩
  have hm : MarkdownOk m := runOk_invariant_of_mem
    (fun c hc s s' hs h => markdownCall_ok (hcalls c hc) (hcalls8 c hc) hs h) hopened hrun
  exact hm.survives

/-- The memory a new file gives. -/
def newMemory : MarkdownMemory :=
  (markdownOpen steadyEnv (str "m.md") none).toOption.getD { store := [], written := none }

/-- A new memory after some calls. -/
def memoryAfter (calls : List StoreCall) : MarkdownMemory :=
  (runOk markdownCall newMemory calls).toOption.getD newMemory

/-- Two entries, one of them forgotten. -/
def inlineCalls : List StoreCall :=
  [ samplePut (str "n") (str "k") (str "a -- b | c") [], samplePut (str "n") (str "old") (str "x") [],
    .forget (str "n") (str "old") ]

theorem markdown_survives_sample :
    markdownOpen steadyEnv (str "m.md") none = .ok newMemory ∧
      runOk markdownCall newMemory inlineCalls = .ok (memoryAfter inlineCalls) ∧
      (memoryAfter inlineCalls).store.length = 2 ∧ Survives (memoryAfter inlineCalls) := by
  have hrun : newMemory.store = [] ∧ markdownOpen steadyEnv (str "m.md") none = .ok newMemory ∧
      runOk markdownCall newMemory inlineCalls = .ok (memoryAfter inlineCalls) ∧
      (memoryAfter inlineCalls).store.length = 2 := by
    decide +kernel
  obtain ⟨hempty, hopen, hrun, hlen⟩ := hrun
  have hfree : ∀ s ∈ [[], str "n", str "s", str "k", str "a -- b | c", str "old", str "x"],
      Free commentEnd s := by
    decide
  have hput : ∀ key content : Bytes, Free commentEnd key → Free commentEnd content →
      (samplePut (str "n") key content []).Inline ∧ (samplePut (str "n") key content []).Utf8 := by
    intro key content hkey hcontent
    refine ⟨⟨rfl, fun s hs => ?_⟩, rfl, rfl, rfl⟩
    simp only [MemoryRecord.texts, List.mem_cons, List.not_mem_nil, or_false] at hs
    rcases hs with rfl | rfl | rfl | rfl | rfl | rfl | rfl | rfl | rfl | rfl
    all_goals first
      | exact hkey
      | exact hcontent
      | exact hfree _ (by simp)
  have hcalls : ∀ c ∈ inlineCalls, c.Inline ∧ c.Utf8 := by
    intro c hc
    simp only [inlineCalls, List.mem_cons, List.not_mem_nil, or_false] at hc
    rcases hc with rfl | rfl | rfl
    · exact hput _ _ (hfree _ (by simp)) (hfree _ (by simp))
    · exact hput _ _ (hfree _ (by simp)) (hfree _ (by simp))
    · exact ⟨trivial, trivial⟩
  refine ⟨hopen, hrun, hlen, ?_⟩
  exact markdown_survives_restart steadyEnv (str "m.md") none newMemory hopen
    (by rw [hempty]; exact fun _ h => absurd h List.not_mem_nil)
    (by rw [hempty]; exact fun _ h => absurd h List.not_mem_nil) inlineCalls
    (fun c hc => (hcalls c hc).1) (fun c hc => (hcalls c hc).2) _ hrun

/-- A put of a record that names its successor. -/
def supersededPut : StoreCall := samplePut (str "n") (str "k") (str "v") (str "x")

/-- A record that names its successor is gone after a restart: the store had one entry, the reopened
    one has none. -/
theorem superseded_entry_lost :
    ¬ ∀ (env : Nat → PutEnv) (path : Bytes) (file : Option Bytes) (opened m : MarkdownMemory)
      (calls : List StoreCall), markdownOpen env path file = .ok opened →
      (∀ e ∈ opened.store, e.Utf8) → (∀ c ∈ calls, c.Utf8) →
      runOk markdownCall opened calls = .ok m → Survives m := by
  intro h
  -- the run, the text it writes, and what opening that text gives
  have hrun : newMemory.store = [] ∧ markdownOpen steadyEnv (str "m.md") none = .ok newMemory ∧
      runOk markdownCall newMemory [supersededPut] = .ok (memoryAfter [supersededPut]) ∧
      (memoryAfter [supersededPut]).store.length = 1 ∧
      ∃ text ∈ (memoryAfter [supersededPut]).written, text.length ≤ importMaxBytes ∧
        ∀ m' ∈ (markdownOpen steadyEnv (str "m.md") (some text)).toOption, m'.store.length = 0 := by
    decide +kernel
  obtain ⟨hempty, hopen, hrun, hone, text, htext, hbytes, hlost⟩ := hrun
  have hutf8 : strIsValidUtf8 (str "x") = true := by decide
  have hsurvives := h steadyEnv (str "m.md") none newMemory (memoryAfter [supersededPut])
    [supersededPut] hopen (by rw [hempty]; exact fun _ h => absurd h List.not_mem_nil)
    (by
      intro c hc
      rw [List.mem_singleton.mp hc]
      exact ⟨rfl, hutf8, rfl⟩)
    hrun
  obtain ⟨m', hreopen, hperm, -⟩ := hsurvives text htext hbytes
    (by rw [hone]; decide) steadyEnv (str "m.md") (fun _ => ⟨11, rfl⟩) (by decide)
  have hlen := hperm.length_eq
  rw [List.length_map, List.length_map, hlost m' (by rw [hreopen]; rfl), hone] at hlen
  exact absurd hlen (by decide)

end SmolClaw.Memory
