/-
  Media attachments and their temporary files: `sc_media_attachment_from_bytes`,
  `sc_media_attachment_store_temp`, `sc_media_attachment_cleanup` and `sc_media_attachment_clear`
  (`src/media/media.c`).

  1. **Program** — an attachment is built from bytes, may be stored in a new file of the mode 0600, and
     is cleared; a flag on it says that the file is temporary.

  2. **World** — the files these calls have created and not removed, by the path that `open` and `unlink`
     are given, which ends at a zero.  Every call to the system may fail: what `open`, each `write`,
     `close` and `unlink` return is an input of the call.

  3. **Result** — `files_follow_iff`: along a run of the four calls the files are the ones of the
     temporary attachments, and a failed store changes nothing, exactly if no `write` or `close` fails
     and no `unlink` fails for an attachment that is cleared.  Otherwise a file is left that no
     attachment knows of.
-/
import SmolClaw.Lib.Ownership
import SmolClaw.Lib.Run
import SmolClaw.Core.Text

namespace SmolClaw.Media

open Lib.Ownership Lib.Run

/-! ## Attachments -/

/-- `sc_media_storage_kind` -/
inductive StorageKind where
  | none
  | bytes
  | path
  deriving DecidableEq, Repr

/-- `sc_media_attachment`; the texts it owns are the ones it shows. -/
structure Attachment where
  attachmentId : Bytes := []
  contentType : Bytes := []
  filename : Bytes := []
  sizeBytes : Nat := 0
  storageKind : StorageKind := .none
  storagePath : Bytes := []
  bytes : Bytes := []
  hash : Bytes := []
  safetyFlags : Nat := 0
  redacted : Bool := false
  temporary : Bool := false
  deriving DecidableEq, Repr

/-- `sc_media_limits` -/
structure Limits where
  maxBytes : Nat := 0
  cancelRequested : Bool := false
  timeoutElapsed : Bool := false
  allowedContentTypes : List Bytes := []

/-- `ensure_not_cancelled_or_timed_out` -/
def ensureNotCancelledOrTimedOut (cancelled timedOut : Bool) : Res Unit :=
  if cancelled then Status.cancelled "sc.media.cancelled"
  else if timedOut then Status.timeout "sc.media.timeout"
  else .ok ()

/-- The types `content_type_allowed` takes without limits. -/
def defaultContentTypes : List Bytes :=
  [str "text/plain", str "audio/wav", str "audio/x-wav", str "audio/mpeg", str "audio/ogg",
    str "audio/opus", str "audio/webm", str "audio/mp4", str "audio/flac", str "audio/aac",
    str "image/png", str "image/jpeg"]

/-- `content_type_allowed` -/
def contentTypeAllowed (contentType : Bytes) (limits : Option Limits) : Bool :=
  match limits with
  | some limits =>
      if limits.allowedContentTypes ≠ [] then limits.allowedContentTypes.contains contentType
      else defaultContentTypes.contains contentType
  | none => defaultContentTypes.contains contentType

/-- `attachment_size` -/
def attachmentSize (attachment : Attachment) : Nat :=
  if 0 < attachment.sizeBytes then attachment.sizeBytes
  else if attachment.storageKind = .bytes then attachment.bytes.length
  else 0

/-- `sc_media_attachment_validate` -/
def validate (attachment : Attachment) (limits : Option Limits) : Res Unit := do
  ensureNotCancelledOrTimedOut (limits.any Limits.cancelRequested) (limits.any Limits.timeoutElapsed)
  let size := attachmentSize attachment
  let maxBytes := (limits.map Limits.maxBytes).getD 0
  if attachment.contentType = [] then Status.unsupported "sc.media.content_type.missing"
  else if !contentTypeAllowed attachment.contentType limits then
    Status.unsupported "sc.media.content_type.unsupported"
  else if size = 0 then Status.invalidArgument "sc.media.attachment.empty"
  else if 0 < maxBytes ∧ maxBytes < size then Status.securityDenied "sc.media.attachment.too_large"
  else if attachment.storageKind = .bytes ∧ attachment.bytes = [] then
    Status.invalidArgument "sc.media.attachment.invalid_bytes"
  else if attachment.storageKind = .path ∧ attachment.storagePath = [] then
    Status.invalidArgument "sc.media.attachment.invalid_path"
  else .ok ()

/-- `sc_media_hash_bytes`: FNV-1a, and its sixteen digits. -/
def hashBytes (bytes : Bytes) : Bytes :=
  let hash := bytes.foldl (fun (hash : UInt64) b => (hash ^^^ b.toUInt64) * 1099511628211) 1469598103934665603
  bin2hex ((List.range 8).map fun k => (hash >>> UInt64.ofNat (8 * (7 - k))).toUInt8)

/-- `sc_media_attachment_from_bytes`; `uuid` is what `sc_uuid_v4` gives. -/
def fromBytes (uuid : Res Bytes) (input : Attachment) (limits : Option Limits) : Res Attachment := do
  let attachmentId ← (if input.attachmentId = [] then uuid else .ok input.attachmentId)
  let attachment : Attachment := {
    attachmentId := attachmentId
    contentType := input.contentType
    filename := input.filename
    sizeBytes := input.bytes.length
    storageKind := .bytes
    bytes := input.bytes
    hash := if input.hash ≠ [] then input.hash else hashBytes input.bytes
    safetyFlags := input.safetyFlags
    redacted := input.redacted }
  validate attachment limits
  .ok attachment

/-! ## Files -/

/-- The files: a path and what is in the file. -/
abbrev Files := List (Bytes × Bytes)

/-- What `open` and `unlink` see of a path. -/
def pathOf (path : Bytes) : Bytes := path.takeWhile (· ≠ 0)

/-- What the system answers while a file is written: whether `open` succeeds on a path that is free, what
    each `write` takes (0 for a failed one, everything once the list is over), and whether `close`
    succeeds. -/
structure WriteOutcome where
  opens : Bool := true
  writes : List Nat := []
  closes : Bool := true

/-- The loop of `write_all_to_file`: what the file holds after it, and whether that is everything. -/
def writeLoop : List Nat → Bytes → Bytes × Bool
  | _, [] => ([], true)
  | [], bytes => (bytes, true)
  | 0 :: _, _ :: _ => ([], false)
  | (taken + 1) :: writes, b :: bytes =>
      let rest := writeLoop writes (bytes.drop taken)
      (b :: bytes.take taken ++ rest.1, rest.2)

/-- `write_all_to_file` -/
def writeAllToFile (files : Files) (path bytes : Bytes) (outcome : WriteOutcome) : Files × Res Unit :=
  if !outcome.opens ∨ pathOf path ∈ files.map Prod.fst then
    (files, Status.io "sc.media.temp.open_failed")
  else
    let written := writeLoop outcome.writes bytes
    let after := (pathOf path, written.1) :: files
    if !written.2 then (after, Status.io "sc.media.temp.write_failed")
    else if !outcome.closes then (after, Status.io "sc.media.temp.close_failed")
    else (after, .ok ())

/-- A byte that `media_id_is_path_safe` takes. -/
def pathSafeByte (c : UInt8) : Bool :=
  (chr 'a' ≤ c && c ≤ chr 'z') || (chr 'A' ≤ c && c ≤ chr 'Z') || (chr '0' ≤ c && c ≤ chr '9') ||
    c == chr '-' || c == chr '_'

/-- `media_id_is_path_safe` -/
def mediaIdIsPathSafe (id : Bytes) : Bool := !id.isEmpty && id.all pathSafeByte

/-- `build_temp_path` -/
def buildTempPath (tempDir id : Bytes) : Bytes :=
  tempDir ++ (if tempDir.getLast? = some (chr '/') then [] else str "/") ++ str "sc-media-" ++ id ++
    str ".bin"

/-- `sc_media_attachment_store_temp` -/
def storeTemp (files : Files) (attachment : Attachment) (tempDir : Bytes) (outcome : WriteOutcome) :
    Files × Attachment × Res Unit :=
  if tempDir = [] then (files, attachment, Status.invalidArgument "sc.media.temp.invalid_argument")
  else if attachment.storageKind ≠ .bytes ∨ attachment.bytes = [] then
    (files, attachment, Status.invalidArgument "sc.media.temp.invalid_bytes")
  else if !mediaIdIsPathSafe attachment.attachmentId then
    (files, attachment, Status.securityDenied "sc.media.temp.unsafe_id")
  else
    let path := buildTempPath tempDir attachment.attachmentId
    match writeAllToFile files path attachment.bytes outcome with
    | (files, .error e) => (files, attachment, .error e)
    | (files, .ok ()) =>
        (files, { attachment with storagePath := path, storageKind := .path, temporary := true }, .ok ())

/-- `unlink`, and whether it succeeds. -/
def unlink (files : Files) (path : Bytes) (succeeds : Bool) : Files :=
  if succeeds then files.filter fun file => file.1 ≠ pathOf path else files

/-- `sc_media_attachment_cleanup` -/
def cleanup (files : Files) (attachment : Attachment) (unlinks : Bool) : Files × Attachment × Res Unit :=
  if !attachment.temporary ∨ attachment.storagePath = [] then (files, attachment, .ok ())
  else if !unlinks then (files, attachment, Status.io "sc.media.cleanup.unlink_failed")
  else (unlink files attachment.storagePath true, { attachment with temporary := false }, .ok ())

/-- `sc_media_attachment_clear` -/
def clear (files : Files) (attachment : Attachment) (unlinks : Bool) : Files × Attachment :=
  if attachment.temporary ∧ attachment.storagePath ≠ [] then
    (unlink files attachment.storagePath unlinks, {})
  else (files, {})

/-! ## Runs -/

/-- The calls, each with the answers of the system. -/
inductive Op (ι : Type) where
  | fromBytes (i : ι) (uuid : Res Bytes) (input : Attachment) (limits : Option Limits)
  | storeTemp (i : ι) (tempDir : Bytes) (outcome : WriteOutcome)
  | cleanup (i : ι) (unlinks : Bool)
  | clear (i : ι) (unlinks : Bool)

/-- The files these calls have created and not removed, and the attachments. -/
structure State (ι : Type) where
  files : Files := []
  attachments : ι → Attachment := fun _ => {}

variable {ι : Type} [DecidableEq ι]

/-- Other files, and another value of one attachment. -/
def State.put (s : State ι) (i : ι) (files : Files) (attachment : Attachment) : State ι :=
  { files := files, attachments := Function.update s.attachments i attachment }

/-- The state after a call, successful or not. -/
def applyOp (s : State ι) : Op ι → State ι
  | .fromBytes i uuid input limits =>
      match fromBytes uuid input limits with
      | .error _ => s
      | .ok attachment => s.put i s.files attachment
  | .storeTemp i tempDir outcome =>
      let after := storeTemp s.files (s.attachments i) tempDir outcome
      s.put i after.1 after.2.1
  | .cleanup i unlinks =>
      let after := cleanup s.files (s.attachments i) unlinks
      s.put i after.1 after.2.1
  | .clear i unlinks =>
      let after := clear s.files (s.attachments i) unlinks
      s.put i after.1 after.2

/-- An attachment is built in the place of an empty one. -/
def Legal (s : State ι) : Op ι → Prop
  | .fromBytes i _ _ _ => s.attachments i = {}
  | _ => True

/-- The file an attachment owns: the one of its path, with its bytes, while it is temporary. -/
def Attachment.file (attachment : Attachment) : Option (Bytes × Bytes) :=
  if attachment.temporary then some (pathOf attachment.storagePath, attachment.bytes) else none

/-- **The files are the ones of the temporary attachments**, each with the bytes of its attachment. -/
def Tracked (s : State ι) : Prop := Lib.Ownership.Follows s.files fun i => (s.attachments i).file

/-- A store gets as far as a new file. -/
def Creates (files : Files) (attachment : Attachment) (tempDir : Bytes) (outcome : WriteOutcome) : Prop :=
  (tempDir ≠ [] ∧ attachment.storageKind = .bytes ∧ attachment.bytes ≠ [] ∧
    mediaIdIsPathSafe attachment.attachmentId = true) ∧
  outcome.opens = true ∧ pathOf (buildTempPath tempDir attachment.attachmentId) ∉ files.map Prod.fst

/-- No `write` and no `close` fails. -/
def Completes (bytes : Bytes) (outcome : WriteOutcome) : Prop :=
  (writeLoop outcome.writes bytes).2 = true ∧ outcome.closes = true

/-- What a call must be spared: a `write` or `close` that fails after `open`, and an `unlink` that fails
    when a temporary attachment is cleared. -/
def Kept (s : State ι) : Op ι → Prop
  | .storeTemp i tempDir outcome =>
      Creates s.files (s.attachments i) tempDir outcome → Completes (s.attachments i).bytes outcome
  | .clear i unlinks => (s.attachments i).temporary = true → unlinks = true
  | _ => True

/-! ## What a store does -/

/-- What was written without a failure is everything. -/
theorem writeLoop_whole {writes : List Nat} {bytes : Bytes} (h : (writeLoop writes bytes).2 = true) :
    (writeLoop writes bytes).1 = bytes := by
  induction writes, bytes using writeLoop.induct with
  | case1 writes => rw [writeLoop]
  | case2 bytes hne => rw [writeLoop.eq_def]; cases bytes <;> rfl
  | case3 writes b bytes => cases h
  | case4 taken writes b bytes ih =>
    rw [writeLoop] at h ⊢
    rw [ih h]
    exact congrArg (b :: ·) (List.take_append_drop taken bytes)

/-- **The three ends of a store**: nothing is created; everything is written, and the attachment gets the
    file; or a file is left behind, and the attachment knows nothing of it. -/
theorem storeTemp_cases (files : Files) (attachment : Attachment) (tempDir : Bytes) (outcome : WriteOutcome) :
    (¬ Creates files attachment tempDir outcome ∧
      ∃ e, storeTemp files attachment tempDir outcome = (files, attachment, .error e)) ∨
    (Creates files attachment tempDir outcome ∧ Completes attachment.bytes outcome ∧
      storeTemp files attachment tempDir outcome =
        ((pathOf (buildTempPath tempDir attachment.attachmentId), attachment.bytes) :: files,
          { attachment with
            storagePath := buildTempPath tempDir attachment.attachmentId
            storageKind := .path
            temporary := true }, .ok ())) ∨
    (Creates files attachment tempDir outcome ∧ ¬ Completes attachment.bytes outcome ∧
      ∃ held e, storeTemp files attachment tempDir outcome =
        ((pathOf (buildTempPath tempDir attachment.attachmentId), held) :: files, attachment, .error e)) := by
  rw [storeTemp]
  split
  · next hdir => exact Or.inl ⟨fun h => h.1.1 hdir, _, rfl⟩
  next hdir =>
  split
  · next hkind =>
    refine Or.inl ⟨fun h => ?_, _, rfl⟩
    exact hkind.elim (fun hk => hk h.1.2.1) h.1.2.2.1
  next hkind =>
  split
  · next hid =>
    refine Or.inl ⟨fun h => ?_, _, rfl⟩
    rw [h.1.2.2.2] at hid
    cases hid
  next hid =>
  obtain ⟨hbytes, hne⟩ := not_or.mp hkind
  have hstorable : tempDir ≠ [] ∧ attachment.storageKind = .bytes ∧ attachment.bytes ≠ [] ∧
      mediaIdIsPathSafe attachment.attachmentId = true :=
    ⟨hdir, not_not.mp hbytes, hne, by simpa using hid⟩
  simp only [writeAllToFile]
  by_cases hopen : !outcome.opens ∨
      pathOf (buildTempPath tempDir attachment.attachmentId) ∈ files.map Prod.fst
  · rw [if_pos hopen]
    refine Or.inl ⟨fun h => ?_, _, rfl⟩
    rcases hopen with hopen | htaken
    · rw [h.2.1] at hopen
      cases hopen
    · exact h.2.2 htaken
  · rw [if_neg hopen]
    obtain ⟨hopens, hfree⟩ := not_or.mp hopen
    have hcreates : Creates files attachment tempDir outcome := ⟨hstorable, by simpa using hopens, hfree⟩
    cases hwhole : (writeLoop outcome.writes attachment.bytes).2 with
    | false =>
      refine Or.inr (Or.inr ⟨hcreates, fun h => ?_, _, _, rfl⟩)
      rw [h.1] at hwhole
      cases hwhole
    | true =>
      cases hclose : outcome.closes with
      | false =>
        refine Or.inr (Or.inr ⟨hcreates, fun h => ?_, _, _, rfl⟩)
        rw [h.2] at hclose
        cases hclose
      | true =>
        refine Or.inr (Or.inl ⟨hcreates, ⟨hwhole, hclose⟩, ?_⟩)
        rw [writeLoop_whole hwhole]
        rfl

/-! ## What a step keeps -/

/-- What holds along a run: the files follow the attachments, each file has one of them, and a temporary
    attachment is stored under a path. -/
structure Inv (s : State ι) : Prop where
  owned : Owned s.files fun i => (s.attachments i).file
  stored : ∀ i, (s.attachments i).temporary = true →
    (s.attachments i).storageKind = .path ∧ (s.attachments i).storagePath ≠ []

theorem Attachment.file_temporary {a : Attachment} (h : a.temporary = true) :
    a.file = some (pathOf a.storagePath, a.bytes) := if_pos h

theorem Attachment.file_plain {a : Attachment} (h : a.temporary = false) : a.file = none := by
  rw [Attachment.file, h]
  rfl

/-- The files owned after one attachment has changed. -/
theorem file_put (s : State ι) (i : ι) (files : Files) (a : Attachment) :
    (fun j => ((s.put i files a).attachments j).file) =
      Function.update (fun j => (s.attachments j).file) i a.file := by
  funext j
  show (Function.update s.attachments i a j).file = _
  by_cases hj : j = i
  · rw [hj, Function.update_self, Function.update_self]
  · rw [Function.update_of_ne hj, Function.update_of_ne hj]

/-- Nothing changes when an attachment is put back. -/
theorem put_self (s : State ι) (i : ι) : s.put i s.files (s.attachments i) = s := by
  rw [State.put, Function.update_eq_self]

/-- A state in which the files follow, and the changed attachment is stored if it is temporary. -/
theorem Inv.put {s : State ι} (h : Inv s) {i : ι} {files : Files} {a : Attachment}
    (howned : Owned files (Function.update (fun j => (s.attachments j).file) i a.file))
    (hstored : a.temporary = true → a.storageKind = .path ∧ a.storagePath ≠ []) :
    Inv (s.put i files a) := by
  constructor
  · rw [file_put]
    exact howned
  · intro j
    by_cases hj : j = i
    · have hput : (s.put i files a).attachments j = a := by
        rw [hj]
        exact Function.update_self ..
      rw [hput]
      exact hstored
    · have hput : (s.put i files a).attachments j = s.attachments j := Function.update_of_ne hj ..
      rw [hput]
      exact h.stored j

/-- An attachment without a file is replaced by another one without. -/
theorem Inv.replace {s : State ι} (h : Inv s) {i : ι} (hi : (s.attachments i).temporary = false)
    {a : Attachment} (ha : a.temporary = false) : Inv (s.put i s.files a) := by
  refine h.put ?_ fun htemp => absurd htemp (by rw [ha]; exact Bool.false_ne_true)
  rw [Attachment.file_plain ha, ← Attachment.file_plain hi, Function.update_eq_self]
  exact h.owned

/-- A temporary attachment whose file is removed becomes one without a file. -/
theorem Inv.remove {s : State ι} (h : Inv s) {i : ι} (hi : (s.attachments i).temporary = true)
    {a : Attachment} (ha : a.temporary = false) :
    Inv (s.put i (unlink s.files (s.attachments i).storagePath true) a) := by
  refine h.put ?_ fun htemp => absurd htemp (by rw [ha]; exact Bool.false_ne_true)
  rw [Attachment.file_plain ha]
  exact h.owned.release (Attachment.file_temporary hi)

theorem fromBytes_plain {uuid : Res Bytes} {input a : Attachment} {limits : Option Limits}
    (h : fromBytes uuid input limits = .ok a) : a.temporary = false := by
  rw [fromBytes] at h
  obtain ⟨id, -, h⟩ := Res.bind_eq_ok.mp h
  obtain ⟨u, -, h⟩ := Res.bind_eq_ok.mp h
  obtain rfl := Except.ok.inj h
  rfl

theorem buildTempPath_ne_nil (tempDir id : Bytes) : buildTempPath tempDir id ≠ [] := by
  rw [buildTempPath]
  exact List.append_ne_nil_of_right_ne_nil _ (show str ".bin" ≠ [] by decide)

theorem cleanup_temporary {files : Files} {a : Attachment} (htemp : a.temporary = true)
    (hpath : a.storagePath ≠ []) (unlinks : Bool) :
    cleanup files a unlinks =
      if unlinks then (unlink files a.storagePath true, { a with temporary := false }, .ok ())
      else (files, a, Status.io "sc.media.cleanup.unlink_failed") := by
  rw [cleanup, if_neg (by rw [htemp]; simp [hpath])]
  cases unlinks <;> rfl

/-- **A step keeps the invariant** unless it loses a file. -/
theorem applyOp_inv {s : State ι} (h : Inv s) {op : Op ι} (hlegal : Legal s op) (hkept : Kept s op) :
    Inv (applyOp s op) := by
  cases op with
  | fromBytes i uuid input limits =>
    rw [applyOp]
    cases hnew : fromBytes uuid input limits with
    | error e => exact h
    | ok a => exact h.replace (by rw [hlegal]) (fromBytes_plain hnew)
  | storeTemp i tempDir outcome =>
    rw [applyOp]
    rcases storeTemp_cases s.files (s.attachments i) tempDir outcome with
      ⟨-, e, hnone⟩ | ⟨hcreates, -, hdone⟩ | ⟨hcreates, hfails, -⟩
    · simp only [hnone, put_self]
      exact h
    · have hplain : (s.attachments i).temporary = false := by
        rw [← Bool.not_eq_true]
        intro htemp
        have hkind := hcreates.1.2.1
        rw [(h.stored i htemp).1] at hkind
        cases hkind
      simp only [hdone]
      refine h.put (h.owned.create (Attachment.file_plain hplain) hcreates.2.2 _) fun _ => ⟨rfl, ?_⟩
      exact buildTempPath_ne_nil tempDir _
    · exact absurd (hkept hcreates) hfails
  | cleanup i unlinks =>
    rw [applyOp]
    cases htemp : (s.attachments i).temporary with
    | false =>
      rw [cleanup, if_pos (by rw [htemp]; exact Or.inl rfl)]
      simp only [put_self]
      exact h
    | true =>
      rw [cleanup_temporary htemp (h.stored i htemp).2]
      cases unlinks with
      | false =>
        simp only [Bool.false_eq_true, if_false, put_self]
        exact h
      | true => exact h.remove htemp rfl
  | clear i unlinks =>
    rw [applyOp, clear]
    cases htemp : (s.attachments i).temporary with
    | false => exact h.replace htemp rfl
    | true =>
      rw [hkept htemp, if_pos ⟨rfl, (h.stored i htemp).2⟩]
      exact h.remove htemp rfl

/-- **A step that loses a file** leaves one that no attachment knows of. -/
theorem kept_of_tracked {s : State ι} (h : Inv s) {op : Op ι} (htracked : Tracked (applyOp s op)) :
    Kept s op := by
  cases op with
  | fromBytes i uuid input limits => trivial
  | cleanup i unlinks => trivial
  | storeTemp i tempDir outcome =>
    intro hcreates
    rcases storeTemp_cases s.files (s.attachments i) tempDir outcome with
      ⟨hnot, -⟩ | ⟨-, hcompletes, -⟩ | ⟨-, -, held, e, hleft⟩
    · exact absurd hcreates hnot
    · exact hcompletes
    · rw [Tracked, applyOp] at htracked
      simp only [hleft, file_put, Function.update_eq_self] at htracked
      exact absurd htracked (h.owned.leak hcreates.2.2 held)
  | clear i unlinks =>
    intro htemp
    cases unlinks with
    | true => rfl
    | false =>
      rw [Tracked, applyOp, clear, if_pos ⟨htemp, (h.stored i htemp).2⟩, file_put] at htracked
      exact absurd htracked (h.owned.drop (Attachment.file_temporary htemp))

/-! ## The result -/

/-- The files follow the attachments in every state of a run, and a failed store leaves everything as it
    was, so that it can be tried again. -/
def FilesFollow (ops : List (Op ι)) : Prop :=
  (∀ before, before <+: ops → Tracked (run applyOp {} before)) ∧
  ∀ before i tempDir outcome e, before ++ [.storeTemp i tempDir outcome] <+: ops →
    (storeTemp (run applyOp {} before).files ((run applyOp {} before).attachments i) tempDir outcome).2.2 =
      .error e →
    applyOp (run applyOp {} before) (.storeTemp i tempDir outcome) = run applyOp {} before

omit [DecidableEq ι] in
theorem inv_nil : Inv ({} : State ι) :=
  ⟨Owned.nil, fun _ h => by cases h⟩

/-- A store that fails without losing a file changes nothing. -/
theorem storeTemp_failed {s : State ι} {i : ι} {tempDir : Bytes} {outcome : WriteOutcome} {e : ScError}
    (hkept : Kept s (.storeTemp i tempDir outcome))
    (h : (storeTemp s.files (s.attachments i) tempDir outcome).2.2 = .error e) :
    applyOp s (.storeTemp i tempDir outcome) = s := by
  rw [applyOp]
  rcases storeTemp_cases s.files (s.attachments i) tempDir outcome with
    ⟨-, e', hnone⟩ | ⟨-, -, hdone⟩ | ⟨hcreates, hfails, -⟩
  · simp only [hnone, put_self]
  · rw [hdone] at h
    cases h
  · exact absurd (hkept hcreates) hfails

/-- **Temporary files follow their attachments** along a run exactly if no `write` or `close` fails behind
    a successful `open`, and no `unlink` fails for a temporary attachment that is cleared. -/
theorem files_follow_iff (ops : List (Op ι)) (hlegal : EachStep applyOp Legal {} ops) :
    FilesFollow ops ↔ EachStep applyOp Kept {} ops := by
  have hsafe := safe_iff_eachStep_of_legal (P := Tracked) (fun s (h : Inv s) => h.owned.follows)
    (fun s op h hlegal hkept => applyOp_inv h hlegal hkept)
    (fun s op h _ htracked => kept_of_tracked h htracked) ops ({} : State ι) inv_nil hlegal
  constructor
  · intro h
    exact hsafe.mp h.1
  · intro h
    refine ⟨hsafe.mpr h, fun before i tempDir outcome e hbefore hfailed => ?_⟩
    exact storeTemp_failed (EachStep.last (h.of_initial hbefore)) hfailed

/-- A text to be stored. -/
def note : Attachment :=
  { attachmentId := str "a", contentType := str "text/plain", bytes := str "hi", hash := str "h" }

/-- Two attachments: the second takes the name of the first one's file once that file is removed. -/
theorem files_follow_note :
    FilesFollow [.fromBytes false (.ok []) note none, .fromBytes true (.ok []) note none,
      .storeTemp false (str "/tmp") { writes := [1] }, .storeTemp true (str "/tmp") {},
      .cleanup false true, .storeTemp true (str "/tmp") {}, .clear true true] := by
  refine (files_follow_iff _ ?_).mpr ?_
  · exact ⟨rfl, rfl, trivial, trivial, trivial, trivial, trivial, trivial⟩
  · refine ⟨trivial, trivial, fun _ => ?_, fun _ => ?_, trivial, fun _ => ?_, fun _ => rfl, trivial⟩
    · exact ⟨rfl, rfl⟩
    · exact ⟨rfl, rfl⟩
    · exact ⟨rfl, rfl⟩

/-- **The disk is full**: the file of a failed store stays, and no attachment is temporary. -/
theorem files_follow_fails :
    ¬ ∀ ops : List (Op Unit), EachStep applyOp Legal {} ops → FilesFollow ops := by
  intro h
  have hrun := (h [.fromBytes () (.ok []) note none, .storeTemp () (str "/tmp") { writes := [0] }]
    ⟨rfl, trivial, trivial⟩).1 _ (List.prefix_refl _) (str "/tmp/sc-media-a.bin", [])
  obtain ⟨i, hi⟩ := hrun.mp (by decide)
  cases i
  revert hi
  decide

end SmolClaw.Media
