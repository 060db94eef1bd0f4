/-
  Atomic writes of `file_write` in the modes `overwrite` and `create` (`write_atomic_at` and
  `write_all_fd`, `src/tools/file_tools.c`).

  1. **Directory** — a map from names to contents.  `openat`, `write`, `close`, `linkat` and `renameat`
     may fail at any point (`FileIo`); `unlinkat` of a name that is there removes it.

  2. **Program** — an exclusive create under a temporary name, the writes, then a link or a rename; on a
     failure the temporary name is unlinked.

  3. **Result** — `writeAtomicAt_iff`: a call takes effect as a whole or not at all exactly when the
     temporary name was free.  Where it was taken, the exclusive create fails, and the cleanup removes a
     file that this call did not create.
-/
import Mathlib.Data.List.TakeWhile
import SmolClaw.Core.WholeNumber
import SmolClaw.Core.Status

namespace SmolClaw.FileWrite

/-! ## The directory -/

/-- The contents of a directory, by name. -/
abbrev Directory := Bytes → Option Bytes

/-- The entry `name` holds `content` now. -/
def Directory.set (dir : Directory) (name content : Bytes) : Directory :=
  fun n => if n = name then some content else dir n

/-- `unlinkat` -/
def Directory.unlink (dir : Directory) (name : Bytes) : Directory :=
  fun n => if n = name then none else dir n

@[simp] theorem Directory.set_self (dir : Directory) (name content : Bytes) :
    dir.set name content name = some content := if_pos rfl

theorem Directory.set_of_ne (dir : Directory) {n name : Bytes} (h : n ≠ name) (content : Bytes) :
    dir.set name content n = dir n := if_neg h

@[simp] theorem Directory.unlink_self (dir : Directory) (name : Bytes) : dir.unlink name name = none :=
  if_pos rfl

@[simp] theorem Directory.set_set (dir : Directory) (name a b : Bytes) :
    (dir.set name a).set name b = dir.set name b := by
  funext n
  by_cases h : n = name <;> simp [Directory.set, h]

/-- Unlinking a name that was free before it was created restores the directory. -/
theorem Directory.unlink_set {dir : Directory} {name : Bytes} (h : dir name = none) (content : Bytes) :
    (dir.set name content).unlink name = dir := by
  funext n
  by_cases hn : n = name
  · rw [hn, Directory.unlink_self, h]
  · simp [Directory.unlink, Directory.set, hn]

/-- Two names are changed independently. -/
theorem Directory.unlink_set_comm (dir : Directory) {a b : Bytes} (h : a ≠ b) (content : Bytes) :
    (dir.set a content).unlink b = (dir.unlink b).set a content := by
  funext n
  by_cases hb : n = b
  · simp [Directory.unlink, Directory.set, hb, Ne.symm h]
  · simp [Directory.unlink, Directory.set, hb]

/-! ## The system -/

/-- What one `write` does: it takes `count` bytes (no more than it is given), is interrupted (`EINTR`),
    or fails. -/
inductive WriteOutcome where
  | wrote (count : Nat)
  | interrupted
  | failed

/-- Where the system calls of one write fail.  Behind the outcomes listed, a `write` takes all bytes. -/
structure FileIo where
  openFails : Bool := false
  writes : List WriteOutcome := []
  closeFails : Bool := false
  linkFails : Bool := false
  renameFails : Bool := false

variable (io : FileIo) (dir : Directory)

/-- `openat` with `O_CREAT | O_EXCL`, and the status of its failures -/
def openatExclusive (name : Bytes) : Res Directory :=
  if io.openFails then Status.io "sc.file_write.temp_open_failed"
  else
    match dir name with
    | some _ => Status.invalidArgument "sc.file_write.temp_exists"
    | none => .ok (dir.set name [])

/-- `linkat`, and the status of its failures -/
def linkat (oldName newName : Bytes) : Res Directory :=
  if io.linkFails then Status.io "sc.file_write.link_failed"
  else
    match dir oldName, dir newName with
    | _, some _ => Status.invalidArgument "sc.file_write.exists"
    | none, none => Status.io "sc.file_write.link_failed"
    | some content, none => .ok (dir.set newName content)

/-- `renameat`, and the status of its failures -/
def renameat (oldName newName : Bytes) : Res Directory :=
  if io.renameFails then Status.io "sc.file_write.rename_failed"
  else
    match dir oldName with
    | none => Status.io "sc.file_write.rename_failed"
    | some content => .ok ((dir.unlink oldName).set newName content)

/-! ## The program -/

/-- `write_all_fd`: its status, and the bytes that were written. -/
def writeAllFd : List WriteOutcome → Bytes → Res Unit × Bytes
  | _, [] => (.ok (), [])
  | [], c :: cs => (.ok (), c :: cs)
  | .interrupted :: writes, c :: cs => writeAllFd writes (c :: cs)
  | .failed :: _, _ :: _ => (Status.io "sc.file_write.write_failed", [])
  | .wrote 0 :: _, _ :: _ => (Status.io "sc.file_write.write_incomplete", [])
  | .wrote (n + 1) :: writes, c :: cs =>
      let (status, written) := writeAllFd writes ((c :: cs).drop (n + 1))
      (status, (c :: cs).take (n + 1) ++ written)

/-- The name a system call reads: a C string ends at its first NUL. -/
def callName (text : Bytes) : Bytes := text.takeWhile (· != 0)

/-- The temporary name: the leaf and `.tmp.%ld` with the process id. -/
def tempName (pid : Nat) (leaf : Bytes) : Bytes := leaf ++ (str ".tmp." ++ decimal pid)

/-- The writes and the close, of a file that holds `written` afterwards. -/
def writeAndClose (content : Bytes) : Res Unit × Bytes :=
  let (status, written) := writeAllFd io.writes content
  match status with
  | .error e => (.error e, written)
  | .ok () => (if io.closeFails then Status.io "sc.file_write.close_failed" else .ok (), written)

/-- The commit under the name `leaf`: a link and an unlink, or a rename. -/
def commit (tmp leaf : Bytes) (failIfExists : Bool) : Res Unit × Directory :=
  if failIfExists then
    match linkat io dir tmp leaf with
    | .ok linked => (.ok (), linked.unlink tmp)
    | .error e => (.error e, dir.unlink tmp)
  else
    match renameat io dir tmp leaf with
    | .ok renamed => (.ok (), renamed)
    | .error e => (.error e, dir)

/-- The steps of `write_atomic_at` in front of its cleanup. -/
def writeSteps (tmp leaf content : Bytes) (failIfExists : Bool) : Res Unit × Directory :=
  match openatExclusive io dir tmp with
  | .error e => (.error e, dir)
  | .ok created =>
      let (status, written) := writeAndClose io content
      match status with
      | .error e => (.error e, created.set tmp written)
      | .ok () => commit io (created.set tmp written) tmp leaf failIfExists

/-- The cleanup of `write_atomic_at`: it does not ask which step failed. -/
def cleanup (tmp : Bytes) (outcome : Res Unit × Directory) : Res Unit × Directory :=
  match outcome.1 with
  | .ok () => outcome
  | .error e => (.error e, outcome.2.unlink tmp)

/-- `write_atomic_at`: its status, and the directory it leaves. -/
def writeAtomicAt (pid : Nat) (parentFd : Int) (leaf content : Bytes) (failIfExists : Bool) :
    Res Unit × Directory :=
  if parentFd < 0 ∨ leaf = [] then (Status.invalidArgument "sc.file_write.path_invalid", dir)
  else
    let tmp := callName (tempName pid leaf)
    cleanup tmp (writeSteps io dir tmp (callName leaf) content failIfExists)

/-! ## The specification -/

/-- The name of a directory entry. -/
structure LeafName where
  bytes : Bytes
  ne_nil : bytes ≠ []
  no_nul : 0 ∉ bytes
  no_slash : chr '/' ∉ bytes

/-- **All or nothing**: a success leaves the entry with the content, which in create mode was not there
    before, and every other entry as it was; a failure leaves every entry as it was. -/
structure Atomic (dir : Directory) (leaf content : Bytes) (failIfExists : Bool)
    (result : Res Unit × Directory) : Prop where
  success : result.1 = .ok () → result.2 leaf = some content ∧ (∀ n, n ≠ leaf → result.2 n = dir n) ∧
    (failIfExists = true → dir leaf = none)
  failure : ∀ e, result.1 = .error e → ∀ n, result.2 n = dir n

/-! ## The steps -/

/-- **A successful write is complete**, however it was cut up. -/
theorem writeAllFd_ok {writes : List WriteOutcome} {content written : Bytes}
    (h : writeAllFd writes content = (.ok (), written)) : written = content := by
  fun_induction writeAllFd writes content generalizing written with
  | case1 => exact (Prod.mk.inj h).2.symm
  | case2 => exact (Prod.mk.inj h).2.symm
  | case3 writes c cs ih => exact ih h
  | case4 => exact nomatch h
  | case5 => exact nomatch h
  | case6 n writes c cs status rest hrest ih =>
    obtain ⟨rfl, rfl⟩ := Prod.mk.inj h
    rw [ih hrest, List.take_append_drop]

theorem writeAndClose_ok {content written : Bytes} (h : writeAndClose io content = (.ok (), written)) :
    written = content := by
  unfold writeAndClose at h
  split at h
  rename_i status rest hwrite
  split at h
  · exact nomatch h
  · obtain ⟨-, rfl⟩ := Prod.mk.inj h
    exact writeAllFd_ok hwrite

/-- A name without NUL is read whole. -/
theorem callName_eq {text : Bytes} (h : 0 ∉ text) : callName text = text := by
  refine List.takeWhile_eq_self_iff.mpr fun c hc => bne_iff_ne.mpr ?_
  rintro rfl
  exact h hc

/-- The temporary name is another one. -/
theorem tempName_ne (pid : Nat) (leaf : Bytes) : leaf ≠ tempName pid leaf := by
  intro h
  have hlen := congrArg List.length h
  have hdot : (str ".tmp.").length = 5 := rfl
  rw [tempName, List.length_append, List.length_append, hdot] at hlen
  omega

theorem tempName_no_nul (pid : Nat) {leaf : Bytes} (h : 0 ∉ leaf) : 0 ∉ tempName pid leaf := by
  have hdot : 0 ∉ str ".tmp." := by decide
  intro hmem
  rcases List.mem_append.mp hmem with hmem | hmem
  · exact h hmem
  rcases List.mem_append.mp hmem with hmem | hmem
  · exact hdot hmem
  · exact absurd (decimal_isDigit pid 0 hmem) (by decide)

/-- What steps may leave that began with a free temporary name: the leaf with the content, or nothing but
    the temporary file. -/
def Clean (tmp leaf content : Bytes) (failIfExists : Bool) (outcome : Res Unit × Directory) : Prop :=
  (outcome.1 = .ok () ∧ outcome.2 = dir.set leaf content ∧ (failIfExists = true → dir leaf = none)) ∨
    ∃ e, outcome.1 = .error e ∧ outcome.2.unlink tmp = dir

variable {io dir}

theorem Directory.unlink_fresh {tmp : Bytes} (h : dir tmp = none) : dir.unlink tmp = dir := by
  funext n
  by_cases hn : n = tmp
  · rw [hn, Directory.unlink_self, h]
  · simp [Directory.unlink, hn]

/-- **The commit** under a free temporary name. -/
theorem commit_clean {tmp leaf : Bytes} (hne : leaf ≠ tmp) (hfresh : dir tmp = none) (content : Bytes)
    (failIfExists : Bool) :
    Clean dir tmp leaf content failIfExists (commit io (dir.set tmp content) tmp leaf failIfExists) := by
  have hclean := Directory.unlink_set hfresh content
  have htwice : ((dir.set tmp content).unlink tmp).unlink tmp = dir := by
    rw [hclean, Directory.unlink_fresh hfresh]
  cases failIfExists with
  | true =>
    rw [commit, if_pos rfl, linkat]
    cases hlink : io.linkFails with
    | true => exact Or.inr ⟨_, rfl, htwice⟩
    | false =>
      rw [if_neg (by decide), Directory.set_self, Directory.set_of_ne dir hne]
      cases hleaf : dir leaf with
      | some old => exact Or.inr ⟨_, rfl, htwice⟩
      | none =>
        refine Or.inl ⟨rfl, ?_, fun _ => hleaf⟩
        show ((dir.set tmp content).set leaf content).unlink tmp = dir.set leaf content
        rw [Directory.unlink_set_comm _ hne, hclean]
  | false =>
    rw [commit, if_neg (by decide), renameat]
    cases hrename : io.renameFails with
    | true => exact Or.inr ⟨_, rfl, hclean⟩
    | false =>
      rw [if_neg (by decide), Directory.set_self]
      refine Or.inl ⟨rfl, ?_, nofun⟩
      show ((dir.set tmp content).unlink tmp).set leaf content = dir.set leaf content
      rw [hclean]

/-- **All steps** under a free temporary name, wherever they fail. -/
theorem writeSteps_clean (io : FileIo) {tmp leaf : Bytes} (hne : leaf ≠ tmp) (hfresh : dir tmp = none) (content : Bytes)
    (failIfExists : Bool) :
    Clean dir tmp leaf content failIfExists (writeSteps io dir tmp leaf content failIfExists) := by
  unfold writeSteps openatExclusive
  cases io.openFails with
  | true => exact Or.inr ⟨_, rfl, Directory.unlink_fresh hfresh⟩
  | false =>
    rw [if_neg (by decide), hfresh]
    dsimp only
    rw [Directory.set_set]
    cases hwrite : writeAndClose io content with
    | mk status written =>
      cases status with
      | error e => exact Or.inr ⟨e, rfl, Directory.unlink_set hfresh written⟩
      | ok _ =>
        obtain rfl := writeAndClose_ok io hwrite
        exact commit_clean hne hfresh written failIfExists

/-- Where the temporary name is taken, the exclusive create fails. -/
theorem writeSteps_taken (io : FileIo) {tmp old : Bytes} (h : dir tmp = some old) (leaf content : Bytes)
    (failIfExists : Bool) : ∃ e, writeSteps io dir tmp leaf content failIfExists = (.error e, dir) := by
  unfold writeSteps openatExclusive
  rw [h]
  cases io.openFails <;> exact ⟨_, rfl⟩

/-! ## The result -/

/-- **When a write is atomic**: for every directory, content, mode and failure, exactly when the
    temporary name is free. -/
theorem writeAtomicAt_iff (io : FileIo) (dir : Directory) (pid : Nat) (parentFd : Int) (leaf : LeafName)
    (content : Bytes) (failIfExists : Bool) :
    Atomic dir leaf.bytes content failIfExists
        (writeAtomicAt io dir pid parentFd leaf.bytes content failIfExists) ↔
      parentFd < 0 ∨ dir (tempName pid leaf.bytes) = none := by
  unfold writeAtomicAt
  by_cases hfd : parentFd < 0
  · rw [if_pos (Or.inl hfd)]
    exact ⟨fun _ => Or.inl hfd, fun _ => ⟨nofun, fun _ _ _ => rfl⟩⟩
  rw [if_neg (not_or.mpr ⟨hfd, leaf.ne_nil⟩), callName_eq leaf.no_nul,
    callName_eq (tempName_no_nul pid leaf.no_nul)]
  have hne := tempName_ne pid leaf.bytes
  generalize tempName pid leaf.bytes = tmp at hne
  cases hold : dir tmp with
  | some old =>
    obtain ⟨e, hsteps⟩ := writeSteps_taken io hold leaf.bytes content failIfExists
    refine ⟨fun h => ?_, fun h => absurd h (by simp [hfd])⟩
    have hkept := h.failure e (by simp only [hsteps, cleanup]) tmp
    simp only [hsteps, cleanup, Directory.unlink_self, hold] at hkept
    exact nomatch hkept
  | none =>
    refine ⟨fun _ => Or.inr rfl, fun _ => ?_⟩
    rcases writeSteps_clean io hne hold content failIfExists with
      ⟨hok, hafter, hnew⟩ | ⟨e, herror, hafter⟩
    · have hdone : cleanup tmp (writeSteps io dir tmp leaf.bytes content failIfExists)
          = (.ok (), dir.set leaf.bytes content) := by
        rw [cleanup, hok]
        exact Prod.ext hok hafter
      rw [hdone]
      refine ⟨fun _ => ⟨Directory.set_self _ _ _, ?_, hnew⟩, nofun⟩
      exact fun n hn => Directory.set_of_ne dir hn content
    · have hdone : cleanup tmp (writeSteps io dir tmp leaf.bytes content failIfExists) = (.error e, dir) := by
        rw [cleanup, herror]
        exact congrArg (Prod.mk _) hafter
      rw [hdone]
      exact ⟨nofun, fun _ _ _ => rfl⟩

/-- A file that another process with this id left behind. -/
def leftBehind : Directory := Directory.set (fun _ => none) (str "a.txt.tmp.7") (str "kept")

/-- The entry to be written. -/
def aTxt : LeafName := ⟨str "a.txt", by decide, by decide, by decide⟩

/-- **The cleanup removes a file that was there before.** -/
theorem leftover_removed :
    ¬ ∀ (io : FileIo) (dir : Directory) (pid : Nat) (parentFd : Int) (leaf : LeafName) (content : Bytes)
        (failIfExists : Bool), Atomic dir leaf.bytes content failIfExists
          (writeAtomicAt io dir pid parentFd leaf.bytes content failIfExists) := by
  intro h
  have hkept := (h {} leftBehind 7 3 aTxt (str "new") false).failure
    ⟨.invalidArgument, "sc.file_write.temp_exists"⟩ rfl (str "a.txt.tmp.7")
  have hgone : (writeAtomicAt {} leftBehind 7 3 aTxt.bytes (str "new") false).2 (str "a.txt.tmp.7")
      = none := by decide
  have hthere : leftBehind (str "a.txt.tmp.7") = some (str "kept") := by decide
  rw [hgone, hthere] at hkept
  exact nomatch hkept

end SmolClaw.FileWrite
