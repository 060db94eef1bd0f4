/-
  A state file with a bad line: what `sc_cron_job_store_load_file` (`src/autonomy/autonomy.c`) leaves in
  the store when it fails.

  1. **Lines** — the lines of jobs are the ones behind the header that are not empty; a line is good if
     it parses to a job with an identifier.

  2. **Loading** — `loadFile_spec`: the store gets the jobs of the lines in front of the first bad one,
     and the call fails exactly on a malformed file.

  3. **Result** — `loadFile_unchanged_iff`: a failed call leaves the store as it was exactly if the last
     job of each identifier on those lines is the stored one already.  The chains of audit records and of
     receipts (`src/security/store.c`) are cleared when a line is bad; the jobs stay.
-/
import SmolClaw.Autonomy.JobFile

namespace SmolClaw.Cron

open Lib.Table

/-! ## Good lines -/

/-- The job that a line puts, if it puts one. -/
def goodJob (build : Build) (line : Bytes) : Option CronJob :=
  match parseJob build line with
  | .error _ => none
  | .ok job => if job.id = [] then none else some job

/-- The lines of jobs, without the carriage returns at their ends. -/
def jobLines (lines : List Bytes) : List Bytes := (lines.map stripReturn).filter (· ≠ [])

/-- The jobs of the lines in front of the first bad one. -/
def jobsBefore (build : Build) : List Bytes → List CronJob
  | [] => []
  | line :: lines =>
      match goodJob build line with
      | none => []
      | some job => job :: jobsBefore build lines

/-- The lines of jobs in a state file; `none` if the loading ends in front of them. -/
def stateLines (file : Res (Option Bytes)) : Option (List Bytes) :=
  match file with
  | .error _ => none
  | .ok none => some []
  | .ok (some body) =>
      if cronStateMaxBytes < body.length then none
      else if body = [] then some []
      else
        match body.splitOn (chr '\n') with
        | [] => some []
        | header :: lines =>
            if stripReturn header ≠ str "sc-cron-jobs-v1" then none else some (jobLines lines)

/-- A file that cannot be read, is too large, has another header or a bad line. -/
def Malformed (build : Build) (file : Res (Option Bytes)) : Prop :=
  match stateLines file with
  | none => True
  | some lines => ∃ line ∈ lines, goodJob build line = none

/-- The jobs a state file has in front of its first bad line. -/
def jobsRead (build : Build) (file : Res (Option Bytes)) : List CronJob :=
  jobsBefore build ((stateLines file).getD [])

/-! ## What a line does to the store -/

theorem parseJobLine_good {build : Build} {line : Bytes} {job : CronJob}
    (h : goodJob build line = some job) (jobs : List CronJob) :
    parseJobLine build jobs line = (upsert CronJob.id job jobs, .ok ()) := by
  rw [goodJob] at h
  rw [parseJobLine]
  cases hparsed : parseJob build line with
  | error e =>
    rw [hparsed] at h
    cases h
  | ok parsed =>
    simp only [hparsed] at h
    show put jobs parsed = _
    split at h
    · cases h
    · next hid =>
      obtain rfl := Option.some.inj h
      exact if_neg hid

theorem parseJobLine_bad {build : Build} {line : Bytes} (h : goodJob build line = none)
    (jobs : List CronJob) : ∃ e, parseJobLine build jobs line = (jobs, .error e) := by
  rw [goodJob] at h
  rw [parseJobLine]
  cases hparsed : parseJob build line with
  | error e => exact ⟨e, rfl⟩
  | ok parsed =>
    simp only [hparsed] at h
    split at h
    · next hid =>
      show ∃ e, put jobs parsed = (jobs, .error e)
      rw [put, if_pos hid]
      exact ⟨_, rfl⟩
    · cases h

theorem jobLines_cons (line : Bytes) (lines : List Bytes) :
    jobLines (line :: lines) =
      if stripReturn line = [] then jobLines lines else stripReturn line :: jobLines lines := by
  rw [jobLines, List.map_cons, List.filter_cons]
  by_cases h : stripReturn line = []
  · rw [if_neg (by simp [h]), if_pos h]
    rfl
  · rw [if_pos (by simpa using h), if_neg h]
    rfl

/-- **The lines, one after the other**: the jobs in front of the first bad line are put, and there is an
    error exactly if there is such a line. -/
theorem parseLines_spec (build : Build) (lines : List Bytes) :
    ∀ jobs : List CronJob,
      (parseLines build jobs lines).1 = load CronJob.id jobs (jobsBefore build (jobLines lines)) ∧
      ((∃ e, (parseLines build jobs lines).2 = .error e) ↔
        ∃ line ∈ jobLines lines, goodJob build line = none) := by
  induction lines with
  | nil =>
    intro jobs
    refine ⟨rfl, ?_, ?_⟩
    · rintro ⟨e, he⟩
      cases he
    · rintro ⟨line, hmem, -⟩
      cases hmem
  | cons line lines ih =>
    intro jobs
    rw [parseLines, jobLines_cons]
    by_cases hempty : stripReturn line = []
    · rw [if_pos hempty, if_pos hempty]
      exact ih jobs
    · rw [if_neg hempty, if_neg hempty, jobsBefore]
      cases hgood : goodJob build (stripReturn line) with
      | none =>
        obtain ⟨e, he⟩ := parseJobLine_bad hgood jobs
        rw [he]
        exact ⟨rfl, ⟨fun _ => ⟨_, List.mem_cons_self, hgood⟩, fun _ => ⟨e, rfl⟩⟩⟩
      | some job =>
        rw [parseJobLine_good hgood jobs]
        obtain ⟨hstore, herror⟩ := ih (upsert CronJob.id job jobs)
        refine ⟨hstore, herror.trans ⟨?_, ?_⟩⟩
        · rintro ⟨bad, hmem, hbad⟩
          exact ⟨bad, List.mem_cons_of_mem _ hmem, hbad⟩
        · rintro ⟨bad, hmem, hbad⟩
          rcases List.mem_cons.mp hmem with rfl | hmem
          · rw [hgood] at hbad
            cases hbad
          · exact ⟨bad, hmem, hbad⟩

/-! ## What a file does to the store -/

/-- `sc_cron_job_store_load_file`, as a loading of jobs. -/
theorem loadFile_spec (build : Build) (jobs : List CronJob) (file : Res (Option Bytes)) :
    (loadFile build jobs file).1 = load CronJob.id jobs (jobsRead build file) ∧
    ((∃ e, (loadFile build jobs file).2 = .error e) ↔ Malformed build file) := by
  have hstop : ∀ e : ScError, ∃ e', (Except.error e : Res Unit) = .error e' := fun e => ⟨e, rfl⟩
  have hempty : ¬ ∃ e, (Except.ok () : Res Unit) = .error e := fun ⟨_, h⟩ => by cases h
  have hnone : ¬ ∃ line ∈ ([] : List Bytes), goodJob build line = none := fun ⟨_, h, _⟩ => by cases h
  rcases file with e | _ | body
  · exact ⟨rfl, iff_of_true (hstop e) trivial⟩
  · exact ⟨rfl, iff_of_false hempty hnone⟩
  · rw [loadFile, jobsRead, Malformed, stateLines]
    split
    · exact ⟨rfl, iff_of_true (hstop _) trivial⟩
    · rw [parseBody]
      split
      · exact ⟨rfl, iff_of_false hempty hnone⟩
      · cases body.splitOn (chr '\n') with
        | nil => exact ⟨rfl, iff_of_false hempty hnone⟩
        | cons header lines =>
          simp only
          split
          · exact ⟨rfl, iff_of_true (hstop _) trivial⟩
          · exact parseLines_spec build lines jobs

/-! ## The result -/

/-- **A failed load leaves the store as it was** exactly if, on a malformed file, the last job of each
    identifier in front of the first bad line is stored already, with the same fields. -/
theorem loadFile_unchanged_iff (build : Build) (jobs : List CronJob) (file : Res (Option Bytes)) :
    (∀ e, (loadFile build jobs file).2 = .error e → (loadFile build jobs file).1 = jobs) ↔
      (Malformed build file → ∀ id job, lookup CronJob.id id (jobsRead build file).reverse = some job →
        lookup CronJob.id id jobs = some job) := by
  obtain ⟨hstore, herror⟩ := loadFile_spec build jobs file
  rw [hstore, load_eq_self, ← herror]
  constructor
  · rintro h ⟨e, he⟩
    exact h e he
  · intro h e he
    exact h ⟨e, he⟩

/-- A job of the file. -/
def reportJob : CronJob :=
  { id := str "a", schedule := { nanocronExpression := str "* * * * *" }, kind := .agent,
    command := str "Report", scheduleText := str "* * * * *" }

/-- The file of that job, with a line behind it that is cut off. -/
def tornState : Bytes :=
  [chr '\n'].intercalate [str "sc-cron-jobs-v1", jobLine reportJob, str "job"]

/-- The torn file fails, and its first job is in the store. -/
theorem loadFile_keeps_first :
    ¬ ∀ (build : Build) (jobs : List CronJob) (file : Res (Option Bytes)) (e : ScError),
      (loadFile build jobs file).2 = .error e → (loadFile build jobs file).1 = jobs := by
  intro h
  have hjob : Persistent .legacy reportJob := ⟨by decide, by decide, by decide, by decide⟩
  obtain ⟨hbreak, hne, hstrip⟩ := jobLine_line hjob
  have hgood : goodJob .legacy (jobLine reportJob) = some (persisted reportJob) := by
    rw [goodJob, parseJob_jobLine hjob]
    exact if_neg (show ¬ (persisted reportJob).id = [] by decide)
  have hbad : goodJob .legacy (str "job") = none := by decide
  have hsplit : tornState.splitOn (chr '\n') = [str "sc-cron-jobs-v1", jobLine reportJob, str "job"] := by
    refine List.splitOn_intercalate _ ?_ (List.cons_ne_nil _ _)
    simp only [List.forall_mem_cons]
    exact ⟨by decide, hbreak, by decide, fun _ hx => absurd hx List.not_mem_nil⟩
  have hlines : stateLines (.ok (some tornState)) = some [jobLine reportJob, str "job"] := by
    have hsize : ¬ cronStateMaxBytes < tornState.length := by decide
    have hfirst : ¬ tornState = [] := List.cons_ne_nil _ _
    have hheader : ¬ stripReturn (str "sc-cron-jobs-v1") ≠ str "sc-cron-jobs-v1" := by decide
    rw [stateLines, if_neg hsize, if_neg hfirst, hsplit]
    simp only [if_neg hheader]
    rw [jobLines_cons, hstrip, if_neg hne]
    rfl
  obtain ⟨hstore, herror⟩ := loadFile_spec .legacy [] (.ok (some tornState))
  have hread : jobsRead .legacy (.ok (some tornState)) = [persisted reportJob] := by
    rw [jobsRead, hlines, Option.getD_some, jobsBefore, hgood]
    show persisted reportJob :: jobsBefore .legacy [str "job"] = _
    rw [jobsBefore, hbad]
  have hmalformed : Malformed .legacy (.ok (some tornState)) := by
    rw [Malformed, hlines]
    exact ⟨_, List.mem_cons_of_mem _ List.mem_cons_self, hbad⟩
  obtain ⟨e, he⟩ := herror.mpr hmalformed
  have hsame := h .legacy [] (.ok (some tornState)) e he
  rw [hstore, hread] at hsame
  cases hsame

end SmolClaw.Cron
