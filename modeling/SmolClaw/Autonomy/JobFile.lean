/-
  The state file of the cron jobs: `sc_cron_job_store_save_file` (`src/autonomy/autonomy.c`) and what
  loading makes of it.

  1. **Program** — a header, and a line for each job: `job`, five printed fields and four escaped texts.
     A job without the text of its schedule gets one made from the fields.

  2. **Result** — `loadFile_saveFile`: the jobs of a store that was filled by `put` and `remove` come
     back in their order, whatever bytes their texts hold, if each schedule is the one its text parses to
     and the file is not too large.  What is lost is that a job was asked to stop.
-/
import SmolClaw.Lib.Percent
import SmolClaw.Lib.Separated
import SmolClaw.Core.Text
import SmolClaw.Core.WholeNumber
import SmolClaw.Autonomy.JobStore

namespace SmolClaw.Cron

open Lib.Run Lib.Table Lib.Percent Lib.Separated
open SmolClaw.Net (isSpace atNul)

/-! ## Saving -/

/-- `sc_cron_job_store_remove` -/
def remove (jobs : List CronJob) (id : Bytes) : List CronJob × Res Unit :=
  if id = [] then (jobs, Status.invalidArgument "sc.cron_job_store.remove_invalid_argument")
  else if jobs.any (·.id = id) then (jobs.eraseP (·.id = id), .ok ())
  else (jobs, Status.invalidArgument "sc.cron_job_store.not_found")

/-- A field of a schedule, `*` for any value. -/
def formatField (value : Int) : Bytes := if value < 0 then str "*" else decimalInt value

/-- `sc_cron_schedule_format`; every buffer takes the five numbers. -/
def cronScheduleFormat (schedule : CronSchedule) : Bytes :=
  if schedule.nanocronExpression ≠ [] then schedule.nanocronExpression
  else
    let minute :=
      if 0 < schedule.minuteStep then str "*/" ++ decimalInt schedule.minuteStep
      else formatField schedule.minute
    [chr ' '].intercalate [minute, formatField schedule.hour, formatField schedule.dayOfMonth,
      formatField schedule.month, formatField schedule.dayOfWeek]

/-- What `cron_store_write_escaped` does not write as it is. -/
def stateSpecial (c : UInt8) : Bool := c == chr '%' || c == chr '|' || c < 0x20 || c == 0x7F

/-- `cron_store_write_escaped` -/
def writeEscaped (value : Bytes) : Bytes := escape (chr '%') stateSpecial hexUpperDigits value

/-- `job->enabled ? "true" : "false"` -/
def boolText (value : Bool) : Bytes := if value then str "true" else str "false"

/-- The kind of a job, printed. -/
def kindText : CronJobKind → Bytes
  | .shell => str "shell"
  | .agent => str "agent"

/-- The line of a job, in front of its break. -/
def jobLine (job : CronJob) : Bytes :=
  let schedule := if job.scheduleText ≠ [] then job.scheduleText else cronScheduleFormat job.schedule
  [chr '|'].intercalate [str "job", kindText job.kind, boolText job.enabled, boolText job.once,
    decimalInt job.lastRunAt, writeEscaped job.id, writeEscaped schedule,
    writeEscaped job.deliveryTarget, writeEscaped job.command]

/-- `sc_cron_job_store_save_file`: what the file holds. -/
def saveFile (jobs : List CronJob) : Bytes :=
  (str "sc-cron-jobs-v1" :: jobs.map jobLine).flatMap (· ++ [chr '\n'])

/-! ## Every field is read back -/

/-- The byte two digits stand for. -/
def hexPair (high low : UInt8) : Option UInt8 :=
  match hexValue high, hexValue low with
  | some high, some low => some (high <<< 4 ||| low)
  | _, _ => none

theorem decodeEscaped_plain {c : UInt8} (h : c ≠ chr '%') (rest : Bytes) :
    decodeEscaped (c :: rest) = (decodeEscaped rest).map (c :: ·) := by
  rw [decodeEscaped.eq_def]
  exact if_neg h

theorem decodeEscaped_mark {high low b : UInt8} (h : hexPair high low = some b) (rest : Bytes) :
    decodeEscaped (chr '%' :: high :: low :: rest) = (decodeEscaped rest).map (b :: ·) := by
  rw [decodeEscaped.eq_def]
  refine (if_pos rfl).trans ?_
  unfold hexPair at h
  cases hhigh : hexValue high with
  | none =>
    rw [hhigh] at h
    cases h
  | some v =>
    cases hlow : hexValue low with
    | none =>
      rw [hhigh, hlow] at h
      cases h
    | some w =>
      rw [hhigh, hlow] at h
      obtain rfl := Option.some.inj h
      simp only [hhigh, hlow]

/-- `cron_store_decode_escaped` reads percent escapes. -/
theorem decodeEscaped_of_unescape (value : Bytes) :
    ∀ {text : Bytes}, unescape (chr '%') hexPair value = some text → decodeEscaped value = .ok text := by
  induction value using decodeEscaped.induct with
  | case1 =>
    intro text h
    obtain rfl := Option.some.inj h
    rfl
  | case2 high low rest high' low' hlow hhigh ih =>
    intro text h
    have hpair : hexPair high low = some (high' <<< 4 ||| low') := by rw [hexPair, hhigh, hlow]
    rw [unescape_mark, hpair, Option.bind_some] at h
    obtain ⟨tail, htail, rfl⟩ := Option.map_eq_some_iff.mp h
    rw [decodeEscaped_mark hpair, ih htail]
    rfl
  | case3 high low rest hno =>
    intro text h
    rw [unescape_mark] at h
    obtain ⟨b, hb, -⟩ := Option.bind_eq_some_iff.mp h
    rw [hexPair] at hb
    split at hb
    · rename_i hhigh hlow
      exact absurd hlow (hno _ _ hhigh)
    · cases hb
  | case4 rest hno =>
    intro text h
    -- a mark with fewer than two bytes behind it
    rcases rest with _ | ⟨x, _ | ⟨y, rest⟩⟩
    · cases h
    · cases h
    · exact absurd rfl (hno x y rest)
  | case5 c rest hc ih =>
    intro text h
    rw [unescape_plain hc] at h
    obtain ⟨tail, htail, rfl⟩ := Option.map_eq_some_iff.mp h
    rw [decodeEscaped_plain hc, ih htail]
    rfl

/-- The digits of a byte are neither separators nor a carriage return, and name the byte. -/
theorem hexPair_digits (c : UInt8) :
    hexPair (hexUpperDigits c).1 (hexUpperDigits c).2 = some c ∧
      (∀ x ∈ [chr '|', chr '\n', chr '\r'], x ≠ (hexUpperDigits c).1 ∧ x ≠ (hexUpperDigits c).2) := by
  revert c
  apply byte_forall
  decide +kernel

theorem decodeEscaped_writeEscaped (value : Bytes) : decodeEscaped (writeEscaped value) = .ok value :=
  decodeEscaped_of_unescape _ (unescape_escape (fun c _ => (hexPair_digits c).1) (by decide) value)

/-- A field that may stand in a line, the last one included. -/
def Clean (field : Bytes) : Prop := ∀ x ∈ [chr '|', chr '\n', chr '\r'], x ∉ field

theorem clean_writeEscaped (value : Bytes) : Clean (writeEscaped value) := by
  intro x hx
  have hspecial : stateSpecial x = true ∧ x ≠ chr '%' := by
    revert x
    exact bytes_forall (by decide)
  exact not_mem_escape hspecial.1 (fun c _ => ⟨hspecial.2, (hexPair_digits c).2 x hx⟩) value

theorem clean_decimalInt (n : Int) : Clean (decimalInt n) := by
  intro x hx
  have hbytes : isDigit x = false ∧ x ≠ chr '-' := by
    revert x
    exact bytes_forall (by decide)
  intro hmem
  rw [decimalInt] at hmem
  split at hmem
  · rcases List.mem_cons.mp hmem with rfl | hmem
    · exact hbytes.2 rfl
    · exact absurd (decimal_isDigit _ x hmem) (by rw [hbytes.1]; exact Bool.false_ne_true)
  · exact absurd (decimal_isDigit _ x hmem) (by rw [hbytes.1]; exact Bool.false_ne_true)

/-- A number that `int64_t` holds is read back by `strtoll`. -/
theorem parseI64_decimalInt {n : Int} (hlow : -2 ^ 63 ≤ n) (hhigh : n < 2 ^ 63) :
    parseI64 (decimalInt n) = some n := by
  have hall := decimal_isDigit n.natAbs
  have htake : (decimal n.natAbs).takeWhile isDigit = decimal n.natAbs :=
    List.takeWhile_eq_self_iff.mpr hall
  have hdrop : (decimal n.natAbs).dropWhile isDigit = [] := List.dropWhile_eq_nil_iff.mpr hall
  have hvalue : (if decide (n < 0) = true then -(decimalValue (decimal n.natAbs) : Int)
      else decimalValue (decimal n.natAbs)) = n := by
    rw [decimalValue_decimal]
    split
    · rename_i hneg
      have := of_decide_eq_true hneg
      omega
    · rename_i hpos
      have : ¬ n < 0 := fun h => hpos (decide_eq_true h)
      omega
  have hrange : ¬ (decimal n.natAbs = [] ∨ n < -2 ^ 63 ∨ 2 ^ 63 ≤ n ∨ (!atNul []) = true) := by
    rintro (h | h | h | h)
    · exact decimal_ne_nil _ h
    · omega
    · omega
    · exact absurd h (by decide)
  rw [parseI64, Net.scanSign_decimalInt]
  simp only [htake, hdrop, hvalue, if_neg hrange]

theorem parseBool_boolText (value : Bool) : parseBool (boolText value) = some value := by
  cases value <;> rfl

theorem parseKind_kindText (kind : CronJobKind) : parseKind (kindText kind) = .ok kind := by
  cases kind <;> rfl

/-! ## Every line is taken apart again -/

/-- The fields of a line whose job has the text of its schedule. -/
def jobFields (job : CronJob) : List Bytes :=
  [str "job", kindText job.kind, boolText job.enabled, boolText job.once, decimalInt job.lastRunAt,
    writeEscaped job.id, writeEscaped job.scheduleText, writeEscaped job.deliveryTarget,
    writeEscaped job.command]

theorem jobFields_clean (job : CronJob) : ∀ f ∈ jobFields job, Clean f := by
  have hkind : Clean (kindText job.kind) := by
    cases job.kind <;> exact bytes_forall (by decide)
  have hbool : ∀ value, Clean (boolText value) := by
    intro value
    cases value <;> exact bytes_forall (by decide)
  have hjob : Clean (str "job") := bytes_forall (by decide)
  simp only [jobFields, List.forall_mem_cons, List.not_mem_nil, false_implies, implies_true, and_true]
  exact ⟨hjob, hkind, hbool _, hbool _, clean_decimalInt _, clean_writeEscaped _, clean_writeEscaped _,
    clean_writeEscaped _, clean_writeEscaped _⟩

/-- A job as the state file can hold it: its schedule is the one its text parses to. -/
structure Persistent (build : Build) (job : CronJob) : Prop where
  text : job.scheduleText ≠ []
  schedule : cronScheduleParse build job.scheduleText = .ok job.schedule
  low : -2 ^ 63 ≤ job.lastRunAt
  high : job.lastRunAt < 2 ^ 63

/-- What the state file keeps of a job. -/
def persisted (job : CronJob) : CronJob := { job with cancelRequested := false }

theorem jobLine_eq {build : Build} {job : CronJob} (h : Persistent build job) :
    jobLine job = [chr '|'].intercalate (jobFields job) := by
  rw [jobLine]
  simp only [if_pos h.text]
  rfl

/-- **A job's line** gives the job. -/
theorem parseJob_jobLine {build : Build} {job : CronJob} (h : Persistent build job) :
    parseJob build (jobLine job) = .ok (persisted job) := by
  have hsplit : (jobLine job).splitOn (chr '|') = jobFields job := by
    rw [jobLine_eq h]
    exact List.splitOn_intercalate _ (fun f hf => jobFields_clean job f hf _ (by decide))
      (List.cons_ne_nil _ _)
  rw [parseJob, hsplit, jobFields]
  simp only [ne_eq, not_true_eq_false, if_false]
  refine Res.bind_eq_ok.mpr ⟨job.kind, parseKind_kindText _, ?_⟩
  simp only [parseBool_boolText, parseI64_decimalInt h.low h.high]
  refine Res.bind_eq_ok.mpr ⟨_, decodeEscaped_writeEscaped _, ?_⟩
  refine Res.bind_eq_ok.mpr ⟨_, decodeEscaped_writeEscaped _, ?_⟩
  refine Res.bind_eq_ok.mpr ⟨_, decodeEscaped_writeEscaped _, ?_⟩
  refine Res.bind_eq_ok.mpr ⟨_, decodeEscaped_writeEscaped _, ?_⟩
  refine Res.bind_eq_ok.mpr ⟨_, h.schedule, ?_⟩
  cases job
  rfl

/-- A job's line is a line of its own: it is not empty, and nothing is cut off its end. -/
theorem jobLine_line {build : Build} {job : CronJob} (h : Persistent build job) :
    chr '\n' ∉ jobLine job ∧ jobLine job ≠ [] ∧ stripReturn (jobLine job) = jobLine job := by
  have hfree : ∀ x ∈ [chr '\n', chr '\r'], x ∉ jobLine job := by
    intro x hx
    have hplace : x ≠ chr '|' ∧ x ∈ [chr '|', chr '\n', chr '\r'] := by
      revert x
      exact bytes_forall (by decide)
    rw [jobLine_eq h]
    exact not_mem_intercalate hplace.1 fun f hf => jobFields_clean job f hf x hplace.2
  refine ⟨hfree _ (by decide), ?_, ?_⟩
  · rw [jobLine_eq h, jobFields]
    exact List.cons_ne_nil _ _
  · rw [stripReturn, if_neg]
    intro hlast
    exact hfree (chr '\r') (by decide) (List.mem_of_getLast? hlast)

theorem parseLines_jobLines {build : Build} {js : List CronJob} :
    ∀ (jobs : List CronJob), (∀ job ∈ js, Persistent build job ∧ job.id ≠ []) →
      parseLines build jobs (js.map jobLine ++ [[]]) = (load CronJob.id jobs (js.map persisted), .ok ()) := by
  induction js with
  | nil => intro jobs _; rfl
  | cons job js ih =>
    intro jobs h
    obtain ⟨hjob, hid⟩ := h job List.mem_cons_self
    obtain ⟨-, hne, hstrip⟩ := jobLine_line hjob
    have hput : put jobs (persisted job) = (upsert CronJob.id (persisted job) jobs, .ok ()) := if_neg hid
    rw [List.map_cons, List.cons_append, parseLines, hstrip, if_neg hne, parseJobLine,
      parseJob_jobLine hjob]
    simp only [hput]
    exact ih _ fun j hj => h j (List.mem_cons_of_mem job hj)

/-! ## Stores that were filled by the program -/

/-- What changes a store. -/
inductive StoreOp where
  | put (job : CronJob)
  | remove (id : Bytes)

/-- The store after a call, successful or not. -/
def applyOp (jobs : List CronJob) : StoreOp → List CronJob
  | .put job => (put jobs job).1
  | .remove id => (remove jobs id).1

/-- What the calls keep: identifiers are distinct and not empty. -/
def Filled (jobs : List CronJob) : Prop := Keyed CronJob.id jobs ∧ ∀ job ∈ jobs, job.id ≠ []

theorem applyOp_filled {jobs : List CronJob} (h : Filled jobs) (op : StoreOp) : Filled (applyOp jobs op) := by
  cases op with
  | put job =>
    refine ⟨put_keyed h.1 job, ?_⟩
    show ∀ j ∈ (put jobs job).1, j.id ≠ []
    unfold put
    split
    · exact h.2
    · rename_i hid
      intro j hj
      rcases mem_upsert hj with rfl | hj
      · exact hid
      · exact h.2 j hj
  | remove id =>
    show Filled (remove jobs id).1
    unfold remove
    split
    · exact h
    · split
      · have hsub : (jobs.eraseP (·.id = id)).Sublist jobs := List.eraseP_sublist
        exact ⟨(hsub.map CronJob.id).nodup h.1, fun j hj => h.2 j (hsub.subset hj)⟩
      · exact h

/-- **The state file round-trips**: every store the program fills, with schedules that are what their
    texts parse to, comes back whole from a file that is not too large. -/
theorem loadFile_saveFile (build : Build) (ops : List StoreOp)
    (hjobs : ∀ job ∈ run applyOp [] ops, Persistent build job)
    (hsize : (saveFile (run applyOp [] ops)).length ≤ cronStateMaxBytes) :
    loadFile build [] (.ok (some (saveFile (run applyOp [] ops)))) =
      ((run applyOp [] ops).map persisted, .ok ()) := by
  have hfilled : Filled (run applyOp [] ops) :=
    run_preserves (I := Filled) (fun _ op h => applyOp_filled h op) ops []
      ⟨Keyed.nil, fun _ hj => absurd hj List.not_mem_nil⟩
  generalize run applyOp [] ops = jobs at hjobs hsize hfilled ⊢
  have hbreak : ∀ line ∈ str "sc-cron-jobs-v1" :: jobs.map jobLine, chr '\n' ∉ line := by
    intro line hline
    rcases List.mem_cons.mp hline with rfl | hline
    · decide
    · obtain ⟨job, hjob, rfl⟩ := List.mem_map.mp hline
      exact (jobLine_line (hjobs job hjob)).1
  have hsplit := splitOn_terminated hbreak
  have hkeyed : Keyed CronJob.id (jobs.map persisted) := by
    rw [Keyed, List.map_map]
    exact hfilled.1
  have hbody : saveFile jobs ≠ [] := List.cons_ne_nil _ _
  have hheader : ¬ stripReturn (str "sc-cron-jobs-v1") ≠ str "sc-cron-jobs-v1" := by decide
  have hlines := parseLines_jobLines [] fun job hjob => ⟨hjobs job hjob, hfilled.2 job hjob⟩
  rw [loadFile, if_neg (by omega), parseBody, if_neg hbody, saveFile, hsplit, List.cons_append]
  simp only [if_neg hheader, hlines, load_nil hkeyed]

/-- A job with a separator, a line break, a mark and DEL in its texts. -/
def awkwardJob : CronJob :=
  { id := str "a|b"
    schedule := { minute := 0, hour := 9, nanocronExpression := str "0 9 * * *" }
    kind := .shell
    command := [chr '\n', chr '%', 0x7F, chr '\r']
    lastRunAt := -5
    scheduleText := str "0 9 * * *" }

/-- A store of two jobs, one of them put twice, comes back whole. -/
theorem loadFile_saveFile_awkward :
    loadFile .legacy [] (.ok (some (saveFile (run applyOp []
      [.put { awkwardJob with id := str "x" }, .put awkwardJob, .put awkwardJob])))) =
      ([{ awkwardJob with id := str "x" }, awkwardJob], .ok ()) := by
  refine loadFile_saveFile .legacy
    [.put { awkwardJob with id := str "x" }, .put awkwardJob, .put awkwardJob] ?_ (by decide +kernel)
  have hparse : cronScheduleParse .legacy awkwardJob.scheduleText = .ok awkwardJob.schedule := by
    decide +kernel
  intro job hjob
  have hmem : job = { awkwardJob with id := str "x" } ∨ job = awkwardJob := by
    simpa [run, applyOp, put, upsert, awkwardJob, str] using hjob
  rcases hmem with rfl | rfl
  · exact ⟨by decide, hparse, by decide, by decide⟩
  · exact ⟨by decide, hparse, by decide, by decide⟩

end SmolClaw.Cron
