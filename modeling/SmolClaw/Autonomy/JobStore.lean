/-
  The store of the cron jobs: `sc_cron_job_store_put` and `sc_cron_job_store_load_file`
  (`src/autonomy/autonomy.c`), and how a process fills it (`create_cron_from_config`,
  `src/runtime/bootstrap.c`).

  1. **Store** — a list of jobs; a job that is put replaces the one with its identifier, in its place.

  2. **State file** — a header, and a line of nine fields for each job.  The jobs of the lines are put
     one after the other, and the first bad line ends the loading.

  3. **Process** — the jobs of the state file, and after them the one of the configuration.

  4. **Result** — `createCronFromConfig_keyed`: the identifiers in the store are distinct.
-/
import SmolClaw.Autonomy.Cron
import SmolClaw.Config.Store

namespace SmolClaw.Cron

open Lib.Table SmolClaw.Config
open SmolClaw.Net (isSpace atNul)

/-! ## Store -/

/-- `sc_cron_job_store_put`: the store after it, and the status. -/
def put (jobs : List CronJob) (job : CronJob) : List CronJob × Res Unit :=
  if job.id = [] then (jobs, Status.invalidArgument "sc.cron_job_store.invalid_argument")
  else (upsert CronJob.id job jobs, .ok ())

theorem put_keyed {jobs : List CronJob} (h : Keyed CronJob.id jobs) (job : CronJob) :
    Keyed CronJob.id (put jobs job).1 := by
  unfold put
  split
  · exact h
  · exact h.upsert job

/-! ## Fields of a line -/

/-- `cron_store_hex_value` -/
def hexValue (c : UInt8) : Option UInt8 :=
  if chr '0' ≤ c ∧ c ≤ chr '9' then some (c - chr '0')
  else if chr 'a' ≤ c ∧ c ≤ chr 'f' then some (10 + c - chr 'a')
  else if chr 'A' ≤ c ∧ c ≤ chr 'F' then some (10 + c - chr 'A')
  else none

/-- `cron_store_decode_escaped` -/
def decodeEscaped : Bytes → Res Bytes
  | [] => .ok []
  | c :: rest =>
      if c = chr '%' then
        match rest with
        | high :: low :: rest =>
            match hexValue high, hexValue low with
            | some high, some low => (decodeEscaped rest).map ((high <<< 4 ||| low) :: ·)
            | _, _ => Status.parse "sc.cron_job_store.escape_invalid"
        | _ => Status.parse "sc.cron_job_store.escape_invalid"
      else (decodeEscaped rest).map (c :: ·)

example : decodeEscaped (str "a%7Cb") = .ok (str "a|b") := by decide

/-- `cron_store_parse_bool` -/
def parseBool (value : Bytes) : Option Bool :=
  if value = str "true" then some true
  else if value = str "false" then some false
  else none

/-- `cron_store_parse_i64`: all of the text up to a zero, read by `strtoll` without `ERANGE`. -/
def parseI64 (value : Bytes) : Option Int :=
  let (negative, rest) := scanSign (value.dropWhile isSpace)
  let digits := rest.takeWhile isDigit
  let parsed : Int := if negative then -decimalValue digits else decimalValue digits
  if digits = [] ∨ parsed < -2 ^ 63 ∨ 2 ^ 63 ≤ parsed ∨ !atNul (rest.dropWhile isDigit) then none
  else some parsed

/-- The kind of a job as the state file spells it. -/
def parseKind (value : Bytes) : Res CronJobKind :=
  if value = str "agent" then .ok .agent
  else if value = str "shell" then .ok .shell
  else Status.parse "sc.cron_job_store.kind_invalid"

/-- The job that `cron_store_parse_job_line` puts. -/
def parseJob (build : Build) (line : Bytes) : Res CronJob :=
  match line.splitOn (chr '|') with
  | [first, kind, enabled, once, lastRun, id, schedule, target, prompt] =>
      if first ≠ str "job" then Status.parse "sc.cron_job_store.field_count"
      else do
        let kind ← parseKind kind
        match parseBool enabled, parseBool once, parseI64 lastRun with
        | some enabled, some once, some lastRun => do
            let id ← decodeEscaped id
            let scheduleText ← decodeEscaped schedule
            let target ← decodeEscaped target
            let prompt ← decodeEscaped prompt
            let schedule ← cronScheduleParse build scheduleText
            .ok {
              id := id
              schedule := schedule
              kind := kind
              command := prompt
              deliveryTarget := target
              enabled := enabled
              once := once
              lastRunAt := lastRun
              scheduleText := scheduleText }
        | _, _, _ => Status.parse "sc.cron_job_store.scalar_invalid"
  | _ => Status.parse "sc.cron_job_store.field_count"

/-- `cron_store_parse_job_line`; lines that are empty do not get here. -/
def parseJobLine (build : Build) (jobs : List CronJob) (line : Bytes) : List CronJob × Res Unit :=
  match parseJob build line with
  | .error e => (jobs, .error e)
  | .ok job => put jobs job

/-! ## State file -/

/-- A line without the carriage return at its end. -/
def stripReturn (line : Bytes) : Bytes :=
  if line.getLast? = some (chr '\r') then line.dropLast else line

/-- The lines after the header. -/
def parseLines (build : Build) : List CronJob → List Bytes → List CronJob × Res Unit
  | jobs, [] => (jobs, .ok ())
  | jobs, line :: lines =>
      if stripReturn line = [] then parseLines build jobs lines
      else
        match parseJobLine build jobs (stripReturn line) with
        | (jobs, .error e) => (jobs, .error e)
        | (jobs, .ok ()) => parseLines build jobs lines

/-- `cron_store_parse_body` -/
def parseBody (build : Build) (jobs : List CronJob) (body : Bytes) : List CronJob × Res Unit :=
  if body = [] then (jobs, .ok ())
  else
    match body.splitOn (chr '\n') with
    | [] => (jobs, .ok ())
    | header :: lines =>
        if stripReturn header ≠ str "sc-cron-jobs-v1" then
          (jobs, Status.parse "sc.cron_job_store.header_invalid")
        else parseLines build jobs lines

/-- `SC_CRON_STATE_MAX_BYTES` -/
def cronStateMaxBytes : Nat := 1048576

/-- `sc_cron_job_store_load_file`, from what opening and reading the file give; `none` is a file that
    does not exist. -/
def loadFile (build : Build) (jobs : List CronJob) (file : Res (Option Bytes)) :
    List CronJob × Res Unit :=
  match file with
  | .error e => (jobs, .error e)
  | .ok none => (jobs, .ok ())
  | .ok (some body) =>
      if cronStateMaxBytes < body.length then (jobs, Status.parse "sc.cron_job_store.file_too_large")
      else parseBody build jobs body

/-- A line puts a job or nothing. -/
theorem parseJobLine_keyed {build : Build} {jobs : List CronJob} (h : Keyed CronJob.id jobs)
    (line : Bytes) : Keyed CronJob.id (parseJobLine build jobs line).1 := by
  unfold parseJobLine
  cases parseJob build line with
  | error e => exact h
  | ok job => exact put_keyed h job

theorem parseLines_keyed {build : Build} (lines : List Bytes) :
    ∀ {jobs : List CronJob}, Keyed CronJob.id jobs → Keyed CronJob.id (parseLines build jobs lines).1 := by
  induction lines with
  | nil => intro jobs h; exact h
  | cons line lines ih =>
    intro jobs h
    rw [parseLines]
    split
    · exact ih h
    · have hline : Keyed CronJob.id (parseJobLine build jobs (stripReturn line)).1 :=
        parseJobLine_keyed h _
      revert hline
      rcases parseJobLine build jobs (stripReturn line) with ⟨after, e | u⟩ <;> intro hline
      · exact hline
      · exact ih hline

theorem parseBody_keyed {build : Build} {jobs : List CronJob} (h : Keyed CronJob.id jobs) (body : Bytes) :
    Keyed CronJob.id (parseBody build jobs body).1 := by
  unfold parseBody
  split
  · exact h
  · split
    · exact h
    · split
      · exact h
      · exact parseLines_keyed _ h

/-- **Loading** a state file keeps the identifiers distinct. -/
theorem loadFile_keyed {build : Build} {jobs : List CronJob} (h : Keyed CronJob.id jobs)
    (file : Res (Option Bytes)) : Keyed CronJob.id (loadFile build jobs file).1 := by
  rcases file with e | _ | body
  · exact h
  · exact h
  · rw [loadFile]
    split
    · exact h
    · exact parseBody_keyed h body

/-! ## A process -/

/-- `sc_config_get_bool` -/
def getBool (config : ScConfig) (path : Bytes) (fallback : Bool) : Bool :=
  match getProp config path with
  | .error _ => fallback
  | .ok value =>
      match boolFromText value with
      | .error _ => fallback
      | .ok parsed => parsed

/-- A property, or a text in place of one that cannot be read. -/
def propOr (config : ScConfig) (path fallback : Bytes) : Bytes :=
  match getProp config path with
  | .error _ => fallback
  | .ok value => value

/-- The job of the configuration; it has never run. -/
def configuredJob (build : Build) (config : ScConfig) : Res CronJob := do
  let scheduleText ← getProp config (str "cron.schedule")
  let prompt ← getProp config (str "cron.prompt")
  let schedule ← cronScheduleParse build scheduleText
  .ok {
    id := propOr config (str "cron.id") (str "config-cron")
    schedule := schedule
    kind := .agent
    command := prompt
    deliveryTarget := propOr config (str "cron.delivery_target") (str "default")
    enabled := true
    once := getBool config (str "cron.once") false
    scheduleText := scheduleText }

/-- `create_cron_from_config`, from what reading `state/cron_jobs.state` in the workspace gives. -/
def createCronFromConfig (build : Build) (file : Res (Option Bytes)) (config : ScConfig) :
    List CronJob × Res Unit :=
  match loadFile build [] file with
  | (jobs, .error e) => (jobs, .error e)
  | (jobs, .ok ()) =>
      if !getBool config (str "cron.enabled") false then (jobs, .ok ())
      else
        match configuredJob build config with
        | .error e => (jobs, .error e)
        | .ok job => put jobs job

/-- **A process starts with distinct identifiers.** -/
theorem createCronFromConfig_keyed (build : Build) (file : Res (Option Bytes)) (config : ScConfig) :
    Keyed CronJob.id (createCronFromConfig build file config).1 := by
  have hload : Keyed CronJob.id (loadFile build [] file).1 := loadFile_keyed Keyed.nil file
  unfold createCronFromConfig
  revert hload
  rcases loadFile build [] file with ⟨jobs, e | u⟩ <;> intro hload
  · exact hload
  · simp only
    split
    · exact hload
    · split
      · exact hload
      · exact put_keyed hload _

end SmolClaw.Cron
