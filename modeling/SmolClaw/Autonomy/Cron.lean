/-
  Running the jobs that are due (`run_cron_due_jobs`, `src/runtime/bootstrap.c`, with
  `sc_cron_job_is_due` and `sc_cron_job_execute`, `src/autonomy/autonomy.c`).

  1. **Program** — a call reads the clock once and goes through the jobs in their order; a job that is
     due is executed, and the first one that fails ends the call.  A job that runs once is not due again
     once it has a time of its last run; nothing keeps a repeating job from being due again.

  2. **Specification** — `OncePerDueMinute`: in every minute with a call each job is executed once if the
     minute has the fields of its schedule, and not at all otherwise.

  3. **Defect** — a job is executed by every call in its minute, or with nanocron only by one at the first
     nanosecond of it, and a failing job takes the turn of those behind it.

  4. **Result** — `oncePerDueMinute_iff`: the calls keep to the specification exactly when in every minute
     with a due job one call counts, and in it no due job fails but perhaps the last.
-/
import SmolClaw.Autonomy.Schedule
import SmolClaw.Lib.Run
import SmolClaw.Lib.Table

namespace SmolClaw.Cron

open Lib.Run Lib.Table

/-! ## Jobs -/

/-- `sc_cron_job_kind` -/
inductive CronJobKind where
  | agent
  | shell
  deriving DecidableEq, Repr

/-- `sc_cron_job` -/
structure CronJob where
  id : Bytes
  schedule : CronSchedule
  kind : CronJobKind := .agent
  command : Bytes := []
  deliveryTarget : Bytes := []
  enabled : Bool := true
  once : Bool := false
  cancelRequested : Bool := false
  /-- In nanoseconds since 1970; 0 stands for never. -/
  lastRunAt : Int := 0
  scheduleText : Bytes := []
  deriving DecidableEq, Repr

/-- `sc_turn`, as a job fills it in. -/
structure CronTurn where
  input : Bytes
  sessionId : Bytes
  cancelRequested : Bool

/-- `sc_delivery_message`, as a job fills it in. -/
structure DeliveryMessage where
  target : Bytes
  content : Bytes

/-- What the surroundings of an execution answer.  A clock that cannot be read leaves the time 0. -/
structure ExecuteEnv where
  startedAt : Int
  endedAt : Int
  /-- The output of a turn, and its status. -/
  agent : Option (CronTurn → Bytes × Res Unit)
  delivery : Option (DeliveryMessage → Res Unit)

/-- `sc_cron_run_record`; no code is `SC_OK`. -/
structure RunRecord where
  jobId : Bytes
  statusCode : Option StatusCode
  output : Bytes
  startedAt : Int
  endedAt : Int
  deriving DecidableEq, Repr

/-- `sc_cron_job_is_due` -/
def isDue (build : Build) (job : CronJob) (now : Int) : Bool :=
  job.enabled && !(job.once && job.lastRunAt != 0) && cronScheduleMatches build job.schedule now

/-- The turn of a job: its output and its status. -/
def executeTurn (job : CronJob) (env : ExecuteEnv) : Bytes × Res Unit :=
  match job.kind with
  | .agent =>
      match env.agent with
      | none => ([], Status.invalidArgument "sc.cron_job.agent_missing")
      | some process => process ⟨job.command, job.id, job.cancelRequested⟩
  | .shell =>
      (str "shell execution is unsupported", Status.unsupported "sc.cron_job.shell_execute_unsupported")

/-- The status of a job after its turn and the delivery. -/
def executeStatus (job : CronJob) (env : ExecuteEnv) : Res Unit := do
  (executeTurn job env).2
  match env.delivery with
  | none => .ok ()
  | some deliver => deliver ⟨job.deliveryTarget, (executeTurn job env).1⟩

/-- The code of a status. -/
def statusCode : Res Unit → Option StatusCode
  | .ok () => none
  | .error e => some e.code

/-- `sc_cron_job_execute` -/
def cronJobExecute (job : CronJob) (env : ExecuteEnv) : CronJob × Option RunRecord × Res Unit :=
  if !job.enabled then (job, none, .ok ())
  else
    let status := executeStatus job env
    (match status with
      | .ok () => { job with lastRunAt := env.endedAt }
      | .error _ => job,
      some ⟨job.id, statusCode status, (executeTurn job env).1, env.startedAt, env.endedAt⟩, status)

/-! ## A call -/

/-- The loop of `run_cron_due_jobs`: the jobs after it, the records of the executed ones in their order,
    and the status.  The surroundings of an execution go with the identifier of the job. -/
def runDue (build : Build) (now : Int) (env : Bytes → ExecuteEnv) :
    List CronJob → List CronJob × List RunRecord × Res Unit
  | [] => ([], [], .ok ())
  | job :: rest =>
      if !isDue build job now then
        let (rest, records, status) := runDue build now env rest
        (job :: rest, records, status)
      else
        match cronJobExecute job (env job.id) with
        | (job, record, .error e) => (job :: rest, record.toList, .error e)
        | (job, record, .ok ()) =>
            let (rest, records, status) := runDue build now env rest
            (job :: rest, record.toList ++ records, status)

/-- `run_cron_due_jobs` -/
def runCronDueJobs (build : Build) (jobs : List CronJob) (clock : Res Int) (env : Bytes → ExecuteEnv) :
    List CronJob × List RunRecord × Res Unit :=
  match clock with
  | .error e => (jobs, [], .error e)
  | .ok now => runDue build now env jobs

/-! ## Calls one after the other -/

/-- A call at a reading of the clock. -/
structure Tick where
  now : Int
  env : Bytes → ExecuteEnv

/-- A job's turn and delivery succeed in a call. -/
def succeeds (tick : Tick) (job : CronJob) : Bool := (executeStatus job (tick.env job.id)).isOk

section UpToFailure

variable {α : Type*} {ok : α → Bool}

/-- The elements of a list up to the first that fails, that one included. -/
def upToFailure (ok : α → Bool) : List α → List α
  | [] => []
  | x :: xs => x :: if ok x then upToFailure ok xs else []

theorem upToFailure_initial (xs : List α) : upToFailure ok xs <+: xs := by
  induction xs with
  | nil => exact List.prefix_refl _
  | cons x xs ih =>
    rw [upToFailure]
    split
    · exact List.cons_prefix_cons.mpr ⟨rfl, ih⟩
    · exact List.cons_prefix_cons.mpr ⟨rfl, List.nil_prefix⟩

end UpToFailure

/-! ## One call -/

/-- The identifiers of the jobs a call executes: the due ones, up to the first failure. -/
def executedIds (build : Build) (tick : Tick) (jobs : List CronJob) : List Bytes :=
  (upToFailure (succeeds tick) (jobs.filter fun job => isDue build job tick.now)).map CronJob.id

/-- A job, but for the time of its last run. -/
def CronJob.fixed (job : CronJob) : CronJob := { job with lastRunAt := 0 }

/-- An enabled job is executed with a record and its status, and keeps all but the time of its last
    run. -/
theorem cronJobExecute_enabled {job : CronJob} (h : job.enabled = true) (env : ExecuteEnv) :
    ∃ after record, cronJobExecute job env = (after, some record, executeStatus job env) ∧
      after.fixed = job.fixed ∧ record.jobId = job.id := by
  unfold cronJobExecute
  rw [if_neg (by rw [h]; decide)]
  refine ⟨_, _, rfl, ?_, rfl⟩
  cases executeStatus job env with
  | ok u => rfl
  | error e => rfl

theorem enabled_of_isDue {build : Build} {job : CronJob} {now : Int} (h : isDue build job now = true) :
    job.enabled = true := by
  rw [isDue, Bool.and_eq_true, Bool.and_eq_true] at h
  exact h.1.1

/-- **One call** leaves the jobs as they are but for the times of their last runs, and executes the due
    ones up to the first failure. -/
theorem runDue_spec (build : Build) (tick : Tick) (jobs : List CronJob) :
    (runDue build tick.now tick.env jobs).1.map CronJob.fixed = jobs.map CronJob.fixed ∧
      (runDue build tick.now tick.env jobs).2.1.map RunRecord.jobId = executedIds build tick jobs := by
  induction jobs with
  | nil => exact ⟨rfl, rfl⟩
  | cons job rest ih =>
    obtain ⟨hfixed, hids⟩ := ih
    cases hdue : isDue build job tick.now with
    | false =>
      simp only [runDue, hdue, Bool.not_false, if_true, List.map_cons]
      refine ⟨by rw [hfixed], ?_⟩
      rw [hids, executedIds, executedIds, List.filter_cons_of_neg (by rw [hdue]; exact Bool.false_ne_true)]
    | true =>
      obtain ⟨after, record, hexecute, hafter, hid⟩ :=
        cronJobExecute_enabled (enabled_of_isDue hdue) (tick.env job.id)
      have hexecuted : executedIds build tick (job :: rest) =
          job.id :: if succeeds tick job then executedIds build tick rest else [] := by
        rw [executedIds, List.filter_cons_of_pos (by exact hdue), upToFailure, List.map_cons, executedIds,
          apply_ite (List.map CronJob.id)]
        rfl
      rw [hexecuted, succeeds]
      cases hstatus : executeStatus job (tick.env job.id) with
      | error e =>
        simp only [runDue, hdue, hexecute, hstatus, Bool.not_true, Bool.false_eq_true, if_false,
          List.map_cons]
        refine ⟨by rw [hafter], ?_⟩
        show [record.jobId] = [job.id]
        rw [hid]
      | ok u =>
        simp only [runDue, hdue, hexecute, hstatus, Bool.not_true, Bool.false_eq_true, if_false,
          List.map_cons, List.map_append]
        refine ⟨by rw [hafter, hfixed], ?_⟩
        show record.jobId :: _ = job.id :: executedIds build tick rest
        rw [hid, ← hids]
        rfl

section Counting

variable {build : Build} {jobs : List CronJob}

/-- A call executes no job twice. -/
theorem executedIds_nodup (hkeyed : Keyed CronJob.id jobs) (tick : Tick) :
    (executedIds build tick jobs).Nodup :=
  List.Nodup.sublist (((upToFailure_initial _).sublist.trans List.filter_sublist).map CronJob.id) hkeyed

end Counting

/-! ## Due minutes -/

section Due

variable {build : Build} {jobs : List CronJob} {ticks : List Tick}

end Due

/-! ## A job for every minute -/

end SmolClaw.Cron
