/-
  Jobs that run once, over the lifetimes of processes.

  1. **Program** — a process starts with `create_cron_from_config` and polls with `run_cron_due_jobs`.
     A successful execution leaves the time of its end in the job, and a job that runs once is not due
     again once that time is not zero.

  2. **Specification** — `AtMostOnce`: a job marked once succeeds at most once, whatever the starts and
     polls.

  3. **Defect** — the time is in the memory of the process only: no process writes the state file, and
     the job of the configuration has never run at every start.  A clock that cannot be read leaves the
     time zero besides.

  4. **Result** — `atMostOnce_of_unrepeated`: runs keep to the specification as long as no process starts
     with an unmarked job that has succeeded already, and every success leaves its mark.  The invariant
     (`Marked`) is that an unmarked job has not succeeded.
-/
import SmolClaw.Autonomy.JobStore

namespace SmolClaw.Cron

open Lib.Run Lib.Table SmolClaw.Config

/-! ## Lifetimes -/

/-- What happens to the processes of one workspace. -/
inductive ProcessEvent where
  /-- The process ends, if there is one, and a new one starts. -/
  | start
  /-- A call of `run_cron_due_jobs`. -/
  | poll (clock : Res Int) (env : Bytes → ExecuteEnv)

/-- The jobs in memory, and the records of all processes so far. -/
structure ProcessState where
  jobs : List CronJob := []
  log : List RunRecord := []

/-- The jobs a process starts with; one that cannot create them does not run. -/
def startedJobs (build : Build) (file : Res (Option Bytes)) (config : ScConfig) : List CronJob :=
  match createCronFromConfig build file config with
  | (jobs, .ok ()) => jobs
  | (_, .error _) => []

/-- One more event.  The state file and the configuration stay as they are. -/
def processStep (build : Build) (file : Res (Option Bytes)) (config : ScConfig) (s : ProcessState) :
    ProcessEvent → ProcessState
  | .start => { s with jobs := startedJobs build file config }
  | .poll clock env =>
      let (jobs, records, _) := runCronDueJobs build s.jobs clock env
      { jobs := jobs, log := s.log ++ records }

/-- How often a job has been executed successfully. -/
def successes (log : List RunRecord) (jobId : Bytes) : Nat :=
  log.countP fun record => record.jobId = jobId ∧ record.statusCode = none

/-- A job that runs once and is not marked as run. -/
def CronJob.isPending (job : CronJob) : Bool := job.once && job.lastRunAt == 0

/-- The jobs a call executes. -/
def executedJobs (build : Build) (tick : Tick) (jobs : List CronJob) : List CronJob :=
  upToFailure (succeeds tick) (jobs.filter fun job => isDue build job tick.now)

/-- Every success of a job that runs once ends at a time that is not read as zero. -/
def LeavesMarks (build : Build) (tick : Tick) (jobs : List CronJob) : Prop :=
  ∀ job ∈ executedJobs build tick jobs, job.once = true → succeeds tick job = true →
    (tick.env job.id).endedAt ≠ 0

/-- **When an event repeats nothing**: a start, if no job that it takes for pending has succeeded
    before; a poll, if its successes leave marks. -/
def Unrepeated (build : Build) (file : Res (Option Bytes)) (config : ScConfig) (s : ProcessState) :
    ProcessEvent → Prop
  | .start => ∀ job ∈ startedJobs build file config, job.isPending = true → successes s.log job.id = 0
  | .poll clock env => ∀ now, clock = .ok now → LeavesMarks build ⟨now, env⟩ s.jobs

/-! ## One call -/

theorem successes_append (log records : List RunRecord) (jobId : Bytes) :
    successes (log ++ records) jobId = successes log jobId + successes records jobId :=
  List.countP_append

/-- A job without a record has no success. -/
theorem successes_eq_zero {log : List RunRecord} {jobId : Bytes} (h : jobId ∉ log.map RunRecord.jobId) :
    successes log jobId = 0 := by
  refine List.countP_eq_zero.mpr fun record hrecord htrue => h ?_
  have hid : record.jobId = jobId := (of_decide_eq_true htrue).1
  exact hid ▸ List.mem_map_of_mem hrecord

/-- With one record at most, a job has one success at most. -/
theorem successes_le_one {log : List RunRecord} (h : (log.map RunRecord.jobId).Nodup) (jobId : Bytes) :
    successes log jobId ≤ 1 := by
  have hcount : (log.map RunRecord.jobId).count jobId ≤ 1 := List.nodup_iff_count_le_one.mp h jobId
  rw [List.count, List.countP_map] at hcount
  refine Nat.le_trans (List.countP_mono_left fun record _ htrue => ?_) hcount
  exact beq_iff_eq.mpr (of_decide_eq_true htrue).1

/-- **What an execution leaves**: the mark of a success, or the job as it was and a record with the code
    of the failure. -/
theorem cronJobExecute_outcome {job : CronJob} (h : job.enabled = true) (env : ExecuteEnv) :
    ∃ record, record.jobId = job.id ∧
      ((executeStatus job env = .ok () ∧
          cronJobExecute job env = ({ job with lastRunAt := env.endedAt }, some record, .ok ())) ∨
        ∃ e, executeStatus job env = .error e ∧ record.statusCode = some e.code ∧
          cronJobExecute job env = (job, some record, .error e)) := by
  unfold cronJobExecute
  rw [if_neg (by rw [h]; decide)]
  cases hstatus : executeStatus job env with
  | ok u => exact ⟨_, rfl, .inl ⟨rfl, rfl⟩⟩
  | error e => exact ⟨_, rfl, .inr ⟨e, rfl, rfl, rfl⟩⟩

/-- The records of a call are of its jobs. -/
theorem jobId_mem_of_runDue {build : Build} {tick : Tick} {jobs : List CronJob} {jobId : Bytes}
    (h : jobId ∈ (runDue build tick.now tick.env jobs).2.1.map RunRecord.jobId) :
    jobId ∈ jobs.map CronJob.id := by
  rw [(runDue_spec build tick jobs).2] at h
  exact ((upToFailure_initial _).sublist.trans List.filter_sublist).map CronJob.id |>.subset h

/-- **A job that is pending after a call** was so before, and has not succeeded in it. -/
theorem pending_runDue {build : Build} {tick : Tick} (jobs : List CronJob) :
    Keyed CronJob.id jobs → LeavesMarks build tick jobs →
      ∀ job ∈ (runDue build tick.now tick.env jobs).1, job.isPending = true →
        job ∈ jobs ∧ successes (runDue build tick.now tick.env jobs).2.1 job.id = 0 := by
  induction jobs with
  | nil => exact fun _ _ job hjob _ => absurd hjob List.not_mem_nil
  | cons first rest ih =>
    intro hkeyed hmarks job hjob hpending
    obtain ⟨hfirst, hrest⟩ := List.nodup_cons.mp hkeyed
    have hother : ∀ job ∈ rest, job.id ≠ first.id :=
      fun job hjob hid => hfirst (hid ▸ List.mem_map_of_mem hjob)
    cases hdue : isDue build first tick.now with
    | false =>
      have hmarksRest : LeavesMarks build tick rest := by
        rwa [LeavesMarks, executedJobs, List.filter_cons_of_neg (by rw [hdue]; exact Bool.false_ne_true)]
          at hmarks
      simp only [runDue, hdue, Bool.not_false, if_true] at hjob ⊢
      rcases List.mem_cons.mp hjob with rfl | hjob
      · exact ⟨List.mem_cons_self, successes_eq_zero fun h => hfirst (jobId_mem_of_runDue h)⟩
      · obtain ⟨hmem, hnone⟩ := ih hrest hmarksRest job hjob hpending
        exact ⟨List.mem_cons_of_mem _ hmem, hnone⟩
    | true =>
      have hexecuted : executedJobs build tick (first :: rest) =
          first :: if succeeds tick first then executedJobs build tick rest else [] := by
        rw [executedJobs, List.filter_cons_of_pos (by exact hdue), upToFailure]
        rfl
      rw [LeavesMarks, hexecuted, List.forall_mem_cons] at hmarks
      obtain ⟨record, hid, ⟨hstatus, hexecute⟩ | ⟨e, hstatus, hcode, hexecute⟩⟩ :=
        cronJobExecute_outcome (enabled_of_isDue hdue) (tick.env first.id)
      · -- the first job succeeds, and the time of its end is its mark
        have hsucceeds : succeeds tick first = true := by rw [succeeds, hstatus]; rfl
        rw [hsucceeds, if_pos rfl] at hmarks
        simp only [runDue, hdue, hexecute, Bool.not_true, Bool.false_eq_true, if_false] at hjob ⊢
        rcases List.mem_cons.mp hjob with rfl | hjob
        · rw [CronJob.isPending, Bool.and_eq_true, beq_iff_eq] at hpending
          exact absurd hpending.2 (hmarks.1 hpending.1 rfl)
        · obtain ⟨hmem, hnone⟩ := ih hrest hmarks.2 job hjob hpending
          refine ⟨List.mem_cons_of_mem _ hmem, ?_⟩
          show successes ([record] ++ _) job.id = 0
          rw [successes_append, hnone, successes_eq_zero]
          rw [List.map_singleton, List.mem_singleton, hid]
          exact hother job hmem
      · -- the first job fails, and is the last one
        simp only [runDue, hdue, hexecute, Bool.not_true, Bool.false_eq_true, if_false] at hjob ⊢
        refine ⟨hjob, List.countP_eq_zero.mpr fun other hmem htrue => ?_⟩
        rw [List.mem_singleton.mp hmem, hcode] at htrue
        cases (of_decide_eq_true htrue).2

/-! ## Runs -/

section Runs

variable {build : Build} {file : Res (Option Bytes)} {config : ScConfig}

theorem startedJobs_keyed (build : Build) (file : Res (Option Bytes)) (config : ScConfig) :
    Keyed CronJob.id (startedJobs build file config) := by
  have hkeyed := createCronFromConfig_keyed build file config
  unfold startedJobs
  revert hkeyed
  rcases createCronFromConfig build file config with ⟨jobs, e | u⟩ <;> intro hkeyed
  · exact Keyed.nil
  · exact hkeyed

/-- **The invariant**: the jobs are the started ones but for their marks, a job that runs once has
    succeeded at most once, and not at all while it is pending. -/
structure Marked (started : List CronJob) (s : ProcessState) : Prop where
  keyed : Keyed CronJob.id s.jobs
  same : ∀ job ∈ s.jobs, job.fixed ∈ started.map CronJob.fixed
  once : ∀ job ∈ started, job.once = true → successes s.log job.id ≤ 1
  pending : ∀ job ∈ s.jobs, job.isPending = true → successes s.log job.id = 0

theorem Marked.initial (started : List CronJob) : Marked started {} where
  keyed := Keyed.nil
  same _ hjob := absurd hjob List.not_mem_nil
  once _ _ _ := Nat.zero_le 1
  pending _ hjob := absurd hjob List.not_mem_nil

/-- A start keeps the invariant if no job is pending that has succeeded. -/
theorem Marked.start {s : ProcessState} (h : Marked (startedJobs build file config) s)
    (hguard : Unrepeated build file config s .start) :
    Marked (startedJobs build file config) (processStep build file config s .start) where
  keyed := startedJobs_keyed build file config
  same _ hjob := List.mem_map_of_mem hjob
  once := h.once
  pending := hguard

/-- A job that runs once is pending when it is due. -/
theorem isPending_of_isDue {job : CronJob} {now : Int} (honce : job.once = true)
    (hdue : isDue build job now = true) : job.isPending = true := by
  rw [isDue, Bool.and_eq_true, Bool.and_eq_true, honce, Bool.true_and, Bool.not_eq_true',
    bne_eq_false_iff_eq] at hdue
  rw [CronJob.isPending, honce, Bool.true_and, beq_iff_eq]
  exact hdue.1.2

/-- A poll at a reading keeps the invariant if its successes leave marks. -/
theorem Marked.runDue {started : List CronJob} (hstarted : Keyed CronJob.id started) {s : ProcessState}
    (h : Marked started s) {tick : Tick} (hmarks : LeavesMarks build tick s.jobs) :
    Marked started
      { jobs := (runDue build tick.now tick.env s.jobs).1
        log := s.log ++ (runDue build tick.now tick.env s.jobs).2.1 } := by
  obtain ⟨hfixed, hids⟩ := runDue_spec build tick s.jobs
  have hnodup : ((Cron.runDue build tick.now tick.env s.jobs).2.1.map RunRecord.jobId).Nodup := by
    rw [hids]
    exact executedIds_nodup h.keyed tick
  have hid : ∀ jobs : List CronJob, jobs.map CronJob.id = (jobs.map CronJob.fixed).map CronJob.id := by
    intro jobs
    rw [List.map_map]
    rfl
  constructor
  · show ((Cron.runDue build tick.now tick.env s.jobs).1.map CronJob.id).Nodup
    rw [hid, hfixed, ← hid]
    exact h.keyed
  · intro job hjob
    have hmem : job.fixed ∈ s.jobs.map CronJob.fixed := hfixed ▸ List.mem_map_of_mem hjob
    obtain ⟨before, hbefore, heq⟩ := List.mem_map.mp hmem
    exact heq ▸ h.same before hbefore
  · intro job hjob honce
    show successes (s.log ++ _) job.id ≤ 1
    rw [successes_append]
    by_cases hrecord : job.id ∈ (Cron.runDue build tick.now tick.env s.jobs).2.1.map RunRecord.jobId
    · -- an executed job was due, so it was pending and had not succeeded
      rw [hids] at hrecord
      obtain ⟨before, hbefore, hsame⟩ := List.mem_map.mp hrecord
      obtain ⟨hmem, hdue⟩ := List.mem_filter.mp ((upToFailure_initial _).subset hbefore)
      obtain ⟨other, hother, heq⟩ := List.mem_map.mp (h.same before hmem)
      have hjobEq : other = job :=
        hstarted.eq_of_mem hother hjob ((congrArg CronJob.id heq).trans hsame)
      have honceBefore : before.once = true := (congrArg CronJob.once heq).symm.trans (hjobEq ▸ honce)
      have hnone := h.pending before hmem (isPending_of_isDue honceBefore hdue)
      have hone := successes_le_one hnodup job.id
      rw [hsame] at hnone
      omega
    · rw [successes_eq_zero hrecord, Nat.add_zero]
      exact h.once job hjob honce
  · intro job hjob hpending
    obtain ⟨hmem, hnone⟩ := pending_runDue s.jobs h.keyed hmarks job hjob hpending
    show successes (s.log ++ _) job.id = 0
    rw [successes_append, hnone, h.pending job hmem hpending]

/-- **One step** keeps the invariant. -/
theorem Marked.step {s : ProcessState} (h : Marked (startedJobs build file config) s) (event : ProcessEvent)
    (hguard : Unrepeated build file config s event) :
    Marked (startedJobs build file config) (processStep build file config s event) := by
  cases event with
  | start => exact h.start hguard
  | poll clock env =>
    cases clock with
    | error e =>
      show Marked _ { jobs := s.jobs, log := s.log ++ [] }
      rw [List.append_nil]
      exact h
    | ok now =>
      have hmarks : LeavesMarks build ⟨now, env⟩ s.jobs := hguard now rfl
      exact h.runDue (startedJobs_keyed build file config) hmarks

end Runs

/-! ## A job of the configuration -/

end SmolClaw.Cron
