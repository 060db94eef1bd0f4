/-
  The queue of agent turns (`src/runtime/turn_queue.c`): what enqueueing does.

  1. **Program** — a job with `cancel_previous` cancels the queued jobs of its conversation, and starts
     with the messages of the latest of them: its window is theirs and its own input, cut at the front
     to the limit of the job.  The input of a window of several messages is a text that lists them.

  2. **Specification** — `Enqueued`: the window of the new job, which jobs are cancelled, and that
     everything else stays.

  3. **Result** — `enqueue_run`: every successful call of a sequence meets the specification, and the
     windows stay what they are to its end.
-/
import Mathlib.Data.List.DropRight
import SmolClaw.Core.Double
import SmolClaw.Lib.Run
import SmolClaw.Lib.Window

namespace SmolClaw.Runtime

open Lib.Run Lib.Window

/-! ## Jobs -/

/-- `sc_runtime_agent_job_source` -/
inductive JobSource where
  | gateway
  | websocket
  | channel
  | cron
  deriving DecidableEq, Repr

/-- A `done` callback with its `user_data`, named by a number. -/
abbrev Callback := Nat

/-- `sc_runtime_agent_job`; a text that is no text is a null pointer. -/
structure AgentJob where
  source : JobSource := .gateway
  input : Option Bytes
  sessionId : Option Bytes := none
  threadId : Option Bytes := none
  cancelPrevious : Bool := false
  consecutiveMessageLimit : Nat := 0
  done : Option Callback := none
  deriving DecidableEq, Repr

/-- `sc_cancel_token` -/
structure CancelToken where
  cancelRequested : Bool := false
  reason : Bytes := []
  deriving DecidableEq, Repr

/-- `runtime_queued_turn`, without the turn that is run for it. -/
structure QueuedTurn where
  source : JobSource
  input : Bytes
  sessionId : Bytes
  threadId : Bytes
  consecutiveInputs : List Bytes
  cancelToken : CancelToken := {}
  cancelRequested : Bool := false
  done : Option Callback
  deriving DecidableEq, Repr

/-- `sc_runtime_turn_queue`; `capacity` is how many jobs the memory of the vector holds, `shutdown` the
    token of the loop. -/
structure TurnQueue where
  jobs : List QueuedTurn := []
  capacity : Nat := 0
  inFlight : Bool := false
  shutdown : Bool := false
  deriving DecidableEq, Repr

/-- `runtime_queued_turn_matches`: a null pointer is the empty text. -/
def queuedTurnMatches (queued : QueuedTurn) (sessionId threadId : Option Bytes) : Bool :=
  queued.sessionId == sessionId.getD [] && queued.threadId == threadId.getD []

/-! ## Windows -/

/-- `RUNTIME_TURN_QUEUE_DEFAULT_CONSECUTIVE_LIMIT` -/
def defaultConsecutiveLimit : Nat := 5

/-- `job_consecutive_limit` -/
def jobConsecutiveLimit (job : AgentJob) : Nat :=
  if 0 < job.consecutiveMessageLimit then job.consecutiveMessageLimit else defaultConsecutiveLimit

/-- `queued_turn_trim_message_window` -/
def trimMessageWindow (messages : List Bytes) (limit : Nat) : List Bytes :=
  trimFront (if limit = 0 then defaultConsecutiveLimit else limit) messages

/-- `queued_turn_copy_message_window` -/
def copyMessageWindow (previous : Option QueuedTurn) (input : Bytes) (limit : Nat) : List Bytes :=
  let copied := match previous with
    | some previous => previous.consecutiveInputs
    | none => []
  trimMessageWindow (copied ++ [input]) limit

/-- `queued_turn_build_effective_input` -/
def buildEffectiveInput : List Bytes → Res Bytes
  | [] => Status.invalidArgument "sc.runtime_turn_queue.window_invalid_argument"
  | [message] => .ok message
  | messages =>
      .ok (str ("Consecutive user messages received while an earlier run was active. " ++
          "Respond to the combined latest intent.\n\n") ++
        messages.zipIdx.flatMap fun entry =>
          decimal (entry.2 + 1) ++ str ". " ++ entry.1 ++ str "\n")

/-- `queued_turn_init` -/
def queuedTurnInit (job : AgentJob) (input : Bytes) (previous : Option QueuedTurn) : Res QueuedTurn := do
  let window := copyMessageWindow previous input (jobConsecutiveLimit job)
  let effective ← buildEffectiveInput window
  .ok {
    source := job.source
    input := effective
    sessionId := job.sessionId.getD []
    threadId := job.threadId.getD []
    consecutiveInputs := window
    done := job.done }

/-! ## Enqueueing -/

/-- A queued job that a job with `cancel_previous` passes. -/
def cancelMatching (job : AgentJob) (queued : QueuedTurn) : QueuedTurn :=
  if queuedTurnMatches queued job.sessionId job.threadId then
    { queued with
      cancelRequested := true
      cancelToken := ⟨true, str "runtime_turn_queue.consecutive_message"⟩ }
  else queued

/-- `latest_matching_queued_turn`: the loop runs from the end. -/
def latestMatchingQueuedTurn (jobs : List QueuedTurn) (sessionId threadId : Option Bytes) :
    Option QueuedTurn :=
  jobs.reverse.find? fun queued => queuedTurnMatches queued sessionId threadId

/-- The loop of `sc_vec_reserve` that doubles the capacity. -/
def growCapacity (needed : Nat) : Nat → Nat → Nat
  | 0, capacity => capacity
  | fuel + 1, capacity => if capacity < needed then growCapacity needed fuel (2 * capacity) else capacity

/-- `sc_vec_reserve`: the capacity that holds this many items. -/
def vecReserve (capacity needed : Nat) : Nat :=
  if needed ≤ capacity then capacity else growCapacity needed needed (if capacity = 0 then 4 else capacity)

/-- `sc_runtime_turn_queue_enqueue`; a failing call leaves the queue as it is. -/
def enqueue (queue : TurnQueue) (job : AgentJob) : Res TurnQueue :=
  match job.input with
  | none => Status.invalidArgument "sc.runtime_turn_queue.job_invalid_argument"
  | some input =>
      if input = [] then Status.invalidArgument "sc.runtime_turn_queue.job_invalid_argument"
      else if queue.shutdown then Status.cancelled "sc.runtime_turn_queue.shutdown"
      else do
        let jobs := if job.cancelPrevious then queue.jobs.map (cancelMatching job) else queue.jobs
        let previous :=
          if job.cancelPrevious then latestMatchingQueuedTurn jobs job.sessionId job.threadId else none
        let copy ← queuedTurnInit job input previous
        .ok { queue with
          jobs := jobs ++ [copy]
          capacity := vecReserve queue.capacity (jobs.length + 1) }

/-! ## What a new job is -/

theorem jobConsecutiveLimit_pos (job : AgentJob) : 0 < jobConsecutiveLimit job := by
  rw [jobConsecutiveLimit]
  split
  · assumption
  · decide

/-- The window is the last messages, as many as the limit says. -/
theorem copyMessageWindow_eq (previous : Option QueuedTurn) (input : Bytes) (job : AgentJob) :
    copyMessageWindow previous input (jobConsecutiveLimit job) =
      (((previous.map QueuedTurn.consecutiveInputs).getD []) ++ [input]).rtake (jobConsecutiveLimit job) := by
  have hpos := jobConsecutiveLimit_pos job
  have htrim : ∀ messages, trimMessageWindow messages (jobConsecutiveLimit job) =
      messages.rtake (jobConsecutiveLimit job) := by
    intro messages
    rw [trimMessageWindow, if_neg (by omega), trimFront_eq_drop, List.rtake]
  cases previous with
  | none => exact htrim _
  | some previous => exact htrim _

/-- The window a job starts with: the one of the latest queued job of its conversation. -/
def windowOf (queue : TurnQueue) (job : AgentJob) : List Bytes :=
  match (queue.jobs.filter fun queued => queuedTurnMatches queued job.sessionId job.threadId).getLast? with
  | some latest => latest.consecutiveInputs
  | none => []

theorem find?_reverse_eq_getLast? {α : Type*} (p : α → Bool) (xs : List α) :
    xs.reverse.find? p = (xs.filter p).getLast? := by
  rw [← List.head?_filter, List.filter_reverse, List.head?_reverse]

theorem cancelMatching_matches (job : AgentJob) (queued : QueuedTurn) (sessionId threadId : Option Bytes) :
    queuedTurnMatches (cancelMatching job queued) sessionId threadId =
      queuedTurnMatches queued sessionId threadId := by
  rw [cancelMatching]
  split <;> rfl

theorem cancelMatching_window (job : AgentJob) (queued : QueuedTurn) :
    (cancelMatching job queued).consecutiveInputs = queued.consecutiveInputs := by
  rw [cancelMatching]
  split <;> rfl

/-- Cancelling does not change which job is the latest, nor its window. -/
theorem latest_cancelled (jobs : List QueuedTurn) (job : AgentJob) :
    (latestMatchingQueuedTurn (jobs.map (cancelMatching job)) job.sessionId job.threadId).map
        QueuedTurn.consecutiveInputs =
      ((jobs.filter fun queued => queuedTurnMatches queued job.sessionId job.threadId).getLast?).map
        QueuedTurn.consecutiveInputs := by
  have hmatch : (fun queued => queuedTurnMatches queued job.sessionId job.threadId) ∘ cancelMatching job =
      fun queued => queuedTurnMatches queued job.sessionId job.threadId := by
    funext queued
    exact cancelMatching_matches job queued _ _
  have hwindow : QueuedTurn.consecutiveInputs ∘ cancelMatching job = QueuedTurn.consecutiveInputs := by
    funext queued
    exact cancelMatching_window job queued
  rw [latestMatchingQueuedTurn, find?_reverse_eq_getLast?, List.filter_map, hmatch, List.getLast?_map,
    Option.map_map, hwindow]

/-- **What one call does**: the new job, the jobs it cancels, and the ones it leaves alone. -/
structure Enqueued (before : TurnQueue) (job : AgentJob) (after : TurnQueue) : Prop where
  /-- One job more, with its own input at the end of its window. -/
  added : ∃ input added, job.input = some input ∧ after.jobs.length = before.jobs.length + 1 ∧
    after.jobs[before.jobs.length]? = some added ∧
    added.sessionId = job.sessionId.getD [] ∧ added.threadId = job.threadId.getD [] ∧
    added.consecutiveInputs =
      (if job.cancelPrevious then (windowOf before job ++ [input]).rtake (jobConsecutiveLimit job)
        else [input]) ∧
    buildEffectiveInput added.consecutiveInputs = .ok added.input ∧
    added.cancelRequested = false ∧ added.cancelToken.cancelRequested = false ∧ added.done = job.done
  /-- Every queued job keeps everything but, if it is cancelled, its cancel state. -/
  kept : ∀ (i : Nat) (queued : QueuedTurn), before.jobs[i]? = some queued →
    ∃ queued' : QueuedTurn, after.jobs[i]? = some queued' ∧
      queued' = { queued with
        cancelRequested := queued'.cancelRequested, cancelToken := queued'.cancelToken } ∧
      if job.cancelPrevious ∧ queued.sessionId = job.sessionId.getD [] ∧
          queued.threadId = job.threadId.getD [] then
        queued'.cancelRequested = true ∧ queued'.cancelToken.cancelRequested = true
      else queued' = queued

theorem queuedTurnMatches_iff {queued : QueuedTurn} {sessionId threadId : Option Bytes} :
    queuedTurnMatches queued sessionId threadId = true ↔
      queued.sessionId = sessionId.getD [] ∧ queued.threadId = threadId.getD [] := by
  rw [queuedTurnMatches, Bool.and_eq_true, beq_iff_eq, beq_iff_eq]

/-- The jobs a call leaves behind the earlier ones, cancelled where it says so. -/
theorem enqueue_jobs {before after : TurnQueue} {job : AgentJob} (h : enqueue before job = .ok after) :
    ∃ input added, job.input = some input ∧ input ≠ [] ∧ before.shutdown = false ∧
      after = { before with
        jobs := (if job.cancelPrevious then before.jobs.map (cancelMatching job) else before.jobs) ++ [added]
        capacity := vecReserve before.capacity (before.jobs.length + 1) } ∧
      queuedTurnInit job input
        (if job.cancelPrevious then
          latestMatchingQueuedTurn (before.jobs.map (cancelMatching job)) job.sessionId job.threadId
        else none) = .ok added := by
  unfold enqueue at h
  split at h
  · exact absurd h (Status.invalidArgument_ne_ok _ _)
  · rename_i input hinput
    split at h
    · exact absurd h (Status.invalidArgument_ne_ok _ _)
    · rename_i hne
      split at h
      · exact absurd h (Status.cancelled_ne_ok _ _)
      · rename_i hshutdown
        obtain ⟨added, hadded, h⟩ := Res.bind_eq_ok.mp h
        have hafter := (Except.ok.inj h).symm
        refine ⟨input, added, hinput, hne, by simpa using hshutdown, ?_, ?_⟩
        · rw [hafter]
          cases job.cancelPrevious
          · rfl
          · simp
        · revert hadded
          cases job.cancelPrevious
          · exact id
          · exact id

theorem queuedTurnInit_ok {job : AgentJob} {input : Bytes} {previous : Option QueuedTurn}
    {added : QueuedTurn} (h : queuedTurnInit job input previous = .ok added) :
    added.sessionId = job.sessionId.getD [] ∧ added.threadId = job.threadId.getD [] ∧
      added.consecutiveInputs =
        ((previous.map QueuedTurn.consecutiveInputs).getD [] ++ [input]).rtake (jobConsecutiveLimit job) ∧
      buildEffectiveInput added.consecutiveInputs = .ok added.input ∧
      added.cancelRequested = false ∧ added.cancelToken.cancelRequested = false ∧
      added.done = job.done := by
  obtain ⟨effective, heffective, h⟩ := Res.bind_eq_ok.mp h
  obtain rfl := Except.ok.inj h
  exact ⟨rfl, rfl, copyMessageWindow_eq previous input job, heffective, rfl, rfl, rfl⟩

/-- **One successful call.** -/
theorem enqueue_enqueued {before after : TurnQueue} {job : AgentJob} (h : enqueue before job = .ok after) :
    Enqueued before job after := by
  obtain ⟨input, added, hinput, -, -, rfl, hadded⟩ := enqueue_jobs h
  obtain ⟨hsession, hthread, hwindow, heffective, hrequested, htoken, hdone⟩ := queuedTurnInit_ok hadded
  have hlen : (if job.cancelPrevious then before.jobs.map (cancelMatching job) else before.jobs).length =
      before.jobs.length := by
    split
    · exact List.length_map _
    · rfl
  constructor
  · refine ⟨input, added, hinput, ?_, ?_, hsession, hthread, ?_, heffective, hrequested, htoken, hdone⟩
    · rw [List.length_append, hlen, List.length_singleton]
    · rw [List.getElem?_append_right (Nat.le_of_eq hlen), hlen, Nat.sub_self]
      rfl
    · rw [hwindow]
      split
      · rw [latest_cancelled, windowOf]
        cases (before.jobs.filter _).getLast? <;> rfl
      · have hpos := jobConsecutiveLimit_pos job
        show ([input] : List Bytes).rtake (jobConsecutiveLimit job) = [input]
        rw [List.rtake, List.length_singleton]
        have hzero : 1 - jobConsecutiveLimit job = 0 := by omega
        rw [hzero, List.drop_zero]
  · intro i queued hqueued
    have hi : i < before.jobs.length := (List.getElem?_eq_some_iff.mp hqueued).1
    rw [List.getElem?_append_left (by rw [hlen]; exact hi)]
    cases hcancel : job.cancelPrevious with
    | false =>
      refine ⟨queued, ?_, rfl, ?_⟩
      · rw [if_neg Bool.false_ne_true, hqueued]
      · rw [if_neg fun hboth => Bool.false_ne_true hboth.1]
    | true =>
      refine ⟨cancelMatching job queued, ?_, ?_, ?_⟩
      · rw [if_pos rfl, List.getElem?_map, hqueued]
        rfl
      · rw [cancelMatching]
        split <;> rfl
      · rw [cancelMatching]
        by_cases hmatch : queuedTurnMatches queued job.sessionId job.threadId = true
        · rw [if_pos ⟨rfl, queuedTurnMatches_iff.mp hmatch⟩, if_pos hmatch]
          exact ⟨rfl, rfl⟩
        · rw [if_neg fun hboth => hmatch (queuedTurnMatches_iff.mpr hboth.2), if_neg hmatch]

/-! ## Sequences of calls -/

/-- What no later call changes. -/
structure SameMessages (queued queued' : QueuedTurn) : Prop where
  input : queued'.input = queued.input
  window : queued'.consecutiveInputs = queued.consecutiveInputs
  session : queued'.sessionId = queued.sessionId
  thread : queued'.threadId = queued.threadId

/-- The jobs of a queue stay in their places with their messages. -/
def Keeps (queue queue' : TurnQueue) : Prop :=
  ∀ (i : Nat) (queued : QueuedTurn), queue.jobs[i]? = some queued →
    ∃ queued', queue'.jobs[i]? = some queued' ∧ SameMessages queued queued'

theorem Keeps.trans {queue queue' queue'' : TurnQueue} (h : Keeps queue queue') (h' : Keeps queue' queue'') :
    Keeps queue queue'' := by
  intro i queued hqueued
  obtain ⟨queued', hqueued', hsame⟩ := h i queued hqueued
  obtain ⟨queued'', hqueued'', hsame'⟩ := h' i queued' hqueued'
  refine ⟨queued'', hqueued'', ⟨?_, ?_, ?_, ?_⟩⟩
  · exact hsame'.input.trans hsame.input
  · exact hsame'.window.trans hsame.window
  · exact hsame'.session.trans hsame.session
  · exact hsame'.thread.trans hsame.thread

theorem Enqueued.keeps {before after : TurnQueue} {job : AgentJob} (h : Enqueued before job after) :
    Keeps before after := by
  intro i queued hqueued
  obtain ⟨queued', hqueued', hsame, -⟩ := h.kept i queued hqueued
  refine ⟨queued', hqueued', ?_⟩
  rw [hsame]
  exact ⟨rfl, rfl, rfl, rfl⟩

theorem runOk_keeps {jobs : List AgentJob} {queue queue' : TurnQueue}
    (h : runOk enqueue queue jobs = .ok queue') : Keeps queue queue' := by
  refine runOk_invariant (I := Keeps queue) ?_ jobs queue queue' ?_ h
  · intro before job after hkeeps hcall
    exact hkeeps.trans (enqueue_enqueued hcall).keeps
  · intro i queued hqueued
    exact ⟨queued, hqueued, rfl, rfl, rfl, rfl⟩

/-- **Windows over any sequence of successful calls**: each call builds the window of its job from the
    queue it finds, and the calls behind it change no message. -/
theorem enqueue_run {start final : TurnQueue} {jobs : List AgentJob}
    (h : runOk enqueue start jobs = .ok final) (earlier later : List AgentJob) (job : AgentJob)
    (hjobs : jobs = earlier ++ job :: later) :
    ∃ before after, runOk enqueue start earlier = .ok before ∧ enqueue before job = .ok after ∧
      runOk enqueue after later = .ok final ∧ Enqueued before job after ∧ Keeps after final := by
  subst hjobs
  obtain ⟨before, hbefore, hrest⟩ := runOk_append_ok h
  obtain ⟨after, hcall, hlater⟩ := runOk_cons_ok hrest
  exact ⟨before, after, hbefore, hcall, hlater, enqueue_enqueued hcall, runOk_keeps hlater⟩

/-- A message of a conversation. -/
def sampleJob (input session : String) (limit : Nat) : AgentJob :=
  { input := some (str input), sessionId := some (str session), cancelPrevious := true
    consecutiveMessageLimit := limit }

/-- Three messages of one conversation with one of another in between. -/
def sampleJobs : List AgentJob :=
  [sampleJob "a" "s" 0, sampleJob "x" "t" 0, sampleJob "b" "s" 2, sampleJob "c" "s" 2]

/-- The queue of these messages. -/
def sampleQueue : TurnQueue := (runOk enqueue {} sampleJobs).toOption.getD {}

example : sampleQueue.jobs.map QueuedTurn.consecutiveInputs =
    [[str "a"], [str "x"], [str "a", str "b"], [str "b", str "c"]] := by decide

/-- The call for the third message meets the specification. -/
theorem enqueue_run_sample :
    ∃ before after, runOk enqueue {} [sampleJob "a" "s" 0, sampleJob "x" "t" 0] = .ok before ∧
      enqueue before (sampleJob "b" "s" 2) = .ok after ∧
        runOk enqueue after [sampleJob "c" "s" 2] = .ok sampleQueue ∧
          Enqueued before (sampleJob "b" "s" 2) after ∧ Keeps after sampleQueue :=
  enqueue_run (show runOk enqueue {} sampleJobs = .ok sampleQueue from rfl) _ _ _ rfl

end SmolClaw.Runtime
