/-
  The queue of agent turns when memory runs out (`sc_runtime_turn_queue_enqueue`,
  `src/runtime/turn_queue.c`).

  1. **Program** — the same function as `enqueue`, with every call that may allocate.  The queued jobs of
     the conversation are cancelled first; the new job is copied after that, text by text.

  2. **Layers** — granted all it asks for, it does what `enqueue` says (`enqueueIn_granted`).

  3. **Result** — `enqueue_atomic_iff`: a failing call leaves the jobs as they are exactly if there was
     nothing to cancel, or the copy got its memory.
-/
import SmolClaw.Lib.Memory
import SmolClaw.Runtime.TurnQueue

namespace SmolClaw.Runtime

open Lib.Memory

/-! ## Calls that allocate -/

/-- `sc_status_no_memory` -/
def outOfMemory : ScError := ⟨.noMemory, "sc.core.no_memory"⟩

/-- `sc_string_from_str` -/
def stringFromStr (text : Bytes) : Program ScError Bytes := do
  let _ ← request outOfMemory
  return text

/-- `sc_vec_push`; a push that the capacity has room for is one that gets its memory. -/
def vecPush {α : Type} (items : List α) (item : α) : Program ScError (List α) := do
  let _ ← request outOfMemory
  return items ++ [item]

/-- `sc_string_builder_append`, with the same convention. -/
def builderAppend (text more : Bytes) : Program ScError Bytes := do
  let _ ← request outOfMemory
  return text ++ more

/-- `sc_cancel_token_init` -/
def cancelTokenInit : Program ScError CancelToken := do
  let reason ← stringFromStr []
  return ⟨false, reason⟩

/-- `queued_turn_push_input` -/
def pushInput (messages : List Bytes) (input : Bytes) : Program ScError (List Bytes) := do
  let copy ← stringFromStr input
  vecPush messages copy

/-- The loop of `queued_turn_copy_message_window`. -/
def copyInputs : List Bytes → List Bytes → Program ScError (List Bytes)
  | copied, [] => pure copied
  | copied, message :: rest => do
      let copied ← pushInput copied message
      copyInputs copied rest

/-- `queued_turn_copy_message_window` -/
def copyMessageWindowIn (previous : Option QueuedTurn) (input : Bytes) (limit : Nat) :
    Program ScError (List Bytes) := do
  let copied ← copyInputs [] ((previous.map QueuedTurn.consecutiveInputs).getD [])
  let messages ← pushInput copied input
  return trimMessageWindow messages limit

/-- The loop of `queued_turn_build_effective_input`. -/
def listInputs : Bytes → List (Bytes × Nat) → Program ScError Bytes
  | text, [] => pure text
  | text, entry :: rest => do
      let text ← builderAppend text (decimal (entry.2 + 1) ++ str ". ")
      let text ← builderAppend text entry.1
      let text ← builderAppend text (str "\n")
      listInputs text rest

/-- `queued_turn_build_effective_input` -/
def buildEffectiveInputIn : List Bytes → Program ScError Bytes
  | [] => fun grants => (Status.invalidArgument "sc.runtime_turn_queue.window_invalid_argument", grants)
  | [message] => stringFromStr message
  | messages => do
      let text ← builderAppend [] (str ("Consecutive user messages received while an earlier run was active. " ++
        "Respond to the combined latest intent.\n\n"))
      listInputs text messages.zipIdx

/-- `queued_turn_init` -/
def queuedTurnInitIn (job : AgentJob) (input : Bytes) (previous : Option QueuedTurn) :
    Program ScError QueuedTurn := do
  let token ← cancelTokenInit
  let sessionId ← stringFromStr (job.sessionId.getD [])
  let threadId ← stringFromStr (job.threadId.getD [])
  let window ← copyMessageWindowIn previous input (jobConsecutiveLimit job)
  let effective ← buildEffectiveInputIn window
  return {
    source := job.source
    input := effective
    sessionId := sessionId
    threadId := threadId
    consecutiveInputs := window
    cancelToken := token
    done := job.done }

/-! ## Enqueueing -/

/-- What `sc_cancel_token_cancel` leaves of a token; its own status is ignored, and a reason for which
    there is no memory is empty. -/
def cancelledToken (granted : Bool) : CancelToken :=
  ⟨true, if granted then str "runtime_turn_queue.consecutive_message" else []⟩

/-- The loop that cancels the queued jobs of the conversation of a job. -/
def cancelQueued (job : AgentJob) : Grants → List QueuedTurn → List QueuedTurn
  | _, [] => []
  | grants, queued :: rest =>
      if queuedTurnMatches queued job.sessionId job.threadId then
        { queued with cancelRequested := true, cancelToken := cancelledToken (grants 0) } ::
          cancelQueued job (grants.after 1) rest
      else queued :: cancelQueued job grants rest

/-- How many jobs it cancels: as many requests it makes. -/
def matchingCount (job : AgentJob) (jobs : List QueuedTurn) : Nat :=
  jobs.countP fun queued => queuedTurnMatches queued job.sessionId job.threadId

/-- The job whose window a new one starts with. -/
def previousOf (job : AgentJob) (jobs : List QueuedTurn) : Option QueuedTurn :=
  if job.cancelPrevious then latestMatchingQueuedTurn jobs job.sessionId job.threadId else none

/-- The copy of a job, pushed to the queue. -/
def copyJob (job : AgentJob) (input : Bytes) (jobs : List QueuedTurn) : Program ScError (List QueuedTurn) := do
  let copy ← queuedTurnInitIn job input (previousOf job jobs)
  vecPush jobs copy

/-- `sc_runtime_turn_queue_enqueue`: the queue after the call, and its status. -/
def enqueueIn (grants : Grants) (queue : TurnQueue) (job : AgentJob) : TurnQueue × Res Unit :=
  match job.input with
  | none => (queue, Status.invalidArgument "sc.runtime_turn_queue.job_invalid_argument")
  | some input =>
      if input = [] then (queue, Status.invalidArgument "sc.runtime_turn_queue.job_invalid_argument")
      else if queue.shutdown then (queue, Status.cancelled "sc.runtime_turn_queue.shutdown")
      else
        let jobs := if job.cancelPrevious then cancelQueued job grants queue.jobs else queue.jobs
        let grants := if job.cancelPrevious then grants.after (matchingCount job queue.jobs) else grants
        match (copyJob job input jobs grants).1 with
        | .ok jobs =>
            ({ queue with jobs := jobs, capacity := vecReserve queue.capacity jobs.length }, .ok ())
        | .error e => ({ queue with jobs := jobs }, .error e)

/-! ## What a copy asks for -/

/-- The requests for the input of a window of so many messages. -/
def inputRequests (count : Nat) : Nat := if count = 1 then 1 else 1 + 3 * count

/-- The requests for the copy of a job: its token, the two texts that name its conversation, the messages
    of its window, its input and its place in the queue. -/
def copyRequests (job : AgentJob) (previous : Option QueuedTurn) : Nat :=
  let inputs := ((previous.map QueuedTurn.consecutiveInputs).getD []).length
  3 + (2 * inputs + 2) + inputRequests (min (inputs + 1) (jobConsecutiveLimit job)) + 1

theorem stringFromStr_requests (text : Bytes) : Requests outOfMemory (stringFromStr text) 1 text :=
  requests_request.map fun _ => text

theorem vecPush_requests {α : Type} (items : List α) (item : α) :
    Requests outOfMemory (vecPush items item) 1 (items ++ [item]) :=
  requests_request.map fun _ => items ++ [item]

theorem builderAppend_requests (text more : Bytes) :
    Requests outOfMemory (builderAppend text more) 1 (text ++ more) :=
  requests_request.map fun _ => text ++ more

theorem cancelTokenInit_requests : Requests outOfMemory cancelTokenInit 1 {} :=
  (stringFromStr_requests []).map fun reason => (⟨false, reason⟩ : CancelToken)

theorem pushInput_requests (messages : List Bytes) (input : Bytes) :
    Requests outOfMemory (pushInput messages input) 2 (messages ++ [input]) :=
  (stringFromStr_requests input).bind (vecPush_requests messages input)

theorem copyInputs_requests (inputs : List Bytes) :
    ∀ copied, Requests outOfMemory (copyInputs copied inputs) (2 * inputs.length) (copied ++ inputs) := by
  induction inputs with
  | nil =>
    intro copied
    rw [List.append_nil]
    exact requests_pure copied
  | cons message rest ih =>
    intro copied
    have hrest := ih (copied ++ [message])
    rw [List.append_assoc, List.singleton_append] at hrest
    rw [List.length_cons, Nat.mul_succ, Nat.add_comm]
    exact (pushInput_requests copied message).bind hrest

theorem copyMessageWindowIn_requests (previous : Option QueuedTurn) (input : Bytes) (limit : Nat) :
    Requests outOfMemory (copyMessageWindowIn previous input limit)
      (2 * ((previous.map QueuedTurn.consecutiveInputs).getD []).length + 2)
      (copyMessageWindow previous input limit) := by
  have hwindow : copyMessageWindow previous input limit =
      trimMessageWindow (((previous.map QueuedTurn.consecutiveInputs).getD []) ++ [input]) limit := by
    cases previous with
    | none => rfl
    | some previous => rfl
  rw [hwindow]
  exact (copyInputs_requests _ []).bind
    ((pushInput_requests _ input).map fun messages => trimMessageWindow messages limit)

/-- A line of the list. -/
def inputLine (entry : Bytes × Nat) : Bytes := decimal (entry.2 + 1) ++ str ". " ++ entry.1 ++ str "\n"

theorem listInputs_requests (entries : List (Bytes × Nat)) :
    ∀ text, Requests outOfMemory (listInputs text entries) (3 * entries.length)
      (text ++ entries.flatMap inputLine) := by
  induction entries with
  | nil =>
    intro text
    rw [List.flatMap_nil, List.append_nil]
    exact requests_pure text
  | cons entry rest ih =>
    intro text
    have hline : text ++ (decimal (entry.2 + 1) ++ str ". ") ++ entry.1 ++ str "\n" = text ++ inputLine entry := by
      simp only [inputLine, List.append_assoc]
    have hrest := ih (text ++ inputLine entry)
    have hcount : 3 * (entry :: rest).length = 1 + (1 + (1 + 3 * rest.length)) := by
      rw [List.length_cons]
      omega
    rw [List.flatMap_cons, ← List.append_assoc, hcount]
    rw [← hline] at hrest ⊢
    exact (builderAppend_requests text _).bind
      ((builderAppend_requests _ entry.1).bind ((builderAppend_requests _ _).bind hrest))

theorem buildEffectiveInputIn_requests {window : List Bytes} {effective : Bytes}
    (h : buildEffectiveInput window = .ok effective) :
    Requests outOfMemory (buildEffectiveInputIn window) (inputRequests window.length) effective := by
  match window with
  | [] => exact absurd h (Status.invalidArgument_ne_ok _ _)
  | [message] =>
    obtain rfl := Except.ok.inj h
    exact stringFromStr_requests message
  | first :: second :: rest =>
    obtain rfl := Except.ok.inj h
    have hmany : (first :: second :: rest).length ≠ 1 := by
      rw [List.length_cons, List.length_cons]
      omega
    have hlist := listInputs_requests (first :: second :: rest).zipIdx ([] ++
      str ("Consecutive user messages received while an earlier run was active. " ++
        "Respond to the combined latest intent.\n\n"))
    rw [List.length_zipIdx] at hlist
    rw [inputRequests, if_neg hmany]
    exact (builderAppend_requests [] _).bind hlist

/-- The window of a job is never empty. -/
theorem copyMessageWindow_length (previous : Option QueuedTurn) (input : Bytes) (job : AgentJob) :
    (copyMessageWindow previous input (jobConsecutiveLimit job)).length =
      min (((previous.map QueuedTurn.consecutiveInputs).getD []).length + 1) (jobConsecutiveLimit job) := by
  rw [copyMessageWindow_eq, List.rtake, List.length_drop, List.length_append, List.length_singleton]
  omega

/-- Every window has an input. -/
theorem buildEffectiveInput_ok {window : List Bytes} (h : window ≠ []) :
    ∃ effective, buildEffectiveInput window = .ok effective := by
  match window with
  | [] => exact absurd rfl h
  | [message] => exact ⟨_, rfl⟩
  | first :: second :: rest => exact ⟨_, rfl⟩

/-- **What the copy of a job asks for**, and what it is if it gets that. -/
theorem copyJob_requests (job : AgentJob) (input : Bytes) (jobs : List QueuedTurn) :
    ∃ copy, queuedTurnInit job input (previousOf job jobs) = .ok copy ∧
      Requests outOfMemory (copyJob job input jobs) (copyRequests job (previousOf job jobs)) (jobs ++ [copy]) := by
  unfold copyJob
  generalize previousOf job jobs = previous
  have hlength := copyMessageWindow_length previous input job
  have hpos := jobConsecutiveLimit_pos job
  have hwindow : copyMessageWindow previous input (jobConsecutiveLimit job) ≠ [] := by
    intro hnil
    rw [hnil, List.length_nil] at hlength
    omega
  obtain ⟨effective, heffective⟩ := buildEffectiveInput_ok hwindow
  have hinput := buildEffectiveInputIn_requests heffective
  rw [hlength] at hinput
  let copy : QueuedTurn := {
    source := job.source
    input := effective
    sessionId := job.sessionId.getD []
    threadId := job.threadId.getD []
    consecutiveInputs := copyMessageWindow previous input (jobConsecutiveLimit job)
    done := job.done }
  have hinit : Requests outOfMemory (queuedTurnInitIn job input previous) _ copy :=
    cancelTokenInit_requests.bind ((stringFromStr_requests _).bind ((stringFromStr_requests _).bind
      ((copyMessageWindowIn_requests previous input _).bind (hinput.map fun effective => { copy with
        input := effective }))))
  refine ⟨copy, ?_, ?_⟩
  · unfold queuedTurnInit
    dsimp only
    rw [heffective]
    rfl
  · have hall := hinit.bind (vecPush_requests jobs copy)
    have hcount : copyRequests job previous = _ + 1 := rfl
    rw [hcount]
    convert hall using 2
    omega

/-! ## With all the memory it asks for -/

theorem cancelQueued_granted (job : AgentJob) (jobs : List QueuedTurn) :
    ∀ grants : Grants, (∀ k, grants k = true) → cancelQueued job grants jobs = jobs.map (cancelMatching job) := by
  induction jobs with
  | nil => intro grants _; rfl
  | cons queued rest ih =>
    intro grants hall
    rw [cancelQueued, List.map_cons, cancelMatching]
    split
    · rw [hall 0, ih (grants.after 1) fun k => hall (1 + k)]
      rfl
    · rw [ih grants hall]

/-- **Granted all it asks for, the function is `enqueue`.** -/
theorem enqueueIn_granted {grants : Grants} (hall : ∀ k, grants k = true) (queue : TurnQueue) (job : AgentJob) :
    enqueueIn grants queue job =
      match enqueue queue job with
      | .ok after => (after, .ok ())
      | .error e => (queue, .error e) := by
  unfold enqueueIn enqueue
  cases job.input with
  | none => rfl
  | some input =>
  dsimp only
  split
  · rfl
  split
  · rfl
  have hjobs : (if job.cancelPrevious then cancelQueued job grants queue.jobs else queue.jobs) =
      if job.cancelPrevious then queue.jobs.map (cancelMatching job) else queue.jobs := by
    rw [cancelQueued_granted job queue.jobs grants hall]
  rw [hjobs]
  generalize (if job.cancelPrevious then queue.jobs.map (cancelMatching job) else queue.jobs) = jobs
  obtain ⟨copy, hinit, hcopy⟩ := copyJob_requests job input jobs
  have hleft : ∀ k, (if job.cancelPrevious then grants.after (matchingCount job queue.jobs) else grants) k =
      true := by
    intro k
    split
    · exact hall _
    · exact hall k
  have hgranted : Grants.First (if job.cancelPrevious then grants.after (matchingCount job queue.jobs) else grants)
      (copyRequests job (previousOf job jobs)) := fun k _ => hleft k
  rw [hcopy.result, if_pos hgranted]
  unfold previousOf at hinit
  rw [hinit]
  show ({ queue with jobs := jobs ++ [copy], capacity := vecReserve queue.capacity (jobs ++ [copy]).length }, _) = _
  rw [List.length_append, List.length_singleton]
  rfl

/-- A fourth message of the conversation: what waits of it is cancelled, the other conversation is not. -/
theorem enqueueIn_sample :
    (enqueueIn (fun _ => true) sampleQueue (sampleJob "d" "s" 3)).2 = .ok () ∧
    (enqueueIn (fun _ => true) sampleQueue (sampleJob "d" "s" 3)).1.jobs.map
      (fun queued => (queued.consecutiveInputs, queued.cancelRequested)) =
        [([str "a"], true), ([str "x"], false), ([str "a", str "b"], true), ([str "b", str "c"], true),
          ([str "b", str "c", str "d"], false)] := by
  rw [enqueueIn_granted (fun _ => rfl)]
  decide

/-! ## What a failing call leaves -/

/-- Every queued job of the conversation is cancelled already, with the reason it would get. -/
def CancelsNothing (job : AgentJob) : Grants → List QueuedTurn → Prop
  | _, [] => True
  | grants, queued :: rest =>
      if queuedTurnMatches queued job.sessionId job.threadId then
        (queued.cancelRequested = true ∧ queued.cancelToken = cancelledToken (grants 0)) ∧
          CancelsNothing job (grants.after 1) rest
      else CancelsNothing job grants rest

theorem cancelQueued_eq_self_iff (job : AgentJob) (jobs : List QueuedTurn) :
    ∀ grants, cancelQueued job grants jobs = jobs ↔ CancelsNothing job grants jobs := by
  induction jobs with
  | nil => intro grants; exact iff_of_true rfl trivial
  | cons queued rest ih =>
    intro grants
    rw [cancelQueued, CancelsNothing]
    split
    · rw [List.cons.injEq, ih, and_congr_left_iff]
      intro _
      constructor
      · intro heq
        exact ⟨(congrArg QueuedTurn.cancelRequested heq).symm, (congrArg QueuedTurn.cancelToken heq).symm⟩
      · rintro ⟨hrequested, htoken⟩
        rw [← hrequested, ← htoken]
    · rw [List.cons.injEq, ih, and_iff_right rfl]

/-- Cancelling leaves the conversations and the windows as they are. -/
theorem cancelQueued_windows (job : AgentJob) (jobs : List QueuedTurn) :
    ∀ grants, ((cancelQueued job grants jobs).filter fun queued =>
        queuedTurnMatches queued job.sessionId job.threadId).map QueuedTurn.consecutiveInputs =
      (jobs.filter fun queued => queuedTurnMatches queued job.sessionId job.threadId).map
        QueuedTurn.consecutiveInputs := by
  induction jobs with
  | nil => intro grants; rfl
  | cons queued rest ih =>
    intro grants
    rw [cancelQueued]
    by_cases hmatches : queuedTurnMatches queued job.sessionId job.threadId = true
    · rw [if_pos hmatches, List.filter_cons, List.filter_cons, if_pos hmatches]
      have hsame : queuedTurnMatches
          { queued with cancelRequested := true, cancelToken := cancelledToken (grants 0) }
          job.sessionId job.threadId = true := hmatches
      rw [if_pos hsame, List.map_cons, List.map_cons, ih]
    · rw [if_neg hmatches, List.filter_cons, List.filter_cons, if_neg hmatches, if_neg hmatches, ih]

/-- So the copy asks for as much as it would without. -/
theorem copyRequests_cancelQueued (job : AgentJob) (jobs : List QueuedTurn) (grants : Grants) :
    copyRequests job (previousOf job (cancelQueued job grants jobs)) = copyRequests job (previousOf job jobs) := by
  have hwindow : (previousOf job (cancelQueued job grants jobs)).map QueuedTurn.consecutiveInputs =
      (previousOf job jobs).map QueuedTurn.consecutiveInputs := by
    unfold previousOf latestMatchingQueuedTurn
    split
    · rw [find?_reverse_eq_getLast?, find?_reverse_eq_getLast?, ← List.getLast?_map, ← List.getLast?_map,
        cancelQueued_windows]
    · rfl
  unfold copyRequests
  rw [hwindow]

/-- **When a failing call changes nothing**: it is refused at once, cancels no job, or gets the memory for
    its copy, and does not fail then. -/
theorem enqueue_atomic_iff (grants : Grants) (queue : TurnQueue) (job : AgentJob) :
    (∀ e, (enqueueIn grants queue job).2 = .error e → (enqueueIn grants queue job).1.jobs = queue.jobs) ↔
      job.input.getD [] = [] ∨ queue.shutdown = true ∨ job.cancelPrevious = false ∨
        CancelsNothing job grants queue.jobs ∨
          (grants.after (matchingCount job queue.jobs)).First (copyRequests job (previousOf job queue.jobs)) := by
  unfold enqueueIn
  cases hinput : job.input with
  | none => exact iff_of_true (fun _ _ => rfl) (.inl rfl)
  | some input =>
  dsimp only
  by_cases hempty : input = []
  · rw [if_pos hempty]
    exact iff_of_true (fun _ _ => rfl) (.inl hempty)
  rw [if_neg hempty]
  by_cases hshutdown : queue.shutdown = true
  · rw [if_pos hshutdown]
    exact iff_of_true (fun _ _ => rfl) (.inr (.inl hshutdown))
  rw [if_neg hshutdown]
  by_cases hprevious : job.cancelPrevious = true
  · rw [if_pos hprevious, if_pos hprevious, ← cancelQueued_eq_self_iff, ← copyRequests_cancelQueued job _ grants]
    generalize cancelQueued job grants queue.jobs = jobs
    obtain ⟨copy, -, hcopy⟩ := copyJob_requests job input jobs
    rw [hcopy.result]
    constructor
    · intro hatomic
      by_cases hgranted : (grants.after (matchingCount job queue.jobs)).First
          (copyRequests job (previousOf job jobs))
      · exact .inr (.inr (.inr (.inr hgranted)))
      · rw [if_neg hgranted] at hatomic
        exact .inr (.inr (.inr (.inl (hatomic outOfMemory rfl))))
    · rintro (h | h | h | h | hgranted)
      · exact absurd h hempty
      · exact absurd h hshutdown
      · rw [hprevious] at h
        exact nomatch h
      · intro e he
        split at he
        · exact nomatch he
        · exact h
      · rw [if_pos hgranted]
        exact fun e he => nomatch he
  · rw [if_neg hprevious, if_neg hprevious]
    refine iff_of_true (fun e he => ?_) (.inr (.inr (.inl (Bool.not_eq_true _ ▸ hprevious))))
    split at he
    · exact nomatch he
    · rfl

/-- A job of the conversation. -/
def waitingTurn : QueuedTurn where
  source := .channel
  input := str "one"
  sessionId := str "s"
  threadId := []
  consecutiveInputs := [str "one"]
  done := none

/-- There is memory for the reason of the cancelled job, and none for the token of the new one. -/
theorem not_atomic_token :
    ¬ ∀ (grants : Grants) (queue : TurnQueue) (job : AgentJob) (e : ScError),
      (enqueueIn grants queue job).2 = .error e → (enqueueIn grants queue job).1.jobs = queue.jobs := by
  intro h
  have hsame := h (fun k => k == 0) { jobs := [waitingTurn], capacity := 4 }
    { source := .channel, input := some (str "two"), sessionId := some (str "s"), cancelPrevious := true }
    outOfMemory (by decide +kernel)
  exact absurd hsame (by decide +kernel)

end SmolClaw.Runtime
