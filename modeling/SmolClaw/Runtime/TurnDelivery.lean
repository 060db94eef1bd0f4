/-
  The queue of agent turns at work (`src/runtime/turn_queue.c`): ticks of the loop, completions and
  draining.

  1. **Program** — a tick starts an asynchronous turn for the first job, unless one is in flight; its
     completion calls the `done` of whatever job is first then, and removes that job.  Draining runs a turn for the
     first job and removes it, again and again.  The turn lies in the slot of its job: when the job is
     removed, or when the vector grows and moves, it is gone.

  2. **Specification** — `Delivered`: jobs leave in the order they were accepted in, each after one call
     of its `done` with the result of a turn on its own input; no job has two turns, and one turn at
     most is in flight.

  3. **Defect** — draining does not look at `in_flight` as the tick does, and starts a second turn for
     the job in flight; the completion then hands its result to the next job.  Accepting a job moves the
     vector under a turn in flight.

  4. **Result** — `delivered_iff`: along a run the specification holds exactly when nothing is drained
     and the vector does not move while a turn is in flight.
-/
import SmolClaw.Runtime.TurnQueue

namespace SmolClaw.Runtime

open Lib.Run

/-! ## The queue and what happened to its jobs -/

/-- An asynchronous turn in flight: the job it was started for, numbered in the order of acceptance,
    and the input it reads; none once its memory is gone. -/
structure ActiveTurn where
  ticket : Nat
  reads : Option Bytes
  deriving DecidableEq, Repr

/-- A call of a `done`, and the turn whose result it is given. -/
structure DoneCall where
  callback : Callback
  ticket : Nat
  reads : Option Bytes
  deriving DecidableEq, Repr

/-- The queue with the tickets of its jobs, the turns in flight, and what happened so far. -/
structure QueueWorld where
  queue : TurnQueue := {}
  tickets : List Nat := []
  turns : List ActiveTurn := []
  accepted : List QueuedTurn := []
  started : List Nat := []
  left : List Nat := []
  calls : List DoneCall := []
  deriving DecidableEq, Repr

/-- A turn whose memory was freed or overwritten. -/
def ActiveTurn.lose (turn : ActiveTurn) : ActiveTurn := { turn with reads := none }

/-- `sc_vec_push` finds the vector full. -/
def VecFull (queue : TurnQueue) : Prop := queue.capacity < queue.jobs.length + 1

instance (queue : TurnQueue) : Decidable (VecFull queue) := inferInstanceAs (Decidable (_ < _))

/-- `sc_runtime_turn_queue_enqueue`; `moved` is whether a vector that grows gets other memory. -/
def accept (w : QueueWorld) (job : AgentJob) (moved : Bool) : QueueWorld × Res Unit :=
  match enqueue w.queue job with
  | .error e => (w, .error e)
  | .ok queue =>
      ({ w with
        queue := queue
        tickets := w.tickets ++ [w.accepted.length]
        accepted := w.accepted ++ queue.jobs.getLast?.toList
        turns := if VecFull w.queue ∧ moved = true then w.turns.map ActiveTurn.lose else w.turns }, .ok ())

/-- The call of the `done` of the first job. -/
def callDone (w : QueueWorld) (ticket : Nat) (reads : Option Bytes) : QueueWorld :=
  match w.queue.jobs with
  | [] => w
  | job :: _ =>
      match job.done with
      | none => w
      | some callback => { w with calls := w.calls ++ [⟨callback, ticket, reads⟩] }

/-- `runtime_turn_queue_remove_at` at 0. -/
def removeHead (w : QueueWorld) : QueueWorld :=
  match w.queue.jobs with
  | [] => w
  | _ :: jobs =>
      { w with
        queue := { w.queue with jobs := jobs }
        tickets := w.tickets.tail
        left := w.left ++ w.tickets.head?.toList
        turns := w.turns.map ActiveTurn.lose }

/-- `runtime_turn_queue_async_done` for a turn that is over. -/
def asyncDone (w : QueueWorld) (turn : ActiveTurn) : QueueWorld :=
  let after := removeHead (callDone w turn.ticket turn.reads)
  { after with queue := { after.queue with inFlight := false } }

/-- What `sc_agent_process_message_async` does: it fails before the turn begins, or the turn is over
    when it returns, or goes on. -/
inductive StartAnswer where
  | refused (e : ScError)
  | finished
  | pending

/-- `runtime_turn_queue_task` -/
def task (w : QueueWorld) (cancelRequested : Bool) (answer : StartAnswer) : QueueWorld × Res Unit :=
  if cancelRequested then (w, Status.cancelled "sc.runtime_turn_queue.cancelled")
  else if w.queue.inFlight then (w, .ok ())
  else
    match w.queue.jobs with
    | [] => (w, .ok ())
    | job :: _ =>
        let turn : ActiveTurn := ⟨w.tickets.headD 0, some job.input⟩
        let running := { w with
          queue := { w.queue with inFlight := true }, started := w.started ++ [turn.ticket] }
        match answer with
        | .refused e => (w, .error e)
        | .finished => (asyncDone running turn, .ok ())
        | .pending => ({ running with turns := w.turns ++ [turn] }, .ok ())

/-- A turn of `sc_runtime_turn_queue_drain` for the first job. -/
def drainTurn (w : QueueWorld) : QueueWorld :=
  match w.queue.jobs with
  | [] => w
  | job :: _ =>
      let ticket := w.tickets.headD 0
      removeHead (callDone { w with started := w.started ++ [ticket] } ticket (some job.input))

/-- The loop of `sc_runtime_turn_queue_drain`, from the number of turns it has run; there are as many
    rounds as jobs. -/
def drainLoop (maxTurns : Nat) (answer : Nat → Res Unit) :
    Nat → Nat → QueueWorld → QueueWorld × Res Unit
  | 0, _, w => (w, .ok ())
  | rounds + 1, processed, w =>
      if w.queue.jobs = [] ∨ (maxTurns ≠ 0 ∧ maxTurns ≤ processed) then (w, .ok ())
      else
        match answer processed with
        | .ok () => drainLoop maxTurns answer rounds (processed + 1) (drainTurn w)
        | .error e =>
            if e.code = .cancelled then drainLoop maxTurns answer rounds (processed + 1) (drainTurn w)
            else (drainTurn w, .error e)

/-- `sc_runtime_turn_queue_drain`; `answer` is what the turns return. -/
def drain (w : QueueWorld) (maxTurns : Nat) (answer : Nat → Res Unit) : QueueWorld × Res Unit :=
  drainLoop maxTurns answer w.queue.jobs.length 0 w

/-- What happens to a queue. -/
inductive QueueEvent where
  | enqueue (job : AgentJob) (moved : Bool)
  | tick (cancelRequested : Bool) (answer : StartAnswer)
  | complete (index : Nat)
  | drain (maxTurns : Nat) (answer : Nat → Res Unit)
  | shutdown

/-- The queue after an event; a completion is of one of the turns in flight. -/
def queueStep (w : QueueWorld) : QueueEvent → QueueWorld
  | .enqueue job moved => (accept w job moved).1
  | .tick cancelRequested answer => (task w cancelRequested answer).1
  | .complete index =>
      match w.turns[index]? with
      | none => w
      | some turn => asyncDone { w with turns := w.turns.eraseIdx index } turn
  | .drain maxTurns answer => (drain w maxTurns answer).1
  | .shutdown => { w with queue := { w.queue with shutdown := true } }

/-! ## Specification -/

/-- The calls that the jobs which left should have got. -/
def dueCalls (accepted : List QueuedTurn) (left : List Nat) : List DoneCall :=
  left.filterMap fun ticket =>
    accepted[ticket]?.bind fun job => job.done.map fun callback => ⟨callback, ticket, some job.input⟩

/-- **What the queue promises.** -/
structure Delivered (w : QueueWorld) : Prop where
  /-- Jobs leave in the order of acceptance. -/
  order : w.left ++ w.tickets = List.range w.accepted.length
  /-- A job that left got one call, with the result of a turn on its own input. -/
  calls : w.calls = dueCalls w.accepted w.left
  /-- No job has two turns. -/
  once : w.started.Nodup
  /-- One turn at most is in flight, and it reads the input of its job. -/
  single : w.turns.length ≤ 1
  own : ∀ turn ∈ w.turns, ∃ job, w.accepted[turn.ticket]? = some job ∧ turn.reads = some job.input

/-- An event that leaves the job of a turn in flight where it is. -/
def Undisturbed (w : QueueWorld) : QueueEvent → Prop
  | .enqueue job moved =>
      w.turns ≠ [] → VecFull w.queue → moved = true → ∀ queue, enqueue w.queue job ≠ .ok queue
  | .drain _ _ => w.turns = []
  | _ => True

/-! ## The invariant -/

/-- The queue and its history belong together, whatever turns there are. -/
structure Accounted (w : QueueWorld) : Prop where
  left : w.left = List.range w.left.length
  tickets : w.tickets = List.range' w.left.length w.queue.jobs.length
  accepted : w.accepted.length = w.left.length + w.queue.jobs.length
  same : ∀ (i : Nat) (job : QueuedTurn), w.queue.jobs[i]? = some job →
    ∃ first, w.accepted[w.left.length + i]? = some first ∧ first.input = job.input ∧ first.done = job.done
  calls : w.calls = dueCalls w.accepted w.left

/-- Nothing is in flight, or the turn of the first job. -/
structure Tracked (w : QueueWorld) : Prop extends Accounted w where
  flight : (w.queue.inFlight = false ∧ w.turns = []) ∨
    (w.queue.inFlight = true ∧ ∃ job rest, w.queue.jobs = job :: rest ∧
      w.turns = [⟨w.left.length, some job.input⟩])
  started : w.started = w.left ++ w.turns.map ActiveTurn.ticket

theorem Accounted.ticket {w : QueueWorld} (h : Accounted w) {job : QueuedTurn} {rest : List QueuedTurn}
    (hjobs : w.queue.jobs = job :: rest) :
    w.tickets = w.left.length :: List.range' (w.left.length + 1) rest.length := by
  rw [h.tickets, hjobs, List.length_cons, List.range'_succ]

theorem callDone_head {w : QueueWorld} {job : QueuedTurn} {rest : List QueuedTurn}
    (hjobs : w.queue.jobs = job :: rest) (ticket : Nat) (reads : Option Bytes) :
    callDone w ticket reads =
      { w with calls := w.calls ++ (job.done.map fun callback => ⟨callback, ticket, reads⟩).toList } := by
  unfold callDone
  simp only [hjobs]
  cases job.done with
  | none => simp only [Option.map_none, Option.toList_none, List.append_nil]
  | some callback => rfl

/-- The call a job is due, from the job at the head of the queue. -/
theorem Accounted.dueCalls_concat {w : QueueWorld} (h : Accounted w) {job : QueuedTurn}
    {rest : List QueuedTurn} (hjobs : w.queue.jobs = job :: rest) :
    dueCalls w.accepted (w.left ++ [w.left.length]) =
      w.calls ++ (job.done.map fun callback => ⟨callback, w.left.length, some job.input⟩).toList := by
  obtain ⟨first, hfirst, hinput, hdone⟩ := h.same 0 job (by rw [hjobs]; rfl)
  rw [Nat.add_zero] at hfirst
  rw [h.calls, dueCalls, dueCalls, List.filterMap_append, List.filterMap_cons, List.filterMap_nil, hfirst,
    Option.bind_some, hinput, hdone]
  cases job.done <;> rfl

/-- The end of a turn for the first job: its `done` is called and it leaves. -/
theorem Accounted.finish {w : QueueWorld} (h : Accounted w) {job : QueuedTurn} {rest : List QueuedTurn}
    (hjobs : w.queue.jobs = job :: rest) :
    removeHead (callDone w w.left.length (some job.input)) =
      { w with
        queue := { w.queue with jobs := rest }
        tickets := List.range' (w.left.length + 1) rest.length
        left := w.left ++ [w.left.length]
        calls := dueCalls w.accepted (w.left ++ [w.left.length])
        turns := w.turns.map ActiveTurn.lose } := by
  have hcall : callDone w w.left.length (some job.input) =
      { w with calls := dueCalls w.accepted (w.left ++ [w.left.length]) } := by
    rw [callDone_head hjobs, h.dueCalls_concat hjobs]
  rw [hcall, removeHead]
  simp only [hjobs, h.ticket hjobs, List.tail_cons, List.head?_cons, Option.toList_some]

theorem Accounted.finished {w w' : QueueWorld} (h : Accounted w) {job : QueuedTurn}
    {rest : List QueuedTurn} (hjobs : w.queue.jobs = job :: rest) (hjobs' : w'.queue.jobs = rest)
    (htickets : w'.tickets = List.range' (w.left.length + 1) rest.length)
    (hleft : w'.left = w.left ++ [w.left.length]) (haccepted : w'.accepted = w.accepted)
    (hcalls : w'.calls = dueCalls w.accepted (w.left ++ [w.left.length])) : Accounted w' := by
  have hlen : w'.left.length = w.left.length + 1 := by rw [hleft, List.length_append, List.length_singleton]
  constructor
  · rw [hlen, List.range_succ, ← h.left, hleft]
  · rw [htickets, hlen, hjobs']
  · rw [haccepted, h.accepted, hlen, hjobs, hjobs', List.length_cons]
    omega
  · intro i queued hqueued
    rw [hjobs'] at hqueued
    obtain ⟨first, hfirst, hsame⟩ := h.same (i + 1) queued (by rw [hjobs]; exact hqueued)
    refine ⟨first, ?_, hsame⟩
    rw [haccepted, hlen, ← hfirst]
    congr 1
    omega
  · rw [hcalls, haccepted, hleft]

/-! ## What a step keeps -/

theorem Tracked.first {w : QueueWorld} (h : Tracked w) {turn : ActiveTurn} (hturn : turn ∈ w.turns) :
    ∃ job rest, w.queue.jobs = job :: rest ∧ turn = ⟨w.left.length, some job.input⟩ ∧ w.turns = [turn] := by
  obtain ⟨-, hnone⟩ | ⟨-, job, rest, hjobs, hturns⟩ := h.flight
  · rw [hnone] at hturn
    exact absurd hturn List.not_mem_nil
  · rw [hturns, List.mem_singleton] at hturn
    exact ⟨job, rest, hjobs, hturn, by rw [hturns, hturn]⟩

theorem Tracked.not_inFlight {w : QueueWorld} (h : Tracked w) :
    w.queue.inFlight = false ↔ w.turns = [] := by
  obtain ⟨hfree, hnone⟩ | ⟨hbusy, job, rest, -, hturns⟩ := h.flight
  · exact iff_of_true hfree hnone
  · rw [hbusy, hturns]
    exact iff_of_false Bool.noConfusion (List.cons_ne_nil _ _)

/-- A turn for the first job ends, started just before or in flight until now: nothing is in flight. -/
theorem Accounted.tracked_finish {w : QueueWorld} (h : Accounted w) {job : QueuedTurn}
    {rest : List QueuedTurn} (hjobs : w.queue.jobs = job :: rest) (hturns : w.turns = [])
    (hstarted : w.started = w.left ++ [w.left.length]) :
    Tracked (asyncDone w ⟨w.left.length, some job.input⟩) := by
  rw [asyncDone, h.finish hjobs]
  refine ⟨h.finished hjobs rfl rfl rfl rfl rfl, Or.inl ⟨rfl, ?_⟩, ?_⟩
  · show w.turns.map ActiveTurn.lose = []
    rw [hturns, List.map_nil]
  · show w.started = w.left ++ [w.left.length] ++ (w.turns.map ActiveTurn.lose).map ActiveTurn.ticket
    rw [hturns, hstarted, List.map_nil, List.map_nil, List.append_nil]

theorem tracked_task {w : QueueWorld} (h : Tracked w) (cancelRequested : Bool) (answer : StartAnswer) :
    Tracked (task w cancelRequested answer).1 := by
  rw [task]
  split
  · exact h
  split
  · exact h
  rename_i hfree
  have hturns : w.turns = [] := h.not_inFlight.mp (by simpa using hfree)
  have hstarted : w.started = w.left := by rw [h.started, hturns, List.map_nil, List.append_nil]
  split
  · exact h
  · rename_i job rest hjobs
    have hticket : w.tickets.headD 0 = w.left.length := by rw [h.ticket hjobs, List.headD_cons]
    rw [hticket]
    have hrunning : Accounted { w with
        queue := { w.queue with inFlight := true }, started := w.started ++ [w.left.length] } :=
      ⟨h.left, h.tickets, h.accepted, h.same, h.calls⟩
    cases answer with
    | refused e => exact h
    | finished => exact hrunning.tracked_finish hjobs hturns (congrArg (· ++ [w.left.length]) hstarted)
    | pending =>
      refine ⟨⟨h.left, h.tickets, h.accepted, h.same, h.calls⟩, Or.inr ⟨rfl, job, rest, hjobs, ?_⟩, ?_⟩
      · show w.turns ++ _ = _
        rw [hturns, List.nil_append]
      · show w.started ++ [w.left.length] = w.left ++ (w.turns ++ _).map ActiveTurn.ticket
        rw [hturns, hstarted]
        rfl

theorem tracked_complete {w : QueueWorld} (h : Tracked w) (index : Nat) :
    Tracked (queueStep w (.complete index)) := by
  rw [queueStep]
  split
  · exact h
  · rename_i turn hturn
    obtain ⟨job, rest, hjobs, rfl, hturns⟩ := h.first (List.mem_of_getElem? hturn)
    have hindex : index = 0 := by
      rw [hturns] at hturn
      have hlt := (List.getElem?_eq_some_iff.mp hturn).1
      exact Nat.lt_one_iff.mp hlt
    rw [hindex, hturns]
    have hrunning : Accounted { w with turns := [] } := ⟨h.left, h.tickets, h.accepted, h.same, h.calls⟩
    refine hrunning.tracked_finish hjobs rfl ?_
    show w.started = _
    rw [h.started, hturns]
    rfl

/-- A turn that draining runs when nothing is in flight. -/
theorem tracked_drainTurn {w : QueueWorld} (h : Tracked w) (hturns : w.turns = []) :
    Tracked (drainTurn w) ∧ (drainTurn w).turns = [] := by
  unfold drainTurn
  split
  · exact ⟨h, hturns⟩
  · rename_i job rest hjobs
    have hticket : w.tickets.headD 0 = w.left.length := by rw [h.ticket hjobs, List.headD_cons]
    have hstarted : w.started = w.left := by rw [h.started, hturns, List.map_nil, List.append_nil]
    have hrunning : Accounted { w with started := w.started ++ [w.left.length] } :=
      ⟨h.left, h.tickets, h.accepted, h.same, h.calls⟩
    have hnone : w.turns.map ActiveTurn.lose = [] := by rw [hturns, List.map_nil]
    simp only [hticket]
    rw [hrunning.finish hjobs]
    refine ⟨⟨hrunning.finished hjobs rfl rfl rfl rfl rfl, Or.inl ⟨h.not_inFlight.mpr hturns, hnone⟩, ?_⟩, hnone⟩
    show w.started ++ [w.left.length] =
      w.left ++ [w.left.length] ++ (w.turns.map ActiveTurn.lose).map ActiveTurn.ticket
    rw [hnone, hstarted, List.map_nil, List.append_nil]

theorem tracked_drainLoop {maxTurns : Nat} {answer : Nat → Res Unit} :
    ∀ (rounds processed : Nat) (w : QueueWorld), Tracked w → w.turns = [] →
      Tracked (drainLoop maxTurns answer rounds processed w).1 := by
  intro rounds
  induction rounds with
  | zero => exact fun _ _ h _ => h
  | succ rounds ih =>
    intro processed w h hturns
    obtain ⟨hnext, hnone⟩ := tracked_drainTurn h hturns
    rw [drainLoop]
    split
    · exact h
    split
    · exact ih _ _ hnext hnone
    · split
      · exact ih _ _ hnext hnone
      · exact hnext

theorem enqueue_inFlight {before after : TurnQueue} {job : AgentJob} (h : enqueue before job = .ok after) :
    after.inFlight = before.inFlight := by
  obtain ⟨_, _, -, -, -, rfl, -⟩ := enqueue_jobs h
  rfl

/-- Accepting a job, unless it moves the vector under a turn in flight. -/
theorem tracked_accept {w : QueueWorld} (h : Tracked w) {job : AgentJob} {moved : Bool}
    (hguard : Undisturbed w (.enqueue job moved)) : Tracked (accept w job moved).1 := by
  unfold accept
  split
  · exact h
  rename_i queue hqueue
  have hturns : (if VecFull w.queue ∧ moved = true then w.turns.map ActiveTurn.lose else w.turns) =
      w.turns := by
    split
    · rename_i hmoves
      by_cases hnone : w.turns = []
      · rw [hnone, List.map_nil]
      · exact absurd hqueue (hguard hnone hmoves.1 hmoves.2 queue)
    · rfl
  simp only [hturns]
  have hcall := enqueue_enqueued hqueue
  obtain ⟨input, added, hinput, hlen, hadded, -⟩ := hcall.added
  have hlast : queue.jobs.getLast? = some added := by
    rw [List.getLast?_eq_getElem?, hlen, Nat.add_sub_cancel, hadded]
  have haccepted : w.accepted ++ queue.jobs.getLast?.toList = w.accepted ++ [added] := by
    rw [hlast, Option.toList_some]
  have hleft : ∀ ticket ∈ w.left, ticket < w.accepted.length := by
    intro ticket hticket
    rw [h.left, List.mem_range] at hticket
    have := h.accepted
    omega
  refine ⟨⟨h.left, ?_, ?_, ?_, ?_⟩, ?_, h.started⟩
  · show w.tickets ++ [w.accepted.length] = List.range' w.left.length queue.jobs.length
    rw [hlen, List.range'_concat, h.tickets, h.accepted, Nat.one_mul]
  · show (w.accepted ++ queue.jobs.getLast?.toList).length = w.left.length + queue.jobs.length
    rw [haccepted, List.length_append, List.length_singleton, h.accepted, hlen]
    omega
  · show ∀ (i : Nat) (job' : QueuedTurn), queue.jobs[i]? = some job' → ∃ first,
      (w.accepted ++ queue.jobs.getLast?.toList)[w.left.length + i]? = some first ∧ _
    intro i job' hjob'
    rw [haccepted]
    have hi := (List.getElem?_eq_some_iff.mp hjob').1
    by_cases hold : i < w.queue.jobs.length
    · obtain ⟨queued, hqueued⟩ : ∃ queued, w.queue.jobs[i]? = some queued := ⟨_, List.getElem?_eq_getElem hold⟩
      obtain ⟨kept, hkept, hsame, -⟩ := hcall.kept i queued hqueued
      obtain ⟨first, hfirst, hfirstInput, hfirstDone⟩ := h.same i queued hqueued
      obtain rfl : kept = job' := Option.some.inj (hkept.symm.trans hjob')
      refine ⟨first, ?_, ?_, ?_⟩
      · rw [List.getElem?_append_left (List.getElem?_eq_some_iff.mp hfirst).1, hfirst]
      · rw [hfirstInput, hsame]
      · rw [hfirstDone, hsame]
    · have hat : i = w.queue.jobs.length := by omega
      rw [hat] at hjob'
      refine ⟨added, ?_, ?_, ?_⟩
      · rw [hat, ← h.accepted, List.getElem?_concat_length]
      · rw [Option.some.inj (hadded.symm.trans hjob')]
      · rw [Option.some.inj (hadded.symm.trans hjob')]
  · show w.calls = dueCalls (w.accepted ++ queue.jobs.getLast?.toList) w.left
    rw [h.calls, dueCalls, dueCalls]
    apply List.filterMap_congr
    intro ticket hticket
    rw [List.getElem?_append_left (hleft ticket hticket)]
  · obtain ⟨hfree, hnone⟩ | ⟨hbusy, first, rest, hjobs, hflight⟩ := h.flight
    · exact Or.inl ⟨(enqueue_inFlight hqueue).trans hfree, hnone⟩
    · obtain ⟨kept, hkept, hsame, -⟩ := hcall.kept 0 first (by rw [hjobs]; rfl)
      obtain ⟨rest', hjobs'⟩ : ∃ rest', queue.jobs = kept :: rest' := by
        cases hqueueJobs : queue.jobs with
        | nil => rw [hqueueJobs, List.getElem?_nil] at hkept; exact nomatch hkept
        | cons job' rest' =>
          rw [hqueueJobs] at hkept
          exact ⟨rest', by rw [Option.some.inj hkept]⟩
      refine Or.inr ⟨(enqueue_inFlight hqueue).trans hbusy, kept, rest', hjobs', ?_⟩
      rw [hsame]
      exact hflight

/-! ## When the queue keeps its promises -/

theorem Tracked.delivered {w : QueueWorld} (h : Tracked w) : Delivered w := by
  constructor
  · rw [h.tickets, h.accepted, List.range_eq_range', h.left, List.range_eq_range', List.length_range']
    have happend := @List.range'_append 0 w.left.length w.queue.jobs.length 1
    rwa [Nat.one_mul, Nat.zero_add] at happend
  · exact h.calls
  · rw [h.started]
    obtain ⟨-, hnone⟩ | ⟨-, job, rest, -, hturns⟩ := h.flight
    · rw [hnone, List.map_nil, List.append_nil, h.left]
      exact List.nodup_range
    · rw [hturns, List.map_singleton, h.left, List.length_range, ← List.range_succ]
      exact List.nodup_range
  · obtain ⟨-, hnone⟩ | ⟨-, job, rest, -, hturns⟩ := h.flight
    · rw [hnone]
      exact Nat.zero_le 1
    · rw [hturns]
      exact Nat.le_refl 1
  · intro turn hturn
    obtain ⟨job, rest, hjobs, rfl, -⟩ := h.first hturn
    obtain ⟨first, hfirst, hinput, -⟩ := h.same 0 job (by rw [hjobs]; rfl)
    exact ⟨first, hfirst, by rw [hinput]⟩

theorem tracked_step {w : QueueWorld} (h : Tracked w) {e : QueueEvent} (hguard : Undisturbed w e) :
    Tracked (queueStep w e) := by
  cases e with
  | enqueue job moved => exact tracked_accept h hguard
  | tick cancelRequested answer => exact tracked_task h cancelRequested answer
  | complete index => exact tracked_complete h index
  | drain maxTurns answer => exact tracked_drainLoop _ _ w h hguard
  | shutdown => exact ⟨⟨h.left, h.tickets, h.accepted, h.same, h.calls⟩, h.flight, h.started⟩

@[simp] theorem callDone_started (w : QueueWorld) (ticket : Nat) (reads : Option Bytes) :
    (callDone w ticket reads).started = w.started := by
  unfold callDone
  split
  · rfl
  · split <;> rfl

@[simp] theorem removeHead_started (w : QueueWorld) : (removeHead w).started = w.started := by
  unfold removeHead
  split <;> rfl

theorem drainTurn_started {w : QueueWorld} {job : QueuedTurn} {rest : List QueuedTurn}
    (hjobs : w.queue.jobs = job :: rest) :
    (drainTurn w).started = w.started ++ [w.tickets.headD 0] := by
  unfold drainTurn
  simp only [hjobs, removeHead_started, callDone_started]

theorem drainLoop_started {maxTurns : Nat} {answer : Nat → Res Unit} :
    ∀ (rounds processed : Nat) (w : QueueWorld),
      w.started <+: (drainLoop maxTurns answer rounds processed w).1.started := by
  have hturn : ∀ w : QueueWorld, w.started <+: (drainTurn w).started := by
    intro w
    cases hjobs : w.queue.jobs with
    | nil =>
      unfold drainTurn
      simp only [hjobs]
      exact List.prefix_rfl
    | cons job rest =>
      rw [drainTurn_started hjobs]
      exact List.prefix_append _ _
  intro rounds
  induction rounds with
  | zero => exact fun _ w => List.prefix_rfl
  | succ rounds ih =>
    intro processed w
    rw [drainLoop]
    split
    · exact List.prefix_rfl
    split
    · exact (hturn w).trans (ih _ _)
    · split
      · exact (hturn w).trans (ih _ _)
      · exact hturn w

/-- Draining starts a turn for the first job, also when it has one in flight. -/
theorem drain_starts {w : QueueWorld} (h : Tracked w) {job : QueuedTurn} {rest : List QueuedTurn}
    (hjobs : w.queue.jobs = job :: rest) (maxTurns : Nat) (answer : Nat → Res Unit) :
    w.started ++ [w.left.length] <+: (drain w maxTurns answer).1.started := by
  have hturn : (drainTurn w).started = w.started ++ [w.left.length] := by
    rw [drainTurn_started hjobs, h.ticket hjobs, List.headD_cons]
  have hgo : ¬(w.queue.jobs = [] ∨ (maxTurns ≠ 0 ∧ maxTurns ≤ 0)) := by
    rw [hjobs]
    rintro (hnil | ⟨hpos, hzero⟩)
    · exact List.cons_ne_nil _ _ hnil
    · omega
  rw [drain, hjobs, List.length_cons, drainLoop, if_neg hgo, ← hturn]
  split
  · exact drainLoop_started _ _ _
  · split
    · exact drainLoop_started _ _ _
    · exact List.prefix_rfl

/-- A step that disturbs the turn in flight breaks a promise. -/
theorem undisturbed_of_delivered {w : QueueWorld} (h : Tracked w) {e : QueueEvent}
    (hdelivered : Delivered (queueStep w e)) : Undisturbed w e := by
  cases e with
  | tick cancelRequested answer => trivial
  | complete index => trivial
  | shutdown => trivial
  | enqueue job moved =>
    intro hflight hfull hmoved queue hqueue
    obtain ⟨turn, hturn⟩ := List.exists_mem_of_ne_nil _ hflight
    have hlost : turn.lose ∈ (queueStep w (.enqueue job moved)).turns := by
      rw [queueStep, accept]
      simp only [hqueue]
      rw [if_pos ⟨hfull, hmoved⟩]
      exact List.mem_map_of_mem hturn
    obtain ⟨first, -, hreads⟩ := hdelivered.own _ hlost
    exact nomatch hreads
  | drain maxTurns answer =>
    show w.turns = []
    by_contra hflight
    obtain ⟨turn, hturn⟩ := List.exists_mem_of_ne_nil _ hflight
    obtain ⟨job, rest, hjobs, rfl, hturns⟩ := h.first hturn
    have hstarted : w.started = w.left ++ [w.left.length] := by
      rw [h.started, hturns]
      rfl
    have htwice := hdelivered.once.sublist (drain_starts h hjobs maxTurns answer).sublist
    rw [hstarted, List.nodup_append] at htwice
    exact htwice.2.2 w.left.length (List.mem_append_right _ (List.mem_singleton_self _)) w.left.length
      (List.mem_singleton_self _) rfl

/-- **When the queue delivers**: along a run, exactly while no drain and no move of the vector finds a
    turn in flight. -/
theorem delivered_iff (events : List QueueEvent) :
    (∀ before, before <+: events → Delivered (run queueStep {} before)) ↔
      EachStep queueStep Undisturbed {} events := by
  have hstart : Tracked {} := by
    refine ⟨⟨rfl, rfl, rfl, ?_, rfl⟩, Or.inl ⟨rfl, rfl⟩, rfl⟩
    intro i job hjob
    rw [List.getElem?_nil] at hjob
    exact nomatch hjob
  exact safe_iff_eachStep_of_guarded (I := Tracked) (P := Delivered) (fun _ => Tracked.delivered)
    (fun _ _ h => tracked_step h) (fun _ _ h => undisturbed_of_delivered h) events {} hstart

/-- Two jobs, a turn for the first, a drain of one job while it is in flight, and its completion. -/
def drainedInFlight : List QueueEvent :=
  [.enqueue { input := some (str "a"), done := some 1 } false,
    .enqueue { input := some (str "b"), done := some 2 } false,
    .tick false .pending, .drain 1 fun _ => .ok (), .complete 0]

/-- The job has two turns, and the `done` of the second job, which has none, gets what the first's turn
    left. -/
theorem not_delivered_drained :
    (run queueStep {} drainedInFlight).started = [0, 0] ∧
      (run queueStep {} drainedInFlight).calls = [⟨1, 0, some (str "a")⟩, ⟨2, 0, none⟩] ∧
      ¬ Delivered (run queueStep {} drainedInFlight) := by
  have hstarted : (run queueStep {} drainedInFlight).started = [0, 0] := by decide
  refine ⟨hstarted, by decide, fun h => ?_⟩
  have hnodup := h.once
  rw [hstarted] at hnodup
  exact absurd hnodup (by decide)

end SmolClaw.Runtime
