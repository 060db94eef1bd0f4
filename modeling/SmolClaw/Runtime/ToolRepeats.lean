/-
  Repeated tool calls in a turn (`execute_tool_calls` and `sc_agent_process_message`,
  `src/runtime/agent.c`).

  1. **Program** — a call that succeeded is kept in the success cache, and a call with the same name and
     arguments is answered from it.  The cache belongs to one provider loop; a turn runs a second loop,
     with an empty cache, when the context was too long for the first.

  2. **Specification** — `NotRepeated`: in one loop what succeeded is not invoked again, and a repeat is
     answered from the cache, or refused when the tool has failed for the turn in this loop.

  3. **Result** — `loops_notRepeated`: so it is in each of the at most two loops of a turn, and the second
     runs only behind one that ended with a context overflow.  Across the two loops a call may run twice,
     and within one a repeat may be refused (`repeated_across_loops`).
-/
import SmolClaw.Runtime.AgentMessage

namespace SmolClaw.Runtime

open Lib.History Security

/-! ## The specification -/

/-- A call with this name and these arguments was invoked and succeeded. -/
def Succeeded (records : List LoopRecord) (name argumentsJson : Bytes) : Prop :=
  ∃ r ∈ records, ∃ call result, r.event = .invoke call (.ok result) ∧ result.success = true ∧
    call.name = name ∧ call.argumentsJson = argumentsJson

/-- A call was settled by an invocation that succeeded. -/
def SettledBy (records : List LoopRecord) (call : ProviderToolCall) (result : ToolResult) : Prop :=
  ∃ r ∈ records, ∃ call', r.event = .settled call' false (.ok result) ∧ result.success = true ∧
    call'.name = call.name ∧ call'.argumentsJson = call.argumentsJson

/-- The answer of the cache, or the refusal of a tool that failed for the turn behind these events. -/
def AnsweredFrom (before : List LoopRecord) (name : Bytes) (result : ToolResult) (reused : Bool)
    (status : Res ToolResult) : Prop :=
  (reused = true ∧ ∃ entry : SuccessEntry, entry.output = result.output ∧
    status = .ok (resultFromSuccess entry)) ∨
  (reused = false ∧ FailedFor before name ∧
    status = Status.unsupported "sc.agent.tool_loop.repeated_terminal_failure")

/-- **What may happen behind these events of a loop.** -/
structure NotRepeated (before : List LoopRecord) (r : LoopRecord) : Prop where
  /-- What succeeded is not invoked again. -/
  invoked : ∀ call result, r.event = .invoke call result → ¬ Succeeded before call.name call.argumentsJson
  /-- A repeat is answered from what succeeded. -/
  answered : ∀ call reused status result, r.event = .settled call reused status →
    SettledBy before call result → AnsweredFrom before call.name result reused status

/-! ## The cache -/

/-- What an entry stands for. -/
def SuccessEntry.kept (entry : SuccessEntry) : Bytes × Bytes × Bytes :=
  (entry.toolName, entry.argumentsJson, entry.output)

/-- The cache holds an entry for this call. -/
def Cached (successes : List SuccessEntry) (name argumentsJson : Bytes) : Prop :=
  ∃ output, (name, argumentsJson, output) ∈ successes.map SuccessEntry.kept

theorem successFind_some {successes : List SuccessEntry} {call : ProviderToolCall} {entry : SuccessEntry}
    {i : Nat} (h : successFind successes call = some (entry, i)) :
    (call.name, call.argumentsJson, entry.output) ∈ successes.map SuccessEntry.kept := by
  have hmatch := List.find?_some h
  rw [Bool.and_eq_true, beq_iff_eq, beq_iff_eq] at hmatch
  have hmem : entry ∈ successes :=
    (List.mem_zipIdx' (List.mem_of_find?_eq_some h)).2 ▸ List.getElem_mem _
  refine List.mem_map.mpr ⟨entry, hmem, ?_⟩
  rw [SuccessEntry.kept, hmatch.1, hmatch.2]

theorem successFind_none {successes : List SuccessEntry} {call : ProviderToolCall}
    (h : successFind successes call = none) : ¬ Cached successes call.name call.argumentsJson := by
  rintro ⟨output, hkept⟩
  obtain ⟨entry, hentry, heq⟩ := List.mem_map.mp hkept
  obtain ⟨hname, hargs⟩ := Prod.mk.inj heq
  obtain ⟨i, hi, rfl⟩ := List.mem_iff_getElem.mp hentry
  have hmem : (successes[i], i) ∈ successes.zipIdx :=
    List.mk_mem_zipIdx_iff_getElem?.mpr (List.getElem?_eq_getElem hi)
  have hnone := List.find?_eq_none.mp h _ hmem
  rw [hname, (Prod.mk.inj hargs).1, beq_self_eq_true, beq_self_eq_true] at hnone
  exact hnone rfl

/-- Counting a replay changes nothing else of an entry. -/
theorem kept_replayed (successes : List SuccessEntry) (i : Nat) :
    (successes.modify i fun entry => { entry with replayCount := entry.replayCount + 1 }).map
      SuccessEntry.kept = successes.map SuccessEntry.kept := by
  refine List.ext_getElem? fun j => ?_
  rw [List.getElem?_map, List.getElem?_map, List.getElem?_modify]
  cases successes[j]? with
  | none => rfl
  | some entry =>
    show some (SuccessEntry.kept (if i = j then _ else _)) = _
    split <;> rfl

theorem successAdd_new {successes : List SuccessEntry} {call : ProviderToolCall} (result : ToolResult)
    (h : successFind successes call = none) :
    (successAdd successes call result).map SuccessEntry.kept =
      successes.map SuccessEntry.kept ++ [(call.name, call.argumentsJson, result.output)] := by
  rw [successAdd, h, Option.isSome_none, if_neg Bool.false_ne_true, List.map_append]
  rfl

/-! ## One call -/

theorem succeeded_concat {records : List LoopRecord} {r : LoopRecord} {name argumentsJson : Bytes}
    (h : Succeeded (records ++ [r]) name argumentsJson) :
    Succeeded records name argumentsJson ∨ ∃ call result, r.event = .invoke call (.ok result) ∧
      result.success = true ∧ call.name = name ∧ call.argumentsJson = argumentsJson := by
  obtain ⟨invocation, hmem, hevent⟩ := h
  rcases List.mem_append.mp hmem with hold | hnew
  · exact Or.inl ⟨invocation, hold, hevent⟩
  · rw [List.mem_singleton.mp hnew] at hevent
    exact Or.inr hevent

theorem settledBy_concat {records : List LoopRecord} {r : LoopRecord} {call : ProviderToolCall}
    {result : ToolResult} (h : SettledBy (records ++ [r]) call result) :
    SettledBy records call result ∨ ∃ call', r.event = .settled call' false (.ok result) ∧
      result.success = true ∧ call'.name = call.name ∧ call'.argumentsJson = call.argumentsJson := by
  obtain ⟨settling, hmem, call', hevent⟩ := h
  rcases List.mem_append.mp hmem with hold | hnew
  · exact Or.inl ⟨settling, hold, call', hevent⟩
  · rw [List.mem_singleton.mp hnew] at hevent
    exact Or.inr ⟨call', hevent⟩

/-- What has happened to a call so far, from the state in which it was taken up: nothing else has
    succeeded, and this call only if its status says so.  It says what `LoopState.Fresh` needs behind the
    call. -/
structure Settling (base : LoopState) (call : ProviderToolCall) (s : LoopState) (status : Res ToolResult) :
    Prop where
  safe : Each NotRepeated s.records
  failed : ∀ name ∈ s.failures, FailedFor s.records name
  successes : s.successes = base.successes
  settled : ∀ call' result, SettledBy s.records call' result → SettledBy base.records call' result
  succeeded : ∀ name argumentsJson, Succeeded s.records name argumentsJson →
    Succeeded base.records name argumentsJson ∨
      (name = call.name ∧ argumentsJson = call.argumentsJson ∧ toolSuccess status = true)

section Settling

variable (turn : TurnTools) (env : LoopEnv) {base s : LoopState} {call : ProviderToolCall} {e : ScError}

/-- As long as the status is an error, nothing new has succeeded. -/
theorem Settling.earlier (h : Settling base call s (.error e)) {name argumentsJson : Bytes}
    (hsucceeded : Succeeded s.records name argumentsJson) : Succeeded base.records name argumentsJson :=
  (h.succeeded name argumentsJson hsucceeded).resolve_right fun hnew => Bool.false_ne_true hnew.2.2

theorem Settling.approval (h : Settling base call s (.error e)) (answer : Res Bool) (e' : ScError) :
    Settling base call (s.note (.approval call answer)) (.error e') := by
  constructor
  · exact each_concat.mpr ⟨h.safe, nofun, nofun⟩
  · exact fun name hname => (h.failed name hname).append _
  · exact h.successes
  · intro call' result hsettled
    rcases settledBy_concat hsettled with hold | ⟨_, hevent, -⟩
    · exact h.settled call' result hold
    · exact nomatch hevent
  · intro name argumentsJson hsucceeded
    rcases succeeded_concat hsucceeded with hold | ⟨_, _, hevent, -⟩
    · exact Or.inl (h.earlier hold)
    · exact nomatch hevent

/-- **An invocation**: the first that succeeds, if it does. -/
theorem Settling.invoke (h : Settling base call s (.error e))
    (hnew : ¬ Succeeded base.records call.name call.argumentsJson) (override : Option Bytes)
    (spec : ToolSpec) (args : Json) :
    Settling base call (toolInvoke env { s with override := override } spec call args).1
      (toolInvoke env { s with override := override } spec call args).2 := by
  unfold toolInvoke
  split
  · exact ⟨h.safe, h.failed, h.successes, h.settled, fun _ _ hsucceeded => Or.inl (h.earlier hsucceeded)⟩
  · constructor
    · refine each_concat.mpr ⟨h.safe, fun call' result hevent => ?_, fun _ _ _ _ hevent => nomatch hevent⟩
      obtain ⟨rfl, -⟩ := LoopEvent.invoke.inj hevent
      exact fun hsucceeded => hnew (h.earlier hsucceeded)
    · exact fun name hname => (h.failed name hname).append _
    · exact h.successes
    · intro call' result hsettled
      rcases settledBy_concat hsettled with hold | ⟨_, hevent, -⟩
      · exact h.settled call' result hold
      · exact nomatch hevent
    · intro name argumentsJson hsucceeded
      rcases succeeded_concat hsucceeded with hold | ⟨call', result, hevent, hsuccess, hname, hargs⟩
      · exact Or.inl (h.earlier hold)
      · obtain ⟨rfl, hresult⟩ := LoopEvent.invoke.inj hevent
        refine Or.inr ⟨hname.symm, hargs.symm, ?_⟩
        rw [hresult]
        exact hsuccess

theorem Settling.invokeApproved (h : Settling base call s (.error e))
    (hnew : ¬ Succeeded base.records call.name call.argumentsJson) (spec : ToolSpec) (args : Json) :
    Settling base call (invokeApproved env s spec call args).1 (invokeApproved env s spec call args).2 := by
  have hinvoked := h.invoke env hnew (some call.name) spec args
  exact ⟨hinvoked.safe, hinvoked.failed, hinvoked.successes, hinvoked.settled, hinvoked.succeeded⟩

theorem Settling.invokeFirst (h : Settling base call s (.error e))
    (hnew : ¬ Succeeded base.records call.name call.argumentsJson) (spec : ToolSpec) (args : Json) :
    Settling base call (invokeFirst env s spec call args).1 (invokeFirst env s spec call args).2 := by
  unfold Runtime.invokeFirst
  split
  · exact h.invokeApproved env hnew spec args
  · exact h.invoke env hnew s.override spec args

theorem Settling.askApproval (h : Settling base call s (.error e))
    (hnew : ¬ Succeeded base.records call.name call.argumentsJson) (spec : ToolSpec) (args : Json) :
    Settling base call (askApproval env s spec call args).1 (askApproval env s spec call args).2 := by
  unfold Runtime.askApproval
  split
  · exact ⟨h.safe, h.failed, h.successes, h.settled, h.succeeded⟩
  rename_i approve _
  dsimp only
  have hasked : ∀ answer e', Settling base call (s.note (.approval call answer)) (.error e') := h.approval
  cases approve s.records call with
  | error e' => exact hasked _ e'
  | ok approved =>
    cases approved with
    | false =>
      have hdeclined := hasked (.ok false) ⟨.securityDenied, "sc.tool.approval_declined"⟩
      exact ⟨hdeclined.safe, hdeclined.failed, hdeclined.successes, hdeclined.settled, hdeclined.succeeded⟩
    | true =>
      have happroved := hasked (.ok true) e
      have hgranted : Settling base call
          { s.note (.approval call (.ok true)) with grants := addGrant s.grants call } (.error e) :=
        ⟨happroved.safe, happroved.failed, happroved.successes, happroved.settled, happroved.succeeded⟩
      exact hgranted.invokeApproved env hnew spec args

theorem Settling.start (h : Each NotRepeated s.records) (hfailed : ∀ name ∈ s.failures, FailedFor s.records name)
    (status : Res ToolResult) : Settling s call s status :=
  ⟨h, hfailed, rfl, fun _ _ => id, fun _ _ => Or.inl⟩

theorem settling_invokeCall (h : Each NotRepeated s.records)
    (hfailed : ∀ name ∈ s.failures, FailedFor s.records name)
    (hnew : ¬ Succeeded s.records call.name call.argumentsJson) (tool : Tool) :
    Settling s call (invokeCall turn env tool s call).1 (invokeCall turn env tool s call).2 := by
  unfold invokeCall
  split
  · exact .start h hfailed _
  split
  · exact .start h hfailed _
  split
  · exact .start h hfailed _
  rename_i spec _ _ _ args _
  have hstart : Settling s call s (.error ⟨.cancelled, "sc.tool.approval_required"⟩) :=
    .start h hfailed _
  have hfirst := hstart.invokeFirst env hnew spec args
  split
  · rename_i heq
    rw [heq] at hfirst
    exact hfirst
  · rename_i heq
    rw [heq] at hfirst
    split
    · exact hfirst.askApproval env hnew spec args
    · exact hfirst

end Settling

/-! ## A loop -/

section Loop

variable (hmac : Digest → Bytes → Digest) (agent : LoopAgent) (turn : TurnTools) (env : LoopEnv)

/-- What the cache knows of a call that was settled by this result, and what is known of its tool. -/
structure KeptSuccess (successes : List SuccessEntry) (call : ProviderToolCall) (result : ToolResult) :
    Prop where
  cached : Cached successes call.name call.argumentsJson
  output : ∀ output, (call.name, call.argumentsJson, output) ∈ successes.map SuccessEntry.kept →
    output = result.output
  allowed : turnAllowsTool turn call.name = true
  found : findToolByName agent.tools call.name ≠ none

/-- **The invariant between two calls**: what succeeded is in the cache, so that its repeat finds it, and a
    tool is refused only for a failure of this loop. -/
structure LoopState.Fresh (s : LoopState) : Prop where
  safe : Each NotRepeated s.records
  failed : ∀ name ∈ s.failures, FailedFor s.records name
  succeeded : ∀ name argumentsJson, Succeeded s.records name argumentsJson →
    Cached s.successes name argumentsJson
  settled : ∀ call result, SettledBy s.records call result → KeptSuccess agent turn s.successes call result

variable {agent turn} {s s' : LoopState} {call : ProviderToolCall}

theorem LoopState.Fresh.replayed (h : s.Fresh agent turn) (i : Nat) :
    { s with successes := s.successes.modify i fun entry =>
        { entry with replayCount := entry.replayCount + 1 } }.Fresh agent turn := by
  have hkept := kept_replayed s.successes i
  refine ⟨h.safe, h.failed, fun name argumentsJson hsucceeded => ?_, fun call result hsettled => ?_⟩
  · obtain ⟨output, hin⟩ := h.succeeded name argumentsJson hsucceeded
    exact ⟨output, hkept ▸ hin⟩
  · have hold := h.settled call result hsettled
    obtain ⟨output, hin⟩ := hold.cached
    exact ⟨⟨output, hkept ▸ hin⟩, fun other hother => hold.output other (hkept ▸ hother), hold.allowed,
      hold.found⟩

/-- What was kept stays kept behind an entry of another call. -/
theorem KeptSuccess.concat {successes more : List SuccessEntry} {name argumentsJson output : Bytes}
    {result : ToolResult} (h : KeptSuccess agent turn successes call result)
    (hkept : more.map SuccessEntry.kept = successes.map SuccessEntry.kept ++ [(name, argumentsJson, output)])
    (hnew : ¬ Cached successes name argumentsJson) : KeptSuccess agent turn more call result where
  cached := by
    obtain ⟨output, houtput⟩ := h.cached
    exact ⟨output, hkept ▸ List.mem_append_left _ houtput⟩
  output := by
    intro other hother
    rw [hkept] at hother
    rcases List.mem_append.mp hother with hin | hlast
    · exact h.output other hin
    · obtain ⟨hname, hrest⟩ := Prod.mk.inj (List.mem_singleton.mp hlast)
      obtain ⟨hargs, -⟩ := Prod.mk.inj hrest
      exact absurd (hname ▸ hargs ▸ h.cached) hnew
  allowed := h.allowed
  found := h.found

/-- The entry of a new call keeps what it was settled with. -/
theorem KeptSuccess.last {successes more : List SuccessEntry} {result : ToolResult}
    (hkept : more.map SuccessEntry.kept =
      successes.map SuccessEntry.kept ++ [(call.name, call.argumentsJson, result.output)])
    (hnew : ¬ Cached successes call.name call.argumentsJson)
    (hallowed : turnAllowsTool turn call.name = true) (hfound : findToolByName agent.tools call.name ≠ none) :
    KeptSuccess agent turn more call result where
  cached := ⟨result.output, hkept ▸ List.mem_append_right _ (List.mem_singleton_self _)⟩
  output := by
    intro other hother
    rw [hkept] at hother
    rcases List.mem_append.mp hother with hin | hlast
    · exact absurd ⟨other, hin⟩ hnew
    · exact (Prod.mk.inj (Prod.mk.inj (List.mem_singleton.mp hlast)).2).2
  allowed := hallowed
  found := hfound

/-- **A settled call**: what it was settled with is kept, and repeats were answered. -/
theorem LoopState.Fresh.finish {settled : Settled} (h : s.Fresh agent turn)
    (hsettling : Settling s call s' settled.status) (hreused : settled.reused = true → s'.records = s.records)
    (hnew : ∀ result, settled.reused = false → settled.status = .ok result → result.success = true →
      successFind s.successes call = none ∧ turnAllowsTool turn call.name = true ∧
        findToolByName agent.tools call.name ≠ none)
    (hanswered : ∀ result, SettledBy s.records call result →
      AnsweredFrom s'.records call.name result settled.reused settled.status) :
    (finishCall hmac agent env s' call settled).1.Fresh agent turn := by
  obtain ⟨result', hstate⟩ := finishCall_state hmac agent env s' call settled
  rw [hstate]
  have hsafe : Each NotRepeated (s'.records ++
      [⟨s'.override, .settled call settled.reused settled.status⟩]) := by
    refine each_concat.mpr ⟨hsettling.safe, nofun, fun call' reused status result hevent hby => ?_⟩
    obtain ⟨rfl, rfl, rfl⟩ := LoopEvent.settled.inj hevent
    exact hanswered result (hsettling.settled _ _ hby)
  have hfailed : ∀ name ∈ addFailure s'.failures call settled.status,
      FailedFor (s'.records ++ [⟨s'.override, .settled call settled.reused settled.status⟩]) name := by
    intro name hname
    refine failedFor_append.mpr ?_
    rcases mem_addFailure.mp hname with hold | hnow
    · exact Or.inl (hsettling.failed name hold)
    · exact Or.inr (failedFor_settled.mpr hnow)
  -- only a success of its own adds an entry
  by_cases hkeeps : settled.reused = false ∧ ∃ result, settled.status = .ok result ∧ result.success = true
  · obtain ⟨hfresh, result, hstatus, hsuccess⟩ := hkeeps
    obtain ⟨hnone, hallowed, hfound⟩ := hnew result hfresh hstatus hsuccess
    have hkept : (addSuccess s'.successes call settled).map SuccessEntry.kept =
        s.successes.map SuccessEntry.kept ++ [(call.name, call.argumentsJson, result.output)] := by
      rw [addSuccess, hstatus, hfresh, hsettling.successes]
      dsimp only
      rw [hsuccess, Bool.not_false, Bool.and_self, if_pos rfl, successAdd_new result hnone]
    have hcached := successFind_none hnone
    refine ⟨hsafe, hfailed, fun name argumentsJson hsucceeded => ?_, fun call' result' hby => ?_⟩
    · rcases succeeded_concat hsucceeded with hold | ⟨_, _, hevent, -⟩
      · rcases hsettling.succeeded _ _ hold with hbase | ⟨rfl, rfl, -⟩
        · obtain ⟨output, houtput⟩ := h.succeeded _ _ hbase
          exact ⟨output, hkept ▸ List.mem_append_left _ houtput⟩
        · exact ⟨result.output, hkept ▸ List.mem_append_right _ (List.mem_singleton_self _)⟩
      · exact nomatch hevent
    · rcases settledBy_concat hby with hold | ⟨call'', hevent, -, hname, hargs⟩
      · exact (h.settled _ _ (hsettling.settled _ _ hold)).concat hkept hcached
      · obtain ⟨rfl, -, hresult⟩ := LoopEvent.settled.inj hevent
        obtain rfl : result = result' := Except.ok.inj (hstatus.symm.trans hresult)
        rw [hname, hargs] at hkept hcached
        rw [hname] at hallowed hfound
        exact KeptSuccess.last hkept hcached hallowed hfound
  · have hsame : addSuccess s'.successes call settled = s.successes := by
      rw [addSuccess, hsettling.successes]
      split
      · rename_i result hstatus
        rw [if_neg]
        intro hboth
        rw [Bool.and_eq_true, Bool.not_eq_true'] at hboth
        exact hkeeps ⟨hboth.1, result, hstatus, hboth.2⟩
      · rfl
    have hold : ∀ name argumentsJson, Succeeded s'.records name argumentsJson →
        Succeeded s.records name argumentsJson := by
      intro name argumentsJson hsucceeded
      cases hr : settled.reused with
      | true => rwa [hreused hr] at hsucceeded
      | false =>
        rcases hsettling.succeeded _ _ hsucceeded with hbase | ⟨-, -, hsuccess⟩
        · exact hbase
        · cases hstatus : settled.status with
          | error e => rw [hstatus] at hsuccess; exact absurd hsuccess Bool.false_ne_true
          | ok result => rw [hstatus] at hsuccess; exact absurd ⟨hr, result, hstatus, hsuccess⟩ hkeeps
    refine ⟨hsafe, hfailed, fun name argumentsJson hsucceeded => ?_, fun call' result' hby => ?_⟩
    · show Cached (addSuccess s'.successes call settled) name argumentsJson
      rw [hsame]
      rcases succeeded_concat hsucceeded with hbefore | ⟨_, _, hevent, -⟩
      · exact h.succeeded _ _ (hold _ _ hbefore)
      · exact nomatch hevent
    · show KeptSuccess agent turn (addSuccess s'.successes call settled) call' result'
      rw [hsame]
      rcases settledBy_concat hby with hbefore | ⟨_, hevent, hsuccess, -⟩
      · exact h.settled _ _ (hsettling.settled _ _ hbefore)
      · obtain ⟨-, hfresh, hstatus⟩ := LoopEvent.settled.inj hevent
        exact absurd ⟨hfresh, result', hstatus, hsuccess⟩ hkeeps

/-- A call that is refused without an invocation. -/
theorem LoopState.Fresh.refused (h : s.Fresh agent turn) (e : ScError)
    (hanswered : ∀ result, SettledBy s.records call result → AnsweredFrom s.records call.name result false (.error e)) :
    (finishCall hmac agent env s call { status := .error e }).1.Fresh agent turn := by
  refine h.finish hmac env (.start h.safe h.failed _) nofun (fun result _ hstatus => ?_) hanswered
  exact nomatch hstatus

/-- **One call keeps the cache right.** -/
theorem LoopState.Fresh.settleCall (h : s.Fresh agent turn) (call : ProviderToolCall) :
    (finishCall hmac agent env (Runtime.settleCall agent turn env s call).1 call
      (Runtime.settleCall agent turn env s call).2).1.Fresh agent turn := by
  unfold Runtime.settleCall
  split
  · rename_i hdenied
    refine h.refused hmac env _ fun result hby => ?_
    rw [(h.settled call result hby).allowed] at hdenied
    exact absurd hdenied Bool.false_ne_true
  rename_i hallowed
  split
  · rename_i hnone
    exact h.refused hmac env _ fun result hby => absurd hnone (h.settled call result hby).found
  rename_i tool hfound
  split
  · rename_i hfailed
    have hbefore := h.failed call.name (List.contains_iff_mem.mp hfailed)
    exact h.refused hmac env _ fun result _ => Or.inr ⟨rfl, hbefore, rfl⟩
  split
  · rename_i entry i hentry
    have hreplayed := h.replayed i
    refine hreplayed.finish hmac env (.start hreplayed.safe hreplayed.failed _) (fun _ => rfl) nofun fun result hby => ?_
    exact Or.inl ⟨rfl, entry, (h.settled call result hby).output _ (successFind_some hentry), rfl⟩
  rename_i hnone
  split
  · rename_i entry i _
    have hreplayed := h.replayed i
    refine hreplayed.finish hmac env (.start hreplayed.safe hreplayed.failed _) (fun _ => rfl) nofun fun result hby => ?_
    exact absurd (h.settled call result hby).cached (successFind_none hnone)
  · have hnew : ¬ Succeeded s.records call.name call.argumentsJson := fun hsucceeded =>
      successFind_none hnone (h.succeeded _ _ hsucceeded)
    refine h.finish hmac env (settling_invokeCall turn env h.safe h.failed hnew tool) nofun (fun _ _ _ _ => ?_)
      fun result hby => absurd (h.settled call result hby).cached (successFind_none hnone)
    refine ⟨hnone, by simpa using hallowed, ?_⟩
    rw [hfound]
    exact Option.some_ne_none tool

theorem LoopState.Fresh.sendRequest (h : s.Fresh agent turn) (prompt : Bytes) :
    (sendRequest env s prompt).1.Fresh agent turn := by
  refine ⟨each_concat.mpr ⟨h.safe, nofun, nofun⟩, fun name hname => (h.failed name hname).append _,
    fun name argumentsJson hsucceeded => ?_, fun call result hby => ?_⟩
  · rcases succeeded_concat hsucceeded with hold | ⟨_, _, hevent, -⟩
    · exact h.succeeded _ _ hold
    · exact nomatch hevent
  · rcases settledBy_concat hby with hold | ⟨_, hevent, -⟩
    · exact h.settled _ _ hold
    · exact nomatch hevent

theorem LoopState.Fresh.acceptResponse (h : s.Fresh agent turn) (response : ProviderResponse) :
    (acceptResponse env s response).1.Fresh agent turn :=
  ⟨h.safe, h.failed, h.succeeded, h.settled⟩

variable (agent turn) in
/-- **A loop repeats nothing.** -/
theorem runProviderLoop_fresh (override : Option Bytes) (prompt : Bytes) (result : TurnResult) :
    (runProviderLoop hmac agent turn env override prompt result).1.Fresh agent turn := by
  have hstart : LoopState.Fresh agent turn { override := override, result := result } := by
    refine ⟨each_nil, fun name hname => absurd hname List.not_mem_nil, fun name argumentsJson hsucceeded => ?_,
      fun call result hby => ?_⟩
    · obtain ⟨r, hr, -⟩ := hsucceeded
      exact absurd hr List.not_mem_nil
    · obtain ⟨r, hr, -⟩ := hby
      exact absurd hr List.not_mem_nil
  exact providerLoop_keeps (fun s prompt h => h.sendRequest env prompt)
    (fun s response h => h.acceptResponse env response) (fun s call h => h.settleCall hmac env call)
    _ _ _ _ hstart

end Loop

/-! ## A turn -/

section Message

variable (hmac : Digest → Bytes → Digest) (m : MessageTurn) (env : MessageEnv)

/-- A round runs one loop more, or none. -/
theorem runLoop_loops (attempt : Nat) (shown : List HistoryMessage) (loops : List (List LoopRecord))
    (override : Option Bytes) (result : TurnResult) :
    (env.runLoop hmac m attempt shown loops override result).1 = loops ∨
      ∃ loop, Each NotRepeated loop ∧
        (env.runLoop hmac m attempt shown loops override result).1 = loops ++ [loop] := by
  unfold MessageEnv.runLoop
  split
  · exact Or.inl rfl
  · exact Or.inr ⟨_, (runProviderLoop_fresh hmac m.agent m.tools _ override _ result).safe, rfl⟩

/-- The loops of a turn: the first alone, or a second one behind one that ended with an overflow. -/
structure LoopsOk (override : Option Bytes) (result : TurnResult) (loops : List (List LoopRecord)) : Prop where
  each : ∀ loop ∈ loops, Each NotRepeated loop
  retried : loops.length ≤ 1 ∨ ∃ first second shown after e, loops = [first, second] ∧
    env.runLoop hmac m 0 shown [] override result = ([first], after, .error e) ∧ isContextOverflow e = true

theorem retryAnswer_loops (memoryContext : Bytes) (s : TurnState) (loops : List (List LoopRecord))
    (answers : List (Res Bytes)) (first : LoopState) :
    (retryAnswer hmac m env memoryContext s loops answers first).loops = loops ∨
      ∃ loop, Each NotRepeated loop ∧
        (retryAnswer hmac m env memoryContext s loops answers first).loops = loops ++ [loop] := by
  unfold retryAnswer
  dsimp only
  split
  · exact Or.inl rfl
  rename_i again _
  have hloops := runLoop_loops hmac m env 1 again loops first.override first.result
  split
  · rename_i heq
    rw [heq] at hloops
    exact hloops
  · rename_i heq
    rw [heq] at hloops
    exact hloops

/-- **The loops of a turn repeat nothing, each for itself.** -/
theorem loops_notRepeated (s : TurnState) (override : Option Bytes) (result : TurnResult) :
    LoopsOk hmac m env override result (processMessage hmac m env s override result).loops := by
  have hnone : LoopsOk hmac m env override result [] :=
    ⟨fun loop hloop => absurd hloop List.not_mem_nil, Or.inl (Nat.zero_le 1)⟩
  rw [processMessage, (AnsweredTurn.trace_loops _ m env).1]
  unfold answeredMessage
  split
  · exact hnone
  dsimp only
  split
  · exact hnone
  rename_i shown _
  unfold firstAnswer
  have hfirst := runLoop_loops hmac m env 0 shown [] override result
  have hone : ∀ loops, (loops = [] ∨ ∃ loop, Each NotRepeated loop ∧ loops = [] ++ [loop]) →
      LoopsOk hmac m env override result loops := by
    rintro loops (rfl | ⟨loop, hloop, rfl⟩)
    · exact hnone
    · refine ⟨fun loop' hloop' => ?_, Or.inl (Nat.le_refl 1)⟩
      rw [List.mem_singleton.mp hloop']
      exact hloop
  split
  · rename_i heq
    rw [heq] at hfirst
    exact hone _ hfirst
  rename_i loops after e heq
  have hran := hfirst
  rw [heq] at hran
  split
  · exact hone _ hran
  rename_i hretries
  rcases retryAnswer_loops hmac m env _ _ loops _ after with hsame | ⟨second, hsecond, hmore⟩
  · rw [hsame]
    exact hone _ hran
  rw [hmore]
  rcases hran with rfl | ⟨first, hloop, rfl⟩
  · exact hone _ (Or.inr ⟨second, hsecond, rfl⟩)
  · refine ⟨fun loop hmem => ?_, Or.inr ⟨first, second, shown, after, e, rfl, heq, ?_⟩⟩
    · rcases List.mem_pair.mp hmem with rfl | rfl
      · exact hloop
      · exact hsecond
    · simpa using fun h => hretries (Or.inl h)

end Message

/-! ## Across the loops of a turn -/

/-- What was invoked and succeeded. -/
def succeededCalls (records : List LoopRecord) : List (Bytes × Bytes) :=
  records.filterMap fun r =>
    match r.event with
    | .invoke call (.ok result) => if result.success then some (call.name, call.argumentsJson) else none
    | _ => none

theorem mem_succeededCalls {records : List LoopRecord} {name argumentsJson : Bytes}
    (h : (name, argumentsJson) ∈ succeededCalls records) : Succeeded records name argumentsJson := by
  obtain ⟨r, hr, hcall⟩ := List.mem_filterMap.mp h
  split at hcall
  · rename_i call result hevent
    split at hcall
    · rename_i hsuccess
      obtain ⟨hname, hargs⟩ := Prod.mk.inj (Option.some.inj hcall)
      exact ⟨r, hr, call, result, hevent, hsuccess, hname, hargs⟩
    · exact nomatch hcall
  · exact nomatch hcall

/-- What is not repeated succeeds once. -/
theorem succeededCalls_nodup {records : List LoopRecord} (h : Each NotRepeated records) :
    (succeededCalls records).Nodup := by
  induction records using List.reverseRecOn with
  | nil => exact List.nodup_nil
  | append_singleton records r ih =>
    obtain ⟨hbefore, hlast⟩ := each_concat.mp h
    rw [succeededCalls, List.filterMap_append]
    refine List.nodup_append.mpr ⟨ih hbefore, ?_, ?_⟩
    · rw [List.filterMap_cons, List.filterMap_nil]
      split
      · exact List.nodup_nil
      · exact List.nodup_singleton _
    · rintro ⟨name, argumentsJson⟩ hold _ hnew rfl
      obtain ⟨r', hr', call, result, hevent, -, hname, hargs⟩ := mem_succeededCalls hnew
      rw [List.mem_singleton.mp hr'] at hevent
      refine hlast.invoked call _ hevent ?_
      rw [hname, hargs]
      exact mem_succeededCalls hold

/-- An agent with one tool, in a turn behind some history. -/
def noteTurn : MessageTurn where
  config := {}
  agent := { tools := [{ spec := .ok { name := str "note" } }], maxToolIterations := 4, receiptsEnabled := false }
  turn := { input := str "go", sessionId := [], defaultToolSpecs := true }

/-- A call of the tool; an object may be spelled with blanks. -/
def noteCall (argumentsJson : Bytes) : ProviderToolCall :=
  { name := str "note", argumentsJson := argumentsJson, arguments := some (.object []) }

/-- The turn with this provider and this tool. -/
def noteTrace (provider : List LoopRecord → Bytes → Res ProviderResponse)
    (invoke : List LoopRecord → Option Bytes → ProviderToolCall → Res ToolResult) : MessageTrace :=
  processMessage (fun key _ => key) noteTurn
    { prepare := .ok []
      render := fun _ _ => str "prompt"
      loop := { provider := provider, invoke := invoke } }
    { messages := [⟨str "user", str "earlier"⟩], cachedToolSpecsJson := [] } none
    { receipts := receiptChainInit none }

/-- A provider that calls the tool, finds the context too long, calls it again and ends. -/
def overflowingProvider (records : List LoopRecord) (_prompt : Bytes) : Res ProviderResponse :=
  match records.length with
  | 0 => .ok { toolCalls := [noteCall (str "\x7b\x7d")] }
  | 3 => Status.http "sc.provider.context_length"
  | 4 => .ok { toolCalls := [noteCall (str "\x7b\x7d")] }
  | _ => .ok { text := str "done" }

/-- A provider that calls the tool three times, the third time as the first. -/
def repeatingProvider (records : List LoopRecord) (_prompt : Bytes) : Res ProviderResponse :=
  match records.length with
  | 0 => .ok { toolCalls := [noteCall (str "\x7b\x7d"), noteCall (str "\x7b \x7d"), noteCall (str "\x7b\x7d")] }
  | _ => .ok { text := str "done" }

/-- A tool that fails for the turn when it is called a second time. -/
def failingNote (records : List LoopRecord) (_override : Option Bytes) (_call : ProviderToolCall) :
    Res ToolResult :=
  if records.length = 1 then .ok { success := true } else Status.unsupported "sc.note.gone"

/-- How the calls were settled: whether from the cache, and with which failure. -/
def settledAnswers (records : List LoopRecord) : List (Bytes × Bool × Option ScError) :=
  records.filterMap fun r =>
    match r.event with
    | .settled call reused (.ok _) => some (call.argumentsJson, reused, none)
    | .settled call reused (.error e) => some (call.argumentsJson, reused, some e)
    | _ => none

/-- **A call that succeeded is repeated** in the second loop of a turn; and in one loop its repeat is not
    answered from the cache when another call of the tool has failed for the turn. -/
theorem repeated_across_loops :
    let overflowed := noteTrace overflowingProvider fun _ _ _ => .ok { success := true }
    let failed := noteTrace repeatingProvider failingNote
    overflowed.loops.map succeededCalls = [[(str "note", str "\x7b\x7d")], [(str "note", str "\x7b\x7d")]] ∧
      ¬ Each NotRepeated overflowed.loops.flatten ∧
      failed.loops.map settledAnswers =
        [[(str "\x7b\x7d", false, none),
          (str "\x7b \x7d", false, some ⟨.unsupported, "sc.note.gone"⟩),
          (str "\x7b\x7d", false, some ⟨.unsupported, "sc.agent.tool_loop.repeated_terminal_failure"⟩)]] := by
  intro overflowed failed
  have hloops : succeededCalls overflowed.loops.flatten =
      [(str "note", str "\x7b\x7d"), (str "note", str "\x7b\x7d")] := by decide +kernel
  refine ⟨by decide +kernel, fun h => ?_, by decide +kernel⟩
  have hnodup := succeededCalls_nodup h
  rw [hloops] at hnodup
  exact absurd hnodup (by decide)

end SmolClaw.Runtime
