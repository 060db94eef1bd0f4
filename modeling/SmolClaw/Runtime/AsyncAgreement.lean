/-
  The synchronous and the asynchronous turn agree (`sc_agent_process_message` and
  `sc_agent_process_message_async`, `src/runtime/agent.c`).

  1. **Specification** — `Agree`: the two turns send the same prompts, invoke the same tools and end with
     the same status; a turn that succeeds has the same output, count of calls and receipts, tokens and
     times apart.

  2. **Defect** — a tool that returns OK without success is reported with `tool_error` in place of its
     output (`async_disagrees`).  The other differences are calls that only one of the two answers from
     memory or checks, and a turn that fails: `agent_async_complete` hands its caller no result, while the
     synchronous turn leaves in `*out` what it has so far.

  3. **Result** — `async_agrees`: the turns agree when every step of the synchronous one is plain.
-/
import SmolClaw.Runtime.AsyncAlike

namespace SmolClaw.Runtime

open Lib.History Security

/-! ## The specification -/

/-- What the provider and the tools see of a record. -/
def outward (r : LoopRecord) : Option LoopEvent :=
  match r.event with
  | .request prompt => some (.request prompt)
  | .invoke call result => some (.invoke call result)
  | _ => none

/-- Two results that are told apart by the tokens and times of their receipts only. -/
structure SameOutcome (result asyncResult : TurnResult) : Prop where
  output : result.output = asyncResult.output
  toolCallCount : result.toolCallCount = asyncResult.toolCallCount
  receipts : result.receipts.receipts.map receiptContent = asyncResult.receipts.receipts.map receiptContent

/-- **The two turns agree.** -/
structure Agree (t : MessageTrace) (u : AsyncTrace) : Prop where
  /-- The same prompts and invocations, in the same order. -/
  outward : t.loops.flatten.filterMap outward = u.records.filterMap outward
  status : t.status = u.status
  /-- Of a turn that failed the asynchronous caller gets no result to compare. -/
  result : t.status = .ok () → ∃ result, u.result = some result ∧ SameOutcome t.result result
  /-- What is left of the history. -/
  state : t.state = u.state
  recorded : t.recorded = u.recorded

/-- Every step of the loops is plain. -/
def PlainTurn (streaming : Bool) (m : MessageTurn) (b : Behaviour) (loops : List (List LoopRecord)) : Prop :=
  ∀ earlier loop later, loops = earlier ++ loop :: later →
    Each (Plain streaming m b earlier.flatten) loop

/-! ## The calls of an answer -/

section Calls

variable {hmac : Digest → Bytes → Digest} {streaming : Bool} {m : MessageTurn} {b : Behaviour}
  {env env' : LoopEnv} {earlier : List LoopRecord} {s : LoopState} {t : AsyncState}

/-- The events of a loop meet the conditions, and no call is among them twice: what the induction over the
    calls and rounds needs of the events to come, and hands on to each part of them. -/
structure Guarded (streaming : Bool) (m : MessageTurn) (b : Behaviour) (earlier records : List LoopRecord) :
    Prop where
  plain : Each (Plain streaming m b earlier) records
  distinct : (settledKeys records).Nodup

theorem Guarded.of_prefix {records records' : List LoopRecord} (h : Guarded streaming m b earlier records')
    (hpre : records <+: records') : Guarded streaming m b earlier records :=
  ⟨fun before r hr => h.plain before r (hr.trans hpre),
    h.distinct.sublist (hpre.filterMap _).sublist⟩

theorem Attached.mono {records records' : List LoopRecord} {name : Bytes} (h : Attached records name)
    (hpre : records <+: records') : Attached records' name := by
  obtain ⟨r, hr, hrest⟩ := h
  exact ⟨r, hpre.subset hr, hrest⟩

/-- What happened in between fails no tool. -/
theorem Asks.failedFor {records records' : List LoopRecord} (h : Asks records records') {name : Bytes} :
    FailedFor records' name ↔ FailedFor records name := by
  obtain ⟨more, rfl, hmore⟩ := h
  rw [failedFor_append]
  refine ⟨fun hfailed => hfailed.elim id ?_, Or.inl⟩
  rintro ⟨r, hr, call, reused, e, hevent, -⟩
  have hkey : (call.name, call.argumentsJson) ∈ Runtime.settledKeys more := by
    refine List.mem_filterMap.mpr ⟨r, hr, ?_⟩
    rw [hevent]
  rw [hmore] at hkey
  exact absurd hkey List.not_mem_nil

/-- What the events behind a settled call say of the state before it. -/
theorem Guarded.call {records : List LoopRecord} {o : Option Bytes} {call : ProviderToolCall} {reused : Bool}
    {status : Res ToolResult} (hasks : Asks s.records records)
    (h : Guarded streaming m b earlier (records ++ [⟨o, .settled call reused status⟩])) :
    CallPlain m b earlier s call := by
  obtain ⟨-, hlast⟩ := each_concat.mp h.plain
  constructor
  · intro hin
    have hdistinct := h.distinct
    rw [settledKeys, List.filterMap_append] at hdistinct
    refine (List.nodup_append.mp hdistinct).2.2 _ ?_ _ (List.mem_singleton_self _) rfl
    rw [← hasks.settledKeys] at hin
    exact hin
  · exact fun hattached => hlast.attached call reused status rfl (hattached.mono hasks.isPrefix)
  · exact hlast.alive call reused status rfl
  · rintro ⟨hallowed, hfresh, hrest⟩
    have hfresh' : ¬ FailedFor records call.name := fun hfailed => hfresh (hasks.failedFor.mp hfailed)
    exact hlast.checked call reused status rfl ⟨hallowed, hfresh', hrest⟩

variable (hmac) in
/-- **The calls of an answer.** -/
theorem Alike.calls (hb : b.In env) (hb' : b.In env')
    (hcancel : ∀ call e, b.invoke call = .error e → e.code ≠ .cancelled) :
    ∀ (calls : List ProviderToolCall) (feedback : Bytes) {s : LoopState} {t : AsyncState}, Alike earlier s t →
      let sync := executeToolCalls hmac m.agent m.tools env calls feedback s
      let async := asyncToolCalls hmac m.agent m.tools env' calls feedback t
      Guarded streaming m b earlier sync.1.records →
        SameSoFar earlier sync.1 async.1 ∧
          ((∃ e, sync.2 = .error e ∧ async.2 = .error e ∧ isContextOverflow e = false) ∨
            ∃ line, sync.2 = .ok (line, false) ∧ async.2 = .ok line ∧ Alike earlier sync.1 async.1) := by
  intro calls
  induction calls with
  | nil => exact fun feedback s t h _ => ⟨h.toSameSoFar, Or.inr ⟨feedback, rfl, rfl, h⟩⟩
  | cons call calls ih =>
    intro feedback s t h
    dsimp only
    rw [executeToolCalls, asyncToolCalls, hb.interrupted, hb'.interrupted]
    dsimp only
    intro hguard
    -- the events of this call are the first of those that are guarded
    have hcall : Guarded streaming m b earlier
        (finishCall hmac m.agent env (settleCall m.agent m.tools env s call).1 call
          (settleCall m.agent m.tools env s call).2).1.records := by
      refine hguard.of_prefix ?_
      split
      · rename_i heq
        rw [heq]
      · rename_i heq
        rw [heq]
        split
        · exact List.prefix_rfl
        · exact executeToolCalls_grows hmac m.agent m.tools env calls _ _
    have hfinished := hcall
    rw [finishCall_records] at hfinished
    have hasks := settleCall_asks m.agent m.tools env s call
    have hsettled := h.settle streaming hb hb' hcancel (hfinished.call hasks)
    have htold := hsettled.told (hfinished.of_prefix (List.prefix_append _ _)).plain
    obtain ⟨hsame, hrest⟩ := hsettled.alike.finish hmac m.agent env env' call hsettled.status hsettled.reused
      hsettled.cancelled htold
    have hcompleted : cancelledCall (asyncSettleCall m.agent m.tools env' t call).2.status = false := by
      rw [← hsettled.status]
      exact hsettled.cancelled
    rw [hsettled.stop, hcompleted, Bool.and_false] at *
    generalize finishCall hmac m.agent env _ call _ = sync at *
    generalize asyncFinishCall hmac m.agent env' _ call _ = async at *
    obtain ⟨s', answer⟩ := sync
    obtain ⟨t', answer'⟩ := async
    rcases hrest with ⟨e, rfl, rfl, hno⟩ | ⟨line, rfl, rfl, halike⟩
    · exact ⟨hsame, Or.inl ⟨e, rfl, rfl, hno⟩⟩
    · exact ih (feedback ++ line) halike hguard

/-! ## The rounds -/

/-- The calls are copied one by one, behind those that are there. -/
theorem cloneToolCalls_ok {response : ProviderResponse} :
    ∀ {calls : List ProviderToolCall} (earlier : List ProviderToolCall),
      (∀ call ∈ calls, call.argumentsJson.length ≤ providerMaxToolArgumentBytes) →
        cloneToolCalls calls { response with toolCalls := earlier } =
          .ok { response with toolCalls := earlier ++ calls } := by
  intro calls
  induction calls with
  | nil =>
    intro earlier _
    rw [List.append_nil]
    rfl
  | cons call calls ih =>
    intro earlier hsized
    have hcall : addToolCall { response with toolCalls := earlier } call =
        .ok { response with toolCalls := earlier ++ [call] } :=
      if_neg (not_lt.mpr (hsized call List.mem_cons_self))
    rw [cloneToolCalls, hcall]
    show cloneToolCalls calls _ = _
    rw [ih (earlier ++ [call]) fun c hc => hsized c (List.mem_cons_of_mem _ hc), List.append_assoc,
      List.singleton_append]

/-- An answer that can be copied is copied. -/
theorem asyncAnswer_eq {answer : Res ProviderResponse} (h : streaming = true ∨ ∀ response, answer = .ok response →
    ∀ call ∈ response.toolCalls, call.argumentsJson.length ≤ providerMaxToolArgumentBytes) :
    asyncAnswer streaming answer = answer := by
  unfold asyncAnswer
  rcases h with hstream | hsized
  · rw [if_pos hstream]
  split
  · rfl
  · cases answer with
    | error e => rfl
    | ok response => exact cloneToolCalls_ok [] (hsized response rfl)

/-- **How the rounds of both turns end**: a failure that is retried leaves states that know the same. -/
structure LoopsAlike (earlier : List LoopRecord) (sync : LoopState × Res Bytes) (async : AsyncState × AsyncEnd) :
    Prop where
  same : SameSoFar earlier sync.1 async.1
  status : sync.2 = async.2.status
  retried : ∀ e, sync.2 = .error e → isContextOverflow e = true →
    async.2.ready = true ∧ Alike earlier sync.1 async.1

/-- Both end, and not because the context is too long. -/
theorem SameSoFar.ended (h : SameSoFar earlier s t) {e : ScError} (hno : isContextOverflow e = false) :
    LoopsAlike earlier (s, .error e) (t, { status := .error e }) := by
  refine ⟨h, rfl, fun e' he hoverflow => ?_⟩
  rw [← Except.error.inj he, hno] at hoverflow
  exact absurd hoverflow Bool.false_ne_true

theorem SameSoFar.answered (h : SameSoFar earlier s t) (output : Bytes) :
    LoopsAlike earlier (s, .ok output) (t, { status := .ok output }) :=
  ⟨h, rfl, fun _ he _ => nomatch he⟩

/-- Both see the answer of the provider fail. -/
theorem Alike.failed (h : Alike earlier s t) (e : ScError) :
    LoopsAlike earlier (s, .error e) (t, { status := .error e, ready := true }) :=
  ⟨h.toSameSoFar, rfl, fun _ _ _ => ⟨rfl, h⟩⟩

variable (env) in
/-- A request is counted by both. -/
theorem Alike.requested (h : Alike earlier s t) (prompt : Bytes) :
    Alike earlier (sendRequest env s prompt).1
      ({ t with result := { t.result with
        providerCallCount := t.result.providerCallCount + 1 } }.note (.request prompt)) := by
  have hcounted : SameResult { s.result with providerCallCount := s.result.providerCallCount + 1 }
      { t.result with providerCallCount := t.result.providerCallCount + 1 } :=
    ⟨h.result.output, congrArg (· + 1) h.result.providerCallCount, h.result.toolCallCount, h.result.usages,
      h.result.budgetExceeded, h.result.attachment, h.result.chain⟩
  have halike : Alike earlier
      { s with result := { s.result with providerCallCount := s.result.providerCallCount + 1 } }
      { t with result := { t.result with providerCallCount := t.result.providerCallCount + 1 } } :=
    ⟨⟨h.records, hcounted, h.override⟩, h.denials, h.grants, h.successes, h.failures, h.asyncFailures⟩
  exact halike.note nofun

/-- The usage of an answer is counted by both. -/
theorem Alike.accepted (h : Alike earlier s t) (usages : List Usage) (exceeded : Bool) :
    Alike earlier
      { s with result := { s.result with
        usages := usages, budgetExceeded := s.result.budgetExceeded || exceeded } }
      { t with result := { t.result with
        usages := usages, budgetExceeded := t.result.budgetExceeded || exceeded } } := by
  have hbudget := congrArg (· || exceeded) h.result.budgetExceeded
  exact ⟨⟨h.records, ⟨h.result.output, h.result.providerCallCount, h.result.toolCallCount, rfl, hbudget,
    h.result.attachment, h.result.chain⟩, h.override⟩, h.denials, h.grants, h.successes, h.failures,
    h.asyncFailures⟩

variable (hmac streaming m) in
/-- **The rounds.** -/
theorem Alike.loop (hb : b.In env) (hb' : b.In env') (hbudget : env.exceedsBudget = env'.exceedsBudget)
    (hcancel : ∀ call e, b.invoke call = .error e → e.code ≠ .cancelled) :
    ∀ (iterations : Nat) (prompt output : Bytes) {s : LoopState} {t : AsyncState}, Alike earlier s t →
      let sync := providerLoop hmac m.agent m.tools env iterations prompt output s
      let async := asyncLoop hmac streaming m.agent m.tools env' iterations prompt output t
      Guarded streaming m b earlier sync.1.records → LoopsAlike earlier sync async := by
  intro iterations
  induction iterations with
  | zero => exact fun _ _ _ _ h _ => h.toSameSoFar.ended rfl
  | succ iterations ih =>
    intro prompt output s t h
    dsimp only
    intro hguard
    have hsent := hguard.of_prefix
      (providerLoop_sends hmac m.agent m.tools env hb.interrupted iterations prompt output s)
    have hanswer : asyncAnswer streaming (b.provider prompt) = b.provider prompt :=
      asyncAnswer_eq ((each_concat.mp hsent.plain).2.sized prompt rfl)
    have hsend : sendRequest env s prompt =
        ((sendRequest env s prompt).1, (b.provider prompt).map recoverTextToolCalls) := by
      rw [← hb.provider s.records]
      rfl
    have hrequested := h.requested env prompt
    revert hguard
    rw [providerLoop, asyncLoop, hb.interrupted, hb'.interrupted, hb'.provider, hanswer, hsend]
    dsimp only [turnCheckContinue]
    generalize (sendRequest env s prompt).1 = sent at *
    generalize AsyncState.note _ _ = asyncSent at *
    cases b.provider prompt with
    | error e => exact fun _ => hrequested.failed e
    | ok response =>
      dsimp only [Except.map]
      generalize recoverTextToolCalls response = response
      have haccepted := hrequested.accepted (asyncSent.result.usages ++ [response.usage])
        (!response.malformedToolCall && env'.exceedsBudget (asyncSent.result.usages ++ [response.usage]))
      rw [acceptResponse, hrequested.result.usages, hbudget]
      dsimp only
      generalize (!response.malformedToolCall && env'.exceedsBudget _) = exceeded at *
      generalize LoopState.mk _ _ _ _ _ _ _ = accepted at *
      generalize AsyncState.mk _ _ _ = asyncAccepted at *
      cases hmalformed : response.malformedToolCall with
      | true => exact fun _ => haccepted.failed _
      | false =>
        cases exceeded with
        | true => exact fun _ => haccepted.failed _
        | false =>
          simp only [Bool.false_eq_true, if_false]
          split
          · exact fun _ => haccepted.toSameSoFar.answered _
          intro hguard
          have hcalls : Guarded streaming m b earlier
              (executeToolCalls hmac m.agent m.tools env response.toolCalls [] accepted).1.records := by
            refine hguard.of_prefix ?_
            split
            · rename_i heq
              rw [heq]
            · rename_i heq
              rw [heq]
            · rename_i heq
              rw [heq]
              exact providerLoop_grows hmac m.agent m.tools env iterations _ _ _
          obtain ⟨hsame, hrest⟩ := haccepted.calls hmac hb hb' hcancel response.toolCalls [] hcalls
          generalize executeToolCalls hmac m.agent m.tools env _ _ accepted = sync at *
          generalize asyncToolCalls hmac m.agent m.tools env' _ _ asyncAccepted = async at *
          obtain ⟨s', answer⟩ := sync
          obtain ⟨t', answer'⟩ := async
          rcases hrest with ⟨e, rfl, rfl, hno⟩ | ⟨feedback, rfl, rfl, halike⟩
          · exact hsame.ended hno
          · exact ih _ _ halike hguard

end Calls

/-! ## The turns -/

section Message

variable {hmac : Digest → Bytes → Digest} {streaming : Bool} {m : MessageTurn} {b : Behaviour}
  {env : MessageEnv} {loopEnv : LoopEnv} {earlier : List LoopRecord} {last : LoopState} {asyncLast : AsyncState}

theorem Behaviour.In.after {env : LoopEnv} (hb : b.In env) (earlier : List LoopRecord) :
    b.In (env.after earlier) :=
  ⟨fun _ _ => hb.provider _ _, fun _ _ _ => hb.invoke _ _ _, fun _ => hb.interrupted _⟩

theorem forall₂_content {rs rs' : List ToolReceipt} (h : List.Forall₂ SameContent rs rs') :
    rs.map receiptContent = rs'.map receiptContent := by
  induction h with
  | nil => rfl
  | cons hr _ ih => rw [List.map_cons, List.map_cons, hr.content, ih]

/-- Turns that fail alike agree. -/
theorem SameSoFar.fail (h : SameSoFar earlier last asyncLast) {loops : List (List LoopRecord)}
    (hloops : loops.flatten = earlier ++ last.records) (s : TurnState) (answers : List (Res Bytes)) (e : ScError) :
    Agree ((failAnswer s loops answers last e).trace m env) (asyncFail s asyncLast e) := by
  refine ⟨?_, rfl, nofun, rfl, rfl⟩
  show loops.flatten.filterMap outward = asyncLast.records.filterMap outward
  rw [hloops, h.records]

/-- **Turns that answer alike agree**: the tokens, which are not the same, are taken out of both texts. -/
theorem SameSoFar.conclude (h : SameSoFar earlier last asyncLast) (hb : b.In env.loop) (hb' : b.In loopEnv)
    {loops : List (List LoopRecord)} (hloops : loops.flatten = earlier ++ last.records) (s : TurnState)
    (answers : List (Res Bytes)) (output : Bytes) :
    Agree ((concludeAnswer m env s loops answers last output).trace m env)
      (asyncFinalize m { env with loop := loopEnv } s asyncLast output) := by
  have htext := stripReceiptTokens_block m.showReceipts h.result.chain.receipts output
  unfold concludeAnswer asyncFinalize
  dsimp only
  rw [hb.interrupted, hb'.interrupted, htext]
  generalize stripReceiptTokens _ = text
  have hsame : SameOutcome { last.result with output := text } { asyncLast.result with output := text } :=
    ⟨rfl, h.result.toolCallCount, forall₂_content h.result.chain.receipts⟩
  refine ⟨?_, rfl, fun hok => ⟨_, ?_, hsame⟩, rfl, rfl⟩
  · show loops.flatten.filterMap outward = asyncLast.records.filterMap outward
    rw [hloops, h.records]
  · exact congrArg (asyncComplete _) hok

/-- A round runs its loop. -/
theorem runLoop_eq (hb : b.In env.loop) (attempt : Nat) (shown : List HistoryMessage)
    (loops : List (List LoopRecord)) (override : Option Bytes) (result : TurnResult) :
    env.runLoop hmac m attempt shown loops override result =
      let after := runProviderLoop hmac m.agent m.tools (env.loop.after loops.flatten) override
        (env.render attempt shown) result
      (loops ++ [after.1.records], after) := by
  rw [MessageEnv.runLoop, hb.interrupted]
  rfl

/-- The start of a loop, behind the earlier ones. -/
theorem Alike.start {result : TurnResult} (hresult : SameResult result asyncLast.result)
    (hrecords : asyncLast.records = earlier)
    (hfailures : ∀ name, name ∈ asyncLast.failures ↔ FailedFor earlier name) :
    Alike earlier { override := none, result := result } asyncLast := by
  have hnone : ∀ name, ¬ FailedFor [] name := by
    rintro name ⟨r, hr, -⟩
    exact absurd hr List.not_mem_nil
  refine ⟨⟨?_, hresult, rfl⟩, rfl, rfl, fun entry hentry => absurd hentry List.not_mem_nil, fun name => ?_,
    fun name => ?_⟩
  · rw [hrecords]
    exact (List.append_nil _).symm
  · exact iff_of_false List.not_mem_nil (hnone name)
  · rw [hfailures]
    exact (List.append_nil earlier).symm ▸ Iff.rfl

/-- What is asked of the turn holds of each of its loops. -/
theorem PlainTurn.guarded {loops : List (List LoopRecord)} (h : PlainTurn streaming m b loops)
    (hdistinct : (settledKeys loops.flatten).Nodup) (earlier later : List (List LoopRecord))
    {loop : List LoopRecord} (hloops : loops = earlier ++ loop :: later) :
    Guarded streaming m b earlier.flatten loop := by
  refine ⟨h earlier loop later hloops, hdistinct.sublist (List.Sublist.filterMap _ ?_)⟩
  rw [hloops, List.flatten_append, List.flatten_cons]
  exact (List.sublist_append_left _ _).trans (List.sublist_append_right _ _)

/-- **The second attempt.** -/
theorem Alike.retry (h : Alike [] last asyncLast) (hb : b.In env.loop) (hb' : b.In loopEnv)
    (hbudget : env.loop.exceedsBudget = loopEnv.exceedsBudget)
    (hcancel : ∀ call e, b.invoke call = .error e → e.code ≠ .cancelled) (memoryContext : Bytes) (s : TurnState)
    (answers : List (Res Bytes)) :
    let t := retryAnswer hmac m env memoryContext s [last.records] answers last
    PlainTurn streaming m b t.loops → (settledKeys t.loops.flatten).Nodup →
      Agree (t.trace m env) (asyncRetry hmac streaming m { env with loop := loopEnv } memoryContext s asyncLast) := by
  have hbuild : ∀ attempt s, MessageEnv.buildPrompt m { env with loop := loopEnv } attempt s =
      env.buildPrompt m attempt s := fun _ _ => rfl
  have hrecords : asyncLast.records = last.records := h.records
  have hstart : Alike last.records { override := none, result := last.result } asyncLast := by
    refine .start h.result hrecords fun name => ?_
    rw [h.asyncFailures, List.nil_append]
  have hone : [last.records].flatten = last.records := List.flatten_singleton
  unfold retryAnswer asyncRetry
  dsimp only
  rw [hbuild]
  generalize env.buildPrompt m 1 _ = built
  obtain ⟨s, answer⟩ := built
  cases answer with
  | error e => exact fun _ _ => h.toSameSoFar.fail hone s answers e
  | ok again =>
    have hlast := hstart.loop hmac streaming m (hb.after last.records) hb' hbudget hcancel m.agent.maxToolIterations
      (env.render 1 again) []
    dsimp only at hlast ⊢
    rw [runLoop_eq hb, h.override, hone, runProviderLoop]
    dsimp only
    generalize providerLoop hmac m.agent m.tools _ _ _ _ _ = sync at *
    generalize asyncLoop hmac streaming m.agent m.tools loopEnv _ _ _ asyncLast = async at *
    obtain ⟨second, answer⟩ := sync
    obtain ⟨asyncSecond, asyncAnswer, ready⟩ := async
    have hguard : PlainTurn streaming m b [last.records, second.records] →
        (settledKeys [last.records, second.records].flatten).Nodup →
          Guarded streaming m b last.records second.records := by
      intro hplain hdistinct
      rw [← hone]
      exact hplain.guarded hdistinct [last.records] [] rfl
    have htwo : [last.records, second.records].flatten = last.records ++ second.records := by
      rw [List.flatten_cons, List.flatten_singleton]
    cases answer with
    | error e =>
      intro hplain hdistinct
      obtain ⟨hsame, rfl, -⟩ := hlast (hguard hplain hdistinct)
      exact hsame.fail htwo s _ e
    | ok output =>
      intro hplain hdistinct
      obtain ⟨hsame, rfl, -⟩ := hlast (hguard hplain hdistinct)
      exact hsame.conclude hb hb' htwo s _ output

/-- Turns start alike if both have a key for their receipts, or neither has. -/
theorem SameResult.init {key key' : Option Digest} (h : key.isSome = key'.isSome) :
    SameResult { receipts := receiptChainInit key } { receipts := receiptChainInit key' } := by
  have hchain : SameChain (receiptChainInit key) (receiptChainInit key') := by
    cases key with
    | none =>
      cases key' with
      | none => exact ⟨rfl, .nil⟩
      | some _ => exact nomatch h
    | some _ =>
      cases key' with
      | none => exact nomatch h
      | some _ => exact ⟨rfl, .nil⟩
  exact ⟨rfl, rfl, rfl, rfl, rfl, rfl, hchain⟩

/-- A turn that fails before its first loop. -/
theorem agree_unstarted (result asyncResult : TurnResult) (s : TurnState) (e : ScError) :
    Agree ⟨s, [], [], result, none, none, .error e⟩ (asyncFail s { result := asyncResult } e) :=
  ⟨rfl, rfl, nofun, rfl, rfl⟩

variable (hmac m env) in
/-- The first loop stays the first. -/
theorem retryAnswer_extends (memoryContext : Bytes) (s : TurnState) (loops : List (List LoopRecord))
    (answers : List (Res Bytes)) (first : LoopState) :
    ∃ later, (retryAnswer hmac m env memoryContext s loops answers first).loops = loops ++ later := by
  have hloop : ∀ again, ∃ later,
      (env.runLoop hmac m 1 again loops first.override first.result).1 = loops ++ later := by
    intro again
    unfold MessageEnv.runLoop
    split
    · exact ⟨[], (List.append_nil loops).symm⟩
    · exact ⟨_, rfl⟩
  unfold retryAnswer
  dsimp only
  split
  · exact ⟨[], (List.append_nil loops).symm⟩
  rename_i again _
  have hagain := hloop again
  split
  · rename_i heq
    rw [heq] at hagain
    exact hagain
  · rename_i heq
    rw [heq] at hagain
    exact hagain

variable (hmac streaming m env) in
/-- **The first attempt.** -/
theorem Alike.answer {result : TurnResult} (h : Alike [] { override := none, result := result } asyncLast)
    (hb : b.In env.loop) (hb' : b.In loopEnv) (hbudget : env.loop.exceedsBudget = loopEnv.exceedsBudget)
    (hcancel : ∀ call e, b.invoke call = .error e → e.code ≠ .cancelled) (memoryContext : Bytes) (s : TurnState)
    (shown : List HistoryMessage) :
    let t := firstAnswer hmac m env memoryContext s shown none result
    PlainTurn streaming m b t.loops → (settledKeys t.loops.flatten).Nodup →
      Agree (t.trace m env) (match asyncLoop hmac streaming m.agent m.tools loopEnv m.agent.maxToolIterations
          (env.render 0 shown) [] asyncLast with
        | (after, { status := .ok output, .. }) => asyncFinalize m { env with loop := loopEnv } s after output
        | (after, { status := .error e, ready := ready }) =>
            if !ready ∨ !isContextOverflow e ∨ s.messages = [] then asyncFail s after e
            else asyncRetry hmac streaming m { env with loop := loopEnv } memoryContext s after) := by
  have hfirst := h.loop hmac streaming m (hb.after []) hb' hbudget hcancel m.agent.maxToolIterations
    (env.render 0 shown) []
  dsimp only at hfirst ⊢
  rw [firstAnswer, runLoop_eq hb, List.flatten_nil, runProviderLoop]
  dsimp only
  rw [List.nil_append]
  generalize providerLoop hmac m.agent m.tools _ _ _ _ _ = sync at *
  generalize asyncLoop hmac streaming m.agent m.tools _ _ _ _ _ = async at *
  obtain ⟨first, answer⟩ := sync
  obtain ⟨asyncFirst, asyncAnswer, ready⟩ := async
  have hone : [first.records].flatten = [] ++ first.records := List.flatten_singleton
  have hguard : ∀ later, PlainTurn streaming m b ([first.records] ++ later) →
      (settledKeys ([first.records] ++ later).flatten).Nodup → Guarded streaming m b [] first.records :=
    fun later hplain hdistinct => hplain.guarded hdistinct [] later rfl
  cases answer with
  | ok output =>
    intro hplain hdistinct
    obtain ⟨hsame, rfl, -⟩ := hfirst (hguard [] hplain hdistinct)
    exact hsame.conclude hb hb' hone s _ output
  | error e =>
    dsimp only
    split
    · rename_i hends
      intro hplain hdistinct
      obtain ⟨hsame, rfl, -⟩ := hfirst (hguard [] hplain hdistinct)
      dsimp only
      rw [if_pos (Or.inr hends)]
      exact hsame.fail hone s _ e
    · rename_i hretries
      intro hplain hdistinct
      have hoverflow : isContextOverflow e = true := by simpa using fun h => hretries (Or.inl h)
      obtain ⟨later, hlater⟩ := retryAnswer_extends hmac m env memoryContext s [first.records]
        [.error e] first
      obtain ⟨-, rfl, hretried⟩ := hfirst (hguard later (hlater ▸ hplain) (hlater ▸ hdistinct))
      obtain ⟨rfl, halike⟩ := hretried e rfl hoverflow
      dsimp only
      rw [if_neg fun hends => hends.elim (by decide) hretries]
      exact halike.retry hb hb' hbudget hcancel memoryContext s _ hplain hdistinct

variable (hmac streaming m env) in
/-- **The turns agree** when no call is repeated, no tool answers that it was cancelled, and every step is
    plain.  Each turn has a key and a clock of its own. -/
theorem async_agrees (clock : Nat → Int64) (s : TurnState) (key key' : Option Digest) (hb : b.In env.loop)
    (hcancel : ∀ call e, b.invoke call = .error e → e.code ≠ .cancelled) (hkeys : key.isSome = key'.isSome) :
    let sync := processMessage hmac m env s none { receipts := receiptChainInit key }
    let async := asyncMessage hmac streaming m { env with loop := { env.loop with clock := clock } } s
      { receipts := receiptChainInit key' }
    (settledKeys sync.loops.flatten).Nodup → PlainTurn streaming m b sync.loops → Agree sync async := by
  have hb' : b.In { env.loop with clock := clock } := ⟨hb.provider, hb.invoke, hb.interrupted⟩
  have hinit := SameResult.init hkeys
  have hstart : Alike [] { override := none, result := { receipts := receiptChainInit key } }
      { result := { receipts := receiptChainInit key' } } := by
    refine .start hinit rfl fun name => iff_of_false List.not_mem_nil ?_
    rintro ⟨r, hr, -⟩
    exact absurd hr List.not_mem_nil
  obtain ⟨prepare, sections, built, render, persist, loop⟩ := env
  have hbuild : ∀ prepare s, MessageEnv.buildPrompt m
      ⟨prepare, sections, built, render, persist, { loop with clock := clock }⟩ 0 s =
        MessageEnv.buildPrompt m ⟨prepare, sections, built, render, persist, loop⟩ 0 s := fun _ _ => rfl
  dsimp only
  rw [processMessage, (AnsweredTurn.trace_loops _ m _).1]
  dsimp only [answeredMessage, asyncMessage] at hb hb' ⊢
  cases prepare with
  | error e => exact fun _ _ => agree_unstarted _ _ s e
  | ok memoryContext =>
    dsimp only
    rw [hbuild]
    generalize MessageEnv.buildPrompt m _ 0 _ = prompt
    obtain ⟨s, answer⟩ := prompt
    cases answer with
    | error e => exact fun _ _ => agree_unstarted _ _ s e
    | ok shown =>
      intro hdistinct hplain
      exact hstart.answer hmac streaming m ⟨.ok memoryContext, sections, built, render, persist, loop⟩ hb hb' rfl
        hcancel memoryContext s shown hplain hdistinct

end Message

/-! ## A turn with one tool -/

/-- An agent with one tool. -/
def lookTurn : MessageTurn where
  config := {}
  agent := { tools := [{ spec := .ok { name := str "look" } }], maxToolIterations := 2, receiptsEnabled := false }
  turn := { input := str "go", sessionId := [], defaultToolSpecs := true }

/-- The provider calls the tool once, and the tool answers with this result. -/
def lookBehaviour (result : ToolResult) : Behaviour where
  provider prompt :=
    .ok (if prompt = str "prompt" then
      { toolCalls := [{ name := str "look", argumentsJson := str "\x7b\x7d", arguments := some (.object []) }] }
    else { text := str "done" })
  invoke _ := .ok result

def lookEnv (result : ToolResult) : MessageEnv where
  prepare := .ok []
  render _ _ := str "prompt"
  loop := { provider := fun _ => (lookBehaviour result).provider
            invoke := fun _ _ => (lookBehaviour result).invoke }

/-- The turn, run synchronously. -/
def lookTrace (result : ToolResult) : MessageTrace :=
  processMessage (fun key _ => key) lookTurn (lookEnv result) { messages := [], cachedToolSpecsJson := [] } none
    { receipts := receiptChainInit none }

/-- The turn, run asynchronously. -/
def lookAsyncTrace (result : ToolResult) : AsyncTrace :=
  asyncMessage (fun key _ => key) true lookTurn (lookEnv result) { messages := [], cachedToolSpecsJson := [] }
    { receipts := receiptChainInit none }

theorem lookBehaviour_in (result : ToolResult) : (lookBehaviour result).In (lookEnv result).loop :=
  ⟨fun _ _ => rfl, fun _ _ _ => rfl, fun _ => rfl⟩

/-- Nothing that fails or is attached. -/
def unremarkable (r : LoopRecord) : Bool :=
  match r.event with
  | .invoke _ (.ok result) => result.success
  | .settled _ _ (.ok result) => result.attachment.bytes.isEmpty
  | _ => true

/-- The turns agree where the tool succeeds. -/
theorem async_agrees_found :
    let found : ToolResult := { success := true, output := str "here" }
    Agree (lookTrace found) (lookAsyncTrace found) := by
  intro found
  have hone : (lookTrace found).loops.length = 1 := by decide +kernel
  have hsuccess : (lookTrace found).loops.flatten.all unremarkable = true := by decide +kernel
  have hplain : PlainTurn true lookTurn (lookBehaviour found) (lookTrace found).loops := by
    intro earlier loop later hloops
    rw [hloops, List.length_append, List.length_cons] at hone
    obtain rfl : earlier = [] := List.length_eq_zero_iff.mp (by omega)
    obtain rfl : later = [] := List.length_eq_zero_iff.mp (by omega)
    have hall : ∀ r ∈ loop, unremarkable r = true := by
      rw [hloops, List.nil_append, List.flatten_singleton, List.all_eq_true] at hsuccess
      exact hsuccess
    intro before r hr
    constructor
    · intro call result hevent
      have h := hall r (hr.subset (List.mem_append_right _ (List.mem_singleton_self r)))
      rw [unremarkable, hevent] at h
      exact Or.inl h
    · rintro call reused status hevent ⟨r', hr', call', reused', result, hevent', -, -, hbytes⟩
      have h := hall r' (hr.subset (List.mem_append_left _ hr'))
      rw [unremarkable, hevent'] at h
      rw [List.isEmpty_iff.mp h] at hbytes
      exact absurd hbytes (by decide)
    · rintro call reused status hevent ⟨r', hr', -⟩
      exact absurd hr' List.not_mem_nil
    · rintro call reused status hevent ⟨-, -, tool, spec, args, e, hfound, hasync, -⟩
      rw [List.mem_singleton.mp (List.mem_of_find?_eq_some hfound)] at hasync
      exact absurd hasync Bool.false_ne_true
    · exact fun _ _ => Or.inl rfl
  exact async_agrees (fun key _ => key) true lookTurn (lookEnv found) (fun _ => 0) _ none none
    (lookBehaviour_in found) nofun rfl (by decide +kernel) hplain

/-- **A tool that reports a failure in its output**: the prompts that follow are not the same. -/
theorem async_disagrees :
    let failed : ToolResult := { success := false, output := str "nothing found" }
    (lookBehaviour failed).In (lookEnv failed).loop ∧
      (∀ call e, (lookBehaviour failed).invoke call = .error e → e.code ≠ .cancelled) ∧
      (settledKeys (lookTrace failed).loops.flatten).Nodup ∧
      ¬ Agree (lookTrace failed) (lookAsyncTrace failed) := by
  refine ⟨lookBehaviour_in _, nofun, by decide +kernel, fun hagree => ?_⟩
  have hprompts := congrArg (List.filterMap fun event : LoopEvent =>
    match event with
    | .request prompt => some prompt
    | _ => none) hagree.outward
  exact absurd hprompts (by decide +kernel)

end SmolClaw.Runtime
