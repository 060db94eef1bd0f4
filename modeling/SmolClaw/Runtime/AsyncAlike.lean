/-
  What a step of a turn does to its synchronous and to its asynchronous state (`execute_tool_calls` and
  `agent_async_tool_finish`, `src/runtime/agent.c`).

  1. **Conditions** — `Plain`: what a step must be, so that both turns make it alike.  The provider and the
     tools are functions of what they are asked (`Behaviour`).

  2. **The crux** — `Alike`: between two calls the states know the same, and the events are the same.  The
     success cache holds only calls that have happened, so it answers none that is new.

  3. **Result** — `Alike.settle` and `Alike.finish`: a plain call is settled alike, and leaves states that
     are alike.
-/
import SmolClaw.Runtime.AsyncMessage
import SmolClaw.Runtime.ReceiptText

namespace SmolClaw.Runtime

open Lib.History Security

/-! ## Behaviours -/

/-- A provider and tools that answer to what they are asked. -/
structure Behaviour where
  provider : Bytes → Res ProviderResponse
  invoke : ProviderToolCall → Res ToolResult

/-- The surroundings behave so, and nothing interrupts the turn. -/
structure Behaviour.In (b : Behaviour) (env : LoopEnv) : Prop where
  provider : ∀ records prompt, env.provider records prompt = b.provider prompt
  invoke : ∀ records override call, env.invoke records override call = b.invoke call
  interrupted : ∀ records, env.interrupted records = none

/-- The calls of a turn, by name and arguments. -/
def settledKeys (records : List LoopRecord) : List (Bytes × Bytes) :=
  records.filterMap fun r =>
    match r.event with
    | .settled call _ _ => some (call.name, call.argumentsJson)
    | _ => none

/-! ## Plain steps -/

/-- A call of this tool succeeded with an attachment. -/
def Attached (records : List LoopRecord) (name : Bytes) : Prop :=
  ∃ r ∈ records, ∃ call reused result, r.event = .settled call reused (.ok result) ∧ call.name = name ∧
    result.success = true ∧ 0 < result.attachment.bytes.length

/-- The call passes the checks of the loops, and `sc_tool_invoke` refuses its arguments, while the tool
    has an `invoke_async` of its own. -/
def RefusedBySchema (agent : LoopAgent) (turn : TurnTools) (before : List LoopRecord)
    (call : ProviderToolCall) : Prop :=
  turnAllowsTool turn call.name = true ∧ ¬ FailedFor before call.name ∧
    ∃ tool spec args e, findToolByName agent.tools call.name = some tool ∧ tool.invokesAsync = true ∧
      checkCall turn tool call = .ok spec ∧ call.arguments = some args ∧ toolValidateCall spec args = .error e

/-- **A step that both turns make alike**, behind the earlier loops and behind the earlier steps of its
    own. -/
structure Plain (streaming : Bool) (m : MessageTurn) (b : Behaviour) (earlier before : List LoopRecord)
    (r : LoopRecord) : Prop where
  /-- A tool that returns OK without success says `tool_error`. -/
  told : ∀ call result, r.event = .invoke call (.ok result) →
    result.success = true ∨ result.output = str "tool_error"
  /-- The tool has not delivered an attachment in this loop. -/
  attached : ∀ call reused status, r.event = .settled call reused status → ¬ Attached before call.name
  /-- The tool has not failed for the turn in an earlier loop. -/
  alive : ∀ call reused status, r.event = .settled call reused status → ¬ FailedFor earlier call.name
  checked : ∀ call reused status, r.event = .settled call reused status →
    ¬ RefusedBySchema m.agent m.tools before call
  /-- `provider_response_clone` copies the answer. -/
  sized : ∀ prompt, r.event = .request prompt → streaming = true ∨ ∀ response,
    b.provider prompt = .ok response →
      ∀ call ∈ response.toolCalls, call.argumentsJson.length ≤ providerMaxToolArgumentBytes

/-! ## Events only come

  What is asked of a whole turn holds of every part of it, since no step takes an event back. -/

/-- What happened in between settles no call. -/
def Asks (records records' : List LoopRecord) : Prop :=
  ∃ more, records' = records ++ more ∧ settledKeys more = []

theorem Asks.refl (records : List LoopRecord) : Asks records records := ⟨[], (List.append_nil _).symm, rfl⟩

theorem Asks.trans {records records' records'' : List LoopRecord} (h : Asks records records')
    (h' : Asks records' records'') : Asks records records'' := by
  obtain ⟨more, rfl, hmore⟩ := h
  obtain ⟨more', rfl, hmore'⟩ := h'
  refine ⟨more ++ more', List.append_assoc _ _ _, ?_⟩
  rw [settledKeys, List.filterMap_append]
  exact List.append_eq_nil_iff.mpr ⟨hmore, hmore'⟩

theorem Asks.isPrefix {records records' : List LoopRecord} (h : Asks records records') :
    records <+: records' := by
  obtain ⟨more, rfl, -⟩ := h
  exact List.prefix_append _ _

theorem Asks.settledKeys {records records' : List LoopRecord} (h : Asks records records') :
    Runtime.settledKeys records' = Runtime.settledKeys records := by
  obtain ⟨more, rfl, hmore⟩ := h
  rw [Runtime.settledKeys, List.filterMap_append]
  exact (congrArg _ hmore).trans (List.append_nil _)

section Grows

variable (hmac : Digest → Bytes → Digest) (agent : LoopAgent) (turn : TurnTools) (env : LoopEnv)

/-- An invocation is an event of its own, unless the arguments are refused. -/
theorem toolInvoke_asks (s : LoopState) (spec : ToolSpec) (call : ProviderToolCall) (args : Json) :
    Asks s.records (toolInvoke env s spec call args).1.records := by
  unfold toolInvoke
  split
  · exact .refl _
  · exact ⟨_, rfl, rfl⟩

theorem invokeApproved_asks (s : LoopState) (spec : ToolSpec) (call : ProviderToolCall) (args : Json) :
    Asks s.records (invokeApproved env s spec call args).1.records :=
  toolInvoke_asks env { s with override := some call.name } spec call args

theorem invokeFirst_asks (s : LoopState) (spec : ToolSpec) (call : ProviderToolCall) (args : Json) :
    Asks s.records (invokeFirst env s spec call args).1.records := by
  unfold invokeFirst
  split
  · exact invokeApproved_asks env s spec call args
  · exact toolInvoke_asks env s spec call args

/-- So is the question for an approval. -/
theorem askApproval_asks (s : LoopState) (spec : ToolSpec) (call : ProviderToolCall) (args : Json) :
    Asks s.records (askApproval env s spec call args).1.records := by
  unfold askApproval
  split
  · exact .refl _
  rename_i approve _
  dsimp only
  generalize approve s.records call = answer
  have hasked : Asks s.records (s.note (.approval call answer)).records := ⟨_, rfl, rfl⟩
  split
  · exact hasked
  · exact hasked
  · refine hasked.trans ?_
    exact invokeApproved_asks env { s.note (.approval call (.ok true)) with
      grants := addGrant s.grants call } spec call args

theorem invokeCall_asks (tool : Tool) (s : LoopState) (call : ProviderToolCall) :
    Asks s.records (invokeCall turn env tool s call).1.records := by
  unfold invokeCall
  split
  · exact .refl _
  split
  · exact .refl _
  split
  · exact .refl _
  rename_i spec _ _ _ args _
  have hfirst := invokeFirst_asks env s spec call args
  split
  · rename_i heq
    rw [heq] at hfirst
    exact hfirst
  · rename_i heq
    rw [heq] at hfirst
    split
    · exact hfirst.trans (askApproval_asks env _ spec call args)
    · exact hfirst

/-- **Up to its settlement a call only asks**: what was settled before it stays all that is settled. -/
theorem settleCall_asks (s : LoopState) (call : ProviderToolCall) :
    Asks s.records (settleCall agent turn env s call).1.records := by
  unfold settleCall
  split
  · exact .refl _
  split
  · exact .refl _
  split
  · exact .refl _
  split
  · exact .refl _
  split
  · exact .refl _
  · exact invokeCall_asks turn env _ s call

/-- The settlement is the last event of a call. -/
theorem finishCall_records (s : LoopState) (call : ProviderToolCall) (settled : Settled) :
    (finishCall hmac agent env s call settled).1.records =
      s.records ++ [⟨s.override, .settled call settled.reused settled.status⟩] := by
  obtain ⟨result, hstate⟩ := finishCall_state hmac agent env s call settled
  rw [hstate]

theorem executeToolCalls_grows (calls : List ProviderToolCall) (feedback : Bytes) (s : LoopState) :
    s.records <+: (executeToolCalls hmac agent turn env calls feedback s).1.records := by
  refine executeToolCalls_keeps (I := fun s' => s.records <+: s'.records) (fun s' call h => ?_) calls feedback s
    List.prefix_rfl
  rw [finishCall_records]
  exact (h.trans (settleCall_asks agent turn env s' call).isPrefix).trans (List.prefix_append _ _)

theorem providerLoop_grows (iterations : Nat) (prompt output : Bytes) (s : LoopState) :
    s.records <+: (providerLoop hmac agent turn env iterations prompt output s).1.records := by
  refine providerLoop_keeps (I := fun s' => s.records <+: s'.records) (fun s' prompt h => ?_)
    (fun s' response h => h) (fun s' call h => ?_) iterations prompt output s List.prefix_rfl
  · exact h.trans (List.prefix_append _ _)
  · rw [finishCall_records]
    exact (h.trans (settleCall_asks agent turn env s' call).isPrefix).trans (List.prefix_append _ _)

/-- The request of a round is among the events of the loop. -/
theorem providerLoop_sends (hfree : ∀ records, env.interrupted records = none) (iterations : Nat)
    (prompt output : Bytes) (s : LoopState) :
    (sendRequest env s prompt).1.records <+:
      (providerLoop hmac agent turn env (iterations + 1) prompt output s).1.records := by
  rw [providerLoop, hfree]
  dsimp only [turnCheckContinue]
  split
  · rename_i heq
    rw [heq]
  rename_i sent response heq
  rw [heq]
  have haccepted : sent.records <+: (acceptResponse env sent response).1.records := List.prefix_rfl
  split
  · rename_i heq'
    rw [heq'] at haccepted
    exact haccepted
  rename_i accepted heq'
  rw [heq'] at haccepted
  have hexecuted := executeToolCalls_grows hmac agent turn env response.toolCalls [] accepted
  split
  · exact haccepted
  split
  · rename_i hcalls
    rw [hcalls] at hexecuted
    exact haccepted.trans hexecuted
  · rename_i hcalls
    rw [hcalls] at hexecuted
    exact haccepted.trans hexecuted
  · rename_i hcalls
    rw [hcalls] at hexecuted
    exact (haccepted.trans hexecuted).trans (providerLoop_grows hmac agent turn env iterations _ _ _)

end Grows

/-! ## States that know the same -/

/-- The chains keep receipts of the same calls. -/
structure SameChain (c c' : ReceiptChain) : Prop where
  initialized : c.keyInitialized = c'.keyInitialized
  receipts : List.Forall₂ SameContent c.receipts c'.receipts

/-- The results are the same, tokens and times of the receipts apart. -/
structure SameResult (r r' : TurnResult) : Prop where
  output : r.output = r'.output
  providerCallCount : r.providerCallCount = r'.providerCallCount
  toolCallCount : r.toolCallCount = r'.toolCallCount
  usages : r.usages = r'.usages
  budgetExceeded : r.budgetExceeded = r'.budgetExceeded
  attachment : r.attachment = r'.attachment
  chain : SameChain r.receipts r'.receipts

/-- A call that stands behind an entry of the success cache. -/
def Remembered (records : List LoopRecord) (entry : SuccessEntry) : Prop :=
  ∃ r ∈ records, ∃ call reused result, r.event = .settled call reused (.ok result) ∧
    call.name = entry.toolName ∧ call.argumentsJson = entry.argumentsJson ∧ result.success = true ∧
    (0 < entry.attachment.bytes.length → 0 < result.attachment.bytes.length)

/-- The same has happened, behind earlier loops with these events. -/
structure SameSoFar (earlier : List LoopRecord) (s : LoopState) (t : AsyncState) : Prop where
  records : t.records = earlier ++ s.records
  result : SameResult s.result t.result
  override : s.override = none

/-- **The state of a loop and the asynchronous state** between two calls: they know the same.  No approval
    was asked for, every entry of the success cache has its call behind it, and a list of failures holds
    the tools that failed: in this loop, or in the turn. -/
structure Alike (earlier : List LoopRecord) (s : LoopState) (t : AsyncState) : Prop
    extends SameSoFar earlier s t where
  denials : s.denials = []
  grants : s.grants = []
  successes : ∀ entry ∈ s.successes, Remembered s.records entry
  failures : ∀ name, name ∈ s.failures ↔ FailedFor s.records name
  asyncFailures : ∀ name, name ∈ t.failures ↔ FailedFor (earlier ++ s.records) name

/-- An event that settles no call fails no tool. -/
theorem failedFor_note {records : List LoopRecord} {o : Option Bytes} {event : LoopEvent} {name : Bytes}
    (hevent : ∀ call reused status, event ≠ .settled call reused status) :
    FailedFor (records ++ [⟨o, event⟩]) name ↔ FailedFor records name := by
  rw [failedFor_append]
  refine ⟨fun h => h.elim id ?_, Or.inl⟩
  rintro ⟨r, hr, _, _, _, hsettled, -⟩
  rw [List.mem_singleton.mp hr] at hsettled
  exact absurd hsettled (hevent _ _ _)

theorem Remembered.mono {records records' : List LoopRecord} {entry : SuccessEntry}
    (h : Remembered records entry) : Remembered (records ++ records') entry := by
  obtain ⟨r, hr, hrest⟩ := h
  exact ⟨r, List.mem_append_left _ hr, hrest⟩

theorem SameSoFar.note {earlier : List LoopRecord} {s : LoopState} {t : AsyncState}
    (h : SameSoFar earlier s t) (event : LoopEvent) : SameSoFar earlier (s.note event) (t.note event) := by
  refine ⟨?_, h.result, h.override⟩
  show t.records ++ _ = earlier ++ (s.records ++ _)
  rw [h.records, h.override, List.append_assoc]

/-- Both note an event that settles no call, and no part of what they know is about it. -/
theorem Alike.note {earlier : List LoopRecord} {s : LoopState} {t : AsyncState} (h : Alike earlier s t)
    {event : LoopEvent} (hevent : ∀ call reused status, event ≠ .settled call reused status) :
    Alike earlier (s.note event) (t.note event) := by
  constructor
  · exact h.toSameSoFar.note event
  · exact h.denials
  · exact h.grants
  · exact fun entry hentry => (h.successes entry hentry).mono
  · exact fun name => (h.failures name).trans (failedFor_note hevent).symm
  · intro name
    show _ ↔ FailedFor (earlier ++ (s.records ++ _)) name
    rw [← List.append_assoc, failedFor_note hevent]
    exact h.asyncFailures name

/-! ## Settling a call -/

/-- A missing argument is refused as invalid, never as cancelled. -/
theorem checkRequired_error {family : String} {args : Json} {e : ScError} :
    ∀ {required : List Json}, checkRequired family args required = .error e → e.code = .invalidArgument := by
  intro required
  induction required with
  | nil => exact fun h => nomatch h
  | cons item required ih =>
    intro h
    rw [checkRequired] at h
    split at h
    · rw [← Except.error.inj h]
    split at h
    · rw [← Except.error.inj h]
    · exact ih h
    · rw [← Except.error.inj h]

theorem checkRequiredTexts_error {args : Json} {e : ScError} :
    ∀ {required : List Json}, checkRequiredTexts args required = .error e → e.code = .invalidArgument := by
  intro required
  induction required with
  | nil => exact fun h => nomatch h
  | cons item required ih =>
    intro h
    rw [checkRequiredTexts] at h
    split at h
    · exact ih h
    split at h
    · rw [← Except.error.inj h]
    split at h
    · rw [← Except.error.inj h]
    · exact ih h

theorem toolValidateCall_error {spec : ToolSpec} {args : Json} {e : ScError}
    (h : toolValidateCall spec args = .error e) : e.code = .invalidArgument := by
  unfold toolValidateCall at h
  split at h
  · exact nomatch h
  split at h
  · simp only [bind, Except.bind] at h
    split at h
    · rename_i hrequired
      rw [← Except.error.inj h]
      exact checkRequired_error hrequired
    split at h
    · exact checkRequiredTexts_error h
    · exact nomatch h
  · rw [← Except.error.inj h]

/-- What the loops refuse a tool of the agent for is no cancellation. -/
theorem checkCall_error {turn : TurnTools} {tools : List Tool} {tool : Tool} {call : ProviderToolCall}
    {e : ScError} (hfound : findToolByName tools call.name = some tool)
    (h : checkCall turn tool call = .error e) : e.code ≠ .cancelled := by
  have hspec := List.find?_some hfound
  unfold checkCall at h
  cases hs : tool.spec with
  | error e' => rw [hs] at hspec; exact absurd hspec Bool.false_ne_true
  | ok spec =>
    simp only [hs, bind, Except.bind] at h
    split at h
    · rw [← Except.error.inj h]
      exact nofun
    split at h
    · rename_i hinjection
      unfold validatePromptInjection at hinjection
      dsimp only at hinjection
      split at hinjection
      · rw [← Except.error.inj h, ← Except.error.inj hinjection]
        exact nofun
      · exact nomatch hinjection
    split at h
    · rename_i e' hargs
      have hcode : e'.code = .invalidArgument := by
        unfold validateToolCallArgs at hargs
        split at hargs
        · rw [← Except.error.inj hargs]
        · exact nomatch hargs
        · exact checkRequired_error hargs
        · rw [← Except.error.inj hargs]
      rw [← Except.error.inj h, hcode]
      exact nofun
    · exact nomatch h

/-- **No approval is asked for**: the tool is invoked, or the call is refused before. -/
theorem invokeCall_plain {turn : TurnTools} {env : LoopEnv} {tool : Tool} {s : LoopState}
    {call : ProviderToolCall} (hdenials : s.denials = []) (hgrants : s.grants = [])
    (hcancel : ∀ records override e, env.invoke records override call = .error e → e.code ≠ .cancelled) :
    invokeCall turn env tool s call =
      match checkCall turn tool call with
      | .error e => (s, .error e)
      | .ok spec =>
          match call.arguments with
          | none => (s, Status.invalidArgument "sc.provider_tool_call.invalid_argument")
          | some args => toolInvoke env s spec call args := by
  unfold invokeCall
  cases checkCall turn tool call with
  | error e => rfl
  | ok spec =>
    dsimp only
    rw [hdenials, List.contains_nil, if_neg Bool.false_ne_true]
    cases call.arguments with
    | none => rfl
    | some args =>
      dsimp only
      rw [invokeFirst, hgrants, List.contains_nil, if_neg Bool.false_ne_true]
      have hplain : ∀ e, (toolInvoke env s spec call args).2 = .error e → isApprovalRequired e = false := by
        intro e he
        have hcode : e.code ≠ .cancelled := by
          unfold toolInvoke at he
          split at he
          · rename_i hrefused
            rw [← Except.error.inj he, toolValidateCall_error hrefused]
            exact nofun
          · exact hcancel _ _ e he
        rw [isApprovalRequired, Bool.and_eq_false_iff]
        exact Or.inl (by rw [beq_eq_false_iff_ne]; exact hcode)
      split
      · rename_i heq
        exact heq.symm
      · rename_i heq
        rw [heq] at hplain
        rw [hplain _ rfl, if_neg Bool.false_ne_true]
        exact heq.symm

/-- A call that is not repeated finds no earlier success. -/
theorem successFind_eq_none {successes : List SuccessEntry} {call : ProviderToolCall}
    (h : ∀ entry ∈ successes, entry.toolName = call.name → entry.argumentsJson ≠ call.argumentsJson) :
    successFind successes call = none := by
  refine List.find?_eq_none.mpr fun entry hentry hmatch => ?_
  rw [Bool.and_eq_true, beq_iff_eq, beq_iff_eq] at hmatch
  exact h entry.1 (List.fst_mem_of_mem_zipIdx hentry) hmatch.1 hmatch.2

/-- A tool that delivered no attachment has none to reuse. -/
theorem successFindAttachmentByName_eq_none {successes : List SuccessEntry} {call : ProviderToolCall}
    (h : ∀ entry ∈ successes, entry.toolName = call.name → entry.attachment.bytes.length = 0) :
    successFindAttachmentByName successes call = none := by
  refine List.find?_eq_none.mpr fun entry hentry hmatch => ?_
  rw [Bool.and_eq_true, decide_eq_true_eq, beq_iff_eq] at hmatch
  have hnone := h entry.1 (List.fst_mem_of_mem_zipIdx hentry) hmatch.2
  omega

/-- What is known of a call when the loop takes it up, so that neither turn answers it from its lists. -/
structure CallPlain (m : MessageTurn) (b : Behaviour) (earlier : List LoopRecord) (s : LoopState)
    (call : ProviderToolCall) : Prop where
  fresh : (call.name, call.argumentsJson) ∉ settledKeys s.records
  attached : ¬ Attached s.records call.name
  alive : ¬ FailedFor earlier call.name
  checked : ¬ RefusedBySchema m.agent m.tools s.records call

/-- **How both loops settle a call.** -/
structure SettledAlike (streaming : Bool) (m : MessageTurn) (b : Behaviour) (earlier : List LoopRecord)
    (sync : LoopState × Settled) (async : AsyncState × AsyncSettled) : Prop where
  alike : Alike earlier sync.1 async.1
  status : sync.2.status = async.2.status
  reused : sync.2.reused = false
  stop : sync.2.stop = false
  cancelled : cancelledCall sync.2.status = false
  told : Each (Plain streaming m b earlier) sync.1.records →
    asyncReportedOutput sync.2.status = reportedOutput sync.2.status

section Settle

variable {streaming : Bool} {m : MessageTurn} {b : Behaviour} {env env' : LoopEnv}
  {earlier : List LoopRecord} {s : LoopState} {t : AsyncState} {call : ProviderToolCall}

/-- A call that both loops refuse. -/
theorem Alike.refused (h : Alike earlier s t) {e : ScError} (hcode : e.code ≠ .cancelled) (completed : Bool) :
    SettledAlike streaming m b earlier (s, { status := .error e })
      (t, { status := .error e, completed := completed }) := by
  refine ⟨h, rfl, rfl, rfl, ?_, fun _ => rfl⟩
  show (e.code == .cancelled) = false
  rw [beq_eq_false_iff_ne]
  exact hcode

theorem invoke_ne_settled {made : ProviderToolCall} {result : Res ToolResult} :
    ∀ call reused status, LoopEvent.invoke made result ≠ .settled call reused status := nofun

/-- Where the call of a tool of its own passes the checks, both tools are checked first. -/
theorem toolInvokeAsync_checked {tool : Tool} {spec : ToolSpec} {call : ProviderToolCall} {args : Json}
    (hchecked : tool.invokesAsync = true → ∀ e, toolValidateCall spec args ≠ .error e) :
    toolInvokeAsync env' t tool spec call args =
      match toolValidateCall spec args with
      | .error e => (t, .error e)
      | .ok () => t.invoke env' call := by
  unfold toolInvokeAsync
  split
  · rename_i htool
    split
    · rename_i e hrefused
      exact absurd hrefused (hchecked htool e)
    · rfl
  · rfl

/-- **An invocation**; a tool with an `invoke_async` of its own gets what it would have been refused. -/
theorem Alike.invoked (h : Alike earlier s t) (hb : b.In env) (hb' : b.In env')
    (hcancel : ∀ call e, b.invoke call = .error e → e.code ≠ .cancelled) {tool : Tool} {spec : ToolSpec}
    {args : Json} (hchecked : tool.invokesAsync = true → ∀ e, toolValidateCall spec args ≠ .error e) :
    SettledAlike streaming m b earlier
      ((toolInvoke env s spec call args).1, { status := (toolInvoke env s spec call args).2 })
      ((toolInvokeAsync env' t tool spec call args).1,
        { status := (toolInvokeAsync env' t tool spec call args).2, completed := true }) := by
  rw [toolInvokeAsync_checked hchecked, toolInvoke]
  cases hvalid : toolValidateCall spec args with
  | error e =>
    refine h.refused ?_ true
    rw [toolValidateCall_error hvalid]
    exact StatusCode.noConfusion
  | ok _ =>
    dsimp only
    rw [AsyncState.invoke, hb.invoke, hb'.invoke]
    cases hresult : b.invoke call with
    | ok result =>
      refine ⟨h.note invoke_ne_settled, rfl, rfl, rfl, rfl, fun hplain => ?_⟩
      rcases (each_concat.mp hplain).2.told call result rfl with hsuccess | hspeaks
      · exact if_pos hsuccess
      · show (if _ then _ else _) = result.output
        rw [hspeaks, ite_self]
    | error e =>
      refine ⟨h.note invoke_ne_settled, rfl, rfl, rfl, ?_, fun _ => rfl⟩
      show (e.code == .cancelled) = false
      rw [beq_eq_false_iff_ne]
      exact hcancel call e hresult

variable (streaming) in
/-- **Settling a call.** -/
theorem Alike.settle (h : Alike earlier s t) (hb : b.In env) (hb' : b.In env')
    (hcancel : ∀ call e, b.invoke call = .error e → e.code ≠ .cancelled) (hplain : CallPlain m b earlier s call) :
    SettledAlike streaming m b earlier (settleCall m.agent m.tools env s call)
      (asyncSettleCall m.agent m.tools env' t call) := by
  have hfind : successFind s.successes call = none := by
    refine successFind_eq_none fun entry hentry hname hargs => hplain.fresh ?_
    obtain ⟨r, hr, call', reused, result, hevent, hname', hargs', -⟩ := h.successes entry hentry
    refine List.mem_filterMap.mpr ⟨r, hr, ?_⟩
    rw [hevent]
    show some (call'.name, call'.argumentsJson) = _
    rw [hname', hargs', hname, hargs]
  have hattachment : successFindAttachmentByName s.successes call = none := by
    refine successFindAttachmentByName_eq_none fun entry hentry hname => ?_
    obtain ⟨r, hr, call', reused, result, hevent, hname', -, hsuccess, hbytes⟩ := h.successes entry hentry
    by_contra hlength
    exact hplain.attached ⟨r, hr, call', reused, result, hevent, hname'.trans hname, hsuccess,
      hbytes (Nat.pos_of_ne_zero hlength)⟩
  have hfailed : t.failures.contains call.name = s.failures.contains call.name := by
    rw [Bool.eq_iff_iff, List.contains_iff_mem, List.contains_iff_mem, h.asyncFailures, h.failures,
      failedFor_append]
    exact or_iff_right hplain.alive
  unfold settleCall asyncSettleCall
  split
  · exact h.refused (by exact nofun) false
  rename_i hallowed
  cases hfound : findToolByName m.agent.tools call.name with
  | none => exact h.refused (by exact nofun) false
  | some tool =>
    dsimp only
    rw [hfailed]
    split
    · exact h.refused (by exact nofun) false
    rename_i hfresh
    rw [hfind, hattachment]
    dsimp only
    rw [invokeCall_plain h.denials h.grants fun records override e he => hcancel call e (hb.invoke _ _ _ ▸ he)]
    cases hcheck : checkCall m.tools tool call with
    | error e => exact h.refused (checkCall_error hfound hcheck) false
    | ok spec =>
      dsimp only
      cases hargs : call.arguments with
      | none => exact h.refused (by exact nofun) false
      | some args =>
        refine h.invoked hb hb' hcancel fun htool e hrefused => hplain.checked ?_
        refine ⟨by simpa using hallowed, fun hdead => hfresh ?_, tool, spec, args, e, hfound, htool, hcheck,
          hargs, hrefused⟩
        exact List.contains_iff_mem.mpr ((h.failures _).mpr hdead)

end Settle

/-! ## What a settled call leaves -/

/-- Both fail, and not because the context is too long, or both give related values. -/
inductive Together {A B : Type} (R : A → B → Prop) : Res A → Res B → Prop where
  | ok {a : A} {b : B} (h : R a b) : Together R (.ok a) (.ok b)
  | error {e : ScError} (h : isContextOverflow e = false) : Together R (.error e) (.error e)

theorem receiptSummary_error {value : Bytes} {e : ScError} (h : Tools.receiptSummary value = .error e) :
    isContextOverflow e = false := by
  unfold Tools.receiptSummary at h
  dsimp only at h
  split at h
  · rw [← Except.error.inj h]
    rfl
  · cases h

section Finish

variable (hmac : Digest → Bytes → Digest) (agent : LoopAgent)

/-- What the receipt of a call says. -/
def callContent (call : ReceiptCall) : ReceiptContent where
  toolName := call.toolName
  argsSummary := call.argsSummary
  outputSummary := call.outputSummary
  success := call.success
  policyDecision := call.policyDecision
  failureReason := call.failureReason
  outcome := call.outcome

/-- A chain with a key takes the receipt. -/
theorem receiptChainAppendEx_key {chain : ReceiptChain} {call : ReceiptCall} {now : Int64}
    (hname : call.toolName.bytes ≠ []) (hclock : call.clock = .ok now) (hkey : chain.keyInitialized = true) :
    ∃ r, receiptChainAppendEx hmac chain call = .ok { chain with receipts := chain.receipts ++ [r] } ∧
      receiptContent r = callContent call ∧ WellTokened r := by
  have htoken : ∀ r, receiptToken hmac chain r =
      .ok (tokenText r.endedAt (hmac chain.sessionKey (receiptMessage r))) := by
    intro r
    rw [receiptToken, if_neg (by simp [hkey])]
    exact if_neg (not_le.mpr (Tools.tokenText_length _ _))
  let receipt : ToolReceipt :=
    { receiptDraft chain call now with hash := receiptHash (receiptDraft chain call now) }
  refine ⟨{ receipt with token := tokenText receipt.endedAt (hmac chain.sessionKey (receiptMessage receipt)) },
    ?_, rfl, tokenText_wellTokened receipt _ _⟩
  rw [receiptChainAppendEx, if_neg hname]
  simp only [hclock, htoken, bind, Except.bind]
  rfl

/-- A chain without a key does not. -/
theorem receiptChainAppendEx_keyless {chain : ReceiptChain} {call : ReceiptCall} {now : Int64}
    (hname : call.toolName.bytes ≠ []) (hclock : call.clock = .ok now) (hkey : chain.keyInitialized = false) :
    receiptChainAppendEx hmac chain call = Status.unsupported "sc.receipt.crypto_unavailable" := by
  have htoken : ∀ r, receiptToken hmac chain r = Status.unsupported "sc.receipt.crypto_unavailable" := by
    intro r
    rw [receiptToken, if_pos (by rw [hkey]; rfl)]
  rw [receiptChainAppendEx, if_neg hname]
  simp only [hclock, htoken, bind, Except.bind]
  rfl

/-- **The chains stay alike**: neither has a key, or both take a receipt that says the same. -/
theorem receiptChainAppendEx_together {c c' : ReceiptChain} (h : SameChain c c') {call call' : ReceiptCall}
    (hcontent : callContent call = callContent call') {clock clock' : Int64} (hclock : call.clock = .ok clock)
    (hclock' : call'.clock = .ok clock') :
    Together SameChain (receiptChainAppendEx hmac c call) (receiptChainAppendEx hmac c' call') := by
  have hnames : call.toolName = call'.toolName := congrArg ReceiptContent.toolName hcontent
  by_cases hname : call.toolName.bytes = []
  · have hname' : call'.toolName.bytes = [] := by rw [← hnames, hname]
    rw [receiptChainAppendEx, receiptChainAppendEx, if_pos hname, if_pos hname']
    exact .error (by decide +kernel)
  have hname' : call'.toolName.bytes ≠ [] := by rwa [← hnames]
  cases hkey : c.keyInitialized with
  | false =>
    rw [receiptChainAppendEx_keyless hmac hname hclock hkey,
      receiptChainAppendEx_keyless hmac hname' hclock' (h.initialized ▸ hkey)]
    exact .error rfl
  | true =>
    obtain ⟨r, hr, hspeaks, htoken⟩ := receiptChainAppendEx_key hmac hname hclock hkey
    obtain ⟨r', hr', hspeaks', htoken'⟩ := receiptChainAppendEx_key hmac hname' hclock' (h.initialized ▸ hkey)
    rw [hr, hr']
    have hsame : SameContent r r' := ⟨by rw [hspeaks, hspeaks', hcontent], htoken, htoken'⟩
    exact .ok ⟨h.initialized, List.rel_append h.receipts (.cons hsame .nil)⟩

theorem appendCallReceipt_together {c c' : ReceiptChain} (h : SameChain c c') (clock clock' : Int64)
    (call : ProviderToolCall) (status : Res ToolResult) (output : Bytes) :
    Together SameChain (appendCallReceipt hmac agent clock c call status output)
      (appendCallReceipt hmac agent clock' c' call status output) := by
  rw [appendCallReceipt, appendCallReceipt]
  split
  · exact .ok h
  simp only [bind, Except.bind]
  cases hargs : Tools.receiptSummary call.argumentsJson with
  | error e => exact .error (receiptSummary_error hargs)
  | ok argsSummary =>
    dsimp only
    cases houtput : Tools.receiptSummary output with
    | error e => exact .error (receiptSummary_error houtput)
    | ok outputSummary => exact receiptChainAppendEx_together hmac h rfl rfl rfl

variable {hmac agent} {m : MessageTurn} {b : Behaviour} {env env' : LoopEnv} {earlier : List LoopRecord}
  {s : LoopState} {t : AsyncState}

theorem SameResult.counted {r r' : TurnResult} (h : SameResult r r') :
    SameResult { r with toolCallCount := r.toolCallCount + 1 }
      { r' with toolCallCount := r'.toolCallCount + 1 } :=
  ⟨h.output, h.providerCallCount, congrArg (· + 1) h.toolCallCount, h.usages, h.budgetExceeded, h.attachment,
    h.chain⟩

theorem SameResult.attached {r r' : TurnResult} (h : SameResult r r') {c c' : ReceiptChain}
    (hchain : SameChain c c') (status : Res ToolResult) :
    SameResult (copyAttachment { r with receipts := c } status)
      (copyAttachment { r' with receipts := c' } status) := by
  have hsame : SameResult { r with receipts := c } { r' with receipts := c' } :=
    ⟨h.output, h.providerCallCount, h.toolCallCount, h.usages, h.budgetExceeded, h.attachment, hchain⟩
  unfold copyAttachment
  split
  · split
    · exact ⟨h.output, h.providerCallCount, h.toolCallCount, h.usages, h.budgetExceeded, rfl, hchain⟩
    · exact hsame
  · exact hsame

/-- The entry of a new success stands for the call that was just settled. -/
theorem addSuccess_remembered (o : Option Bytes) (call : ProviderToolCall) (settled : Settled)
    (h : ∀ entry ∈ s.successes, Remembered s.records entry) :
    ∀ entry ∈ addSuccess s.successes call settled,
      Remembered (s.records ++ [⟨o, .settled call settled.reused settled.status⟩]) entry := by
  have hold : ∀ entry ∈ s.successes,
      Remembered (s.records ++ [⟨o, .settled call settled.reused settled.status⟩]) entry :=
    fun entry hentry => (h entry hentry).mono
  unfold addSuccess
  split
  · rename_i result hstatus
    split
    · rename_i hsuccess
      rw [Bool.and_eq_true] at hsuccess
      unfold successAdd
      split
      · exact hold
      · intro entry hentry
        rcases List.mem_append.mp hentry with hin | hnew
        · exact hold entry hin
        · rw [List.mem_singleton.mp hnew]
          refine ⟨_, List.mem_append_right _ (List.mem_singleton_self _), call, settled.reused, result, ?_, rfl,
            rfl, hsuccess.2, fun hbytes => ?_⟩
          · rw [hstatus]
          · dsimp only at hbytes
            split at hbytes
            · assumption
            · exact absurd hbytes (Nat.lt_irrefl 0)
    · exact hold
  · exact hold

variable (hmac agent env env') in
/-- **A settled call**: the same line for the next prompt, and states that know the same. -/
theorem Alike.finish (h : Alike earlier s t) (call : ProviderToolCall) {settled : Settled}
    {asyncSettled : AsyncSettled} (hstatus : settled.status = asyncSettled.status)
    (hreused : settled.reused = false) (hcancel : cancelledCall settled.status = false)
    (htold : asyncReportedOutput settled.status = reportedOutput settled.status) :
    let sync := finishCall hmac agent env s call settled
    let async := asyncFinishCall hmac agent env' t call asyncSettled
    SameSoFar earlier sync.1 async.1 ∧
      ((∃ e, sync.2 = .error e ∧ async.2 = .error e ∧ isContextOverflow e = false) ∨
        ∃ line, sync.2 = .ok line ∧ async.2 = .ok line ∧ Alike earlier sync.1 async.1) := by
  have hchain := appendCallReceipt_together hmac agent h.result.chain
    (env.clock s.result.receipts.receipts.length) (env'.clock t.result.receipts.receipts.length) call
    settled.status (reportedOutput settled.status)
  have hcounted : SameSoFar earlier
      { s with
        failures := addFailure s.failures call settled.status
        successes := addSuccess s.successes call settled
        result := { s.result with toolCallCount := s.result.toolCallCount + 1 } }
      { t with result := { t.result with toolCallCount := t.result.toolCallCount + 1 } } :=
    ⟨h.records, h.result.counted, h.override⟩
  have hnoted := hcounted.note (.settled call false settled.status)
  have hremembered := addSuccess_remembered s.override call settled h.successes
  -- both take a receipt for the same output; their chains and clocks are not the same
  unfold finishCall asyncFinishCall
  dsimp only
  rw [← hstatus, htold]
  revert hchain
  simp only [hcancel, Bool.false_eq_true, if_false, hreused, LoopState.note, AsyncState.note]
    at hnoted hremembered ⊢
  generalize appendCallReceipt hmac agent (env.clock _) _ call settled.status _ = sync
  generalize appendCallReceipt hmac agent (env'.clock _) _ call settled.status _ = async
  intro hchain
  cases hchain with
  | error hno => exact ⟨hnoted, Or.inl ⟨_, rfl, rfl, hno⟩⟩
  | @ok chain chain' hchain =>
    have hresult := hnoted.result.attached hchain settled.status
    refine ⟨⟨hnoted.records, hresult, hnoted.override⟩, Or.inr ⟨_, rfl, rfl, ?_⟩⟩
    refine ⟨⟨hnoted.records, hresult, hnoted.override⟩, h.denials, h.grants, hremembered, fun name => ?_,
      fun name => ?_⟩
    · rw [mem_addFailure, h.failures, failedFor_append, failedFor_settled]
    · rw [mem_addFailure, h.asyncFailures, ← List.append_assoc]
      exact (failedFor_append.trans (or_congr_right failedFor_settled)).symm

end Finish

end SmolClaw.Runtime
