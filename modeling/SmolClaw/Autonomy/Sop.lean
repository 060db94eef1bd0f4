/-
  SOP runs (`src/autonomy/autonomy.c`): stepping through a standard operating procedure whose steps
  may need a manual approval.

  1. **Program** — `sopRunStart`, `sopRunAdvance`, `sopRunApproveManual`, each a function of the run
     state and the optional audit chain it writes to.  `sopCall` is the machine whose actions are the
     three calls, in any order.  Whatever the order, the audit trail verifies (`audit_intact_run`).

  2. **Specification** — `ManualApproval`: along a run, a step that requires approval is left only by
     an approval call made while it is the current step, and `completed` is reached only after every
     such step was approved (`ghostCall` keeps the list of approved step indices).

  3. **The defect** — `waiting_approval` means both "approval was asked for" and "the step may pass":
     the FIRST advance on an approval step sets the flag and refuses, a SECOND advance finds the flag
     set and completes the step.  `manualApproval_iff` says this is the only way out: a run keeps
     `ManualApproval` exactly when no advance is made while the current step requires approval and the
     flag is already set (`Unhurried`).
-/
import SmolClaw.Lib.Run
import SmolClaw.Security.Audit

namespace SmolClaw.Sop

open SmolClaw.Security Lib.Run

/-! ## The program -/

/-- `sc_sop_step`, the fields a run reads. -/
structure SopStep where
  name : Bytes
  requiresApproval : Bool

/-- `sc_sop_document`: its steps, in order. -/
structure SopDocument where
  steps : List SopStep

/-- `sc_sop_run_state` -/
structure SopRunState where
  currentStep : Nat
  waitingApproval : Bool
  completed : Bool
  deriving DecidableEq

/-- A run state together with the audit chain the calls are given (`none` for a null pointer). -/
structure SopState where
  run : SopRunState
  audit : Option AuditChain

/-- `sc_sop_run_start` -/
def sopRunStart : SopRunState := { currentStep := 0, waitingApproval := false, completed := false }

/-- `sc_sop_run_current_step` -/
def sopRunCurrentStep (document : SopDocument) (run : SopRunState) : Option SopStep :=
  if run.completed || document.steps.length ≤ run.currentStep then none
  else document.steps[run.currentStep]?

/-- `(void)sc_audit_chain_append(...)` on an optional chain: the status is dropped. -/
def auditNote (audit : Option AuditChain) (event : String) (summary : Bytes) (now : Int64) :
    Option AuditChain :=
  audit.map fun chain => (auditChainAppend chain (str event) summary now).toOption.getD chain

/-- The three assignments that end a step, in both `sc_sop_run_advance` and
    `sc_sop_run_approve_manual`. -/
def leaveStep (document : SopDocument) (run : SopRunState) : SopRunState :=
  { currentStep := run.currentStep + 1
    waitingApproval := false
    completed := decide (document.steps.length ≤ run.currentStep + 1) }

/-- `sc_sop_run_advance` -/
def sopRunAdvance (document : SopDocument) (now : Int64) (s : SopState) : Res Unit × SopState :=
  match sopRunCurrentStep document s.run with
  | none => (.ok (), { s with run := { s.run with completed := true } })
  | some step =>
      if step.requiresApproval && !s.run.waitingApproval then
        (Status.cancelled "sc.sop.manual_approval_required",
          { run := { s.run with waitingApproval := true }
            audit := auditNote s.audit "sop.approval_required" step.name now })
      else
        (.ok (),
          { run := leaveStep document s.run
            audit := auditNote s.audit "sop.step_completed" step.name now })

/-- `sc_sop_run_approve_manual` -/
def sopRunApproveManual (document : SopDocument) (now : Int64) (s : SopState) :
    Res Unit × SopState :=
  match sopRunCurrentStep document s.run with
  | none => (Status.invalidArgument "sc.sop.approve_invalid_argument", s)
  | some step =>
      if !s.run.waitingApproval then (Status.invalidArgument "sc.sop.approve_invalid_argument", s)
      else
        (.ok (),
          { run := leaveStep document s.run
            audit := auditNote s.audit "sop.manual_approved" step.name now })

/-- The three calls on one run state; `now` is the clock the audit chain reads. -/
inductive SopCall where
  | start
  | advance (now : Int64)
  | approveManual (now : Int64)
  deriving DecidableEq

/-- One call. -/
def sopCall (document : SopDocument) (s : SopState) : SopCall → SopState
  | .start => { s with run := sopRunStart }
  | .advance now => (sopRunAdvance document now s).2
  | .approveManual now => (sopRunApproveManual document now s).2

/-! ## What a call can do -/

/-- The current step requires approval. -/
def currentRequires (document : SopDocument) (run : SopRunState) : Bool :=
  (sopRunCurrentStep document run).any (·.requiresApproval)

/-- A step is current exactly when the run is not completed and the index is in range. -/
theorem sopRunCurrentStep_eq_some {document : SopDocument} {run : SopRunState} {step : SopStep} :
    sopRunCurrentStep document run = some step ↔
      run.completed = false ∧ document.steps[run.currentStep]? = some step := by
  unfold sopRunCurrentStep
  split
  · rename_i h
    rw [Bool.or_eq_true, decide_eq_true_eq] at h
    constructor
    · exact nofun
    · rintro ⟨hc, hs⟩
      rcases h with h | h
      · rw [hc] at h; exact absurd h (by decide)
      · rw [List.getElem?_eq_none h] at hs; exact absurd hs (by simp)
  · rename_i h
    rw [Bool.or_eq_true, not_or, Bool.not_eq_true] at h
    exact ⟨fun hs => ⟨h.1, hs⟩, fun hs => hs.2⟩

/-- **Advance, inverted**: it finishes the run, asks for approval, or leaves the current step. -/
theorem advance_cases (document : SopDocument) (now : Int64) (s : SopState) :
    (sopRunCurrentStep document s.run = none ∧
      (sopCall document s (.advance now)).run = { s.run with completed := true }) ∨
    (currentRequires document s.run = true ∧ s.run.waitingApproval = false ∧
      (sopCall document s (.advance now)).run = { s.run with waitingApproval := true }) ∨
    ((∃ step, sopRunCurrentStep document s.run = some step) ∧
      (currentRequires document s.run = true → s.run.waitingApproval = true) ∧
      (sopCall document s (.advance now)).run = leaveStep document s.run) := by
  unfold sopCall sopRunAdvance currentRequires
  cases hs : sopRunCurrentStep document s.run with
  | none => exact Or.inl ⟨rfl, rfl⟩
  | some step =>
    refine Or.inr ?_
    by_cases hw : (step.requiresApproval && !s.run.waitingApproval) = true
    · left
      simp only [hw, if_true]
      simpa using hw
    · right
      simp only [hw, Option.any_some]
      refine ⟨⟨step, rfl⟩, fun hr => ?_, rfl⟩
      simpa [hr] using hw

/-- **Approve, inverted**: it changes nothing, or leaves a current step that was waiting. -/
theorem approve_cases (document : SopDocument) (now : Int64) (s : SopState) :
    ((sopRunApproveManual document now s).1 ≠ .ok () ∧
      sopCall document s (.approveManual now) = s) ∨
    ((sopRunApproveManual document now s).1 = .ok () ∧
      (∃ step, sopRunCurrentStep document s.run = some step) ∧
      (sopCall document s (.approveManual now)).run = leaveStep document s.run) := by
  unfold sopCall sopRunApproveManual
  cases hs : sopRunCurrentStep document s.run with
  | none => exact Or.inl ⟨by simp, rfl⟩
  | some step =>
    by_cases hw : (!s.run.waitingApproval) = true
    · left; simp only [hw, if_true]; exact ⟨by simp, trivial⟩
    · right; simp only [hw]; exact ⟨by simp, ⟨step, rfl⟩, rfl⟩

/-! ## The audit trail -/

/-- The audit chain, when there is one, verifies. -/
def AuditIntact (audit : Option AuditChain) : Prop :=
  ∀ chain, audit = some chain → auditChainVerify chain = true

/-- An entry that is refused leaves the chain alone, any other one is linked to it. -/
theorem AuditIntact.note {audit : Option AuditChain} (h : AuditIntact audit) (event : String)
    (summary : Bytes) (now : Int64) : AuditIntact (auditNote audit event summary now) := by
  intro chain hchain
  obtain ⟨before, hbefore, rfl⟩ := Option.map_eq_some_iff.mp hchain
  cases happend : auditChainAppend before (str event) summary now with
  | error e => exact h before hbefore
  | ok after => exact auditChainAppend_verify (h before hbefore) happend

/-- One call writes at most one entry. -/
theorem AuditIntact.step {document : SopDocument} (s : SopState) (call : SopCall)
    (h : AuditIntact s.audit) : AuditIntact (sopCall document s call).audit := by
  cases call with
  | start => exact h
  | advance now =>
    unfold sopCall sopRunAdvance
    cases sopRunCurrentStep document s.run with
    | none => exact h
    | some step =>
      dsimp only
      split
      · exact h.note _ _ now
      · exact h.note _ _ now
  | approveManual now =>
    unfold sopCall sopRunApproveManual
    cases sopRunCurrentStep document s.run with
    | none => exact h
    | some step =>
      dsimp only
      split
      · exact h
      · exact h.note _ _ now

/-- **The audit trail of a run verifies**, if the chain it was given did. -/
theorem audit_intact_run {document : SopDocument} {s : SopState} (h : AuditIntact s.audit)
    (calls : List SopCall) : AuditIntact (run (sopCall document) s calls).audit :=
  run_preserves AuditIntact.step calls s h

/-! ## The specification -/

/-- The call moves the run past a step that requires approval. -/
def PassesApproval (document : SopDocument) (s : SopState) (call : SopCall) : Prop :=
  (document.steps[s.run.currentStep]?.any (·.requiresApproval)) = true ∧
    s.run.currentStep < (sopCall document s call).run.currentStep

/-- The call is an approval. -/
def SopCall.isApproval : SopCall → Bool
  | .approveManual _ => true
  | _ => false

/-- The machine with one ghost: the indices of the steps approved since the last start, each recorded
    when an approval call on it succeeds. -/
def ghostCall (document : SopDocument) (g : SopState × List Nat) (call : SopCall) :
    SopState × List Nat :=
  (sopCall document g.1 call,
    match call with
    | .start => []
    | .advance _ => g.2
    | .approveManual now =>
        if (sopRunApproveManual document now g.1).1 = .ok () then g.2 ++ [g.1.run.currentStep]
        else g.2)

/-- A freshly started run. -/
def started (audit : Option AuditChain) : SopState := { run := sopRunStart, audit := audit }

/-- **The contract** of a run of calls: steps that require approval are passed by approval calls
    only, and whenever the run is completed every such step has been approved. -/
def ManualApproval (document : SopDocument) (audit : Option AuditChain) (calls : List SopCall) :
    Prop :=
  EachStep (sopCall document)
      (fun s call => PassesApproval document s call → call.isApproval = true) (started audit) calls ∧
  ∀ past, past <+: calls →
    (run (ghostCall document) (started audit, []) past).1.run.completed = true →
    ∀ i step, document.steps[i]? = some step → step.requiresApproval = true →
      i ∈ (run (ghostCall document) (started audit, []) past).2

/-- No advance is made while the current step requires approval and approval was already asked. -/
def Unhurried (document : SopDocument) (s : SopState) (call : SopCall) : Prop :=
  ∀ now, call = .advance now → ¬(currentRequires document s.run = true ∧ s.run.waitingApproval = true)

/-! ## The defect is exactly the hurried advance -/

theorem currentRequires_iff {document : SopDocument} {run : SopRunState} :
    currentRequires document run = true ↔
      run.completed = false ∧ (document.steps[run.currentStep]?.any (·.requiresApproval)) = true := by
  unfold currentRequires
  rw [Option.any_eq_true, Option.any_eq_true]
  constructor
  · rintro ⟨step, hs, hr⟩
    obtain ⟨hc, hget⟩ := sopRunCurrentStep_eq_some.mp hs
    exact ⟨hc, step, hget, hr⟩
  · rintro ⟨hc, step, hget, hr⟩
    exact ⟨step, sopRunCurrentStep_eq_some.mpr ⟨hc, hget⟩, hr⟩

/-- A call passes an approval step without being an approval exactly when it is a hurried advance. -/
theorem passes_only_approved_iff (document : SopDocument) (s : SopState) (call : SopCall) :
    (PassesApproval document s call → call.isApproval = true) ↔ Unhurried document s call := by
  cases call with
  | start =>
    -- a start goes back to step 0, so it passes nothing
    refine ⟨fun _ _ h => (nomatch h), fun _ hp => ?_⟩
    exact absurd hp.2 (Nat.not_lt_zero _)
  | approveManual now => exact ⟨fun _ _ h => (nomatch h), fun _ _ => rfl⟩
  | advance now =>
    constructor
    · rintro h now' - ⟨hreq, hwait⟩
      rcases advance_cases document now s with ⟨hn, -⟩ | ⟨-, hw, -⟩ | ⟨-, -, hleave⟩
      · simp [currentRequires, hn] at hreq
      · rw [hwait] at hw; exact absurd hw (by decide)
      -- the flag is set: this advance leaves the step
      · have hp : PassesApproval document s (.advance now) :=
          ⟨(currentRequires_iff.mp hreq).2, by rw [hleave]; exact Nat.lt_succ_self _⟩
        exact absurd (h hp) Bool.false_ne_true
    · rintro h ⟨hreq, hlt⟩
      exfalso
      rcases advance_cases document now s with ⟨-, heq⟩ | ⟨-, -, heq⟩ | ⟨⟨step, hs⟩, hw, -⟩
      · rw [heq] at hlt; exact absurd hlt (Nat.lt_irrefl _)
      · rw [heq] at hlt; exact absurd hlt (Nat.lt_irrefl _)
      · have hc := (sopRunCurrentStep_eq_some.mp hs).1
        have hcur := currentRequires_iff.mpr ⟨hc, hreq⟩
        exact h now rfl ⟨hcur, hw hcur⟩

/-- The ghost invariant: every approval step already passed is recorded, and a completed run has
    passed them all. -/
structure GhostInv (document : SopDocument) (g : SopState × List Nat) : Prop where
  recorded : ∀ i step, i < g.1.run.currentStep → document.steps[i]? = some step →
    step.requiresApproval = true → i ∈ g.2
  finished : g.1.run.completed = true → document.steps.length ≤ g.1.run.currentStep

/-- Leaving a step keeps the invariant as soon as the ghost records the step left, if it needed it. -/
theorem GhostInv.leave {document : SopDocument} {s s' : SopState} {approved approved' : List Nat}
    (h : GhostInv document (s, approved)) (hs : s'.run = leaveStep document s.run)
    (hsub : approved ⊆ approved')
    (hrec : ∀ step, document.steps[s.run.currentStep]? = some step → step.requiresApproval = true →
      s.run.currentStep ∈ approved') : GhostInv document (s', approved') := by
  constructor
  · intro i step hi hget hreq
    have hi' : i < s.run.currentStep + 1 := by simpa [hs, leaveStep] using hi
    rcases Nat.lt_succ_iff_lt_or_eq.mp hi' with hlt | rfl
    · exact hsub (h.recorded i step hlt hget hreq)
    · exact hrec step hget hreq
  · intro hc
    simpa [hs, leaveStep] using hc

/-- One unhurried call keeps the ghost invariant. -/
theorem GhostInv.step {document : SopDocument} (g : SopState × List Nat) (call : SopCall)
    (h : GhostInv document g) (hu : Unhurried document g.1 call) :
    GhostInv document (ghostCall document g call) := by
  obtain ⟨s, approved⟩ := g
  cases call with
  | start => exact ⟨fun i _ hi => absurd hi (Nat.not_lt_zero i), nofun⟩
  | advance now =>
    rcases advance_cases document now s with ⟨hn, heq⟩ | ⟨-, -, heq⟩ | ⟨⟨step, hs⟩, hw, heq⟩
    · refine ⟨?_, fun _ => ?_⟩
      · intro i step hi
        exact h.recorded i step (by simpa [ghostCall, heq] using hi)
      -- no current step: the run was completed before, or its index is past the end
      · have hlen : document.steps.length ≤ s.run.currentStep := by
          cases hc : s.run.completed with
          | true => exact h.finished hc
          | false =>
            by_contra hlt
            have hget := List.getElem?_eq_getElem (Nat.lt_of_not_le hlt)
            exact nomatch hn.symm.trans (sopRunCurrentStep_eq_some.mpr ⟨hc, hget⟩)
        simpa [ghostCall, heq] using hlen
    · refine ⟨?_, fun hc => ?_⟩
      · intro i step hi
        exact h.recorded i step (by simpa [ghostCall, heq] using hi)
      · have hlen := h.finished (by simpa [ghostCall, heq] using hc)
        simpa [ghostCall, heq] using hlen
    · -- the step left by an unhurried advance needs no approval
      refine h.leave heq (fun _ hx => hx) ?_
      intro step' hget hreq
      have hc := (sopRunCurrentStep_eq_some.mp hs).1
      have hcur : currentRequires document s.run = true :=
        currentRequires_iff.mpr ⟨hc, by rw [hget]; exact hreq⟩
      exact absurd ⟨hcur, hw hcur⟩ (hu now rfl)
  | approveManual now =>
    rcases approve_cases document now s with ⟨hno, heq⟩ | ⟨hok, -, heq⟩
    · have hg : ghostCall document (s, approved) (.approveManual now) = (s, approved) := by
        simp [ghostCall, heq, hno]
      rw [hg]; exact h
    · refine h.leave heq ?_ ?_
      · simp [hok]
      · intro step hget hreq; simp [hok]

/-- **SOP runs respect manual approval exactly when nobody advances twice**: for every document, every
    audit chain and every list of calls, the contract holds along the run if and only if no advance is
    made while the current step requires approval and `waiting_approval` is already set. -/
theorem manualApproval_iff (document : SopDocument) (audit : Option AuditChain)
    (calls : List SopCall) :
    ManualApproval document audit calls ↔
      EachStep (sopCall document) (Unhurried document) (started audit) calls := by
  have hcongr := eachStep_congr (sopCall document) (I := fun _ => True) (fun _ _ _ => trivial)
    (fun s call _ => passes_only_approved_iff document s call) calls (started audit) trivial
  constructor
  · intro h; exact hcongr.mp h.1
  · intro h
    refine ⟨hcongr.mpr h, fun past hpast hdone i step hget hreq => ?_⟩
    -- the ghost only watches: the run under it is the run of the machine
    have hghost : ∀ g call, (ghostCall document g call).1 = sopCall document g.1 call :=
      fun _ _ => rfl
    have hproj := (eachStep_proj hghost past (started audit, [])).mpr (EachStep.of_initial hpast h)
    have hinit : GhostInv document (started audit, []) :=
      ⟨fun i _ hi => absurd hi (Nat.not_lt_zero i), nofun⟩
    have hinv := run_invariant GhostInv.step past _ hinit hproj
    refine hinv.recorded i step ?_ hget hreq
    exact Nat.lt_of_lt_of_le (List.getElem?_eq_some_iff.mp hget).1 (hinv.finished hdone)

/-- One step that requires approval. -/
def confirmOnly : SopDocument := { steps := [{ name := str "Confirm", requiresApproval := true }] }

/-- Two advances and no approval complete the step. -/
theorem manualApproval_fails_on_second_advance :
    ¬ManualApproval confirmOnly none [.advance 0, .advance 0] := by
  intro h
  have hstep := h.1.2.1
  exact absurd (hstep ⟨by decide, by decide⟩) (by decide)

/-- A new chain verifies after two advances. -/
theorem audit_intact_advances :
    AuditIntact (run (sopCall confirmOnly) (started (some [])) [.advance 0, .advance 0]).audit :=
  audit_intact_run (fun _ h => by cases h; rfl) _

end SmolClaw.Sop
