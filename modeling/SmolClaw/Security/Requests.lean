/-
  Requests of tools under the policy (`sc_security_validate_request`, `src/security/policy.c`, and
  `sc_tool_security_check_ex`, `src/tools/tool_common.c`).

  1. **Validation** — a request passes the emergency stop, the lists of tools, the autonomy level, the list
     of devices and the one-time password, in this order; the first check that fails names the error.

  2. **Approval** — a request that passes may still have to be approved; `toolSecurityCheckEx` takes it
     only if the thread's override names its tool.

  `toolSecurityCheckEx_ok` says what a request that passes has passed.
-/
import SmolClaw.Security.Estop
import SmolClaw.Security.Policy

namespace SmolClaw.Security

/-- `sc_autonomy_level` -/
inductive AutonomyLevel
  | readOnly
  | supervised
  | full
deriving DecidableEq, Repr

/-- `sc_tool_risk` -/
inductive ToolRisk
  | readonly
  | sideEffect
  | network
  | shell
  | destructive
deriving DecidableEq, Repr

/-- `sc_security_policy`, as far as a request without path, URL and shell command reads it, and the switch
    for receipts. -/
structure RequestPolicy where
  autonomy : AutonomyLevel := .readOnly
  allowedTools : List Bytes := []
  autoApprovedTools : List Bytes := []
  alwaysAskTools : List Bytes := []
  deniedTools : List Bytes := []
  sandboxAllowDevices : List Bytes := []
  shellEnabled : Bool := false
  receiptsEnabled : Bool := false
  otpActions : List Bytes := []
  otpCode : Bytes := []
  otpEnabled : Bool := false

/-- `sc_security_tool_request`, without path, URL and shell command: their checks are skipped when they are
    empty. -/
structure ToolRequest where
  toolName : Bytes
  risk : ToolRisk
  deviceArg : Bytes := []
  otpCode : Bytes := []

/-- `tool_in_allowlist` -/
def toolInAllowlist (policy : RequestPolicy) (toolName : Bytes) : Bool :=
  if policy.allowedTools = [] then true else listContains policy.allowedTools toolName

/-- `sc_security_validate_tool` -/
def securityValidateTool (policy : RequestPolicy) (toolName : Bytes) : Res Unit :=
  if toolName = [] then Status.invalidArgument "sc.security.invalid_argument"
  else if listContains policy.deniedTools toolName then Status.securityDenied "sc.security.tool_denied"
  else if !toolInAllowlist policy toolName then Status.securityDenied "sc.security.tool_not_allowed"
  else .ok ()

/-- `validate_device_policy` -/
def validateDevicePolicy (policy : RequestPolicy) (request : ToolRequest) : Res Unit :=
  if policy.sandboxAllowDevices = [] ∨ request.deviceArg = [] then .ok ()
  else if listContains policy.sandboxAllowDevices (str "*") ∨
      listContains policy.sandboxAllowDevices request.deviceArg then .ok ()
  else Status.securityDenied "sc.security.device_not_allowed"

/-- `validate_otp_policy` -/
def validateOtpPolicy (policy : RequestPolicy) (request : ToolRequest) : Res Unit :=
  if !policy.otpEnabled then .ok ()
  else if !listContains policy.otpActions request.toolName then .ok ()
  else if policy.otpCode = [] then Status.securityDenied "sc.security.otp_unconfigured"
  else if request.otpCode = [] then Status.securityDenied "sc.security.otp_required"
  else if request.otpCode ≠ policy.otpCode then Status.securityDenied "sc.security.otp_invalid"
  else .ok ()

/-- `sc_security_requires_approval` -/
def securityRequiresApproval (policy : RequestPolicy) (risk : ToolRisk) : Bool :=
  match policy.autonomy with
  | .readOnly => risk != .readonly
  | .supervised => risk != .readonly && risk != .destructive && risk != .shell
  | .full => false

/-- `request_requires_approval` -/
def requestRequiresApproval (policy : RequestPolicy) (request : ToolRequest) : Bool :=
  if listContains policy.alwaysAskTools request.toolName then true
  else if listContains policy.autoApprovedTools request.toolName then false
  else securityRequiresApproval policy request.risk

/-- `sc_security_validate_request`: whether the request has to be approved. -/
def securityValidateRequest (policy : Option RequestPolicy) (estop : Option EstopState)
    (request : ToolRequest) : Res Bool :=
  match policy with
  | none => Status.invalidArgument "sc.security.invalid_argument"
  | some policy => do
      estopCheck estop
      securityValidateTool policy request.toolName
      if request.risk = .shell ∧ !policy.shellEnabled then Status.securityDenied "sc.security.shell_denied"
      else if policy.autonomy = .readOnly ∧ request.risk ≠ .readonly then
        Status.securityDenied "sc.security.read_only_denied"
      else if policy.autonomy = .supervised ∧ (request.risk = .destructive ∨ request.risk = .shell) ∧
          !listContains policy.autoApprovedTools request.toolName then
        Status.securityDenied "sc.security.high_risk_denied"
      else do
        validateDevicePolicy policy request
        validateOtpPolicy policy request
        .ok (requestRequiresApproval policy request)

/-- `sc_tool_security_check_ex`; `override` is the tool that `sc_tool_approval_override_set` names. -/
def toolSecurityCheckEx (policy : Option RequestPolicy) (estop : Option EstopState) (override : Bytes)
    (request : ToolRequest) : Res Unit := do
  let approvalRequired ← securityValidateRequest policy estop request
  if approvalRequired then
    if override = request.toolName then .ok () else Status.cancelled "sc.tool.approval_required"
  else .ok ()

/-- **A stop is on.** -/
def StopActive (estop : Option EstopState) : Prop := ∃ state, estop = some state ∧ state.active = true

/-- **A request is allowed**: the policy lets it pass, and it needs no approval or has one. -/
def RequestAllowed (policy : Option RequestPolicy) (estop : Option EstopState) (override : Bytes)
    (request : ToolRequest) : Prop :=
  ∃ approvalRequired, securityValidateRequest policy estop request = .ok approvalRequired ∧
    (approvalRequired = true → override = request.toolName)

/-- The status of a stop that is on. -/
def estopActiveError : ScError := ⟨.securityDenied, "sc.estop.active"⟩

theorem estopCheck_ok {estop : Option EstopState} : estopCheck estop = .ok () ↔ ¬StopActive estop := by
  cases estop with
  | none => exact iff_of_true rfl fun ⟨_, h, _⟩ => nomatch h
  | some state =>
    rw [estopCheck]
    by_cases hactive : state.active = true
    · rw [if_pos hactive]
      exact iff_of_false (fun h => nomatch h) fun h => h ⟨state, rfl, hactive⟩
    · rw [if_neg hactive]
      refine iff_of_true rfl fun ⟨state', hsome, hon⟩ => hactive ?_
      rw [Option.some.inj hsome]
      exact hon

theorem estopCheck_active {estop : Option EstopState} (h : StopActive estop) :
    estopCheck estop = .error estopActiveError := by
  obtain ⟨state, rfl, hactive⟩ := h
  rw [estopCheck, if_pos hactive]
  rfl

/-- **What a request that passes has passed**: an approval that it needs, and no stop. -/
theorem toolSecurityCheckEx_ok {policy : Option RequestPolicy} {estop : Option EstopState} {override : Bytes}
    {request : ToolRequest} :
    toolSecurityCheckEx policy estop override request = .ok () ↔
      RequestAllowed policy estop override request := by
  unfold toolSecurityCheckEx RequestAllowed
  rw [Res.bind_eq_ok]
  refine exists_congr fun approvalRequired => and_congr_right fun _ => ?_
  cases approvalRequired with
  | false => exact iff_of_true rfl fun h => nomatch h
  | true =>
    rw [if_pos rfl]
    by_cases hover : override = request.toolName
    · rw [if_pos hover]
      exact iff_of_true rfl fun _ => hover
    · rw [if_neg hover]
      exact iff_of_false (fun h => nomatch h) fun h => hover (h rfl)

/-- A request that is allowed is made while its stop is off. -/
theorem RequestAllowed.not_stopActive {policy : Option RequestPolicy} {estop : Option EstopState}
    {override : Bytes} {request : ToolRequest} (h : RequestAllowed policy estop override request) :
    ¬StopActive estop := by
  obtain ⟨approvalRequired, hvalid, -⟩ := h
  cases policy with
  | none => cases hvalid
  | some policy =>
    obtain ⟨_, hcheck, -⟩ := Res.bind_eq_ok.mp hvalid
    exact estopCheck_ok.mp hcheck

end SmolClaw.Security
