/-
  The hardware tools (`hardware_tool_invoke`, `src/hardware/hardware.c`).

  1. **Program** — a call reads its arguments, finds the device and the pin, asks the policy, sends a command
     to the board, and records a receipt.  A write that the policy rejects shuts the board down.

  2. **Specification** — `HardwareSound`: a write reaches a transport only for a pin that can be written, with
     the policy's leave and while no stop is on; a call that is rejected, but for a stop, leaves all pins as
     they were; and a call that reached a transport leaves one receipt.

  3. **Defects** — a pin that is named by its number is not asked for its capability; the stop of the hardware
     context is not looked at if the tool's context has one; every rejection of a write by the policy, and not
     only a stop, shuts the board down; and names that are too long for a buffer cost the receipt.

  4. **Result** — `hardwareSound_iff`: the specification is met along a run exactly if no call meets one of
     these.
-/
import SmolClaw.Hardware.Board
import SmolClaw.Lib.Run
import SmolClaw.Tools.Common

namespace SmolClaw.Hardware

open Lib.Run Security Tools

/-! ## Program -/

/-- `sc_hardware_device`; its peripheral is a board. -/
structure HardwareDevice where
  manifest : HardwareManifest
  peripheral : Nat

/-- `sc_hardware_context` -/
structure HardwareContext where
  enabled : Bool := true
  devices : List HardwareDevice := []
  estop : Option EstopState := none

/-- `sc_hardware_tools_enabled` -/
def hardwareToolsEnabled (hardware : HardwareContext) : Bool :=
  hardware.enabled && decide (0 < hardware.devices.length)

/-- `sc_hardware_context_find_device` -/
def hardwareContextFindDevice (hardware : HardwareContext) (deviceAlias : Bytes) : Option HardwareDevice :=
  hardware.devices.find? fun device => device.manifest.aliasName == deviceAlias

/-- A call of a hardware tool: the tool and its contexts as they are at the call, the arguments and the cancel
    token of the call, the approval that the thread holds, and the clock. -/
structure HardwareCall where
  write : Bool
  context : ToolContext
  hardware : HardwareContext
  args : Option Json
  cancelRequested : Option Bool := none
  approvalOverride : Bytes := []
  clock : Res Int64

/-- The boards, and the receipts. -/
structure HardwareState where
  boards : Nat → FakeBoard
  receipts : ReceiptChain

/-- The arguments as far as they were read, and the value to write. -/
structure HardwareArgs where
  device : Bytes := []
  pin : Bytes := []
  value : Res Bool

/-- The value to write. -/
def hardwareValue (args : Option Json) : Res Bool :=
  match toolGetStringArg args "value" with
  | (_, .error e) => .error e
  | (value, .ok ()) =>
      if value = str "true" then .ok true
      else if value = str "false" then .ok false
      else Status.parse "sc.hardware_tool.value_invalid"

/-- The first part of `hardware_tool_invoke`: what is read from the arguments. -/
def hardwareArgs (call : HardwareCall) : HardwareArgs :=
  if !hardwareToolsEnabled call.hardware then { value := Status.securityDenied "sc.hardware_tool.disabled" }
  else
    match toolGetStringArg call.args "device" with
    | (device, .error e) => { device := device, value := .error e }
    | (device, .ok ()) =>
        match toolGetStringArg call.args "pin" with
        | (pin, .error e) => { device := device, pin := pin, value := .error e }
        | (pin, .ok ()) =>
            { device := device, pin := pin
              value := if call.write then hardwareValue call.args else .ok false }

/-- The capability that a tool requires. -/
def HardwareCall.capability (call : HardwareCall) : UInt64 := if call.write then capGpioWrite else capGpioRead

/-- A device, one of its pins, and the value to write. -/
structure HardwareTarget where
  device : HardwareDevice
  rawPin : Nat
  value : Bool

/-- The second part: the device and the pin. -/
def hardwareTarget (call : HardwareCall) : Res HardwareTarget := do
  let value ← (hardwareArgs call).value
  match hardwareContextFindDevice call.hardware (hardwareArgs call).device with
  | none => Status.securityDenied "sc.hardware_tool.device_unknown"
  | some device =>
      let rawPin ← hardwareManifestResolvePin device.manifest (hardwareArgs call).pin call.capability
      .ok ⟨device, rawPin, value⟩

/-- The name of the tool. -/
def HardwareCall.toolName (call : HardwareCall) : Bytes :=
  if call.write then str "hardware.gpio_write" else str "hardware.gpio_read"

/-- What the policy is asked. -/
def HardwareCall.request (call : HardwareCall) : ToolRequest where
  toolName := call.toolName
  risk := if call.write then .sideEffect else .readonly
  deviceArg := (hardwareArgs call).device

/-- `sc_tool_security_check_ex` for the call. -/
def hardwareCheck (call : HardwareCall) : Res Unit :=
  toolSecurityCheckEx call.context.policy call.context.estop call.approvalOverride call.request

/-- The command that is sent; the stop is the tool's, or else the hardware's. -/
def hardwareCommand (call : HardwareCall) (target : HardwareTarget) : PeripheralCommand where
  write := call.write
  pin := target.rawPin
  value := target.value
  cancelRequested := (call.cancelRequested.or call.context.cancelRequested).getD false
  estop := call.context.estop.or call.hardware.estop
  expectedVendorId := target.device.manifest.vendorId
  expectedProductId := target.device.manifest.productId
  expectedSerialNumber := target.device.manifest.serialNumber

/-- The arguments in the receipt. -/
def receiptArgs (call : HardwareCall) (rawPin : Nat) : Bytes :=
  str "device=" ++ printedArg (hardwareArgs call).device ++ str " pin=" ++ printedArg (hardwareArgs call).pin ++
    str " raw=" ++ decimal rawPin

/-- What a call does: the state after it, its status with the answer of the board, and the requests that
    reached a transport. -/
structure InvokeOutcome where
  state : HardwareState
  status : Res Bytes
  reached : List SerialRequest := []

section

variable (hmac : Digest → Bytes → Digest)

/-- The last part: the receipt, whose arguments have to fit a buffer. -/
def hardwareReceipt (call : HardwareCall) (rawPin : Nat) (outcome : InvokeOutcome) : InvokeOutcome :=
  let summary := receiptArgs call rawPin
  if 128 ≤ summary.length then
    { outcome with status := outcome.status.bind fun _ => Status.io "sc.hardware_tool.summary_format_failed" }
  else
    let outputSummary := match outcome.status with
      | .ok payload => payload
      | .error _ => str "error"
    { outcome with
      state := { outcome.state with
        receipts := toolRecordReceiptStatus hmac call.context outcome.state.receipts call.toolName summary
          outputSummary outcome.status call.clock } }

/-- `hardware_tool_invoke` -/
def hardwareToolInvoke (s : HardwareState) (call : HardwareCall) : InvokeOutcome :=
  match hardwareTarget call with
  | .error e => hardwareReceipt hmac call 0 { state := s, status := .error e }
  | .ok target =>
      let board := s.boards target.device.peripheral
      match hardwareCheck call with
      | .error e =>
          let board := if call.write then fakeBoardSafeShutdown board else board
          hardwareReceipt hmac call target.rawPin {
            state := { s with boards := Function.update s.boards target.device.peripheral board }
            status := .error e }
      | .ok () =>
          let outcome := fakeBoardCommand board (hardwareCommand call target)
          hardwareReceipt hmac call target.rawPin {
            state := { s with boards := Function.update s.boards target.device.peripheral outcome.board }
            status := outcome.result
            reached := outcome.reached }

/-! ## Specification -/

/-- The values of the pins: a board has one. -/
def HardwareState.pinValue (s : HardwareState) (i : Nat) : Bool := (s.boards i).serial.gpioValue

/-- **What a write needs**: a pin that can be written under the number it was resolved to, the policy's
    leave, and no stop. -/
structure WriteGated (call : HardwareCall) (target : HardwareTarget) : Prop where
  writable : ∃ pin ∈ target.device.manifest.pins, pin.rawPin = target.rawPin ∧ pin.can capGpioWrite = true
  allowed : RequestAllowed call.context.policy call.context.estop call.approvalOverride call.request
  toolStop : ¬StopActive call.context.estop
  hardwareStop : ¬StopActive call.hardware.estop

/-- **Sound**: gated writes, rejections without effect, and receipts. -/
structure HardwareSound (s : HardwareState) (call : HardwareCall) : Prop where
  gated : ∀ pin value, .gpioWrite pin value ∈ (hardwareToolInvoke hmac s call).reached →
    ∃ target, hardwareTarget call = .ok target ∧ target.rawPin = pin ∧ WriteGated call target
  quiet : ∀ e, (hardwareToolInvoke hmac s call).status = .error e → e ≠ estopActiveError →
    ∀ i, (hardwareToolInvoke hmac s call).state.pinValue i = s.pinValue i
  receipted : (hardwareToolInvoke hmac s call).reached ≠ [] →
    (hardwareToolInvoke hmac s call).state.receipts.receipts.length = s.receipts.receipts.length + 1

/-- One more call. -/
def hardwareStep (s : HardwareState) (call : HardwareCall) : HardwareState :=
  (hardwareToolInvoke hmac s call).state

/-- The command gets through to the transport: it is not cancelled, a write finds no stop, the board is the
    expected one, and the number of the pin is in range. -/
structure Sends (s : HardwareState) (call : HardwareCall) (target : HardwareTarget) : Prop where
  running : (hardwareCommand call target).cancelRequested = false
  stop : call.write = true → ¬StopActive (call.context.estop.or call.hardware.estop)
  identity : hardwareValidateIdentity (s.boards target.device.peripheral).manifest
    target.device.manifest.vendorId target.device.manifest.productId target.device.manifest.serialNumber [] =
      .ok ()
  range : target.rawPin ≤ 100000

/-- **When a call is sound**: a write that the policy rejects meets no pin that a shutdown would switch off,
    and a call that gets through to a transport writes a pin that can be written while the hardware's stop is
    off, with room for the names in its receipt and a chain that takes it. -/
structure HardwareSafe (s : HardwareState) (call : HardwareCall) : Prop where
  denied : ∀ target e, hardwareTarget call = .ok target → hardwareCheck call = .error e → call.write = true →
    e ≠ estopActiveError → (s.boards target.device.peripheral).serial.safeShutdownSupported = true →
      s.pinValue target.device.peripheral = false
  writable : ∀ target, hardwareTarget call = .ok target → hardwareCheck call = .ok () → Sends s call target →
    call.write = true →
      (∃ pin ∈ target.device.manifest.pins, pin.rawPin = target.rawPin ∧ pin.can capGpioWrite = true) ∧
        ¬StopActive call.hardware.estop
  receipt : ∀ target, hardwareTarget call = .ok target → hardwareCheck call = .ok () → Sends s call target →
    (receiptArgs call target.rawPin).length < 128 ∧ call.context.keepsReceipts = true ∧
      s.receipts.keyInitialized = true ∧ ∃ now, call.clock = .ok now

/-! ## The command -/

theorem map_eq_error {α β : Type} {f : α → β} {result : Res α} {e : ScError}
    (h : result.map f = .error e) : result = .error e := by
  cases result with
  | error e' => exact congrArg Except.error (Except.error.inj h)
  | ok _ => cases h

/-- A frame that the fake transport fails with is no answer. -/
theorem failWithFrame_ok {frame : Bytes} {response : SerialResponse} (h : failWithFrame frame = .ok response) :
    response = .malformed := by
  obtain ⟨_, -, h⟩ := Res.bind_eq_ok.mp h
  exact (Except.ok.inj h).symm

/-- **A pin changes only with an acknowledgement**, and only by a write. -/
theorem fakeSerialExchange_value (serial : FakeSerial) (request : SerialRequest) :
    (fakeSerialExchange serial request).1.gpioValue = serial.gpioValue ∨
      (fakeSerialExchange serial request).2 = .ok .done := by
  unfold fakeSerialExchange
  split_ifs
  · exact Or.inl rfl
  · exact Or.inl rfl
  · exact Or.inl rfl
  · exact Or.inl rfl
  · exact Or.inl rfl
  · exact Or.inl rfl
  · exact Or.inl rfl
  · cases request with
    | gpioRead pin => exact Or.inl rfl
    | gpioWrite pin value => exact Or.inr rfl

theorem gpioWrite_error {serial : FakeSerial} {pin : Nat} {value : Bool} {e : ScError}
    (h : (hardwareProtocolGpioWrite serial pin value).2 = .error e) :
    (hardwareProtocolGpioWrite serial pin value).1.gpioValue = serial.gpioValue := by
  have hvalue := fakeSerialExchange_value serial (.gpioWrite pin value)
  unfold hardwareProtocolGpioWrite at h ⊢
  rcases hexchange : fakeSerialExchange serial (.gpioWrite pin value) with ⟨after, e' | response⟩
  · rw [hexchange] at hvalue
    exact hvalue.resolve_right fun hdone => nomatch hdone
  · rw [hexchange] at h hvalue
    cases response with
    | malformed => exact hvalue.resolve_right fun hdone => nomatch hdone
    | value _ => cases h
    | done => cases h

theorem gpioRead_value (serial : FakeSerial) (pin : Nat) :
    (hardwareProtocolGpioRead serial pin).1.gpioValue = serial.gpioValue := by
  have hread : (fakeSerialExchange serial (.gpioRead pin)).2 ≠ .ok .done := by
    unfold fakeSerialExchange
    split_ifs
    · exact fun h => nomatch h
    · exact fun h => nomatch h
    · exact fun h => nomatch failWithFrame_ok h
    · exact fun h => nomatch failWithFrame_ok h
    · exact fun h => nomatch failWithFrame_ok h
    · exact fun h => nomatch failWithFrame_ok h
    · exact fun h => nomatch h
    · exact fun h => nomatch h
  have hvalue := (fakeSerialExchange_value serial (.gpioRead pin)).resolve_right hread
  unfold hardwareProtocolGpioRead
  rcases hexchange : fakeSerialExchange serial (.gpioRead pin) with ⟨after, e' | response⟩
  · rw [hexchange] at hvalue
    exact hvalue
  · rw [hexchange] at hvalue
    cases response with
    | malformed => exact hvalue
    | value _ => exact hvalue
    | done => exact hvalue

/-- What a command does: it is stopped on its way, or it reaches the transport. -/
inductive CommandCase (s : HardwareState) (call : HardwareCall) (target : HardwareTarget)
    (outcome : CommandOutcome) : Prop where
  | stopped (e : ScError) (nothing : ¬Sends s call target) (reached : outcome.reached = [])
      (failed : outcome.result = .error e)
      (same : e ≠ estopActiveError →
        outcome.board.serial.gpioValue = (s.boards target.device.peripheral).serial.gpioValue)
  | sent (sends : Sends s call target)
      (reached : outcome.reached =
        [if call.write then .gpioWrite target.rawPin target.value else .gpioRead target.rawPin])
      (same : ∀ e, outcome.result = .error e →
        outcome.board.serial.gpioValue = (s.boards target.device.peripheral).serial.gpioValue)
      (short : ∀ payload, outcome.result = .ok payload → payload.length < 2 ^ 64)

/-- The answers are short. -/
theorem answer_length {α : Type} {f : α → Bytes} {result : Res α} {payload : Bytes}
    (hshort : ∀ a, (f a).length < 2 ^ 64) (h : result.map f = .ok payload) : payload.length < 2 ^ 64 := by
  cases result with
  | error e => cases h
  | ok a =>
    rw [← Except.ok.inj h]
    exact hshort a

theorem fakeBoardCommand_cases (s : HardwareState) (call : HardwareCall) (target : HardwareTarget) :
    CommandCase s call target
      (fakeBoardCommand (s.boards target.device.peripheral) (hardwareCommand call target)) := by
  generalize hboard : s.boards target.device.peripheral = board
  rw [fakeBoardCommand]
  by_cases hcancel : (hardwareCommand call target).cancelRequested = true
  · rw [if_pos hcancel]
    refine .stopped _ (fun h => ?_) rfl rfl fun _ => by rw [hboard]
    rw [h.running] at hcancel
    cases hcancel
  · rw [if_neg hcancel]
    by_cases hstop : call.write = true ∧ StopActive (call.context.estop.or call.hardware.estop)
    · have hcheck : (if (hardwareCommand call target).write then
          estopCheck (hardwareCommand call target).estop else .ok ()) = .error estopActiveError := by
        rw [if_pos (show (hardwareCommand call target).write = true from hstop.1)]
        exact estopCheck_active hstop.2
      rw [hcheck]
      refine .stopped estopActiveError (fun h => h.stop hstop.1 hstop.2) rfl rfl fun hne => absurd rfl hne
    · have hcheck : (if (hardwareCommand call target).write then
          estopCheck (hardwareCommand call target).estop else .ok ()) = .ok () := by
        by_cases hwrite : call.write = true
        · rw [if_pos (show (hardwareCommand call target).write = true from hwrite)]
          exact estopCheck_ok.mpr fun hactive => hstop ⟨hwrite, hactive⟩
        · rw [if_neg (show ¬(hardwareCommand call target).write = true from hwrite)]
      rw [hcheck]
      simp only
      cases hidentity : hardwareValidateIdentity board.manifest
          (hardwareCommand call target).expectedVendorId (hardwareCommand call target).expectedProductId
          (hardwareCommand call target).expectedSerialNumber [] with
      | error e =>
        refine .stopped e (fun h => ?_) rfl rfl fun _ => by rw [hboard]
        have hok := h.identity
        rw [hboard] at hok
        exact nomatch hidentity.symm.trans hok
      | ok _ =>
        simp only
        by_cases hrange : 100000 < target.rawPin
        · rw [if_pos (show 100000 < (hardwareCommand call target).pin from hrange)]
          refine .stopped _ (fun h => ?_) rfl rfl fun _ => by rw [hboard]
          have hle := h.range
          omega
        · rw [if_neg (show ¬100000 < (hardwareCommand call target).pin from hrange)]
          have hsends : Sends s call target := by
            refine ⟨by simpa using hcancel, fun hwrite hactive => hstop ⟨hwrite, hactive⟩, ?_, by omega⟩
            rw [hboard]
            exact hidentity
          by_cases hwrite : call.write = true
          · rw [if_pos (show (hardwareCommand call target).write = true from hwrite)]
            refine .sent hsends (by rw [if_pos hwrite]; rfl) (fun e he => ?_)
              fun payload => answer_length fun _ => by decide
            rw [hboard]
            exact gpioWrite_error (map_eq_error he)
          · rw [if_neg (show ¬(hardwareCommand call target).write = true from hwrite)]
            refine .sent hsends (by rw [if_neg hwrite]; rfl) (fun e _ => ?_)
              fun payload => answer_length (by decide)
            rw [hboard]
            exact gpioRead_value board.serial target.rawPin

/-! ## The receipt -/

section Receipt

variable (call : HardwareCall) (rawPin : Nat) (outcome : InvokeOutcome)

/-- The receipt is all that the last part adds. -/
theorem hardwareReceipt_frame :
    (hardwareReceipt hmac call rawPin outcome).state.boards = outcome.state.boards ∧
      (hardwareReceipt hmac call rawPin outcome).reached = outcome.reached := by
  simp only [hardwareReceipt]
  by_cases hlong : 128 ≤ (receiptArgs call rawPin).length
  · rw [if_pos hlong]
    exact ⟨rfl, rfl⟩
  · rw [if_neg hlong]
    exact ⟨rfl, rfl⟩

/-- A failure stays. -/
theorem hardwareReceipt_error {e : ScError} (h : outcome.status = .error e) :
    (hardwareReceipt hmac call rawPin outcome).status = .error e := by
  simp only [hardwareReceipt]
  by_cases hlong : 128 ≤ (receiptArgs call rawPin).length
  · rw [if_pos hlong]
    show outcome.status.bind _ = _
    rw [h]
    rfl
  · rw [if_neg hlong]
    exact h

theorem toolName_ne_nil : (sizedText call.toolName).bytes ≠ [] := by
  refine sizedText_ne_nil ?_
  rw [HardwareCall.toolName]
  split
  · decide
  · decide

/-- **When the call leaves a receipt.** -/
theorem hardwareReceipt_length (hshort : ∀ payload, outcome.status = .ok payload → payload.length < 2 ^ 64) :
    (hardwareReceipt hmac call rawPin outcome).state.receipts.receipts.length =
        outcome.state.receipts.receipts.length + 1 ↔
      (receiptArgs call rawPin).length < 128 ∧ call.context.keepsReceipts = true ∧
        outcome.state.receipts.keyInitialized = true ∧ ∃ now, call.clock = .ok now := by
  simp only [hardwareReceipt]
  by_cases hlong : 128 ≤ (receiptArgs call rawPin).length
  · rw [if_pos hlong]
    refine iff_of_false (fun h => ?_) fun h => by omega
    have hsame : outcome.state.receipts.receipts.length = outcome.state.receipts.receipts.length + 1 := h
    omega
  · rw [if_neg hlong]
    refine Iff.trans ?_ (and_iff_right (not_le.mp hlong)).symm
    refine toolRecordReceiptStatus_length hmac (toolName_ne_nil call) (by omega) ?_
    cases hstatus : outcome.status with
    | error e => show (str "error").length < 2 ^ 64; decide
    | ok payload => exact hshort payload hstatus

/-- With room for the names the status stays. -/
theorem hardwareReceipt_status (h : (receiptArgs call rawPin).length < 128) :
    (hardwareReceipt hmac call rawPin outcome).status = outcome.status := by
  simp only [hardwareReceipt]
  rw [if_neg (not_le.mpr h)]

end Receipt

/-! ## One call -/

/-- The pins after one board has changed. -/
theorem pinValue_update {s s' : HardwareState} {i : Nat} {board : FakeBoard}
    (h : s'.boards = Function.update s.boards i board) :
    (∀ j, s'.pinValue j = s.pinValue j) ↔ board.serial.gpioValue = s.pinValue i := by
  have hvalue : ∀ j, s'.pinValue j = if j = i then board.serial.gpioValue else s.pinValue j := by
    intro j
    rw [HardwareState.pinValue, h, Function.update_apply]
    split
    · rfl
    · rfl
  constructor
  · intro hall
    have hi := hall i
    rw [hvalue i, if_pos rfl] at hi
    exact hi
  · intro hi j
    rw [hvalue j]
    by_cases hji : j = i
    · rw [if_pos hji, hji]
      exact hi
    · rw [if_neg hji]

/-- A rejected write that a stop is not the reason of: what the shutdown does to the pin. -/
theorem fakeBoardSafeShutdown_value (board : FakeBoard) :
    (fakeBoardSafeShutdown board).serial.gpioValue = board.serial.gpioValue ↔
      (board.serial.safeShutdownSupported = true → board.serial.gpioValue = false) := by
  rw [fakeBoardSafeShutdown]
  cases board.serial.safeShutdownSupported with
  | false => exact iff_of_true rfl fun h => nomatch h
  | true =>
    show false = board.serial.gpioValue ↔ _
    exact ⟨fun h _ => h.symm, fun h => (h rfl).symm⟩

/-- A call that finds no device or no pin. -/
theorem hardwareSound_untargeted {s : HardwareState} {call : HardwareCall} {e : ScError}
    (h : hardwareTarget call = .error e) : HardwareSound hmac s call := by
  have hinvoke : hardwareToolInvoke hmac s call =
      hardwareReceipt hmac call 0 { state := s, status := .error e } := by
    rw [hardwareToolInvoke, h]
  obtain ⟨hboards, hreached⟩ := hardwareReceipt_frame hmac call 0 { state := s, status := .error e }
  refine ⟨fun pin value hmem => ?_, fun e' _ _ i => ?_, fun hne => absurd ?_ hne⟩
  · rw [hinvoke, hreached] at hmem
    exact absurd hmem List.not_mem_nil
  · rw [hinvoke, HardwareState.pinValue, hboards]
    rfl
  · rw [hinvoke, hreached]

/-- A call that the policy rejects. -/
theorem hardwareSound_denied {s : HardwareState} {call : HardwareCall} {target : HardwareTarget} {e : ScError}
    (htarget : hardwareTarget call = .ok target) (hcheck : hardwareCheck call = .error e) :
    HardwareSound hmac s call ↔
      (call.write = true → e ≠ estopActiveError →
        (s.boards target.device.peripheral).serial.safeShutdownSupported = true →
          s.pinValue target.device.peripheral = false) := by
  generalize hboard : (if call.write then fakeBoardSafeShutdown (s.boards target.device.peripheral)
    else s.boards target.device.peripheral) = board
  have hinvoke : hardwareToolInvoke hmac s call = hardwareReceipt hmac call target.rawPin {
      state := { s with boards := Function.update s.boards target.device.peripheral board }
      status := .error e } := by
    rw [hardwareToolInvoke, htarget]
    simp only [hcheck, hboard]
  obtain ⟨hboards, hreached⟩ := hardwareReceipt_frame hmac call target.rawPin {
    state := { s with boards := Function.update s.boards target.device.peripheral board }
    status := .error e }
  have hstatus : (hardwareToolInvoke hmac s call).status = .error e := by
    rw [hinvoke]
    exact hardwareReceipt_error hmac call target.rawPin _ rfl
  rw [← hinvoke] at hboards hreached
  have hpin : (∀ j, (hardwareToolInvoke hmac s call).state.pinValue j = s.pinValue j) ↔
      (call.write = true → (s.boards target.device.peripheral).serial.safeShutdownSupported = true →
        s.pinValue target.device.peripheral = false) := by
    rw [pinValue_update hboards, ← hboard]
    by_cases hwrite : call.write = true
    · rw [if_pos hwrite]
      exact (fakeBoardSafeShutdown_value _).trans ⟨fun h _ => h, fun h => h hwrite⟩
    · rw [if_neg hwrite]
      exact iff_of_true rfl fun h => absurd h hwrite
  constructor
  · intro h hwrite hne
    exact hpin.mp (h.quiet e hstatus hne) hwrite
  · intro h
    refine ⟨fun pin value hmem => ?_, fun e' he' hne => ?_, fun hne => absurd hreached hne⟩
    · rw [hreached] at hmem
      exact absurd hmem List.not_mem_nil
    · rw [hstatus] at he'
      rw [← Except.error.inj he'] at hne
      exact hpin.mpr fun hwrite => h hwrite hne

/-- A call that the policy lets pass: it is stopped on its way to the transport without effect, or gets there. -/
theorem hardwareSound_allowed {s : HardwareState} {call : HardwareCall} {target : HardwareTarget}
    (htarget : hardwareTarget call = .ok target) (hcheck : hardwareCheck call = .ok ()) :
    HardwareSound hmac s call ↔
      (Sends s call target →
        (call.write = true →
          (∃ pin ∈ target.device.manifest.pins, pin.rawPin = target.rawPin ∧ pin.can capGpioWrite = true) ∧
            ¬StopActive call.hardware.estop) ∧
        (receiptArgs call target.rawPin).length < 128 ∧ call.context.keepsReceipts = true ∧
          s.receipts.keyInitialized = true ∧ ∃ now, call.clock = .ok now) := by
  have hcase := fakeBoardCommand_cases s call target
  generalize hcommand : fakeBoardCommand (s.boards target.device.peripheral) (hardwareCommand call target) =
    outcome at hcase
  have hinvoke : hardwareToolInvoke hmac s call = hardwareReceipt hmac call target.rawPin {
      state := { s with boards := Function.update s.boards target.device.peripheral outcome.board }
      status := outcome.result
      reached := outcome.reached } := by
    rw [hardwareToolInvoke, htarget]
    simp only [hcheck, hcommand]
  obtain ⟨hboards, hreached⟩ := hardwareReceipt_frame hmac call target.rawPin {
    state := { s with boards := Function.update s.boards target.device.peripheral outcome.board }
    status := outcome.result
    reached := outcome.reached }
  rw [← hinvoke] at hboards hreached
  cases hcase with
  | stopped e nothing reached failed same =>
    have hstatus : (hardwareToolInvoke hmac s call).status = .error e := by
      rw [hinvoke]
      exact hardwareReceipt_error hmac call target.rawPin _ failed
    refine iff_of_true ?_ fun hsends => absurd hsends nothing
    refine ⟨fun pin value hmem => ?_, fun e' he' hne => ?_, fun hne => absurd (hreached.trans reached) hne⟩
    · rw [hreached, reached] at hmem
      exact absurd hmem List.not_mem_nil
    · rw [hstatus] at he'
      rw [← Except.error.inj he'] at hne
      exact (pinValue_update hboards).mpr (same hne)
  | sent sends reached same short =>
    have hlength := hardwareReceipt_length hmac call target.rawPin {
      state := { s with boards := Function.update s.boards target.device.peripheral outcome.board }
      status := outcome.result
      reached := outcome.reached } short
    rw [← hinvoke] at hlength
    have hsome : (hardwareToolInvoke hmac s call).reached ≠ [] := by
      rw [hreached, reached]
      exact List.cons_ne_nil _ _
    constructor
    · intro h _
      refine ⟨fun hwrite => ?_, hlength.mp (h.receipted hsome)⟩
      obtain ⟨target', htarget', -, hgated⟩ := h.gated target.rawPin target.value (by
        rw [hreached, reached, if_pos hwrite]
        exact List.mem_cons_self)
      rw [htarget] at htarget'
      rw [Except.ok.inj htarget']
      exact ⟨hgated.writable, hgated.hardwareStop⟩
    · intro h
      obtain ⟨hgate, hreceipt⟩ := h sends
      refine ⟨fun pin value hmem => ?_, fun e he _ => ?_, fun _ => hlength.mpr hreceipt⟩
      · rw [hreached, reached] at hmem
        by_cases hwrite : call.write = true
        · rw [if_pos hwrite] at hmem
          obtain ⟨hpin, -⟩ := SerialRequest.gpioWrite.inj (List.mem_singleton.mp hmem)
          obtain ⟨hwritable, hstop⟩ := hgate hwrite
          have hallowed := toolSecurityCheckEx_ok.mp hcheck
          exact ⟨target, htarget, hpin.symm, hwritable, hallowed, hallowed.not_stopActive, hstop⟩
        · rw [if_neg hwrite] at hmem
          exact nomatch List.mem_singleton.mp hmem
      · refine (pinValue_update hboards).mpr (same e ?_)
        rw [hinvoke, hardwareReceipt_status hmac call target.rawPin _ hreceipt.1] at he
        exact he

/-- **One call.** -/
theorem hardwareSound_call (s : HardwareState) (call : HardwareCall) :
    HardwareSound hmac s call ↔ HardwareSafe s call := by
  cases htarget : hardwareTarget call with
  | error e =>
    refine iff_of_true (hardwareSound_untargeted hmac htarget) ⟨?_, ?_, ?_⟩
    · exact fun target e' h => nomatch htarget.symm.trans h
    · exact fun target h => nomatch htarget.symm.trans h
    · exact fun target h => nomatch htarget.symm.trans h
  | ok target =>
    have honly : ∀ target', hardwareTarget call = .ok target' → target' = target := by
      intro target' h
      rw [htarget] at h
      exact (Except.ok.inj h).symm
    cases hcheck : hardwareCheck call with
    | error e =>
      rw [hardwareSound_denied hmac htarget hcheck]
      constructor
      · intro h
        refine ⟨fun target' e' h' he' => ?_, fun target' _ h' => (nomatch hcheck.symm.trans h'),
          fun target' _ h' => (nomatch hcheck.symm.trans h')⟩
        rw [honly target' h', ← Except.error.inj (hcheck.symm.trans he')]
        exact h
      · exact fun h => h.denied target e htarget hcheck
    | ok _ =>
      rw [hardwareSound_allowed hmac htarget hcheck]
      constructor
      · intro h
        refine ⟨fun target' e' _ he' => (nomatch hcheck.symm.trans he'), fun target' h' _ hsends => ?_,
          fun target' h' _ hsends => ?_⟩
        · rw [honly target' h'] at hsends ⊢
          exact (h hsends).1
        · rw [honly target' h'] at hsends ⊢
          exact (h hsends).2
      · exact fun h hsends => ⟨h.writable target htarget hcheck hsends, h.receipt target htarget hcheck hsends⟩

/-! ## Result -/

/-- **Sound along a run exactly if every call is safe**: over any sequence of calls, from any state of the
    boards and the receipts. -/
theorem hardwareSound_iff (s : HardwareState) (calls : List HardwareCall) :
    EachStep (hardwareStep hmac) (HardwareSound hmac) s calls ↔
      EachStep (hardwareStep hmac) HardwareSafe s calls :=
  eachStep_congr (I := fun _ => True) (hardwareStep hmac) (fun _ _ _ => trivial)
    (fun s call _ => hardwareSound_call hmac s call) calls s trivial

end

/-- A board whose only pin can be read but not written, and a manifest that allows numbers. -/
def readOnlyPin : HardwarePin := ⟨str "led", 13, capGpioRead, by decide, by decide⟩

def numberedManifest : HardwareManifest where
  aliasName := str "lab"
  allowRawPins := true
  pins := [readOnlyPin]

example : hardwareManifestAddPin { aliasName := str "lab", allowRawPins := true } (str "led") 13 capGpioRead =
    .ok numberedManifest := rfl

/-- A write to the pin by its number. -/
def numberedWrite : HardwareCall where
  write := true
  context := { policy := some { autonomy := .full, receiptsEnabled := true } }
  hardware := { devices := [⟨numberedManifest, 0⟩] }
  args := some (.object [(str "device", .string (str "lab")), (str "pin", .string (str "13")),
    (str "value", .string (str "true"))])
  clock := .ok 0

def labState : HardwareState where
  boards _ := { manifest := numberedManifest }
  receipts := receiptChainInit (some (Vector.replicate 32 0))

/-- **A pin that cannot be written is written**, by its number. -/
theorem not_hardwareSound_number :
    ¬EachStep (hardwareStep sampleHmac) (HardwareSound sampleHmac) labState [numberedWrite] := by
  intro h
  have hreached : (hardwareToolInvoke sampleHmac labState numberedWrite).reached = [.gpioWrite 13 true] := by
    decide +kernel
  obtain ⟨target, htarget, -, hgated⟩ := h.1.gated 13 true (by
    rw [hreached]
    exact List.mem_cons_self)
  obtain ⟨pin, hpin, -, hcan⟩ := hgated.writable
  have hpins : (match hardwareTarget numberedWrite with
      | .ok target => target.device.manifest.pins.all fun pin => !pin.can capGpioWrite
      | .error _ => false) = true := by
    decide +kernel
  rw [htarget] at hpins
  have hnot := List.all_eq_true.mp hpins pin hpin
  rw [hcan] at hnot
  cases hnot

end SmolClaw.Hardware
