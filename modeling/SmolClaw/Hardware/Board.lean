/-
  Boards and their pins (`src/hardware/hardware.c`).

  1. **Manifest** — a manifest lists the pins of a board with their capabilities.
     `hardwareManifestResolvePin` takes the name of a pin, or its number if the manifest allows that; the
     capability is looked at for a name only.

  2. **Protocol** — a request to a transport is answered, or fails in one of the ways that the fake transport
     can be told to fail in.

  3. **Board** — `fakeBoardCommand` checks cancellation, the emergency stop, the identity and the payload,
     and then sends its request; a stop that is on shuts the board down.

  What is printed as JSON on one side and parsed again on the other is a value of a type here: the payload
  of a command, a request to the transport, and its answer.
-/
import SmolClaw.Core.Double
import SmolClaw.Security.Estop

namespace SmolClaw.Hardware

open Security

/-! ## Manifest -/

/-- `SC_HARDWARE_CAP_GPIO_READ` and `SC_HARDWARE_CAP_GPIO_WRITE` -/
def capGpioRead : UInt64 := 1
def capGpioWrite : UInt64 := 2

/-- `sc_hardware_pin`; `sc_hardware_manifest_add_pin` refuses other ones. -/
structure HardwarePin where
  aliasName : Bytes
  rawPin : Nat
  capabilities : UInt64
  named : aliasName ≠ []
  fits : rawPin < 2 ^ 31

/-- `sc_hardware_manifest`, as far as commands read it. -/
structure HardwareManifest where
  aliasName : Bytes
  allowRawPins : Bool := false
  pins : List HardwarePin := []
  vendorId : Bytes := []
  productId : Bytes := []
  serialNumber : Bytes := []
  protocol : Bytes := []

/-- `sc_hardware_manifest_add_pin`; the number is an `int`. -/
def hardwareManifestAddPin (manifest : HardwareManifest) (aliasName : Bytes) (rawPin : Int32)
    (capabilities : UInt64) : Res HardwareManifest :=
  if h : aliasName = [] ∨ rawPin.toInt < 0 then Status.invalidArgument "sc.hardware.manifest.pin_invalid"
  else
    have hfits : rawPin.toInt.toNat < 2 ^ 31 := by
      have hlt := rawPin.toInt_lt
      omega
    .ok { manifest with
      pins := manifest.pins ++ [⟨aliasName, rawPin.toInt.toNat, capabilities, fun h' => h (Or.inl h'), hfits⟩] }

/-- A pin has a capability. -/
def HardwarePin.can (pin : HardwarePin) (capability : UInt64) : Bool := pin.capabilities &&& capability != 0

/-- `str_to_int`: from what was read so far. -/
def strToIntFrom (value : Nat) : Bytes → Option Nat
  | [] => some value
  | c :: text =>
      if !isDigit c then none
      else if 100000 < value then none
      else strToIntFrom (value * 10 + (c.toNat - 48)) text

def strToInt (text : Bytes) : Option Nat := if text = [] then none else strToIntFrom 0 text

/-- `raw_pin_allowed` -/
def rawPinAllowed (manifest : HardwareManifest) (input : Bytes) : Option Nat :=
  if !manifest.allowRawPins then none
  else (strToInt input).filter fun pin => manifest.pins.any fun known => known.rawPin == pin

/-- `sc_hardware_manifest_resolve_pin` -/
def hardwareManifestResolvePin (manifest : HardwareManifest) (aliasOrPin : Bytes)
    (requiredCapability : UInt64) : Res Nat :=
  if aliasOrPin = [] then Status.invalidArgument "sc.hardware.pin.invalid_argument"
  else
    match manifest.pins.find? fun pin => pin.aliasName == aliasOrPin with
    | some pin =>
        if !pin.can requiredCapability then Status.securityDenied "sc.hardware.pin.capability_denied"
        else .ok pin.rawPin
    | none =>
        match rawPinAllowed manifest aliasOrPin with
        | some rawPin => .ok rawPin
        | none => Status.securityDenied "sc.hardware.pin.alias_invalid"

/-- `str_matches_if_present` -/
def strMatchesIfPresent (expected actual : Bytes) : Bool := expected == [] || expected == actual

/-- `hardware_validate_identity` -/
def hardwareValidateIdentity (manifest : HardwareManifest)
    (expectedVendorId expectedProductId expectedSerialNumber expectedProtocol : Bytes) : Res Unit :=
  if !strMatchesIfPresent expectedVendorId manifest.vendorId ||
      !strMatchesIfPresent expectedProductId manifest.productId ||
      !strMatchesIfPresent expectedSerialNumber manifest.serialNumber ||
      !strMatchesIfPresent expectedProtocol manifest.protocol then
    Status.securityDenied "sc.hardware.identity.mismatch"
  else .ok ()

/-! ## Protocol -/

/-- `sc_hardware_frame` -/
structure HardwareFrame where
  commandId : UInt8
  payload : Bytes
deriving DecidableEq

/-- `sc_hardware_protocol_frame_checksum` -/
def hardwareProtocolFrameChecksum (frame : Bytes) : UInt8 := frame.foldl (· + ·) 0

/-- `sc_hardware_protocol_parse_frame` -/
def hardwareProtocolParseFrame (frame : Bytes) (maxPayloadBytes : Nat) : Res HardwareFrame :=
  match frame with
  | [] => Status.invalidArgument "sc.hardware.protocol.frame.invalid_argument"
  | magic :: commandId :: high :: low :: rest =>
      if rest = [] then Status.parse "sc.hardware.protocol.frame.partial"
      else if magic ≠ 0x5a then Status.parse "sc.hardware.protocol.frame.magic_invalid"
      else if commandId < 1 ∨ 4 < commandId then
        Status.unsupported "sc.hardware.protocol.frame.command_unknown"
      else
        let payloadLen := high.toNat * 256 + low.toNat
        if maxPayloadBytes < payloadLen then Status.securityDenied "sc.hardware.protocol.frame.oversized"
        else if frame.length < payloadLen + 5 then Status.parse "sc.hardware.protocol.frame.partial"
        else if payloadLen + 5 < frame.length then Status.parse "sc.hardware.protocol.frame.length_invalid"
        else if hardwareProtocolFrameChecksum frame.dropLast ≠ frame.getLastD 0 then
          Status.parse "sc.hardware.protocol.frame.checksum_invalid"
        else .ok ⟨commandId, rest.take payloadLen⟩
  | _ => Status.parse "sc.hardware.protocol.frame.partial"

/-- The requests that commands send. -/
inductive SerialRequest
  | gpioRead (pin : Nat)
  | gpioWrite (pin : Nat) (value : Bool)
deriving DecidableEq

/-- The answers: a value, an acknowledgement, or a text that is no JSON. -/
inductive SerialResponse
  | value (value : Bool)
  | done
  | malformed
deriving DecidableEq

/-- `fake_serial` -/
structure FakeSerial where
  timeoutNext : Bool := false
  malformedNext : Bool := false
  gpioValue : Bool := false
  disappearNext : Bool := false
  partialReadNext : Bool := false
  badChecksumNext : Bool := false
  oversizedFrameNext : Bool := false
  unknownCommandNext : Bool := false
  safeShutdownSupported : Bool := true
  safeShutdownCalled : Bool := false

/-- The frames that the fake transport parses when it is told to fail. -/
def partialFrame : Bytes := [0x5a, 1, 0]
def badChecksumFrame : Bytes := [0x5a, 1, 0, 0, 0xff]
def oversizedFrame : Bytes := [0x5a, 3, 0, 0x20, 0]
def unknownFrame : Bytes := [0x5a, 0x7f, 0, 0, 0xd9]

/-- The frame is parsed and its status returned; a frame without fault would leave an empty answer. -/
def failWithFrame (frame : Bytes) : Res SerialResponse := do
  let _ ← hardwareProtocolParseFrame frame 16
  .ok .malformed

/-- `fake_serial_exchange` -/
def fakeSerialExchange (serial : FakeSerial) (request : SerialRequest) : FakeSerial × Res SerialResponse :=
  if serial.timeoutNext then ({ serial with timeoutNext := false }, Status.timeout "sc.fake_serial.timeout")
  else if serial.disappearNext then
    ({ serial with disappearNext := false }, Status.io "sc.fake_serial.disappeared")
  else if serial.partialReadNext then ({ serial with partialReadNext := false }, failWithFrame partialFrame)
  else if serial.badChecksumNext then
    ({ serial with badChecksumNext := false }, failWithFrame badChecksumFrame)
  else if serial.oversizedFrameNext then
    ({ serial with oversizedFrameNext := false }, failWithFrame oversizedFrame)
  else if serial.unknownCommandNext then
    ({ serial with unknownCommandNext := false }, failWithFrame unknownFrame)
  else if serial.malformedNext then ({ serial with malformedNext := false }, .ok .malformed)
  else
    match request with
    | .gpioRead _ => (serial, .ok (.value serial.gpioValue))
    | .gpioWrite _ value => ({ serial with gpioValue := value }, .ok .done)

/-- `sc_hardware_protocol_gpio_read` -/
def hardwareProtocolGpioRead (serial : FakeSerial) (pin : Nat) : FakeSerial × Res Bool :=
  match fakeSerialExchange serial (.gpioRead pin) with
  | (serial, .error e) => (serial, .error e)
  | (serial, .ok .malformed) => (serial, Status.parse "sc.hardware.protocol.malformed_response")
  | (serial, .ok .done) => (serial, Status.parse "sc.hardware.protocol.gpio_read_invalid")
  | (serial, .ok (.value value)) => (serial, .ok value)

/-- `sc_hardware_protocol_gpio_write` -/
def hardwareProtocolGpioWrite (serial : FakeSerial) (pin : Nat) (value : Bool) : FakeSerial × Res Unit :=
  match fakeSerialExchange serial (.gpioWrite pin value) with
  | (serial, .error e) => (serial, .error e)
  | (serial, .ok .malformed) => (serial, Status.parse "sc.hardware.protocol.malformed_response")
  | (serial, .ok _) => (serial, .ok ())

/-! ## Board -/

/-- `fake_board`, with its transport. -/
structure FakeBoard where
  manifest : HardwareManifest
  serial : FakeSerial := {}

/-- `sc_peripheral_command`; the payload is a pin, and the value to write. -/
structure PeripheralCommand where
  write : Bool
  pin : Nat
  value : Bool
  cancelRequested : Bool := false
  estop : Option EstopState := none
  expectedVendorId : Bytes := []
  expectedProductId : Bytes := []
  expectedSerialNumber : Bytes := []

/-- `fake_board_safe_shutdown`; its status is ignored everywhere. -/
def fakeBoardSafeShutdown (board : FakeBoard) : FakeBoard :=
  if !board.serial.safeShutdownSupported then board
  else { board with serial := { board.serial with gpioValue := false, safeShutdownCalled := true } }

/-- The text of a value that was read. -/
def valueText (value : Bool) : Bytes :=
  if value then str "\x7b\"value\":true\x7d" else str "\x7b\"value\":false\x7d"

/-- What a command does: the board after it, its result, and the requests that reached the transport. -/
structure CommandOutcome where
  board : FakeBoard
  result : Res Bytes
  reached : List SerialRequest := []

/-- `fake_board_command` -/
def fakeBoardCommand (board : FakeBoard) (command : PeripheralCommand) : CommandOutcome :=
  if command.cancelRequested then { board := board, result := Status.cancelled "sc.hardware.command.cancelled" }
  else
    match if command.write then estopCheck command.estop else .ok () with
    | .error e => { board := fakeBoardSafeShutdown board, result := .error e }
    | .ok () =>
        match hardwareValidateIdentity board.manifest command.expectedVendorId command.expectedProductId
          command.expectedSerialNumber [] with
        | .error e => { board := board, result := .error e }
        | .ok () =>
            if 100000 < command.pin then
              { board := board, result := Status.parse "sc.hardware.json.int_required" }
            else if command.write then
              let (serial, status) := hardwareProtocolGpioWrite board.serial command.pin command.value
              { board := { board with serial := serial }
                result := status.map fun _ => str "\x7b\"ok\":true\x7d"
                reached := [.gpioWrite command.pin command.value] }
            else
              let (serial, status) := hardwareProtocolGpioRead board.serial command.pin
              { board := { board with serial := serial }
                result := status.map valueText
                reached := [.gpioRead command.pin] }

end SmolClaw.Hardware
