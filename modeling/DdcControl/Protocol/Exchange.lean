import DdcControl.Protocol.Framing

/-!
# Exchanges over I2C

What the two programs do on the bus: the library's `ddcci_write` and `ddcci_read`, and
the scanner's `exchange`, which are one transaction each way. A transaction is a request
that is written, if the bus takes it, and a reply that is read, if there is one in a valid
frame.

## The model

`Bus` is whatever the bus does: a write is done or not, a read fills the buffer or fails.
The transactions made are recorded beside the state of the device. Waiting is left out.
-/

namespace DdcControl.Protocol

open Fallible

/-- `DEFAULT_DDCCI_ADDR`, `DDC_ADDRESS`. -/
def ddcAddress : UInt8 := 0x37

/-! ### Replies -/

/-- `u16::from_be_bytes`. -/
def fromBeBytes (high low : UInt8) : UInt16 := .ofNat (high.toNat * 256 + low.toNat)

/-- `VcpReply`. -/
structure VcpReply where
  supported : Bool
  value : UInt16
  maximum : UInt16
  deriving DecidableEq, Repr

/-- `parse_vcp_reply`. -/
def parseVcpReply (payload : List UInt8) (control : UInt8) : Except ProtocolError VcpReply :=
  match payload with
  | [command, result, code, _, maximumHigh, maximumLow, valueHigh, valueLow] => do
    reject (command ≠ 0x02) .unexpectedCommand
    reject (code ≠ control) .unexpectedControl
    return ⟨result = 0, fromBeBytes valueHigh valueLow, fromBeBytes maximumHigh maximumLow⟩
  | _ => throw .invalidReplyLength

/-- `parse_caps_reply`. -/
def parseCapsReply (payload : List UInt8) (offset : UInt16) : Except ProtocolError (List UInt8) :=
  match payload with
  | command :: high :: low :: fragment => do
    reject (payload.length > maxPayloadLen) .invalidReplyLength
    reject (command ≠ 0xe3) .unexpectedCommand
    reject (fromBeBytes high low ≠ offset) .unexpectedOffset
    return fragment
  | _ => throw .invalidReplyLength

/-! ### The bus -/

/-- An I2C bus: a write to an address is done or not, a read from one fills the buffer or
fails. An `ioctl` that does 0 messages is neither: the Rust backend reports it as a failure,
`i2c_write` and `i2c_read` take it for a success. -/
structure Bus (σ : Type) where
  write : UInt8 → List UInt8 → σ → Bool × σ
  read : UInt8 → (length : ℕ) → σ → Option (Vector UInt8 length) × σ

/-- A request, and the payload of the reply to it, if there was one in a valid frame. -/
structure Transaction where
  request : List UInt8
  reply : Option (List UInt8)
  deriving DecidableEq, Repr

/-- A device, with the transactions made with it. -/
structure Traced (σ : Type) where
  device : σ
  transactions : List Transaction

/-- One more transaction, which left the device so. -/
def Traced.record {σ : Type} (s : Traced σ) (device : σ) (request : List UInt8) (reply : Option (List UInt8)) : Traced σ :=
  ⟨device, s.transactions ++ [⟨request, reply⟩]⟩

section Bus

variable {σ : Type} (bus : Bus σ)

/-- `ddcci_write`. -/
def ddcciWrite (buf : List UInt8) (device : σ) : Bool × σ :=
  match buildFrame ddcAddress buf with
  | .error _ => (false, device)
  | .ok frame => bus.write ddcAddress frame.asBytes device

/-- `ddcci_read`. -/
def ddcciRead (len : ℕ) (device : σ) : Option (List UInt8) × σ :=
  match frameLength len with
  | .error _ => (none, device)
  | .ok frameLen =>
    match bus.read ddcAddress frameLen device with
    | (none, device) => (none, device)
    | (some frame, device) =>
      match parseFrame ddcAddress frame.toList len with
      | .error _ => (none, device)
      | .ok reply => (some reply.payload, device)

/-- A request, and the reply to it. -/
def ddcciExchange (buf : List UInt8) (len : ℕ) (s : Traced σ) : Option (List UInt8) × Traced σ :=
  match ddcciWrite bus buf s.device with
  | (false, device) => (none, s.record device buf none)
  | (true, device) =>
    match ddcciRead bus len device with
    | (reply, device) => (reply, s.record device buf reply)

/-- `ddcci_raw_readctrl`. -/
def ddcciRawReadctrl (ctrl : UInt8) (len : ℕ) (s : Traced σ) : Option (List UInt8) × Traced σ :=
  ddcciExchange bus [0x01, ctrl] len s

/-- `ddcci_raw_caps`. -/
def ddcciRawCaps (offset len : ℕ) (s : Traced σ) : Option (List UInt8) × Traced σ :=
  ddcciExchange bus [0xf3, .ofNat (offset >>> 8), .ofNat (offset &&& 255)] len s

/-- Why an exchange of the scanner has no result; `none` before the first. -/
inductive ExchangeError where
  | none
  | request (error : ProtocolError)
  | transfer
  | reply (error : ProtocolError)
  | control (error : ProtocolError)
  | fragment (error : ProtocolError)
  | limit
  deriving DecidableEq, Repr

/-- `exchange`. -/
def exchange (payload : List UInt8) (replySize : ℕ) (s : Traced σ) : Except ExchangeError (List UInt8) × Traced σ :=
  match buildFrame ddcAddress payload with
  | .error e => (.error (.request e), s.record s.device payload none)
  | .ok request =>
    match bus.write ddcAddress request.asBytes s.device with
    | (false, device) => (.error .transfer, s.record device payload none)
    | (true, device) =>
      match bus.read ddcAddress (replySize + frameOverhead) device with
      | (none, device) => (.error .transfer, s.record device payload none)
      | (some response, device) =>
        match parseFrame ddcAddress response.toList replySize with
        | .error e => (.error (.reply e), s.record device payload none)
        | .ok frame => (.ok frame.payload, s.record device payload (some frame.payload))

/-- **The two programs exchange alike.** -/
theorem ddcciExchange_eq (payload : List UInt8) {len : ℕ} (hlen : len ≤ maxPayloadLen)
    (s : Traced σ) :
    ddcciExchange bus payload len s = ((exchange bus payload len s).1.toOption,
      (exchange bus payload len s).2) := by
  unfold ddcciExchange ddcciWrite exchange
  cases buildFrame ddcAddress payload with
  | error e => rfl
  | ok request =>
    dsimp only
    rcases bus.write ddcAddress request.asBytes s.device with ⟨_ | _, device⟩
    · rfl
    unfold ddcciRead
    rw [frameLength_eq_ok hlen]
    dsimp only
    rcases bus.read ddcAddress (len + frameOverhead) device with ⟨_ | response, device⟩
    · rfl
    dsimp only
    cases parseFrame ddcAddress response.toList len <;> rfl

end Bus

end DdcControl.Protocol
