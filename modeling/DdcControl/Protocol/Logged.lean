import DdcControl.Protocol.Control
import DdcControl.Protocol.Collect

/-!
# What is heard on the bus

A read of a control must not take the answer to another request for its own. A bus with a
log beside it records every write and every read with the bytes themselves; a transaction
leaves one of three things in the log, and what comes of it is a function of that.

`Answers` is what the reply to a read of a control looks like, byte for byte.

## What is proved

* `exchange_logged` — what an exchange leaves in the log, and its result.
* `answers_iff` — which bytes the frame and reply parsers take, and for what.
* `ddcciReadctrl_logged`, `retryFrom_logged` — the library reads a control in one
  transaction, and what the tries of an operation of the scanner leave in the log.
-/

namespace DdcControl.Protocol

open Fallible

/-! ### The log -/

/-- What is done on a bus. -/
inductive BusEvent where
  | write (address : UInt8) (bytes : List UInt8) (done : Bool)
  | read (address : UInt8) (bytes : Option (List UInt8))
  deriving DecidableEq, Repr

/-- A bus, with a log of what is done on it. -/
def Bus.logged {σ : Type} (bus : Bus σ) : Bus (σ × List BusEvent) where
  write address bytes s :=
    let (done, device) := bus.write address bytes s.1
    (done, device, s.2 ++ [.write address bytes done])
  read address length s :=
    let (buf, device) := bus.read address length s.1
    (buf, device, s.2 ++ [.read address (buf.map Vector.toList)])

section Logged

variable {σ : Type} (bus : Bus σ)

theorem Bus.logged_write (address : UInt8) (bytes : List UInt8) (s : σ × List BusEvent) :
    bus.logged.write address bytes s = ((bus.write address bytes s.1).1, (bus.write address bytes s.1).2,
      s.2 ++ [.write address bytes (bus.write address bytes s.1).1]) := rfl

theorem Bus.logged_read (address : UInt8) (length : ℕ) (s : σ × List BusEvent) :
    bus.logged.read address length s = ((bus.read address length s.1).1, (bus.read address length s.1).2,
      s.2 ++ [.read address ((bus.read address length s.1).1.map Vector.toList)]) := rfl

end Logged

/-- The log of a traced device. -/
def Traced.log {σ : Type} (s : Traced (σ × List BusEvent)) : List BusEvent := s.device.2

/-- What a transaction hears: the request was not written, the reply was not read, or
bytes were read. -/
inductive Heard where
  | notWritten
  | notRead
  | frame (bytes : List UInt8)
  deriving DecidableEq, Repr

/-- The bytes of a request with this payload. -/
def requestFrame (payload : List UInt8) : List UInt8 :=
  requestHead payload ++ [checksum (ddcAddress <<< 1) (requestHead payload)]

/-- What a transaction leaves in the log. -/
def Heard.events (payload : List UInt8) : Heard → List BusEvent
  | .notWritten => [.write ddcAddress (requestFrame payload) false]
  | .notRead => [.write ddcAddress (requestFrame payload) true, .read ddcAddress none]
  | .frame bytes => [.write ddcAddress (requestFrame payload) true, .read ddcAddress (some bytes)]

/-- What `exchange` makes of it. -/
def Heard.result (replySize : ℕ) : Heard → Except ExchangeError (List UInt8)
  | .notWritten => .error .transfer
  | .notRead => .error .transfer
  | .frame bytes =>
    match parseFrame ddcAddress bytes replySize with
    | .error e => .error (.reply e)
    | .ok reply => .ok reply.payload

/-- An exchange is one transaction. -/
theorem exchange_logged {σ : Type} (bus : Bus σ) {payload : List UInt8}
    (hlen : payload.length ≤ maxPayloadLen) (replySize : ℕ) (s : Traced (σ × List BusEvent)) :
    ∃ heard : Heard, (exchange bus.logged payload replySize s).1 = heard.result replySize ∧
      (exchange bus.logged payload replySize s).2.log = s.log ++ heard.events payload := by
  have hframe : buildFrame ddcAddress payload = .ok (.ofRequest (ddcAddress <<< 1) payload hlen) :=
    buildFrame_eq_ok.mpr ⟨by decide, hlen, rfl⟩
  unfold exchange
  rw [hframe]
  dsimp only
  rw [asBytes_ofRequest, Bus.logged_write]
  rcases bus.write ddcAddress (requestHead payload ++
    [checksum (ddcAddress <<< 1) (requestHead payload)]) s.device.1 with
    ⟨_ | _, device⟩
  · exact ⟨.notWritten, rfl, rfl⟩
  dsimp only
  rw [Bus.logged_read]
  rcases bus.read ddcAddress (replySize + frameOverhead) device with ⟨_ | response, device⟩
  · exact ⟨.notRead, rfl, by simp [Heard.events, requestFrame, Traced.log, Traced.record]⟩
  refine ⟨.frame response.toList, ?_⟩
  simp only [Heard.result, Heard.events]
  cases parseFrame ddcAddress response.toList replySize with
  | error e => exact ⟨rfl, by simp [requestFrame, Traced.log, Traced.record]⟩
  | ok frame => exact ⟨rfl, by simp [requestFrame, Traced.log, Traced.record]⟩

/-! ### Answers -/

/-- Bytes that start with the answer to a read of a control: a frame that adds up to zero,
with the opcode, the result, the control and the two numbers. -/
def Answers (control : UInt8) (bytes : List UInt8) (reply : VcpReply) : Prop :=
  ∃ length result type maximumHigh maximumLow valueHigh valueLow sum : UInt8,
    let frame := [0x6e, length, 0x02, result, control, type, maximumHigh, maximumLow, valueHigh, valueLow, sum]
    frame <+: bytes ∧ length &&& 0x7f = 8 ∧ frame.foldl (· ^^^ ·) 0x50 = 0 ∧ (reply.supported = true ↔ result = 0) ∧
      reply.maximum.toNat = maximumHigh.toNat * 256 + maximumLow.toNat ∧ reply.value.toNat = valueHigh.toNat * 256 + valueLow.toNat

theorem fromBeBytes_toNat (high low : UInt8) :
    (fromBeBytes high low).toNat = high.toNat * 256 + low.toNat := by
  have hhigh := high.toNat_lt
  have hlow := low.toNat_lt
  rw [fromBeBytes, UInt16.toNat_ofNat_of_lt']
  show _ < 65536
  omega

/-- What the reply parser takes. -/
theorem parseVcpReply_eq_ok {payload : List UInt8} {control : UInt8} {reply : VcpReply} :
    parseVcpReply payload control = .ok reply ↔
      ∃ result type maximumHigh maximumLow valueHigh valueLow : UInt8,
        payload = [0x02, result, control, type, maximumHigh, maximumLow, valueHigh, valueLow] ∧
          reply = ⟨result = 0, fromBeBytes valueHigh valueLow,
            fromBeBytes maximumHigh maximumLow⟩ := by
  constructor
  · intro h
    unfold parseVcpReply at h
    split at h
    · rename_i command result code type maximumHigh maximumLow valueHigh valueLow
      simp only [bind_eq_ok, reject_eq_ok, decide_eq_false_iff_not, not_not] at h
      obtain ⟨-, rfl, -, rfl, h⟩ := h
      cases h
      exact ⟨result, type, maximumHigh, maximumLow, valueHigh, valueLow, rfl, rfl⟩
    · cases h
  · rintro ⟨result, type, maximumHigh, maximumLow, valueHigh, valueLow, rfl, rfl⟩
    simp only [parseVcpReply, bind_eq_ok, reject_eq_ok, decide_eq_false_iff_not, not_not]
    exact ⟨(), trivial, (), trivial, rfl⟩

/-- **The bytes that are taken for the reply to a read of a control are its answer**, and
the reply is what the answer says. -/
theorem answers_iff {control : UInt8} {bytes : List UInt8} {reply : VcpReply} :
    Answers control bytes reply ↔
      ∃ frame, parseFrame ddcAddress bytes 8 = .ok frame ∧ parseVcpReply frame.payload control = .ok reply := by
  simp only [parseFrame_eq_ok, parseVcpReply_eq_ok]
  constructor
  · rintro ⟨length, result, type, maximumHigh, maximumLow, valueHigh, valueLow, sum, hframe,
      hlength, hsum, hsupported,
      hmaximum, hvalue⟩
    obtain ⟨hflag, -⟩ := eq_lengthByte length
    rw [show (length &&& ~~~lengthFlag).toNat = 8 from congrArg UInt8.toNat hlength] at hflag
    let payload := [0x02, result, control, type, maximumHigh, maximumLow, valueHigh, valueLow]
    have hhead : replyHead ddcAddress ⟨payload, length &&& lengthFlag = 0⟩ = 0x6e :: length :: payload := by
      show [ddcAddress <<< 1, lengthByte _ 8] ++ payload = _
      rw [hflag]
      rfl
    refine ⟨⟨payload, length &&& lengthFlag = 0⟩, ⟨by decide, (by decide : 8 ≤ min 8 maxPayloadLen),
      ?_⟩, result, type,
      maximumHigh, maximumLow, valueHigh, valueLow, rfl, ?_⟩
    · have hclosed : sum = checksum replyChecksumSeed (0x6e :: length :: payload) :=
        checksum_eq_zero_iff.mp hsum
      rw [replyFrame, hhead, ← hclosed]
      exact hframe
    · rcases reply with ⟨supported, value, maximum⟩
      rw [← fromBeBytes_toNat, UInt16.toNat_inj] at hmaximum hvalue
      rw [VcpReply.mk.injEq]
      exact ⟨by rw [Bool.eq_iff_iff, decide_eq_true_iff]; exact hsupported, hvalue, hmaximum⟩
  · rintro ⟨⟨payload, missing⟩, ⟨-, -, hframe⟩, result, type, maximumHigh, maximumLow, valueHigh,
      valueLow, rfl, rfl⟩
    have hlength : ∀ missing, lengthByte missing 8 &&& 0x7f = 8 := by decide
    exact ⟨_, result, type, maximumHigh, maximumLow, valueHigh, valueLow, _, hframe,
      hlength missing,
      checksum_replyFrame ddcAddress ⟨_, missing⟩, decide_eq_true_iff, fromBeBytes_toNat .., fromBeBytes_toNat ..⟩

/-- The reply to a read of a control that a transaction gives, if it does. -/
def Heard.vcp (control : UInt8) (heard : Heard) : Option VcpReply :=
  (heard.result 8).toOption.bind fun payload => ddcciParseVcp payload control

/-- A transaction gives a reply if it hears the answer. -/
theorem Heard.vcp_eq_some {control : UInt8} {heard : Heard} {reply : VcpReply} :
    heard.vcp control = some reply ↔ ∃ bytes, heard = .frame bytes ∧ Answers control bytes reply := by
  simp only [answers_iff]
  cases heard with
  | notWritten => exact iff_of_false nofun nofun
  | notRead => exact iff_of_false nofun nofun
  | frame bytes =>
    simp only [Heard.vcp, Heard.result, Heard.frame.injEq, exists_eq_left']
    cases parseFrame ddcAddress bytes 8 with
    | error e => exact iff_of_false nofun nofun
    | ok frame =>
      simp only [Except.ok.injEq, exists_eq_left', ddcciParseVcp, Except.toOption, Option.bind_some]
      cases parseVcpReply frame.payload control <;> simp

/-- **What `ddcci_readctrl` stores is what its one transaction answers.** -/
theorem ddcciReadctrl_logged {σ : Type} (bus : Bus σ) (control : UInt8)
    (s : Traced (σ × List BusEvent)) :
    ∃ heard : Heard, (ddcciReadctrl bus.logged control s).1 = heard.vcp control ∧
      (ddcciReadctrl bus.logged control s).2.log = s.log ++ heard.events [0x01, control] := by
  obtain ⟨heard, hresult, hlog⟩ := exchange_logged bus (show [0x01,
    control].length ≤ maxPayloadLen by simp [maxPayloadLen]) 8 s
  refine ⟨heard, ?_⟩
  unfold ddcciReadctrl ddcciRawReadctrl Heard.vcp
  rw [ddcciExchange_eq bus.logged _ (by decide), hresult, ← hlog]
  cases heard.result 8 <;> exact ⟨rfl, rfl⟩

/-! ### Tries -/

/-- What the tries of an operation leave in the log, if each leaves what it hears: tries
that gave nothing, and one that gave the result, if there is a result. -/
theorem retryFrom_logged {α σ : Type}
    {operation : Traced (σ × List BusEvent) → Except ExchangeError α × Traced (σ × List BusEvent)}
    {payload : List UInt8} {given : Heard → Option α}
    (h : ∀ s, ∃ heard : Heard, (operation s).1.toOption = given heard ∧ (operation s).2.log =
    s.log ++ heard.events payload)
    (tries : ℕ) (e : ExchangeError) (s : Traced (σ × List BusEvent)) :
    ∃ (failed : List Heard) (last : Option Heard), (retryFrom operation tries e s).1.toOption = last.bind given ∧
      (retryFrom operation tries e s).2.log = s.log ++ (failed ++ last.toList).flatMap (Heard.events payload) ∧
      failed.length + last.toList.length ≤ tries ∧ (∀ heard ∈ failed, given heard = none) ∧
      ∀ heard ∈ last, (given heard).isSome := by
  induction tries generalizing e s with
  | zero => exact ⟨[], none, rfl, by simp [retryFrom], by simp, nofun, nofun⟩
  | succ tries ih =>
    obtain ⟨heard, hgiven, hlog⟩ := h s
    unfold retryFrom
    rcases hrun : operation s with ⟨e' | value, s'⟩
    · rw [hrun] at hgiven hlog
      obtain ⟨failed, last, hresult, hlogs, hlength, hfailed, hlast⟩ := ih e' s'
      refine ⟨heard :: failed, last, hresult, ?_, ?_, ?_, hlast⟩
      · rw [hlogs, hlog, List.append_assoc, List.cons_append, List.flatMap_cons]
      · rw [List.length_cons]
        omega
      · exact List.forall_mem_cons.mpr ⟨hgiven.symm, hfailed⟩
    · rw [hrun] at hgiven hlog
      refine ⟨[], some heard, hgiven, ?_, ?_, nofun, ?_⟩
      · rw [hlog]
        simp
      · simp
      · rintro _ ⟨⟩
        rw [← hgiven]
        rfl

end DdcControl.Protocol
