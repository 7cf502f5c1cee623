import DdcControl.Library.Block
import DdcControl.Protocol.Collect
import DdcControl.Protocol.Control

/-!
# The bridge from C

The library calls the protocol functions from C: buffers are pointers with lengths, numbers
are wider than on the wire, and a negative result is an error.

## The model

Buffers are `Block`s, apart from each other, and a call that reads what it may not or
writes outside a buffer has no result. Lengths are naturals. What is called does not panic.

## What is proved

* `parseFrame_take` — a frame is in the bytes that the bridge looks at, or nowhere.
* `ddcciParseFrame_eq`, `ddcciBuildFrame_eq`, `ddcciParseVcp_eq`, `ddcciParseCapsReply_eq` —
  each call, from the protocol function.
* `ddcciParseVcp_refines`, `ddcciParseCapsReply_refines` — what the library's reads and
  collection are modelled with is what these calls do.
* `bridge_faithful` — each call does what its protocol function says.
-/

namespace DdcControl.Protocol.Bridge

open Fallible

/-! ### The calls -/

/-- `status`. -/
def status : ProtocolError → ℤ
  | .unexpectedAddress => -2
  | .payloadTooLong | .truncatedFrame | .payloadExceedsLimit => -3
  | .invalidChecksum => -4
  | _ => -1

/-- `address`. -/
def address (value : UInt32) : Except ℤ UInt8 := do
  reject (value > 0x7f) (-1)
  return value.toUInt8

/-- A number stored through a pointer, unless it is null. -/
def writeOptional {α : Type} (output : Block α) (a : α) : Option (Block α) :=
  if output.isNone then some output else output.overwrite [a]

/-- The payload of a request; a pointer to no elements is not read. -/
def readPayload (payload : Block UInt8) (payloadLen : ℕ) : Option (List UInt8) :=
  if payloadLen = 0 then some [] else payload.take payloadLen

/-- The payload copied, unless it is empty. -/
def copyPayload (reply : List UInt8) (payload : Block UInt8) : Option (Block UInt8) :=
  if reply.isEmpty then some payload else payload.overwrite reply

/-- `ddccontrol_ddcci_build_frame`: the result, and the frame buffer after the call. -/
def ddcciBuildFrame (addr : UInt32) (payload : Block UInt8) (payloadLen : ℕ) (frame : Block UInt8) (frameCapacity : ℕ) :
    Option (ℤ × Block UInt8) :=
  match address addr with
  | .error e => some (e, frame)
  | .ok addr =>
    match frameLength payloadLen with
    | .error e => some (status e, frame)
    | .ok len =>
      if frame.isNone || frameCapacity < len || (payload.isNone && payloadLen ≠ 0) then some (-1, frame)
      else do
        let payload ← readPayload payload payloadLen
        match buildFrame addr payload with
        | .error e => return (status e, frame)
        | .ok built => do
          let frame ← frame.overwrite (built.bytes.take len)
          return (len, frame)

/-- `ddccontrol_ddcci_parse_frame`: the result, and the payload and the flag after the call. -/
def ddcciParseFrame (addr : UInt32) (frame : Block UInt8) (frameLen : ℕ) (payload : Block UInt8) (payloadCapacity : ℕ)
    (missingLengthFlag : Block ℤ) : Option (ℤ × Block UInt8 × Block ℤ) :=
  match address addr with
  | .error e => some (e, payload, missingLengthFlag)
  | .ok addr =>
    if frame.isNone || (payload.isNone && payloadCapacity ≠ 0) then some (-1, payload, missingLengthFlag)
    else do
      let input ← frame.take (min frameLen maxFrameLen)
      match parseFrame addr input payloadCapacity with
      | .error e => return (status e, payload, missingLengthFlag)
      | .ok reply => do
        let payload ← copyPayload reply.payload payload
        let missingLengthFlag ← writeOptional missingLengthFlag (if reply.missingLengthFlag then 1 else 0)
        return (reply.payload.length, payload, missingLengthFlag)

/-- `ddccontrol_ddcci_parse_vcp`: the result, and the value and the maximum after the call. -/
def ddcciParseVcp (payload : Block UInt8) (payloadLen : ℕ) (control : UInt8) (value maximum : Block UInt16) :
    Option (ℤ × Block UInt16 × Block UInt16) :=
  if payload.isNone || payloadLen ≠ 8 then some (-1, value, maximum)
  else do
    let input ← payload.take payloadLen
    match parseVcpReply input control with
    | .error _ => return (-1, value, maximum)
    | .ok reply => do
      let value ← writeOptional value reply.value
      let maximum ← writeOptional maximum reply.maximum
      return (if reply.supported then 1 else 0, value, maximum)

/-- `ddccontrol_ddcci_parse_caps_reply`. -/
def ddcciParseCapsReply (payload : Block UInt8) (payloadLen : ℕ) (offset : UInt32) : Option ℤ :=
  if payload.isNone || !(3 ≤ payloadLen && payloadLen ≤ maxPayloadLen) then some (-1)
  else if offset > 0xffff then some (-1)
  else do
    let input ← payload.take payloadLen
    match parseCapsReply input offset.toUInt16 with
    | .error _ => return -1
    | .ok fragment => return fragment.length

/-! ### The bytes looked at -/

/-- **Only the bytes of the largest frame matter.** -/
theorem parseFrame_take (address : UInt8) (input : List UInt8) (payloadLimit : ℕ) :
    parseFrame address (input.take maxFrameLen) payloadLimit = parseFrame address input payloadLimit := by
  match input with
  | [] | [_] | [_, _] => rfl
  | first :: length :: b :: tail =>
    have hmax := (eq_lengthByte length).2
    have hhead : (first :: length :: b :: tail).take maxFrameLen =
        first :: length :: b :: tail.take maxPayloadLen := rfl
    have hlen : (length &&& ~~~lengthFlag).toNat + frameOverhead ≤ maxFrameLen :=
      Nat.add_le_add_right hmax _
    have htake : ∀ n ≤ maxFrameLen, (first :: length :: b :: tail.take maxPayloadLen).take n =
        (first :: length :: b :: tail).take n := by
      intro n hn
      rw [← hhead, List.take_take, min_eq_left hn]
    have hlength : (first :: length :: b :: tail.take maxPayloadLen).length <
        (length &&& ~~~lengthFlag).toNat + frameOverhead ↔
        (first :: length :: b :: tail).length < (length &&& ~~~lengthFlag).toNat + frameOverhead := by
      rw [← hhead, List.length_take]
      omega
    rw [hhead]
    simp only [parseFrame, hlength, htake _ hlen, htake _ ((Nat.sub_le _ _).trans hlen)]

/-! ### What is called -/

/-- The byte of an address; a number that is no byte is no address. -/
def byteAddress (addr : UInt32) : Except ProtocolError UInt8 :=
  if addr ≤ 0xff then .ok addr.toUInt8 else .error .invalidAddress

/-- The 16 bits of an offset; a number that does not fit is the offset of no reply. -/
def shortOffset (offset : UInt32) : Except ProtocolError UInt16 :=
  if offset ≤ 0xffff then .ok offset.toUInt16 else .error .unexpectedOffset

/-- A pointer to `n` writable elements, or a null pointer. -/
def Optional {α : Type} (block : Block α) (n : ℕ) : Prop := block = none ∨ block.Covers n

theorem status_neg (e : ProtocolError) : status e < 0 := by
  cases e <;> decide

/-- The bridge refuses the addresses that the protocol refuses. -/
theorem byteAddress_bind {α : Type} (addr : UInt32) (f : UInt8 → Except ProtocolError α)
    (hf : ∀ a, a > 0x7f → f a = .error .invalidAddress) :
    (address addr = .error (-1) ∧ (byteAddress addr >>= f) = .error .invalidAddress) ∨
      ∃ a ≤ 0x7f, address addr = .ok a ∧ (byteAddress addr >>= f) = f a := by
  by_cases hseven : addr > 0x7f
  · refine .inl ⟨by simp [address, hseven, reject], ?_⟩
    unfold byteAddress
    split_ifs with hbyte
    · rw [ok_bind]
      refine hf _ ?_
      rw [gt_iff_lt, UInt32.lt_iff_toNat_lt] at hseven
      rw [UInt32.le_iff_toNat_le] at hbyte
      rw [gt_iff_lt, UInt8.lt_iff_toNat_lt, UInt32.toNat_toUInt8]
      change 127 < addr.toNat at hseven
      change addr.toNat ≤ 255 at hbyte
      change 127 < addr.toNat % 256
      omega
    · rfl
  · have hsmall : ¬127 < addr.toNat := fun h => hseven (UInt32.lt_iff_toNat_lt.mpr h)
    refine .inr ⟨addr.toUInt8, ?_, by simp [address, hseven, reject], ?_⟩
    · rw [UInt8.le_iff_toNat_le, UInt32.toNat_toUInt8]
      change addr.toNat % 256 ≤ 127
      omega
    · have hbyte : addr ≤ 0xff := by
        rw [UInt32.le_iff_toNat_le]
        change addr.toNat ≤ 255
        omega
      rw [byteAddress, if_pos hbyte, ok_bind]

theorem parseFrame_invalidAddress {a : UInt8} (h : a > 0x7f) (input : List UInt8) (limit : ℕ) :
    parseFrame a input limit = .error .invalidAddress := by
  simp [parseFrame, wireAddress, h, reject]
  rfl

theorem buildFrame_invalidAddress {a : UInt8} (h : a > 0x7f) (payload : List UInt8) :
    buildFrame a payload = .error .invalidAddress := by
  simp [buildFrame, wireAddress, h, reject]
  rfl

theorem buildFrame_payloadTooLong {a : UInt8} (ha : a ≤ 0x7f) {payload : List UInt8}
    (h : maxPayloadLen < payload.length) : buildFrame a payload = .error .payloadTooLong := by
  rw [buildFrame, wireAddress_eq_ok.mpr ⟨ha, rfl⟩, ok_bind, dif_neg (Nat.not_le.mpr h)]
  rfl

theorem length_asBytes_ofRequest (seed : UInt8) (payload : List UInt8)
    (h : payload.length ≤ maxPayloadLen) :
    (Frame.ofRequest seed payload h).asBytes.length = payload.length + frameOverhead := by
  simp [asBytes_ofRequest, requestHead, frameOverhead]

theorem writeOptional_eq {α : Type} {output : Block α} (h : Optional output 1) (a : α) :
    writeOptional output a = some (output.replaced [a]) := by
  obtain rfl | hcovers := h
  · rfl
  · obtain ⟨elements, rfl, hlength⟩ := id hcovers
    exact hcovers.overwrite (l := [a]) Nat.le.refl

theorem copyPayload_eq {reply : List UInt8} {payload : Block UInt8} {capacity : ℕ}
    (hpayload : payload.Covers capacity ∨ (payload = none ∧ capacity = 0))
    (h : reply.length ≤ capacity) :
    copyPayload reply payload = some (payload.replaced reply) := by
  unfold copyPayload
  split_ifs with hempty
  · rw [List.isEmpty_iff.mp hempty, Block.replaced_nil]
  · obtain hcovers | ⟨-, rfl⟩ := hpayload
    · exact hcovers.overwrite h
    · exact absurd (List.isEmpty_iff.mpr (List.length_eq_zero_iff.mp (Nat.le_zero.mp h))) hempty

/-! ### What the calls do -/

/-- **`ddccontrol_ddcci_parse_frame` is `parse_frame` on all of the input.** -/
theorem ddcciParseFrame_eq (addr : UInt32) {frame : Block UInt8} {input : List UInt8}
    (hframe : frame.take (min input.length maxFrameLen) = some (input.take maxFrameLen))
    {payload : Block UInt8} {capacity : ℕ}
    (hpayload : payload.Covers capacity ∨ (payload = none ∧ capacity = 0)) {flag : Block ℤ}
    (hflag : Optional flag 1) :
    ddcciParseFrame addr frame input.length payload capacity flag =
      some (match byteAddress addr >>= fun a => parseFrame a input capacity with
        | .ok reply => (reply.payload.length, payload.replaced reply.payload,
            flag.replaced [if reply.missingLengthFlag then 1 else 0])
        | .error e => (status e, payload, flag)) := by
  unfold ddcciParseFrame
  obtain ⟨haddress, hbyte⟩ | ⟨a, -, haddress, hbyte⟩ :=
    byteAddress_bind addr (fun a => parseFrame a input capacity)
    fun a ha => parseFrame_invalidAddress ha input capacity
  · rw [haddress, hbyte]
    rfl
  rw [haddress, hbyte]
  have hnull : (frame.isNone || (payload.isNone && decide (capacity ≠ 0))) = false := by
    rw [Block.take_isSome hframe, Bool.false_or]
    obtain ⟨elements, rfl, -⟩ | ⟨rfl, rfl⟩ := hpayload <;> rfl
  simp only [hnull, Bool.false_eq_true, if_false, hframe, Option.bind_eq_bind, Option.bind_some,
    parseFrame_take]
  cases hparse : parseFrame a input capacity with
  | error e => rfl
  | ok reply =>
    obtain ⟨-, hlimit, -⟩ := parseFrame_eq_ok.mp hparse
    have hlength : reply.payload.length ≤ capacity := hlimit.trans (min_le_left ..)
    simp only [copyPayload_eq hpayload hlength, writeOptional_eq hflag, Option.bind_some]
    rfl

/-- A null buffer is refused. -/
theorem ddcciParseFrame_null (addr : UInt32) {frame : Block UInt8} (frameLen : ℕ)
    {payload : Block UInt8} {capacity : ℕ} (flag : Block ℤ)
    (h : frame = none ∨ (payload = none ∧ capacity ≠ 0)) :
    ddcciParseFrame addr frame frameLen payload capacity flag = some (-1, payload, flag) := by
  have hnull : (frame.isNone || (payload.isNone && decide (capacity ≠ 0))) = true := by
    obtain rfl | ⟨rfl, hcapacity⟩ := h
    · rfl
    · simp [hcapacity]
  unfold ddcciParseFrame
  obtain ⟨haddress, -⟩ | ⟨a, -, haddress, -⟩ :=
    byteAddress_bind addr (fun a => parseFrame a [] capacity)
    fun a ha => parseFrame_invalidAddress ha [] capacity
  · rw [haddress]
  · rw [haddress]
    simp only [hnull, if_true]

/-- **`ddccontrol_ddcci_build_frame` is `build_frame`**, where there is room for the frame. -/
theorem ddcciBuildFrame_eq (addr : UInt32) {payload : Block UInt8} {bytes : List UInt8}
    (hpayload : bytes = [] ∨ maxPayloadLen < bytes.length ∨ payload.take bytes.length = some bytes)
    {frame : Block UInt8} {capacity : ℕ} (hframe : Optional frame capacity) :
    ddcciBuildFrame addr payload bytes.length frame capacity =
      some (match byteAddress addr >>= fun a => buildFrame a bytes with
        | .ok built =>
          if frame.isNone || capacity < built.asBytes.length then (-1, frame)
          else (built.asBytes.length, frame.replaced built.asBytes)
        | .error e => (status e, frame)) := by
  unfold ddcciBuildFrame
  obtain ⟨haddress, hbyte⟩ | ⟨a, ha, haddress, hbyte⟩ :=
    byteAddress_bind addr (fun a => buildFrame a bytes)
    fun a ha => buildFrame_invalidAddress ha bytes
  · rw [haddress, hbyte]
    rfl
  rw [haddress, hbyte]
  by_cases hmax : bytes.length ≤ maxPayloadLen
  case neg =>
    rw [buildFrame_payloadTooLong ha (Nat.not_le.mp hmax),
      frameLength_eq_error (Nat.not_le.mp hmax)]
  have hbuilt : buildFrame a bytes = .ok (.ofRequest (a <<< 1) bytes hmax) :=
    buildFrame_eq_ok.mpr ⟨ha, hmax, rfl⟩
  have htake : bytes = [] ∨ payload.take bytes.length = some bytes := by
    obtain hempty | hlong | htake := hpayload
    · exact .inl hempty
    · omega
    · exact .inr htake
  have hread : readPayload payload bytes.length = some bytes := by
    unfold readPayload
    split_ifs with hempty
    · rw [List.length_eq_zero_iff.mp hempty]
    · exact htake.resolve_left fun h => hempty (List.length_eq_zero_iff.mpr h)
  have hnull : (payload.isNone && decide (bytes.length ≠ 0)) = false := by
    obtain rfl | htake := htake
    · simp
    · rw [Block.take_isSome htake, Bool.false_and]
  simp only [frameLength_eq_ok hmax, hbuilt, hnull, Bool.or_false, length_asBytes_ofRequest, hread,
    Option.bind_eq_bind, Option.bind_some]
  split_ifs with hroom
  · rfl
  · simp only [Bool.or_eq_true, decide_eq_true_eq, not_or, Nat.not_lt] at hroom
    obtain rfl | hcovers := hframe
    · exact absurd rfl hroom.1
    · have hframe := hcovers.overwrite (l := (Frame.ofRequest (a <<< 1) bytes hmax).asBytes)
        (by rw [length_asBytes_ofRequest]; exact hroom.2)
      change (frame.overwrite (Frame.ofRequest (a <<< 1) bytes hmax).asBytes).bind _ = _
      rw [hframe]
      rfl

/-- A null pointer to a payload that is not empty is refused. -/
theorem ddcciBuildFrame_null (addr : UInt32) {payloadLen : ℕ} (h : 0 < payloadLen)
    (hmax : payloadLen ≤ maxPayloadLen) (frame : Block UInt8) (capacity : ℕ) :
    ddcciBuildFrame addr none payloadLen frame capacity = some (-1, frame) := by
  have hnull : ((none : Block UInt8).isNone && decide (payloadLen ≠ 0)) = true := by simp; omega
  unfold ddcciBuildFrame
  obtain ⟨haddress, -⟩ | ⟨a, -, haddress, -⟩ := byteAddress_bind addr (fun a => buildFrame a [])
    fun a ha => buildFrame_invalidAddress ha []
  · rw [haddress]
  · rw [haddress]
    simp only [frameLength_eq_ok hmax, hnull, Bool.or_true, if_true]

section Vcp

variable {payload : Block UInt8} {bytes : List UInt8}
  (hpayload : bytes.length = 8 → payload.take bytes.length = some bytes) (control : UInt8)
  {value maximum : Block UInt16} (hvalue : Optional value 1) (hmaximum : Optional maximum 1)

include hpayload hvalue hmaximum

/-- **`ddccontrol_ddcci_parse_vcp` is `parse_vcp_reply`.** -/
theorem ddcciParseVcp_eq :
    ddcciParseVcp payload bytes.length control value maximum =
      some (match parseVcpReply bytes control with
        | .ok reply => (if reply.supported then 1 else 0, value.replaced [reply.value],
          maximum.replaced [reply.maximum])
        | .error _ => (-1, value, maximum)) := by
  unfold ddcciParseVcp
  by_cases hlength : bytes.length = 8
  · have htake := hpayload hlength
    simp only [Block.take_isSome htake, hlength, ne_eq, not_true, decide_false, Bool.or_false,
      Bool.false_eq_true, if_false]
    rw [← hlength, htake, Option.bind_eq_bind, Option.bind_some]
    cases parseVcpReply bytes control with
    | error e => rfl
    | ok reply =>
      simp only [writeOptional_eq hvalue, writeOptional_eq hmaximum]
      rfl
  · have hreply : parseVcpReply bytes control = .error .invalidReplyLength := by
      unfold parseVcpReply
      split
      · exact absurd rfl hlength
      · rfl
    simp [hlength, hreply]

/-- The library reads controls through it. -/
theorem ddcciParseVcp_refines :
    ddcciParseVcp payload bytes.length control value maximum =
      some (match Protocol.ddcciParseVcp bytes control with
        | some reply => (if reply.supported then 1 else 0, value.replaced [reply.value],
          maximum.replaced [reply.maximum])
        | none => (-1, value, maximum)) := by
  rw [ddcciParseVcp_eq hpayload control hvalue hmaximum, Protocol.ddcciParseVcp]
  cases parseVcpReply bytes control <;> rfl

end Vcp

theorem parseCapsReply_length {bytes : List UInt8}
    (h : ¬(3 ≤ bytes.length ∧ bytes.length ≤ maxPayloadLen)) (offset : UInt16) :
    parseCapsReply bytes offset = .error .invalidReplyLength := by
  match bytes with
  | [] | [_] | [_, _] => rfl
  | command :: high :: low :: fragment =>
    have hlong : (command :: high :: low :: fragment).length > maxPayloadLen :=
      Nat.not_le.mp fun hmax => h ⟨by simp, hmax⟩
    rw [parseCapsReply, reject, decide_eq_true hlong]
    rfl

section CapsReply

variable {payload : Block UInt8} {bytes : List UInt8}
  (hpayload : 3 ≤ bytes.length → bytes.length ≤ maxPayloadLen → payload.take bytes.length = some bytes)
  (offset : UInt32)

include hpayload

/-- **`ddccontrol_ddcci_parse_caps_reply` is `parse_caps_reply`**, at an offset of 16 bits. -/
theorem ddcciParseCapsReply_eq :
    ddcciParseCapsReply payload bytes.length offset =
      some (match shortOffset offset >>= parseCapsReply bytes with
        | .ok fragment => fragment.length
        | .error _ => -1) := by
  unfold ddcciParseCapsReply
  by_cases hlength : 3 ≤ bytes.length ∧ bytes.length ≤ maxPayloadLen
  · have htake := hpayload hlength.1 hlength.2
    simp only [Block.take_isSome htake, hlength.1, hlength.2, decide_true, Bool.and_self,
      Bool.not_true, Bool.or_self, Bool.false_eq_true, if_false, shortOffset]
    by_cases hoffset : offset > 0xffff
    · rw [if_pos hoffset, if_neg (UInt32.not_le.mpr hoffset)]
      rfl
    · rw [if_neg hoffset, if_pos (UInt32.not_lt.mp hoffset), htake, ok_bind, Option.bind_eq_bind,
        Option.bind_some]
      cases parseCapsReply bytes offset.toUInt16 <;> rfl
  · have hreply : ∀ o, parseCapsReply bytes o = .error .invalidReplyLength :=
      fun o => parseCapsReply_length hlength o
    have hrange : (decide (3 ≤ bytes.length) && decide (bytes.length ≤ maxPayloadLen)) = false := by
      simpa using fun h => Nat.not_le.mp fun h' => hlength ⟨h, h'⟩
    rw [hrange, Bool.not_false, Bool.or_true, if_pos rfl]
    unfold shortOffset
    split_ifs
    · rw [ok_bind, hreply]
    · rfl

/-- The library collects the capabilities through it. -/
theorem ddcciParseCapsReply_refines :
    ddcciParseCapsReply payload bytes.length offset =
      some (match Protocol.ddcciParseCapsReply bytes offset.toNat with
        | some fragment => fragment.length
        | none => -1) := by
  rw [ddcciParseCapsReply_eq hpayload, Protocol.ddcciParseCapsReply, shortOffset]
  by_cases hoffset : offset ≤ 0xffff
  · have hnat : ¬offset.toNat > 0xffff := Nat.not_lt.mpr (UInt32.le_iff_toNat_le.mp hoffset)
    have hshort : offset.toUInt16 = .ofNat offset.toNat := rfl
    rw [if_pos hoffset, if_neg hnat, ok_bind, hshort]
    cases parseCapsReply bytes (.ofNat offset.toNat) <;> rfl
  · have hnat : offset.toNat > 0xffff := Nat.not_le.mp fun h =>
      hoffset (UInt32.le_iff_toNat_le.mpr h)
    rw [if_neg hoffset, if_pos hnat]
    rfl

end CapsReply

/-- **The bridge is faithful, and writes nothing on an error.** -/
theorem bridge_faithful (addr : UInt32) :
    (∀ (frame : Block UInt8) (input : List UInt8) (payload : Block UInt8) (capacity : ℕ) (flag : Block ℤ),
      frame.take (min input.length maxFrameLen) = some (input.take maxFrameLen) →
      (payload.Covers capacity ∨ (payload = none ∧ capacity = 0)) → Optional flag 1 →
      match byteAddress addr >>= fun a => parseFrame a input capacity with
      | .ok reply => reply.payload.length ≤ capacity ∧
          ddcciParseFrame addr frame input.length payload capacity flag =
            some ((reply.payload.length : ℤ), payload.replaced reply.payload,
              flag.replaced [if reply.missingLengthFlag then 1 else 0])
      | .error e => status e < 0 ∧
          ddcciParseFrame addr frame input.length payload capacity flag = some (status e, payload, flag)) ∧
    (∀ (address : UInt8) (input : List UInt8) (limit : ℕ),
      parseFrame address (input.take maxFrameLen) limit = parseFrame address input limit) ∧
    (∀ (payload : Block UInt8) (bytes : List UInt8) (frame : Block UInt8) (capacity : ℕ),
      bytes = [] ∨ maxPayloadLen < bytes.length ∨ payload.take bytes.length = some bytes →
        Optional frame capacity →
      match byteAddress addr >>= fun a => buildFrame a bytes with
      | .ok built =>
          ddcciBuildFrame addr payload bytes.length frame capacity =
            some (if frame.isNone || capacity < built.asBytes.length then ((-1 : ℤ), frame)
              else (built.asBytes.length, frame.replaced built.asBytes))
      | .error e => status e < 0 ∧
          ddcciBuildFrame addr payload bytes.length frame capacity = some (status e, frame)) ∧
    (∀ (payload : Block UInt8) (bytes : List UInt8) (control : UInt8) (value maximum : Block UInt16),
      (bytes.length = 8 → payload.take bytes.length = some bytes) → Optional value 1 →
        Optional maximum 1 →
      ddcciParseVcp payload bytes.length control value maximum =
        some (match parseVcpReply bytes control with
          | .ok reply =>
            (if reply.supported then 1 else 0, value.replaced [reply.value], maximum.replaced [reply.maximum])
          | .error _ => (-1, value, maximum))) ∧
    (∀ (payload : Block UInt8) (bytes : List UInt8) (offset : UInt32),
      (3 ≤ bytes.length → bytes.length ≤ maxPayloadLen → payload.take bytes.length = some bytes) →
      ddcciParseCapsReply payload bytes.length offset =
        some (match shortOffset offset >>= parseCapsReply bytes with
          | .ok fragment => fragment.length
          | .error _ => -1)) ∧
    -- null pointers
    (∀ (frame payload : Block UInt8) (frameLen capacity : ℕ) (flag : Block ℤ),
      frame = none ∨ (payload = none ∧ capacity ≠ 0) →
      ddcciParseFrame addr frame frameLen payload capacity flag = some (-1, payload, flag)) ∧
    (∀ (payloadLen capacity : ℕ) (frame : Block UInt8), 0 < payloadLen → payloadLen ≤ maxPayloadLen →
      ddcciBuildFrame addr none payloadLen frame capacity = some (-1, frame)) := by
  refine ⟨fun frame input payload capacity flag hframe hpayload hflag => ?_, parseFrame_take,
    fun payload bytes frame capacity hpayload hframe => ?_,
    fun payload bytes control value maximum hpayload hvalue hmaximum =>
      ddcciParseVcp_eq hpayload control hvalue hmaximum,
    fun payload bytes offset hpayload => ddcciParseCapsReply_eq hpayload offset,
    fun frame payload frameLen capacity flag h => ddcciParseFrame_null addr frameLen flag h,
    fun payloadLen capacity frame h hmax => ddcciBuildFrame_null addr h hmax frame capacity⟩
  · have hparse := ddcciParseFrame_eq addr hframe hpayload hflag
    cases hreply : byteAddress addr >>= fun a => parseFrame a input capacity with
    | error e => exact ⟨status_neg e, by rw [hparse, hreply]⟩
    | ok reply =>
      obtain ⟨a, -, hreply'⟩ := bind_eq_ok.mp hreply
      obtain ⟨-, hlimit, -⟩ := parseFrame_eq_ok.mp hreply'
      exact ⟨hlimit.trans (min_le_left ..), by rw [hparse, hreply]⟩
  · have hbuild := ddcciBuildFrame_eq addr hpayload hframe
    cases hbuilt : byteAddress addr >>= fun a => buildFrame a bytes with
    | error e => exact ⟨status_neg e, by rw [hbuild, hbuilt]⟩
    | ok built => rw [hbuild, hbuilt]

/-- A null reply with padding, a request, a reading, an offset too large, and null pointers. -/
theorem bridge_faithful_display :
    ddcciParseFrame 0x37 (.written [0x6e, 0x80, 0xbe, 0x00]) 4 none 0 (.written [7]) = some (0, none, .written [0]) ∧
    ddcciBuildFrame 0x37 (.written [0x01, 0x10]) 2 (.written (List.replicate 5 0)) 5 =
      some (5, .written [0x51, 0x82, 0x01, 0x10, 0xac]) ∧
    ddcciParseVcp (.written [0x02, 0, 0x10, 0, 0, 100, 0, 50]) 8 0x10 none (.written [0]) =
      some (1, none, .written [100]) ∧
    ddcciParseCapsReply (.written [0xe3, 0, 5]) 3 0x10005 = some (-1) ∧
    ddcciParseFrame 0x37 none 4 none 0 (.written [7]) = some (-1, none, .written [7]) ∧
    ddcciBuildFrame 0x37 none 1 none 5 = some (-1, none) :=
  have h := bridge_faithful 0x37
  ⟨(h.1 _ [0x6e, 0x80, 0xbe, 0x00] none 0 _ rfl (.inr ⟨rfl, rfl⟩) (.inr ⟨_, rfl, Nat.le.refl⟩)).2,
    h.2.2.1 (.written [0x01, 0x10]) [0x01, 0x10] _ 5 (.inr (.inr rfl))
      (.inr ⟨List.replicate 5 (some 0), rfl, Nat.le.refl⟩),
    h.2.2.2.1 _ [0x02, 0, 0x10, 0, 0, 100, 0, 50] 0x10 none _ (fun _ => rfl) (.inl rfl)
      (.inr ⟨_, rfl, Nat.le.refl⟩),
    h.2.2.2.2.1 _ [0xe3, 0, 5] 0x10005 fun _ _ => rfl,
    h.2.2.2.2.2.1 none none 4 0 _ (.inl rfl),
    h.2.2.2.2.2.2 1 5 none (by decide) (by decide)⟩

end DdcControl.Protocol.Bridge
