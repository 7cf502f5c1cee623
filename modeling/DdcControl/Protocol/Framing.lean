import DdcControl.Library.Fallible
import Mathlib.Order.MinMax

/-!
# DDC/CI frames

A DDC/CI message is framed by a source address, a length byte, and a checksum: the XOR
of all bytes of the frame and of an address that the message does not carry. `buildFrame`
frames a request, `parseFrame` takes the frame of a reply off the bytes that were read,
which may go on after it.

## What is proved

* `buildFrame_eq_ok` — which requests have a frame, and which frame.
* `parseFrame_eq_ok` — what is accepted starts with the frame of the reply.
* `framing_exact` — both, and that a frame with a byte changed is rejected.
-/

namespace DdcControl.Protocol

open Fallible

/-- `MAX_PAYLOAD_LEN`. -/
def maxPayloadLen : ℕ := 127

/-- `FRAME_OVERHEAD`. -/
def frameOverhead : ℕ := 3

/-- `MAX_FRAME_LEN`. -/
def maxFrameLen : ℕ := maxPayloadLen + frameOverhead

/-- `HOST_ADDRESS`. -/
def hostAddress : UInt8 := 0x51

/-- `LENGTH_FLAG`. -/
def lengthFlag : UInt8 := 0x80

/-- `REPLY_CHECKSUM_SEED`. -/
def replyChecksumSeed : UInt8 := 0x50

/-- `Error`. -/
inductive ProtocolError where
  | invalidAddress
  | payloadTooLong
  | truncatedFrame
  | unexpectedAddress
  | payloadExceedsLimit
  | invalidChecksum
  | invalidReplyLength
  | unexpectedCommand
  | unexpectedControl
  | unexpectedOffset
  deriving DecidableEq, Repr

/-- A complete request: its bytes at the head of an array of the largest frame's length. -/
structure Frame where
  bytes : List UInt8
  len : ℕ
  length_bytes : bytes.length = maxFrameLen
  len_le : len ≤ maxFrameLen

/-- `Frame::as_bytes`. -/
def Frame.asBytes (frame : Frame) : List UInt8 := frame.bytes.take frame.len

/-- `Reply`. -/
structure Reply where
  payload : List UInt8
  missingLengthFlag : Bool
  deriving DecidableEq, Repr

/-- `frame_length`. -/
def frameLength (payloadLen : ℕ) : Except ProtocolError ℕ := do
  reject (payloadLen > maxPayloadLen) .payloadTooLong
  return payloadLen + frameOverhead

/-- `wire_address`. -/
def wireAddress (address : UInt8) : Except ProtocolError UInt8 := do
  reject (address > 0x7f) .invalidAddress
  return address <<< 1

/-- `checksum`. -/
def checksum (seed : UInt8) (bytes : List UInt8) : UInt8 := bytes.foldl (· ^^^ ·) seed

/-- The bytes of a request before its checksum. -/
def requestHead (payload : List UInt8) : List UInt8 :=
  hostAddress :: (lengthFlag ||| .ofNat payload.length) :: payload

/-- The frame of a request, in its array. -/
def Frame.ofRequest (seed : UInt8) (payload : List UInt8) (h : payload.length ≤ maxPayloadLen) : Frame where
  bytes := requestHead payload ++ [checksum seed (requestHead payload)] ++
    List.replicate (maxPayloadLen - payload.length) 0
  len := payload.length + frameOverhead
  length_bytes := by simp [requestHead, maxFrameLen, frameOverhead]; omega
  len_le := by unfold maxFrameLen; omega

/-- `build_frame`. -/
def buildFrame (address : UInt8) (payload : List UInt8) : Except ProtocolError Frame := do
  let seed ← wireAddress address
  if h : payload.length ≤ maxPayloadLen then return .ofRequest seed payload h
  else throw .payloadTooLong

/-- `parse_frame`. -/
def parseFrame (address : UInt8) (input : List UInt8) (payloadLimit : ℕ) : Except ProtocolError Reply := do
  let expectedAddress ← wireAddress address
  match input with
  | first :: length :: _ :: _ => do
    reject (first ≠ expectedAddress) .unexpectedAddress
    let payloadLen := (length &&& ~~~lengthFlag).toNat
    reject (payloadLen > payloadLimit) .payloadExceedsLimit
    let len := payloadLen + frameOverhead
    reject (input.length < len) .truncatedFrame
    reject (checksum replyChecksumSeed (input.take len) ≠ 0) .invalidChecksum
    return ⟨(input.take (len - 1)).drop 2, length &&& lengthFlag = 0⟩
  | _ => throw .truncatedFrame

/-! ### Bytes -/

/-- What holds of the 256 bytes holds of every byte. -/
theorem forall_byte {P : UInt8 → Prop} (h : ∀ n < 256, P (.ofNat n)) (b : UInt8) : P b := by
  have := h b.toNat b.toNat_lt
  rwa [UInt8.ofNat_toNat] at this

/-- A length byte: with the flag, or without it. -/
def lengthByte (missing : Bool) (n : ℕ) : UInt8 := if missing then .ofNat n else lengthFlag ||| .ofNat n

theorem lengthByte_payload {missing : Bool} {n : ℕ} (hn : n ≤ maxPayloadLen) :
    (lengthByte missing n &&& ~~~lengthFlag).toNat = n := by
  have hall : ∀ missing : Bool, ∀ n < 128, (lengthByte missing n &&& ~~~lengthFlag).toNat = n := by decide +kernel
  exact hall missing n (by unfold maxPayloadLen at hn; omega)

theorem lengthByte_flag {missing : Bool} {n : ℕ} (hn : n ≤ maxPayloadLen) :
    decide (lengthByte missing n &&& lengthFlag = 0) = missing := by
  have hall : ∀ missing : Bool, ∀ n < 128, decide (lengthByte missing n &&& lengthFlag =
      0) = missing := by decide +kernel
  exact hall missing n (by unfold maxPayloadLen at hn; omega)

/-- Every byte is the length byte of what is read from it. -/
theorem eq_lengthByte (b : UInt8) :
    lengthByte (b &&& lengthFlag = 0)
      (b &&& ~~~lengthFlag).toNat = b ∧ (b &&& ~~~lengthFlag).toNat ≤ maxPayloadLen := by
  revert b
  refine forall_byte ?_
  decide +kernel

/-! ### Checksums -/

@[simp] theorem checksum_nil (seed : UInt8) : checksum seed [] = seed := rfl

@[simp] theorem checksum_cons (seed b : UInt8) (bytes : List UInt8) :
    checksum seed (b :: bytes) = b ^^^ checksum seed bytes := by
  show checksum (seed ^^^ b) bytes = _
  induction bytes generalizing seed with
  | nil => exact UInt8.xor_comm seed b
  | cons c bytes ih =>
    show checksum (seed ^^^ b ^^^ c) bytes = b ^^^ checksum (seed ^^^ c) bytes
    rw [← ih, UInt8.xor_assoc, UInt8.xor_comm b c, UInt8.xor_assoc]

@[simp] theorem checksum_append (seed : UInt8) (bytes bytes' : List UInt8) :
    checksum seed (bytes ++ bytes') = checksum (checksum seed bytes) bytes' := List.foldl_append

/-- A checksum closes the bytes it is of. -/
theorem checksum_eq_zero_iff {seed c : UInt8} {bytes : List UInt8} :
    checksum seed (bytes ++ [c]) = 0 ↔ c = checksum seed bytes := by
  rw [checksum_append, checksum_cons, checksum_nil, UInt8.xor_eq_zero_iff]

/-- A byte that is changed changes the checksum. -/
theorem checksum_set_ne {seed b : UInt8} {bytes : List UInt8} {i : ℕ} (hi : i < bytes.length)
    (hb : b ≠ bytes[i]) :
    checksum seed (bytes.set i b) ≠ checksum seed bytes := by
  induction bytes generalizing i with
  | nil => simp at hi
  | cons c bytes ih =>
    cases i with
    | zero => simpa using hb
    | succ i => simpa using ih (by simpa using hi) (by simpa using hb)

/-! ### Requests -/

theorem frameLength_eq_ok {payloadLen : ℕ} (h : payloadLen ≤ maxPayloadLen) :
    frameLength payloadLen = .ok (payloadLen + frameOverhead) := by
  rw [frameLength, reject, decide_eq_false (Nat.not_lt.mpr h)]
  rfl

theorem frameLength_eq_error {payloadLen : ℕ} (h : maxPayloadLen < payloadLen) :
    frameLength payloadLen = .error .payloadTooLong := by
  rw [frameLength, reject, decide_eq_true h]
  rfl

theorem wireAddress_eq_ok {address seed : UInt8} :
    wireAddress address = .ok seed ↔ address ≤ 0x7f ∧ seed = address <<< 1 := by
  simp only [wireAddress, bind_eq_ok, reject_eq_ok, decide_eq_false_iff_not,
    gt_iff_lt, UInt8.not_lt]
  constructor
  · rintro ⟨-, haddress, h⟩
    cases h
    exact ⟨haddress, rfl⟩
  · rintro ⟨haddress, rfl⟩
    exact ⟨(), haddress, rfl⟩

/-- The array of a request starts with its frame. -/
theorem asBytes_ofRequest (seed : UInt8) (payload : List UInt8)
    (h : payload.length ≤ maxPayloadLen) :
    (Frame.ofRequest seed payload h).asBytes = requestHead payload ++ [checksum seed (requestHead payload)] := by
  show (requestHead payload ++ [checksum seed (requestHead payload)] ++ _).take _ = _
  rw [List.take_append_of_le_length (by simp [requestHead, Frame.ofRequest, frameOverhead]),
    List.take_of_length_le]
  simp [requestHead, Frame.ofRequest, frameOverhead]

theorem buildFrame_eq_ok {address : UInt8} {payload : List UInt8} {frame : Frame} :
    buildFrame address payload = .ok frame ↔ address ≤ 0x7f ∧
    ∃ h, frame = .ofRequest (address <<< 1) payload h := by
  simp only [buildFrame, bind_eq_ok, wireAddress_eq_ok]
  constructor
  · rintro ⟨seed, ⟨haddress, rfl⟩, h⟩
    split_ifs at h with hlen
    cases h
    exact ⟨haddress, hlen, rfl⟩
  · rintro ⟨haddress, hlen, rfl⟩
    exact ⟨_, ⟨haddress, rfl⟩, dif_pos hlen⟩

/-! ### Replies -/

/-- The bytes of a reply before its checksum. -/
def replyHead (address : UInt8) (reply : Reply) : List UInt8 :=
  address <<< 1 :: lengthByte reply.missingLengthFlag reply.payload.length :: reply.payload

/-- The frame of a reply. -/
def replyFrame (address : UInt8) (reply : Reply) : List UInt8 :=
  replyHead address reply ++ [checksum replyChecksumSeed (replyHead address reply)]

theorem length_replyFrame (address : UInt8) (reply : Reply) :
    (replyFrame address reply).length = reply.payload.length + frameOverhead := by
  simp [replyFrame, replyHead, frameOverhead]

/-- Bytes that are long enough have a byte at the length. -/
theorem exists_split {bytes : List UInt8} {n : ℕ} (h : n < bytes.length) :
    ∃ payload c rest, bytes = payload ++ c :: rest ∧ payload.length = n :=
  ⟨bytes.take n, bytes[n], bytes.drop (n + 1), by rw [List.getElem_cons_drop, List.take_append_drop],
    by rw [List.length_take, min_eq_left h.le]⟩

/-- What `parse_frame` makes of a header, a payload and the byte after it. -/
theorem parseFrame_payload {address first length c : UInt8} {payload rest : List UInt8}
    {payloadLimit : ℕ} (hlen : (length &&& ~~~lengthFlag).toNat = payload.length) :
    parseFrame address (first :: length :: (payload ++ c :: rest)) payloadLimit =
      (do
        let expectedAddress ← wireAddress address
        reject (first ≠ expectedAddress) .unexpectedAddress
        reject (payload.length > payloadLimit) .payloadExceedsLimit
        reject (checksum replyChecksumSeed (first :: length :: (payload ++ [c])) ≠ 0) .invalidChecksum
        return ⟨payload, length &&& lengthFlag = 0⟩) := by
  have hne : payload ++ c :: rest ≠ [] := by simp
  obtain ⟨b, tail, htail⟩ := List.exists_cons_of_ne_nil hne
  have htake : (first :: length :: b :: tail).take (payload.length + frameOverhead) =
      first :: length :: (payload ++ [c]) := by
    rw [← htail, frameOverhead, List.take_succ_cons, List.take_succ_cons,
      List.take_length_add_append]
    rfl
  have hdrop : ((first :: length :: b :: tail).take (payload.length + frameOverhead - 1)).drop 2 = payload := by
    rw [← htail, frameOverhead, Nat.add_sub_assoc (by decide), List.take_succ_cons,
      List.take_succ_cons, List.drop_succ_cons, List.drop_succ_cons, List.drop_zero, List.take_left]
  have hlength : ¬(first :: length :: b :: tail).length < payload.length + frameOverhead := by
    rw [← htail]
    simp [frameOverhead]
  rw [htail]
  simp only [parseFrame, hlen, htake, hdrop, hlength, decide_false]
  rfl

/-- **What is accepted starts with the frame of the reply**, and what starts with the
frame of a reply within the limit is accepted. -/
theorem parseFrame_eq_ok {address : UInt8} {input : List UInt8} {payloadLimit : ℕ} {reply : Reply} :
    parseFrame address input payloadLimit = .ok reply ↔
      address ≤ 0x7f ∧ reply.payload.length ≤ min payloadLimit maxPayloadLen ∧
      replyFrame address reply <+: input := by
  constructor
  · intro h
    have hok := h
    simp only [parseFrame, bind_eq_ok, wireAddress_eq_ok] at h
    obtain ⟨_, ⟨haddress, rfl⟩, h⟩ := h
    split at h
    · rename_i first length b tail
      simp only [bind_eq_ok, reject_eq_ok, decide_eq_false_iff_not, not_not, gt_iff_lt,
        Nat.not_lt] at h
      obtain ⟨-, rfl, -, hlimit, -, hlen, -⟩ := h
      obtain ⟨hflag, hmax⟩ := eq_lengthByte length
      have hroom : (length &&& ~~~lengthFlag).toNat < (b :: tail).length := by
        simp [frameOverhead] at hlen ⊢
        omega
      obtain ⟨payload, c, rest, hsplit, hpayload⟩ := exists_split hroom
      rw [hsplit, parseFrame_payload hpayload.symm] at hok
      simp only [bind_eq_ok, reject_eq_ok, decide_eq_false_iff_not, not_not] at hok
      obtain ⟨-, -, -, -, -, -, -, hsum, hok⟩ := hok
      cases hok
      rw [← List.cons_append, ← List.cons_append, checksum_eq_zero_iff] at hsum
      refine ⟨haddress, by rw [hpayload]; exact le_min hlimit hmax, rest, ?_⟩
      simp only [replyFrame, replyHead, hpayload, hflag, ← hsum, hsplit, List.cons_append,
        List.append_assoc, List.nil_append]
    · cases h
  · rintro ⟨haddress, hlen, rest, rfl⟩
    have hmax : reply.payload.length ≤ maxPayloadLen := hlen.trans (min_le_right ..)
    simp only [replyFrame, replyHead, List.cons_append, List.append_assoc, List.nil_append]
    rw [parseFrame_payload (lengthByte_payload hmax), wireAddress_eq_ok.mpr ⟨haddress, rfl⟩]
    simp only [bind_eq_ok, reject_eq_ok, decide_eq_false_iff_not, not_not, Nat.not_lt, gt_iff_lt]
    refine ⟨_, rfl, (), rfl, (), hlen.trans (min_le_left ..), (), ?_, ?_⟩
    · rw [← List.cons_append, ← List.cons_append, checksum_eq_zero_iff]
    · rw [lengthByte_flag hmax]
      rfl

/-! ### Damage -/

theorem checksum_replyFrame (address : UInt8) (reply : Reply) :
    checksum replyChecksumSeed (replyFrame address reply) = 0 :=
  checksum_eq_zero_iff.mpr rfl

/-- The length byte of a frame gives the length of its payload. -/
theorem replyFrame_length {address l : UInt8} {reply : Reply}
    (hmax : reply.payload.length ≤ maxPayloadLen) (hl : (replyFrame address reply)[1]? = some l) :
    (l &&& ~~~lengthFlag).toNat = reply.payload.length := by
  cases hl
  exact lengthByte_payload hmax

/-- **A frame with a byte changed is no frame**, if the length it gives is the same. -/
theorem not_replyFrame_set {address b : UInt8} {input : List UInt8} {reply reply' : Reply} {i : ℕ}
    (hmax : reply.payload.length ≤ maxPayloadLen) (hmax' : reply'.payload.length ≤ maxPayloadLen)
    (h : replyFrame address reply <+: input) (hi : i < reply.payload.length + frameOverhead)
    (hb : input[i]? ≠ some b)
    (hlength : i = 1 → ∀ l, input[1]? = some l → b &&& ~~~lengthFlag = l &&& ~~~lengthFlag) :
    ¬replyFrame address reply' <+: input.set i b := by
  intro h'
  obtain ⟨rest, rfl⟩ := h
  rw [← length_replyFrame address] at hi
  rw [List.set_append_left _ _ hi] at h'
  rw [List.getElem?_append_left hi, List.getElem?_eq_getElem hi, ne_eq, Option.some.injEq] at hb
  have hone : ∀ reply, 1 < (replyFrame address reply).length := fun reply => by
    rw [length_replyFrame, frameOverhead]
    omega
  -- both frames give one length of the payload
  obtain ⟨l, hl⟩ : ∃ l, (replyFrame address reply)[1]? = some l :=
    ⟨_, List.getElem?_eq_getElem (hone reply)⟩
  obtain ⟨l', hl'⟩ : ∃ l', (replyFrame address reply')[1]? = some l' :=
    ⟨_, List.getElem?_eq_getElem (hone reply')⟩
  have hread : ((replyFrame address reply).set i b)[1]? = some l' := by
    obtain ⟨after, hafter⟩ := h'
    rw [← List.getElem?_append_left (by simpa using hone reply), ← hafter,
      List.getElem?_append_left (hone reply'), hl']
  have hsame : reply'.payload.length = reply.payload.length := by
    rw [← replyFrame_length hmax hl, ← replyFrame_length hmax' hl']
    by_cases hi1 : i = 1
    · subst hi1
      rw [List.getElem?_set_self hi, Option.some.injEq] at hread
      rw [← hread, hlength rfl l (by rw [List.getElem?_append_left (hone reply), hl])]
    · rw [List.getElem?_set_ne hi1, hl, Option.some.injEq] at hread
      rw [hread]
  have hframe : replyFrame address reply' = (replyFrame address reply).set i b := by
    refine (List.prefix_of_prefix_length_le h' (List.prefix_append ..) ?_).eq_of_length ?_
    · rw [List.length_set, length_replyFrame, length_replyFrame, hsame]
    · rw [List.length_set, length_replyFrame, length_replyFrame, hsame]
  have hsum : checksum replyChecksumSeed ((replyFrame address reply).set i b) ≠
      checksum replyChecksumSeed (replyFrame address reply) := checksum_set_ne hi (Ne.symm hb)
  rw [← hframe, checksum_replyFrame, checksum_replyFrame] at hsum
  exact hsum rfl

/-- **DDC/CI framing is exact.** A request is framed if it has a seven-bit address and at
most 127 bytes, and the frame adds up to zero with the address; a reply is accepted if
the bytes that were read start with its frame, whatever follows; and an accepted frame is
rejected once a byte of its address, payload or checksum is another, or the flag of its
length byte. -/
theorem framing_exact :
    (∀ address payload, address ≤ 0x7f ∧ payload.length ≤ 127 →
        ∃ frame c, buildFrame address payload = .ok frame ∧
          frame.asBytes = 0x51 :: (0x80 ||| .ofNat payload.length) :: (payload ++ [c]) ∧
          checksum (address <<< 1) frame.asBytes = 0) ∧
      (∀ address payload, ¬(address ≤ 0x7f ∧ payload.length ≤ 127) → ∃ e, buildFrame address payload = .error e) ∧
      (∀ address input limit reply, parseFrame address input limit = .ok reply ↔
        address ≤ 0x7f ∧ reply.payload.length ≤ min limit 127 ∧ replyFrame address reply <+: input) ∧
      ∀ address input limit reply, parseFrame address input limit = .ok reply →
        (∀ trailing, parseFrame address (input.take (reply.payload.length + 3) ++ trailing) limit = .ok reply) ∧
          (∀ i b, i < reply.payload.length + 3 → i ≠ 1 → input[i]? ≠ some b →
            ∃ e, parseFrame address (input.set i b) limit = .error e) ∧
          ∃ l, input[1]? = some l ∧ ∃ e, parseFrame address (input.set 1 (l ^^^ 0x80)) limit = .error e := by
  refine ⟨fun address payload ⟨haddress, hlen⟩ => ?_, fun address payload h => ?_,
    fun _ _ _ _ => parseFrame_eq_ok,
    fun address input limit reply hok => ?_⟩
  · refine ⟨_, _, buildFrame_eq_ok.mpr ⟨haddress, hlen, rfl⟩, asBytes_ofRequest .., ?_⟩
    exact (congrArg (checksum _) (asBytes_ofRequest ..)).trans (checksum_eq_zero_iff.mpr rfl)
  · cases hframe : buildFrame address payload with
    | error e => exact ⟨e, rfl⟩
    | ok frame =>
      obtain ⟨haddress, hlen, -⟩ := buildFrame_eq_ok.mp hframe
      exact absurd ⟨haddress, hlen⟩ h
  obtain ⟨haddress, hlimit, hframe⟩ := parseFrame_eq_ok.mp hok
  have hmax : reply.payload.length ≤ maxPayloadLen := hlimit.trans (min_le_right ..)
  have hreject : ∀ i b, i < reply.payload.length + frameOverhead → input[i]? ≠ some b →
      (i = 1 → ∀ l, input[1]? = some l → b &&& ~~~lengthFlag = l &&& ~~~lengthFlag) →
        ∃ e, parseFrame address (input.set i b) limit = .error e := by
    intro i b hi hb hlength
    cases hset : parseFrame address (input.set i b) limit with
    | error e => exact ⟨e, rfl⟩
    | ok reply' =>
      obtain ⟨-, hlimit', hframe'⟩ := parseFrame_eq_ok.mp hset
      exact absurd hframe' (not_replyFrame_set hmax (hlimit'.trans (min_le_right ..)) hframe hi hb hlength)
  refine ⟨fun trailing => ?_, fun i b hi hne hb => hreject i b hi hb fun h => absurd h hne, ?_⟩
  · have htake : input.take (reply.payload.length + 3) = replyFrame address reply := by
      rw [show reply.payload.length + 3 = (replyFrame address reply).length from (length_replyFrame ..).symm]
      exact (List.prefix_iff_eq_take.mp hframe).symm
    rw [htake]
    exact parseFrame_eq_ok.mpr ⟨haddress, hlimit, List.prefix_append ..⟩
  · obtain ⟨l, hl⟩ : ∃ l, input[1]? = some l := by
      obtain ⟨rest, rfl⟩ := hframe
      exact ⟨_, rfl⟩
    have hflip : ∀ l : UInt8, l ^^^ 0x80 ≠ l ∧ (l ^^^ 0x80) &&& ~~~lengthFlag = l &&& ~~~lengthFlag := by
      refine forall_byte ?_
      decide +kernel
    refine ⟨l, hl, hreject 1 _ (by rw [frameOverhead]; omega) ?_ fun _ l' hl' => ?_⟩
    · rw [hl]
      exact fun h => (hflip l).1 (Option.some.inj h).symm
    · rw [hl] at hl'
      cases hl'
      exact (hflip l).2

end DdcControl.Protocol
