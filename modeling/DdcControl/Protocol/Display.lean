import DdcControl.Library.Registers
import DdcControl.Protocol.Logged

/-!
# A display that keeps its controls

What is read from a monitor means something when the monitor keeps what it is told. Such a
display has a value for each control. It takes the frame of a write as that, and its
answer to the frame of a read has the value; a frame may be lost, and a reply corrupted.

## What is proved

* `controls_keeps` — then the library's reads and writes are accesses to the values: the
  frames carry the control and both bytes of the value, and no other reply is taken.
* `registerDisplay_keeps` — the display with the values and the last request is one.
-/

namespace DdcControl.Protocol

open Fallible Registers

/-! ### Frames -/

/-- A request is written as its frame. -/
theorem ddcciWrite_eq {σ : Type} (bus : Bus σ) {payload : List UInt8} (hlen : payload.length ≤ maxPayloadLen)
    (device : σ) :
    ddcciWrite bus payload device = bus.write ddcAddress (requestFrame payload) device := by
  have hframe : buildFrame ddcAddress payload = .ok (.ofRequest (ddcAddress <<< 1) payload hlen) :=
    buildFrame_eq_ok.mpr ⟨by decide, hlen, rfl⟩
  rw [ddcciWrite, hframe]
  dsimp only
  rw [asBytes_ofRequest]
  rfl

/-- The value of a control is that of its two bytes. -/
theorem ofBytes_writeRequest (value : UInt16) :
    fromBeBytes (value >>> 8).toUInt8 (value &&& 255).toUInt8 = value := by
  have hbytes := writeRequest_toNat 0 value
  simp only [writeRequest, List.map_cons, List.map_nil, List.cons.injEq, and_true] at hbytes
  obtain ⟨-, -, hhigh, hlow⟩ := hbytes
  rw [← UInt16.toNat_inj, fromBeBytes_toNat, hhigh, hlow]
  omega

section Display

variable {σ : Type}

/-- What a display makes of the frames of the library. -/
structure KeepsControls (bus : Bus σ) (register : σ → UInt8 → UInt16) : Prop where
  asked : ∀ ctrl device, register (bus.write ddcAddress (requestFrame [0x01, ctrl]) device).2 = register device
  told : ∀ length device, register (bus.read ddcAddress length device).2 = register device
  answer : ∀ ctrl device length bytes reply,
    (bus.write ddcAddress (requestFrame [0x01, ctrl]) device).1 = true →
    (bus.read ddcAddress length (bus.write ddcAddress (requestFrame [0x01, ctrl]) device).2).1 = some bytes →
    Answers ctrl bytes.toList reply → reply.value = register device ctrl
  set : ∀ ctrl value device, (bus.write ddcAddress (requestFrame (writeRequest ctrl value)) device).1 = true →
    register (bus.write ddcAddress (requestFrame (writeRequest ctrl value)) device).2 =
      Function.update (register device) ctrl value
  others : ∀ ctrl value device other, other ≠ ctrl →
    register (bus.write ddcAddress (requestFrame (writeRequest ctrl value)) device).2 other = register device other

/-- `ddcci_readctrl`, without the trace. -/
def untracedReadctrl (bus : Bus σ) (ctrl : UInt8) (device : σ) : Option VcpReply × σ :=
  let (reply, s) := ddcciReadctrl bus ctrl ⟨device, []⟩
  (reply, s.device)

/-- `ddcci_readctrl` for the value, and `ddcci_writectrl`. -/
def controls (bus : Bus σ) : Access σ UInt8 UInt16 where
  read ctrl device :=
    let (reply, device) := untracedReadctrl bus ctrl device
    (reply.map VcpReply.value, device)
  write := ddcciWritectrl bus

variable {bus : Bus σ} {register : σ → UInt8 → UInt16}

/-- A read of a control asks for it, and takes the answer. -/
theorem untracedReadctrl_keeps (h : KeepsControls bus register) (ctrl : UInt8) (s : σ) :
    register (untracedReadctrl bus ctrl s).2 = register s ∧
      ∀ reply, (untracedReadctrl bus ctrl s).1 = some reply → reply.value = register s ctrl := by
  have hasked := h.asked ctrl s
  have hanswer := h.answer ctrl s 11
  unfold untracedReadctrl ddcciReadctrl ddcciRawReadctrl ddcciExchange
  rw [ddcciWrite_eq bus (show [0x01, ctrl].length ≤ maxPayloadLen by simp [maxPayloadLen])]
  generalize bus.write ddcAddress (requestFrame [0x01, ctrl]) s = asked at hasked hanswer ⊢
  rcases asked with ⟨_ | _, device⟩
  · exact ⟨hasked, fun reply hreply => by cases hreply⟩
  have htold := (h.told 11 device).trans hasked
  unfold ddcciRead
  rw [frameLength_eq_ok (by decide)]
  dsimp only at hanswer ⊢
  change ∀ bytes reply, _ → (bus.read ddcAddress (8 + frameOverhead) device).1 = some bytes → _ at hanswer
  change register (bus.read ddcAddress (8 + frameOverhead) device).2 = _ at htold
  generalize bus.read ddcAddress (8 + frameOverhead) device = told at htold hanswer ⊢
  rcases told with ⟨_ | bytes, device'⟩
  · exact ⟨htold, fun reply hreply => by cases hreply⟩
  dsimp only
  cases hframe : parseFrame ddcAddress bytes.toList 8 with
  | error e => exact ⟨htold, fun reply hreply => by cases hreply⟩
  | ok frame =>
    refine ⟨htold, fun reply hreply => hanswer bytes reply rfl rfl ?_⟩
    refine answers_iff.mpr ⟨frame, hframe, ?_⟩
    simp only [ddcciParseVcp] at hreply
    cases hparse : parseVcpReply frame.payload ctrl with
    | error e => rw [hparse] at hreply; cases hreply
    | ok vcp => rw [hparse] at hreply; cases hreply; rfl

/-- **The reads and writes of the library are accesses to the controls of the display.** -/
theorem controls_keeps (h : KeepsControls bus register) : (controls bus).Keeps register where
  kept ctrl s := (untracedReadctrl_keeps h ctrl s).1
  value ctrl s v hv := by
    obtain ⟨reply, hreply, rfl⟩ := Option.map_eq_some_iff.mp hv
    exact (untracedReadctrl_keeps h ctrl s).2 reply hreply
  set ctrl value s hdone := by
    have hlen : (writeRequest ctrl value).length ≤ maxPayloadLen := by simp [writeRequest, maxPayloadLen]
    simp only [controls, ddcciWritectrl, ddcciWrite_eq bus hlen] at hdone ⊢
    exact h.set ctrl value s hdone
  others ctrl value s other hother := by
    have hlen : (writeRequest ctrl value).length ≤ maxPayloadLen := by simp [writeRequest, maxPayloadLen]
    simp only [controls, ddcciWritectrl, ddcciWrite_eq bus hlen]
    exact h.others ctrl value s other hother

end Display

/-! ### A display -/

/-- A display: the values of its controls, and the control it was last asked for. -/
structure RegisterDisplay where
  values : UInt8 → UInt16
  asked : UInt8

/-- The reply of a display, with the largest value as the maximum. -/
def RegisterDisplay.answer (display : RegisterDisplay) : Reply where
  payload := [0x02, 0, display.asked, 0, 0xff, 0xff, (display.values display.asked >>> 8).toUInt8,
    (display.values display.asked &&& 255).toUInt8]
  missingLengthFlag := false

/-- The bus of such a display, which hears the frames of reads and writes that add up. -/
def registerDisplay : Bus RegisterDisplay where
  write _ bytes display :=
    match bytes with
    | [_, _, 0x01, ctrl, _] =>
      if bytes = requestFrame [0x01, ctrl] then (true, { display with asked := ctrl }) else (false, display)
    | [_, _, 0x03, ctrl, high, low, _] =>
      if bytes = requestFrame [0x03, ctrl, high, low] then
        (true, { display with values := Function.update display.values ctrl (fromBeBytes high low) })
      else (false, display)
    | _ => (false, display)
  read _ _ display :=
    (some (.ofFn fun i => (replyFrame ddcAddress display.answer).getD i 0), display)

theorem registerDisplay_read (ctrl : UInt8) (display : RegisterDisplay) :
    registerDisplay.write ddcAddress (requestFrame [0x01, ctrl]) display = (true, { display with asked := ctrl }) :=
  if_pos rfl

theorem registerDisplay_write (ctrl : UInt8) (value : UInt16) (display : RegisterDisplay) :
    registerDisplay.write ddcAddress (requestFrame (writeRequest ctrl value)) display =
      (true, { display with values := Function.update display.values ctrl value }) := by
  rw [show registerDisplay.write ddcAddress (requestFrame (writeRequest ctrl value)) display = (true, { display with
    values := Function.update display.values ctrl (fromBeBytes (value >>> 8).toUInt8 (value &&& 255).toUInt8) }) from
      if_pos rfl, ofBytes_writeRequest]

/-- The answer of a display has the value of the control. -/
theorem RegisterDisplay.answers_value (display : RegisterDisplay) {length : ℕ} {reply : VcpReply}
    (h : Answers display.asked
      (Vector.ofFn (n := length) fun i => (replyFrame ddcAddress display.answer).getD i 0).toList reply) :
    reply.value = display.values display.asked := by
  obtain ⟨_, _, _, _, _, high, low, _, hframe, -, -, -, -, hvalue⟩ := h
  have hbyte : ∀ i (b : UInt8), (Vector.ofFn (n := length) fun i =>
      (replyFrame ddcAddress display.answer).getD i 0).toList[i]? = some b →
      b = (replyFrame ddcAddress display.answer).getD i 0 := by
    intro i b hb
    obtain ⟨hi, rfl⟩ := List.getElem?_eq_some_iff.mp hb
    simp
  have hat := List.prefix_iff_getElem?.mp hframe
  have hhigh := hbyte 8 high (hat 8 (by decide : 8 < 11))
  have hlow := hbyte 9 low (hat 9 (by decide : 9 < 11))
  rw [← UInt16.toNat_inj, hvalue, ← fromBeBytes_toNat, hhigh, hlow]
  exact congrArg UInt16.toNat (ofBytes_writeRequest _)

/-- **The display keeps its controls.** -/
theorem registerDisplay_keeps : KeepsControls registerDisplay RegisterDisplay.values where
  asked ctrl display := by rw [registerDisplay_read]
  told _ _ := rfl
  answer ctrl display _ bytes reply _ hread hanswer := by
    rw [registerDisplay_read] at hread
    cases hread
    exact RegisterDisplay.answers_value { display with asked := ctrl } hanswer
  set ctrl value display _ := by rw [registerDisplay_write]
  others ctrl value display other hother := by
    rw [registerDisplay_write]
    exact Function.update_of_ne hother _ _

end DdcControl.Protocol
