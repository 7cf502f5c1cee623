import DdcControl.Daemon.Device
import DdcControl.Protocol.Display

/-!
# What is said to a monitor

Opening and closing a monitor, and probing for monitors, talk to it: its EDID is asked for at
an address of its own, then its capabilities, and it may have to be enabled or found. All
that is written to a monitor are a few kinds of frames.

## The model

`Speech.Says` are the payloads of these, and of reads of controls, for which nothing has to
be asked; with them the writes of some controls, and the command to save. A predicate on the
system that every such frame keeps is kept by whatever says no more (`System.Keeps`).

## What is proved

* `ddcciOpen_keeps`, `ddcciClose_keeps`, `ddcciProbe_keeps` — these functions say no more.
* `requestFrame_ne` — a frame that is not a write of a control is not taken for one.
* `Displays.keeps` — displays that keep their controls keep what nothing that is said names.
-/

namespace DdcControl.Daemon

open Capabilities Opening Protocol Registers

/-- What may be said: writes of these controls, and the command to save. -/
structure Speech where
  writes : UInt8 → Prop
  saves : Prop

/-- The payloads of what is said. -/
inductive Speech.Says (speech : Speech) : List UInt8 → Prop
  | read (ctrl : UInt8) : speech.Says [0x01, ctrl]
  | caps (high low : UInt8) : speech.Says [0xf3, high, low]
  | presence : speech.Says [0xf7]
  | switch (value : UInt16) : speech.Says (writeRequest ddcciCtrl value)
  | write (ctrl : UInt8) (value : UInt16) : speech.writes ctrl → speech.Says (writeRequest ctrl value)
  | save : speech.saves → speech.Says [0x0c]

theorem Speech.Says.length_le {speech : Speech} {payload : List UInt8} (h : speech.Says payload) :
    payload.length ≤ maxPayloadLen := by
  cases h <;> simp [writeRequest, maxPayloadLen]

section Keeps

variable {σ : Type}

/-- A predicate that is kept by reading a bus, by asking for an EDID, and by what is said. -/
structure BusKeeps (bus : Bus σ) (P : σ → Prop) (speech : Speech) : Prop where
  read : ∀ address length s, P s → P (bus.read address length s).2
  edid : ∀ s, P s → P (bus.write edidAddress [0] s).2
  write : ∀ payload s, speech.Says payload → P s → P (bus.write ddcAddress (requestFrame payload) s).2

/-- And by the files of a system. -/
structure System.Keeps (sys : System σ) (P : σ → Prop) (speech : Speech) : Prop where
  openFile : ∀ path s, P s → P (sys.openFile path s).2
  closeFile : ∀ fd s, P s → P (sys.closeFile fd s).2
  entries : ∀ s, P s → P (sys.entries s).2
  bus : ∀ fd, BusKeeps (sys.bus fd) P speech

variable {bus : Bus σ} {P : σ → Prop} {speech : Speech} (h : BusKeeps bus P speech)

include h

/-! ### On a bus -/

theorem ddcciWrite_keeps {payload : List UInt8} (hspoken : speech.Says payload) {s : σ} (hs : P s) :
    P (ddcciWrite bus payload s).2 := by
  rw [ddcciWrite_eq bus hspoken.length_le]
  exact h.write payload s hspoken hs

theorem ddcciRead_keeps (len : ℕ) {s : σ} (hs : P s) : P (ddcciRead bus len s).2 := by
  unfold ddcciRead
  rcases frameLength len with e | frameLen
  · exact hs
  have hread := h.read ddcAddress frameLen s hs
  dsimp only
  generalize bus.read ddcAddress frameLen s = result at hread ⊢
  rcases result with ⟨_ | frame, s'⟩
  · exact hread
  dsimp only
  cases parseFrame ddcAddress frame.toList len <;> exact hread

theorem ddcciExchange_keeps {payload : List UInt8} (hspoken : speech.Says payload) (len : ℕ) {s : Traced σ}
    (hs : P s.device) : P (ddcciExchange bus payload len s).2.device := by
  have hwrite := ddcciWrite_keeps h hspoken hs
  unfold ddcciExchange
  generalize ddcciWrite bus payload s.device = result at hwrite ⊢
  rcases result with ⟨_ | _, device⟩
  · exact hwrite
  have hread := ddcciRead_keeps h len hwrite
  dsimp only
  generalize ddcciRead bus len device = result at hread ⊢
  exact hread

theorem untracedReadctrl_kept (ctrl : UInt8) {s : σ} (hs : P s) : P (untracedReadctrl bus ctrl s).2 := by
  have hexchange : P (ddcciExchange bus [0x01, ctrl] 8 ⟨s, []⟩).2.device :=
    ddcciExchange_keeps h (.read ctrl) 8 hs
  unfold untracedReadctrl ddcciReadctrl ddcciRawReadctrl
  generalize ddcciExchange bus [0x01, ctrl] 8 ⟨s, []⟩ = result at hexchange ⊢
  rcases result with ⟨_ | buf, s'⟩ <;> exact hexchange

theorem ddcciCapsLoop_keeps (rawCaps : List UInt8) (bufferpos retries : ℕ) {s : Traced σ} (hs : P s.device) :
    P (ddcciCapsLoop bus rawCaps bufferpos retries s).2.device := by
  have hcaps : ∀ {offset s result s'}, ddcciRawCaps bus offset 64 s = (result, s') → P s.device → P s'.device := by
    intro offset s result s' heq hs
    have hexchange : P (ddcciRawCaps bus offset 64 s).2.device := ddcciExchange_keeps h (.caps ..) 64 hs
    rwa [heq] at hexchange
  fun_induction ddcciCapsLoop bus rawCaps bufferpos retries s with
  | case1 => exact hs
  | case2 rawCaps bufferpos s retries s' heq ih => exact ih (hcaps heq hs)
  | case3 rawCaps bufferpos s retries buf s' heq hparse ih => exact ih (hcaps heq hs)
  | case4 rawCaps bufferpos s retries buf s' heq => exact hcaps heq hs
  | case5 rawCaps bufferpos s retries buf s' heq => exact hcaps heq hs
  | case6 rawCaps bufferpos s retries buf s' heq fragment hparse hpos hroom ih => exact ih (hcaps heq hs)

theorem ddcciCaps_keeps {s : σ} (hs : P s) : P (ddcciCaps bus s).2 := by
  have hcollect : P (ddcciCollect bus ⟨s, []⟩).2.device := ddcciCapsLoop_keeps h [] 0 3 hs
  unfold ddcciCaps
  generalize ddcciCollect bus ⟨s, []⟩ = result at hcollect ⊢
  rcases result with ⟨_ | rawCaps, s'⟩
  · exact hcollect
  dsimp only
  cases ddcciNormalizeCaps rawCaps <;> exact hcollect

theorem ddcciReadEdid_keeps (retry : ℕ) {s : σ} (hs : P s) : P (ddcciReadEdid bus retry s).2 := by
  induction retry generalizing s with
  | zero => exact hs
  | succ retry ih =>
    have hwrite := h.edid s hs
    rw [ddcciReadEdid]
    generalize bus.write edidAddress [0] s = asked at hwrite ⊢
    rcases asked with ⟨_ | _, s₁⟩
    · exact ih hwrite
    have hread := h.read edidAddress edidBlockLen s₁ hwrite
    dsimp only
    generalize bus.read edidAddress edidBlockLen s₁ = told at hread ⊢
    rcases told with ⟨_ | buf, s₂⟩
    · exact ih hread
    dsimp only
    cases parseEdid buf.toList with
    | some edid => exact hread
    | none => exact ih hread

theorem ddcciActivate_keeps (selected : Monitor) (capsProveSupport : Bool) {s : σ} (hs : P s) :
    P (ddcciActivate bus selected capsProveSupport s).2 := by
  unfold ddcciActivate
  split_ifs
  · exact ddcciWrite_keeps h (.switch 1) hs
  · exact hs
  · exact ddcciWrite_keeps h .presence hs

end Keeps

/-! ### With a system -/

section Library

variable {σ : Type} {sys : System σ} {P : σ → Prop} {speech : Speech} (h : sys.Keeps P speech)
  (translate : String → List UInt8) (context : Database.DbContext)

include h

theorem ddcciIdentify_keeps (mon : DeviceMonitor) {s : σ} (hs : P s) :
    P (ddcciIdentify sys translate context mon s).2 := by
  have hbus := h.bus mon.fd
  have hedid := ddcciReadEdid_keeps hbus 3 hs
  unfold ddcciIdentify
  generalize ddcciReadEdid (sys.bus mon.fd) 3 s = read at hedid ⊢
  rcases read with ⟨_ | edid, s₁⟩
  · exact hedid
  have hcaps := ddcciCaps_keeps hbus hedid
  dsimp only
  generalize ddcciCaps (sys.bus mon.fd) s₁ = answered at hcaps ⊢
  obtain ⟨received, s₂⟩ := answered
  dsimp only
  cases selectWithAddr translate context edid.pnpId ((received.map Prod.snd).getD .default) with
  | error selected => exact hcaps
  | ok selected =>
    have hactivate := ddcciActivate_keeps hbus selected received.isSome hcaps
    dsimp only
    generalize ddcciActivate (sys.bus mon.fd) selected received.isSome s₂ = activated at hactivate ⊢
    rcases activated with ⟨_ | _, s₃⟩ <;> exact hactivate

/-- **Opening a monitor says no more.** -/
theorem ddcciOpen_keeps (filename : List UInt8) {d : Descriptors σ} (hd : P d.os) :
    P (ddcciOpen sys translate context filename d).2.os := by
  unfold ddcciOpen
  split_ifs
  · exact hd
  have hopen := h.openFile (filename.drop 4) d.os hd
  generalize sys.openFile (filename.drop 4) d.os = result at hopen ⊢
  rcases result with ⟨_ | fd, s⟩
  · exact hopen
  · exact ddcciIdentify_keeps h translate context (.blank fd) hopen

omit translate context in
theorem ddcciRelease_keeps (mon : DeviceMonitor) {d : Descriptors σ} (hd : P d.os) :
    P (ddcciRelease sys mon d).2.os := by
  unfold ddcciRelease
  split_ifs
  · exact h.closeFile mon.fd.toNat d.os hd
  · exact hd

omit translate context in
/-- **Nor does closing it.** -/
theorem ddcciClose_keeps (mon : DeviceMonitor) {d : Descriptors σ} (hd : P d.os) :
    P (ddcciClose sys mon d).2.os := by
  unfold ddcciClose
  split_ifs
  · have hwrite : P (ddcciWritectrl (sys.bus mon.fd) ddcciCtrl 0 d.os).2 :=
      ddcciWrite_keeps (h.bus mon.fd) (.switch 0) hd
    dsimp only
    generalize ddcciWritectrl (sys.bus mon.fd) ddcciCtrl 0 d.os = result at hwrite ⊢
    rcases result with ⟨_ | _, s⟩
    · exact hwrite
    · exact ddcciRelease_keeps h mon hwrite
  · exact ddcciRelease_keeps h mon hd

theorem ddcciProbeEach_keeps (filenames : List (List UInt8)) {d : Descriptors σ} (hd : P d.os) :
    P (ddcciProbeEach sys translate context filenames d).2.os := by
  induction filenames generalizing d with
  | nil => exact hd
  | cons filename rest ih =>
    exact ih (ddcciClose_keeps h _ (ddcciOpen_keeps h translate context filename hd))

/-- **Nor does a probe.** -/
theorem ddcciProbe_keeps {d : Descriptors σ} (hd : P d.os) : P (ddcciProbe sys translate context d).2.os :=
  ddcciProbeEach_keeps h translate context _ (h.entries d.os hd)

end Library

/-! ### Displays -/

/-- The frames of two payloads differ if their lengths do. -/
theorem requestFrame_ne {payload payload' : List UInt8} (h : payload.length ≠ payload'.length) :
    requestFrame payload ≠ requestFrame payload' := by
  intro heq
  have hlength := congrArg List.length heq
  simp only [requestFrame, requestHead, List.length_append, List.length_cons, List.length_nil] at hlength
  omega

/-- Displays whose controls are independent, and change only when they are written: what else
is done, and what else may be said, leaves all as they are. -/
structure Displays {σ β : Type} (sys : System σ) (control : σ → β → UInt8 → UInt16) : Prop where
  openFile : ∀ path s, control (sys.openFile path s).2 = control s
  closeFile : ∀ fd s, control (sys.closeFile fd s).2 = control s
  entries : ∀ s, control (sys.entries s).2 = control s
  read : ∀ fd address length s, control ((sys.bus fd).read address length s).2 = control s
  edid : ∀ fd s, control ((sys.bus fd).write edidAddress [0] s).2 = control s
  other : ∀ fd payload s, (⟨fun _ => False, True⟩ : Speech).Says payload → payload.length ≠ 4 →
    control ((sys.bus fd).write ddcAddress (requestFrame payload) s).2 = control s
  write : ∀ fd ctrl value s display other, other ≠ ctrl →
    control ((sys.bus fd).write ddcAddress (requestFrame (writeRequest ctrl value)) s).2 display other =
      control s display other

/-- **A control of a display is kept by all that does not write it**, nor switches the monitor
on or off. -/
theorem Displays.keeps {σ β : Type} {sys : System σ} {control : σ → β → UInt8 → UInt16} (h : Displays sys control)
    {speech : Speech} {ctrl : UInt8} (hswitch : ctrl ≠ ddcciCtrl) (hwrites : ¬ speech.writes ctrl) (display : β)
    (value : UInt16) : sys.Keeps (fun s => control s display ctrl = value) speech where
  openFile path s hs := by rw [h.openFile]; exact hs
  closeFile fd s hs := by rw [h.closeFile]; exact hs
  entries s hs := by rw [h.entries]; exact hs
  bus fd :=
    { read := fun address length s hs => by rw [h.read]; exact hs
      edid := fun s hs => by rw [h.edid]; exact hs
      write := fun payload s hspoken hs => by
        cases hspoken with
        | read ctrl => rw [h.other fd _ s (.read ctrl) (by simp)]; exact hs
        | caps high low => rw [h.other fd _ s (.caps high low) (by simp)]; exact hs
        | presence => rw [h.other fd _ s .presence (by simp)]; exact hs
        | switch value => rw [h.write fd ddcciCtrl value s display ctrl hswitch]; exact hs
        | write told value htold =>
          rw [h.write fd told value s display ctrl fun heq => hwrites (heq ▸ htold)]
          exact hs
        | save => rw [h.other fd _ s (.save trivial) (by simp)]; exact hs }

end DdcControl.Daemon
