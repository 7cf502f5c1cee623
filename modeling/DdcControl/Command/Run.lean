import DdcControl.Command.Numbers
import DdcControl.Command.Selection
import DdcControl.Daemon.Closing
import DdcControl.Daemon.Messages
import DdcControl.Daemon.WriteDelay
import DdcControl.Profiles.Restoring

/-!
# A run of the program

`ddccontrol` probes for monitors or is given one, opens each that is selected, does what the
options ask for, and closes it. It talks to monitors in many places: an EDID is read,
capabilities are collected in fragments, a monitor may have to be enabled, and each control
that is printed is read first.

## The model

The run is that of `main` on the devices of this computer, after the options were read and
without the daemon. What is printed is a list of what the lines are about. Names for the
issue report are left out, and memory does not run out.

## What is proved

* `main_related` — what every visit of a monitor does to the system, a run does.
* `main_changes` — so a run changes no control of any display but those it is asked to, and
  the one by which monitors are enabled.
* `main_releases` — and leaves no descriptor open, if its closings go well.
-/

namespace DdcControl.Command

open Daemon Database Opening Profiles Protocol Registers

/-! ### What is asked for -/

/-- The options of `main`, after they were read; the monitor file is known by its Plug and Play
ID. -/
structure Invocation where
  settings : Settings
  caps : Bool
  dump : Bool
  save : Bool
  force : Bool
  suppressWarning : Bool
  probe : Bool
  monitorFile : Option (List UInt8)
  profile : Option CProfile
  target : Option (List UInt8)

/-- What a line that is printed is about. -/
inductive Line where
  | detected (monlist : List Detected)
  | unusable (filename : List UInt8) (ret : ℤ)
  | edid (pnpid : List UInt8)
  | capabilities (received : Option (List UInt8 × Capabilities.Caps))
  | writing (ctrl : UInt8) (value delay : ℤ)
  | control (ctrl : UInt8) (reply : VcpReply)
  | listed (control : DbControl) (reply : Option VcpReply)
  | applied (done : Bool)
  | warning (fallback : ℤ)

/-! ### What is done with a monitor -/

section Monitor

variable {σ : Type} (bus : Bus σ)

/-- `is_engineering_vcp_control`. -/
def isEngineeringVcpControl (ctrl : UInt8) : Bool := ctrl ≥ 0xe0

/-- A reply, as a value and its maximum. -/
def reading (reply : VcpReply) : UInt16 × UInt16 := (reply.value, reply.maximum)

/-- `dumpctrl`. -/
def dumpctrl (ctrl : UInt8) (force : Bool) (s : σ) : List Line × σ :=
  match tries (untracedReadctrl bus ctrl) retrys s with
  | (none, s) => ([], s)
  | (some reply, s) => (if reply.supported || force then [.control ctrl reply] else [], s)

/-- `dumpctrl` for each of the controls. -/
def dumpEach (force : Bool) : List UInt8 → σ → List Line × σ
  | [], s => ([], s)
  | ctrl :: rest, s =>
    let (lines, s) := dumpctrl bus ctrl force s
    let (more, s) := dumpEach force rest s
    (lines ++ more, s)

/-- Each control of the database is read and listed. -/
def listEach : List DbControl → σ → List Line × σ
  | [], s => ([], s)
  | control :: rest, s =>
    let (reply, s) := tries (untracedReadctrl bus control.address) retrys s
    let (more, s) := listEach rest s
    (.listed control reply :: more, s)

/-- `current_value`, after a toggle if one is asked for. -/
def runToggle (settings : Settings) (ctrl : UInt8) (s : σ) : ℤ × σ :=
  if settings.toggle then
    let (reply, s) := tries (untracedReadctrl bus ctrl) retrys s
    (settings.toggled (reply.map reading), s)
  else (settings.value, s)

/-- `current_relative` and `current_value`, after a relative change if one is asked for. -/
def runRelative (settings : Settings) (ctrl : UInt8) (value : ℤ) (s : σ) : (Bool × ℤ) × σ :=
  if settings.relative then
    let (reply, s) := tries (untracedReadctrl bus ctrl) retrys s
    (shifted value (reply.map reading), s)
  else ((false, value), s)

/-- `current_relative` and `current_value`, as they are when the control may be written. -/
def runValue (settings : Settings) (ctrl : UInt8) (s : σ) : (Bool × ℤ) × σ :=
  let (value, s) := runToggle bus settings ctrl s
  runRelative bus settings ctrl value s

/-- The write, if there is a value to be written; what `ddcci_writectrl` returns is not looked
at. -/
def runWrite (db : Option MonitorDb) (ctrl : UInt8) (relative : Bool) (value : ℤ) (s : σ) : List Line × σ :=
  if value ≥ 0 || relative then
    ([.writing ctrl value (findWriteDelay db (asChar ctrl.toUInt32))],
      (ddcciWritectrl bus ctrl (UInt16.ofInt value) s).2)
  else ([], s)

/-- What `main` does with the control of the options. -/
def runControl (db : Option MonitorDb) (settings : Settings) (s : σ) : List Line × σ :=
  if settings.ctrl < 0 then ([], s)
  else
    let ctrl := UInt8.ofInt settings.ctrl
    let ((relative, value), s) := runValue bus settings ctrl s
    let (lines, s) := runWrite bus db ctrl relative value s
    let (shown, s) := dumpctrl bus ctrl true s
    (lines ++ shown, s)

/-- The capabilities, if they are asked for. -/
def runCaps (inv : Invocation) (s : σ) : List Line × σ :=
  if inv.caps then
    let (received, s) := tries (ddcciCaps bus) retrys s
    ([.capabilities received], s)
  else ([], s)

/-- The profile is applied, or the controls are printed, or those of the database are listed. -/
def runProfile (inv : Invocation) (db : Option MonitorDb) (s : σ) : List Line × σ :=
  match inv.profile with
  | some profile =>
    let (done, s) := applyProfile (controls bus) profile s
    ([.applied done], s)
  | none =>
    if inv.dump then dumpEach bus inv.force (codes.filter fun ctrl => inv.force || !isEngineeringVcpControl ctrl) s
    else if inv.settings.ctrl = -1 && !inv.caps then listEach bus (db.elim [] fun monitor => treeControls monitor.groups) s
    else ([], s)

/-- The monitor is told to save its settings, if that is asked for. -/
def runSave (inv : Invocation) (s : σ) : σ := if inv.save then (ddcciCommand bus 0x0c s).2 else s

/-- What `main` does with a monitor that is open. -/
def runMonitor (inv : Invocation) (mon : DeviceMonitor) (s : σ) : List Line × σ :=
  let db := mon.selected.db.map Prod.snd
  let (capabilities, s) := runCaps bus inv s
  let (changed, s) := runControl bus db inv.settings s
  let (shown, s) := runProfile bus inv db s
  let warned := if mon.selected.fallback ≠ 0 && !inv.suppressWarning then [Line.warning mon.selected.fallback] else []
  (.edid (utf8 mon.pnpid) :: capabilities ++ changed ++ shown ++ warned, runSave bus inv s)

end Monitor

/-! ### The run -/

section Run

variable {σ : Type} (sys : System σ) (translate : String → List UInt8) (context : DbContext) (inv : Invocation)

/-- What `main` does with a device that is selected; whether it exits then. -/
def visit (filename : List UInt8) (d : Descriptors σ) : (Bool × List Line) × Descriptors σ :=
  match ddcciOpen sys translate context filename d with
  | ((mon, ret), d) =>
    if ret < 0 then
      ((inv.monitorFile.isSome, [.unusable filename ret]), if ret = -3 then d else (ddcciClose sys mon d).2)
    else if !monitorMatchesFile (deviceLibrary sys translate context) inv.monitorFile mon then
      ((true, []), (ddcciClose sys mon d).2)
    else
      let (lines, s) := runMonitor (sys.bus mon.fd) inv mon d.os
      ((false, lines), (ddcciClose sys mon { d with os := s }).2)

/-- The loop of `main` through the devices that are selected, and the status it exits with. -/
def visitEach : List (List UInt8) → Descriptors σ → (ℕ × List Line) × Descriptors σ
  | [], d => ((0, []), d)
  | filename :: rest, d =>
    match visit sys translate context inv filename d with
    | ((true, lines), d) => ((1, lines), d)
    | ((false, lines), d) =>
      let ((status, more), d) := visitEach rest d
      ((status, lines ++ more), d)

/-- `main`, after the options were read: the status it exits with, and what is printed. -/
def main (d : Descriptors σ) : (ℕ × List Line) × Descriptors σ :=
  if inv.monitorFile.isSome && inv.probe then ((1, []), d)
  else if inv.probe then
    if inv.target.isSome then ((1, []), d)
    else
      match ddcciProbe sys translate context d with
      | (monlist, d) =>
        match monlist.find? Detected.supported with
        | none => ((0, [.detected monlist]), d)
        | some current =>
          let ((status, lines), d) := visitEach sys translate context inv [current.filename] d
          ((status, .detected monlist :: lines), d)
  else
    match inv.target.or inv.monitorFile with
    | none => ((1, []), d)
    | some requestedTarget =>
      if (utf8 "pci:").isPrefixOf requestedTarget || (utf8 "adl:").isPrefixOf requestedTarget then ((1, []), d)
      else if (utf8 "dev:").isPrefixOf requestedTarget then visitEach sys translate context inv [requestedTarget] d
      else
        match selectMonitors (deviceLibrary sys translate context) requestedTarget inv.monitorFile d with
        | (.error _, d) => ((1, []), d)
        | (.ok selected, d) => visitEach sys translate context inv (selected.map Detected.filename) d

/-! ### What a run does, visit by visit -/

/-- What holds between the states before and after a probe and a visit, whatever is done with
the monitor that `B` allows. -/
structure Visits (R : Descriptors σ → Descriptors σ → Prop) (B : σ → σ → Prop) : Prop where
  refl : ∀ d, R d d
  trans : ∀ {d₁ d₂ d₃}, R d₁ d₂ → R d₂ d₃ → R d₁ d₃
  idle : ∀ s, B s s
  probe : ∀ d, R d (ddcciProbe sys translate context d).2
  unopened : ∀ filename d, (ddcciOpen sys translate context filename d).1.2 = -3 →
    R d (ddcciOpen sys translate context filename d).2
  visited : ∀ filename d s, B (ddcciOpen sys translate context filename d).2.os s →
    (ddcciOpen sys translate context filename d).1.2 ≠ -3 →
    R d (ddcciClose sys (ddcciOpen sys translate context filename d).1.1
      { (ddcciOpen sys translate context filename d).2 with os := s }).2

variable {sys translate context inv} {R : Descriptors σ → Descriptors σ → Prop} {B : σ → σ → Prop}
  (h : Visits sys translate context R B)

include h

theorem tried_related (filename : List UInt8) (d : Descriptors σ) :
    R d (tried (deviceLibrary sys translate context) filename d) := by
  have hunopened := h.unopened filename d
  have hvisited := h.visited filename d _ (h.idle _)
  show R d (if (ddcciOpen sys translate context filename d).1.2 = -3 then _ else _)
  split_ifs with hret
  · exact hunopened hret
  · exact hvisited hret

/-- A visit, in which what is done with the monitor is allowed. -/
theorem visit_related (hbody : ∀ mon s, B s (runMonitor (sys.bus mon.fd) inv mon s).2)
    (filename : List UInt8)
    (d : Descriptors σ) : R d (visit sys translate context inv filename d).2 := by
  have hunopened := h.unopened filename d
  have hvisited := h.visited filename d
  unfold visit
  generalize ddcciOpen sys translate context filename d = opened at hunopened hvisited ⊢
  obtain ⟨⟨mon, ret⟩, d'⟩ := opened
  dsimp only at hunopened hvisited ⊢
  by_cases hret : ret < 0
  · rw [if_pos hret]
    dsimp only
    split_ifs with hnone
    · exact hunopened hnone
    · exact hvisited _ (h.idle _) hnone
  · rw [if_neg hret]
    split_ifs
    · exact hvisited _ (h.idle _) (by omega)
    · exact hvisited _ (hbody mon _) (by omega)

theorem visitEach_related (hbody : ∀ mon s, B s (runMonitor (sys.bus mon.fd) inv mon s).2)
    (filenames : List (List UInt8)) (d : Descriptors σ) :
    R d (visitEach sys translate context inv filenames d).2 := by
  induction filenames generalizing d with
  | nil => exact h.refl d
  | cons filename rest ih =>
    have hfirst := visit_related h hbody filename d
    rw [visitEach]
    generalize visit sys translate context inv filename d = visited at hfirst ⊢
    obtain ⟨⟨_ | _, lines⟩, d'⟩ := visited
    · exact h.trans hfirst (ih d')
    · exact hfirst

/-- **What every visit does, a run does.** -/
theorem main_related (hbody : ∀ mon s, B s (runMonitor (sys.bus mon.fd) inv mon s).2)
    (d : Descriptors σ) :
    R d (main sys translate context inv d).2 := by
  have hvisits := visitEach_related h hbody
  unfold main
  split_ifs
  · exact h.refl d
  · exact h.refl d
  · have hprobe := h.probe d
    generalize ddcciProbe sys translate context d = found at hprobe ⊢
    obtain ⟨monlist, d'⟩ := found
    dsimp only at hprobe ⊢
    rcases monlist.find? Detected.supported with _ | current
    · exact hprobe
    · exact h.trans hprobe (hvisits [current.filename] d')
  · rcases inv.target.or inv.monitorFile with _ | requestedTarget
    · exact h.refl d
    dsimp only
    split_ifs
    · exact h.refl d
    · exact hvisits [requestedTarget] d
    have hselected := selectMonitors_related (deviceLibrary sys translate context) h.refl h.trans (tried_related h)
      h.probe requestedTarget inv.monitorFile d
    generalize selectMonitors (deviceLibrary sys translate context) requestedTarget inv.monitorFile d = result
      at hselected ⊢
    obtain ⟨_ | selected, d'⟩ := result
    · exact hselected
    · exact h.trans hselected (hvisits (selected.map Detected.filename) d')

end Run

/-! ### Descriptors -/

section Descriptors

variable {σ : Type} (sys : System σ) (translate : String → List UInt8) (context : DbContext)

/-- What opening returns once the file is open. -/
theorem ddcciIdentify_ret (mon : DeviceMonitor) (s : σ) :
    (ddcciIdentify sys translate context mon s).1.2 ≠ -3 := by
  unfold ddcciIdentify
  rcases ddcciReadEdid (sys.bus mon.fd) 3 s with ⟨_ | edid, s⟩
  · exact (by decide : (-2 : ℤ) ≠ -3)
  dsimp only
  rcases ddcciCaps (sys.bus mon.fd) s with ⟨received, s⟩
  dsimp only
  cases selectWithAddr translate context edid.pnpId ((received.map Prod.snd).getD .default) with
  | error selected => exact (by decide : (-1 : ℤ) ≠ -3)
  | ok selected =>
    dsimp only
    rcases ddcciActivate (sys.bus mon.fd) selected received.isSome s with ⟨_ | _, s⟩
    · exact (by decide : (-1 : ℤ) ≠ -3)
    · exact (by decide : (0 : ℤ) ≠ -3)

/-- Where nothing was opened, no descriptor is. -/
theorem ddcciOpen_unopened {filename : List UInt8} {d : Descriptors σ}
    (hret : (ddcciOpen sys translate context filename d).1.2 = -3) :
    (ddcciOpen sys translate context filename d).2.closings = d.closings ∧
      (ddcciOpen sys translate context filename d).2.held = d.held := by
  unfold ddcciOpen at hret ⊢
  split_ifs with hdev
  · exact ⟨rfl, rfl⟩
  · rw [if_neg hdev] at hret
    rcases hopen : sys.openFile (filename.drop 4) d.os with ⟨_ | fd, s⟩
    · exact ⟨rfl, rfl⟩
    · rw [hopen] at hret
      exact absurd hret (ddcciIdentify_ret sys translate context _ s)

/-- The same descriptors are open, if no closing in between went wrong. -/
def Balanced (d d' : Descriptors σ) : Prop := d'.Clean sys → d.Clean sys ∧ d'.held = d.held

theorem balanced_visits : Visits sys translate context (Balanced sys) fun _ _ => True where
  refl _ hclean := ⟨hclean, rfl⟩
  trans h₁ h₂ hclean :=
    have ⟨hclean₂, hheld₂⟩ := h₂ hclean
    have ⟨hclean₁, hheld₁⟩ := h₁ hclean₂
    ⟨hclean₁, hheld₂.trans hheld₁⟩
  idle _ := trivial
  probe := ddcciProbe_account sys translate context
  unopened filename d hret hclean := by
    obtain ⟨hclosings, hheld⟩ := ddcciOpen_unopened sys translate context hret
    exact ⟨hclean.of_closings hclosings, hheld⟩
  visited filename d s _ hret hclean := by
    have hdev : (utf8 "dev:").isPrefixOf filename = true := by
      cases hdev : (utf8 "dev:").isPrefixOf filename with
      | true => rfl
      | false =>
        refine absurd ?_ hret
        rw [ddcciOpen, hdev]
        rfl
    obtain ⟨hclosings, hheld⟩ := ddcciOpen_account sys translate context hdev d
    obtain ⟨hclean', hclosed⟩ := ddcciClose_account _ _ hclean
    exact ⟨hclean'.of_closings hclosings, hclosed _ hheld⟩

/-- **A run leaves no descriptor open**, however it exits, if no monitor fails to take that it
is closed. -/
theorem main_releases (inv : Invocation) (d : Descriptors σ)
    (hclean : (main sys translate context inv d).2.Clean sys) :
    (main sys translate context inv d).2.held = d.held :=
  (main_related (balanced_visits sys translate context) (fun _ _ => trivial) d hclean).2

end Descriptors

/-! ### Controls -/

/-- What an invocation asks for: to change the control of the options, to apply the profile, to
save. -/
def Invocation.speech (inv : Invocation) : Speech where
  writes ctrl :=
    (0 ≤ inv.settings.ctrl ∧ ctrl = UInt8.ofInt inv.settings.ctrl ∧
      (inv.settings.toggle = true ∨ inv.settings.relative = true ∨ 0 ≤ inv.settings.value)) ∨
    ∃ profile, inv.profile = some profile ∧ ctrl ∈ profile.controls.map Prod.fst
  saves := inv.save = true

section Keeps

variable {σ : Type} {bus : Bus σ} {P : σ → Prop} {inv : Invocation} (h : BusKeeps bus P inv.speech)

include h

theorem tries_readctrl_keeps (ctrl : UInt8) (n : ℕ) {s : σ} (hs : P s) :
    P (tries (untracedReadctrl bus ctrl) n s).2 :=
  tries_keeps (fun _ => untracedReadctrl_kept h ctrl) hs

theorem dumpctrl_keeps (ctrl : UInt8) (force : Bool) {s : σ} (hs : P s) :
    P (dumpctrl bus ctrl force s).2 := by
  have hread := tries_readctrl_keeps h ctrl retrys hs
  unfold dumpctrl
  generalize tries (untracedReadctrl bus ctrl) retrys s = result at hread ⊢
  rcases result with ⟨_ | reply, s'⟩ <;> exact hread

theorem dumpEach_keeps (force : Bool) (ctrls : List UInt8) {s : σ} (hs : P s) :
    P (dumpEach bus force ctrls s).2 := by
  induction ctrls generalizing s with
  | nil => exact hs
  | cons ctrl rest ih => exact ih (dumpctrl_keeps h ctrl force hs)

theorem listEach_keeps (listed : List DbControl) {s : σ} (hs : P s) :
    P (listEach bus listed s).2 := by
  induction listed generalizing s with
  | nil => exact hs
  | cons control rest ih => exact ih (tries_readctrl_keeps h control.address retrys hs)

omit h in
/-- A value to be written comes of what is asked for. -/
theorem runValue_asked {settings : Settings} {ctrl : UInt8} {s : σ}
    (hwrite : ((runValue bus settings ctrl s).1.2 ≥ 0 || (runValue bus settings ctrl s).1.1) = true) :
    settings.toggle = true ∨ settings.relative = true ∨ 0 ≤ settings.value := by
  cases htoggle : settings.toggle with
  | true => exact .inl rfl
  | false =>
    cases hrelative : settings.relative with
    | true => exact .inr (.inl rfl)
    | false => exact .inr (.inr (by simpa [runValue, runRelative, runToggle, htoggle, hrelative] using hwrite))

theorem runValue_keeps (settings : Settings) (ctrl : UInt8) {s : σ} (hs : P s) :
    P (runValue bus settings ctrl s).2 := by
  have htoggle : P (runToggle bus settings ctrl s).2 := by
    unfold runToggle
    split_ifs
    · exact tries_readctrl_keeps h ctrl retrys hs
    · exact hs
  have hrelative : ∀ value s', P s' → P (runRelative bus settings ctrl value s').2 := by
    intro value s' hs'
    unfold runRelative
    split_ifs
    · exact tries_readctrl_keeps h ctrl retrys hs'
    · exact hs'
  exact hrelative _ _ htoggle

/-- The control of the options is written only where a change is asked for. -/
theorem runControl_keeps (db : Option MonitorDb) {s : σ} (hs : P s) :
    P (runControl bus db inv.settings s).2 := by
  unfold runControl
  split_ifs with hctrl
  · exact hs
  have hvalue := runValue_keeps h inv.settings (UInt8.ofInt inv.settings.ctrl) hs
  refine dumpctrl_keeps h _ true ?_
  show P (runWrite bus db _ _ _ _).2
  unfold runWrite
  split_ifs with hwrite
  · exact ddcciWrite_keeps h (.write _ _ (.inl ⟨by omega, rfl, runValue_asked hwrite⟩)) hvalue
  · exact hvalue

theorem runProfile_keeps (db : Option MonitorDb) {s : σ} (hs : P s) :
    P (runProfile bus inv db s).2 := by
  unfold runProfile
  cases hprofile : inv.profile with
  | some profile =>
    refine writeAll_keeps (fun pair hpair s hs => ?_) hs
    exact ddcciWrite_keeps h (.write _ _ (.inr ⟨profile, hprofile, List.mem_map_of_mem hpair⟩)) hs
  | none =>
    dsimp only
    split_ifs
    · exact dumpEach_keeps h _ _ hs
    · exact listEach_keeps h _ hs
    · exact hs

/-- **Nothing else is said to a monitor.** -/
theorem runMonitor_keeps (mon : DeviceMonitor) {s : σ} (hs : P s) :
    P (runMonitor bus inv mon s).2 := by
  have hcaps : P (runCaps bus inv s).2 := by
    unfold runCaps
    split_ifs
    · exact tries_keeps (fun _ => ddcciCaps_keeps h) hs
    · exact hs
  have hprofile := runProfile_keeps h (mon.selected.db.map Prod.snd)
    (runControl_keeps h (mon.selected.db.map Prod.snd) hcaps)
  have hsaved : ∀ s, P s → P (runSave bus inv s) := by
    intro s hs
    unfold runSave
    split_ifs with hsave
    · exact ddcciWrite_keeps h (.save hsave) hs
    · exact hs
  exact hsaved _ hprofile

end Keeps

section Displays

variable {σ β : Type} {sys : System σ}

/-- What a predicate says before it says after. -/
theorem keeps_visits {P : σ → Prop} {inv : Invocation} (h : sys.Keeps P inv.speech)
    (translate : String → List UInt8) (context : DbContext) :
    Visits sys translate context (fun d d' => P d.os → P d'.os) fun s s' => P s → P s' where
  refl _ hd := hd
  trans h₁ h₂ hd := h₂ (h₁ hd)
  idle _ hs := hs
  probe _ hd := ddcciProbe_keeps h translate context hd
  unopened filename _ _ hd := ddcciOpen_keeps h translate context filename hd
  visited filename _ _ hs _ hd := ddcciClose_keeps h _ (hs (ddcciOpen_keeps h translate context filename hd))

/-- **A run changes what it is asked to, and nothing else.** However monitors answer, no control
of a display is changed by a run but those that its options name, with a change or in a
profile, and the one by which monitors are enabled. -/
theorem main_changes {control : σ → β → UInt8 → UInt16} (h : Displays sys control)
    (translate : String → List UInt8) (context : DbContext) (inv : Invocation) (d : Descriptors σ)
    (display : β) {ctrl : UInt8} (hswitch : ctrl ≠ ddcciCtrl) (hasked : ¬ inv.speech.writes ctrl) :
    control (main sys translate context inv d).2.os display ctrl = control d.os display ctrl :=
  have hkeeps := h.keeps hswitch hasked display (control d.os display ctrl)
  main_related (keeps_visits hkeeps translate context) (fun mon _ => runMonitor_keeps (hkeeps.bus mon.fd) mon) d rfl

end Displays

/-! ### A computer with a display -/

/-- A computer with one display, whose EDID is that of a `SAM0001`. -/
def displaySystem : System RegisterDisplay where
  openFile _ display := (some 3, display)
  closeFile _ display := (true, display)
  bus _ := {
    write := fun address bytes display =>
      if address = edidAddress then (true, display)
      else if address = ddcAddress then registerDisplay.write address bytes display
      else (false, display)
    read := fun address length display =>
      if address = edidAddress then (some (.ofFn fun i : Fin length => samsungEdid.getD i 0), display)
      else registerDisplay.read address length display }
  entries display := ([utf8 "i2c-0"], display)
  malloc display := (⟨true, true, true, true, true, true, true⟩, display)

/-- A display changes a control only for a frame that writes one. -/
theorem registerDisplay_other {payload : List UInt8} (h : payload.length ≠ 4) (display : RegisterDisplay) :
    (registerDisplay.write ddcAddress (requestFrame payload) display).2.values = display.values := by
  unfold registerDisplay
  dsimp only
  split
  · split_ifs <;> rfl
  · split_ifs with hframe
    · exact absurd hframe (requestFrame_ne (by simpa using h))
    · rfl
  · rfl

theorem displaySystem_displays : Displays displaySystem fun display (_ : Unit) =>
    display.values where
  openFile _ _ := rfl
  closeFile _ _ := rfl
  entries _ := rfl
  read _ address length display := by
    unfold displaySystem
    dsimp only
    split_ifs <;> rfl
  edid _ display := rfl
  other fd payload display _ hlength := by
    have hbus : (displaySystem.bus fd).write ddcAddress (requestFrame payload) display =
        registerDisplay.write ddcAddress (requestFrame payload) display := rfl
    rw [hbus, registerDisplay_other hlength]
  write fd ctrl value display _ other hother := by
    have hbus : (displaySystem.bus fd).write ddcAddress (requestFrame (writeRequest ctrl value)) display =
        registerDisplay.write ddcAddress (requestFrame (writeRequest ctrl value)) display := rfl
    rw [hbus, registerDisplay_write]
    exact Function.update_of_ne hother _ _

/-- `-r 0x10 -w 30` of its brightness. -/
def dimming : Invocation where
  settings := ⟨0x10, 30, false, false, -1, -1⟩
  caps := true
  dump := false
  save := true
  force := false
  suppressWarning := false
  probe := true
  monitorFile := none
  profile := none
  target := none

/-- The display takes whatever is written to a control. -/
theorem displaySystem_clean (d : Descriptors RegisterDisplay) : d.Clean displaySystem := by
  intro closing _ _
  rw [ddcciWritectrl, ddcciWrite_eq _ (by simp [writeRequest, maxPayloadLen])]
  have hbus : (displaySystem.bus closing.1.fd).write ddcAddress
      (requestFrame (writeRequest ddcciCtrl 0)) closing.2 =
      registerDisplay.write ddcAddress (requestFrame (writeRequest ddcciCtrl 0)) closing.2 := rfl
  rw [hbus, registerDisplay_write]

/-- The display is closed twice, after the probe and after the visit, and not open at the end. -/
theorem dimming_releases :
    (main displaySystem utf8 samsungContext dimming (.start dayDisplay)).2.closings.length = 2 ∧
      (main displaySystem utf8 samsungContext dimming (.start dayDisplay)).2.held = 0 :=
  ⟨by decide +kernel, main_releases displaySystem utf8 samsungContext dimming (.start dayDisplay) (displaySystem_clean _)⟩

/-- The brightness is changed, and the contrast is not. -/
theorem dimming_changes :
    (main displaySystem utf8 samsungContext dimming (.start dayDisplay)).2.os.values 0x10 = 30 ∧
      (main displaySystem utf8 samsungContext dimming (.start dayDisplay)).2.os.values 0x12 = 50 := by
  refine ⟨by decide +kernel, ?_⟩
  refine main_changes displaySystem_displays utf8 samsungContext dimming (.start dayDisplay) () (by decide) ?_
  rintro (⟨-, hctrl, -⟩ | ⟨_, hprofile, -⟩)
  · exact absurd hctrl (by decide)
  · cases hprofile

end DdcControl.Command
