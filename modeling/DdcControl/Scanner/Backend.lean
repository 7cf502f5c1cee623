import DdcControl.Identification.Edid
import DdcControl.Protocol.Display
import DdcControl.Scanner.Comments
import DdcControl.Scanner.ReadControl

/-!
# The scanner's devices

`ddccontrol-scanmonitor` finds the monitors and talks to them by itself: it reads the EDID of
every I2C device, opens the one that was chosen, and collects its capabilities. A monitor
with no name in its EDID is called what its capabilities say.

## The model

`Devices` is what the scanner asks of the operating system for that; it may answer anything.
The wait between two transfers is left out, and so are the texts of errors on the bus and
what is printed of devices that may not be opened.

## What is proved

* `listMonitors_keeps`, `openMonitor_keeps`, `OpenedMonitor.read_keeps` — a predicate that
  the frames of reads keep is kept by all that the scanner does with a device.
* `openMonitor_pnpId` — the id of a monitor that was opened is three letters and a number.
-/

namespace DdcControl.Scanner

open Capabilities Daemon Fallible Identification Protocol

/-! ### Texts -/

/-- `str::strip_prefix`. -/
def stripPrefix (start text : String) : Option String := (text.toList.dropPrefix? start.toList).map String.ofList

/-- `device_number`. -/
def deviceNumber (name : String) : Option ℕ := do
  let number ← stripPrefix "i2c-" name
  let digits := number.toList
  if digits.isEmpty || !digits.all Char.isDigit then none
  else
    let value := digits.foldl (fun value digit => 10 * value + (digit.toNat - '0'.toNat)) 0
    if value < 2 ^ 32 then some value else none

/-- `edid_name`. -/
def edidName (info : EdidBlock) : Option String :=
  let name : String := .ofList (trimmed info.info.monitorName)
  if name.isEmpty then none else some name

/-- A field may begin after this byte. -/
def opensField (c : Char) : Bool :=
  c = '(' || c = ')' || c = ' ' || c = '\t' || c = '\n' || c = '\x0c' || c = '\r'

/-- The loop of `capability_model`, after this character. -/
def modelFrom (before : Option Char) : List Char → Option String
  | [] => none
  | c :: rest =>
    match (c :: rest).dropPrefix? "model(".toList with
    | none => modelFrom (some c) rest
    | some field =>
      if !before.all opensField then modelFrom (some c) rest
      else if !field.contains ')' then none
      else
        let model : String := .ofList (trimmed (.ofList (field.takeWhile (· ≠ ')'))))
        if !model.isEmpty && !model.toList.contains '(' then some model else modelFrom (some c) rest

/-- `capability_model`. -/
def capabilityModel (capabilities : String) : Option String := modelFrom none capabilities.toList

/-! ### Devices -/

/-- What an `io::Error` is told by. -/
inductive IoErrorKind where
  | permissionDenied
  | alreadyExists
  | other
  deriving DecidableEq, Repr

/-- An `io::Error`. -/
structure IoError where
  kind : IoErrorKind
  text : String
  deriving DecidableEq, Repr

/-- What the scanner asks of the operating system: the names in a directory, as far as they
can be read and are text, to open a file for reading and writing, and to drop it. -/
structure Devices (σ : Type) where
  readDir : String → σ → Except IoError (List (Option String)) × σ
  openFile : String → σ → Except IoError ℕ × σ
  drop : ℕ → σ → σ
  bus : ℕ → Bus σ

/-- Why an EDID is not read. -/
inductive EdidError where
  | none
  | transfer
  | parse (error : Identification.ParseError)
  | pnpId
  deriving DecidableEq, Repr

/-- Why the scanner ends without a result. -/
inductive Failure where
  | message (text : String)
  | identification (device : String) (error : EdidError)
  deriving DecidableEq, Repr

/-- `Monitor`. -/
structure ListedMonitor where
  device : String
  name : String
  deriving DecidableEq, Repr

/-- `OpenedMonitor`, with the descriptor of its device. -/
structure OpenedMonitor where
  pnpId : String
  capabilities : String
  name : Option String
  transport : ℕ

/-- `PERMISSION_HELP`. -/
def permissionHelp : String := "Grant read/write access to /dev/i2c-* or run ddccontrol-scanmonitor with sudo."

/-- `retry`, whatever the errors are. -/
def retried {ε α τ : Type} (operation : τ → Except ε α × τ) : (tries : ℕ) → (lastError : ε) → τ → Except ε α × τ
  | 0, lastError, s => (.error lastError, s)
  | tries + 1, _, s =>
    match operation s with
    | (.ok value, s) => (.ok value, s)
    | (.error error, s) => retried operation tries error s

section Backend

variable {σ : Type}

/-- The operation `read_edid` tries. -/
def tryEdid (bus : Bus σ) (s : σ) : Except EdidError EdidBlock × σ :=
  match bus.write edidAddress [0] s with
  | (false, s) => (.error .transfer, s)
  | (true, s) =>
    match bus.read edidAddress edidBlockLen s with
    | (none, s) => (.error .transfer, s)
    | (some bytes, s) =>
      match Identification.parse bytes.toList with
      | .error e => (.error (.parse e), s)
      | .ok info => (if Context.isValidPnpId info.pnpId then .ok info else .error .pnpId, s)

/-- `read_edid`. -/
def readEdid (bus : Bus σ) (s : σ) : Except EdidError EdidBlock × σ := retried (tryEdid bus) 3 .none s

/-- `read_capabilities`: the text, if the bytes are one. -/
def readCapabilityText (bus : Bus σ) (s : σ) : Option String × σ :=
  match readCollect bus ⟨s, []⟩ with
  | (.error _, s) => (none, s.device)
  | (.ok bytes, s) => (String.fromUTF8? ⟨bytes.toArray⟩, s.device)

variable (devices : Devices σ)

/-- The devices of `list`, in the order of their numbers. -/
def numberedDevices (entries : List (Option String)) : List (ℕ × String) :=
  (entries.filterMap fun entry => do
    let name ← entry
    return (← deviceNumber name, "/dev/" ++ name)).mergeSort fun a b => a.1 ≤ b.1

/-- The loop of `list`: the monitors, and how many devices may not be opened. -/
def listEach : List (ℕ × String) → σ → (List ListedMonitor × ℕ) × σ
  | [], s => (([], 0), s)
  | (_, path) :: rest, s =>
    match devices.openFile path s with
    | (.error e, s) =>
      let ((monitors, denied), s) := listEach rest s
      ((monitors, if e.kind = .permissionDenied then denied + 1 else denied), s)
    | (.ok file, s) =>
      let (info, s) := readEdid (devices.bus file) s
      let ((monitors, denied), s) := listEach rest (devices.drop file s)
      match info with
      | .error _ => ((monitors, denied), s)
      | .ok info => ((⟨"dev:" ++ path, (edidName info).getD info.pnpId⟩ :: monitors, denied), s)

/-- `list`. -/
def listMonitors (s : σ) : Except Failure (List ListedMonitor) × σ :=
  match devices.readDir "/dev" s with
  | (.error e, s) => (.error (.message ("Cannot list /dev: " ++ e.text)), s)
  | (.ok entries, s) =>
    if (numberedDevices entries).isEmpty then
      (.error (.message "No /dev/i2c-* devices found; load the i2c-dev kernel module (sudo modprobe i2c-dev)."), s)
    else
      let ((monitors, denied), s) := listEach devices (numberedDevices entries) s
      if denied ≠ 0 && monitors.isEmpty then
        (.error (.message ("Permission denied for " ++ toString denied ++ " I2C device(s). " ++ permissionHelp)), s)
      else (.ok monitors, s)

/-- The name of a device file, in what selects it. -/
def deviceName (device : String) : Option String :=
  (stripPrefix "dev:/dev/" device).filter fun name => (deviceNumber name).isSome

/-- `open`. -/
def openMonitor (device : String) (s : σ) : Except Failure OpenedMonitor × σ :=
  match deviceName device with
  | none => (.error (.message "Expected a device such as dev:/dev/i2c-4"), s)
  | some path =>
    match devices.openFile ("/dev/" ++ path) s with
    | (.error e, s) => (.error (.message ("Cannot open " ++ device ++ ": " ++ e.text ++ ". " ++ permissionHelp)), s)
    | (.ok file, s) =>
      match readEdid (devices.bus file) s with
      | (.error e, s) => (.error (.identification device e), devices.drop file s)
      | (.ok info, s) =>
        let (received, s) := readCapabilityText (devices.bus file) s
        -- some monitors have controls that can be read and no capabilities
        let capabilities := received.getD ""
        (.ok ⟨info.pnpId, capabilities, (edidName info).or (capabilityModel capabilities), file⟩, s)

/-- `OpenedMonitor::read`. -/
def OpenedMonitor.read (opened : OpenedMonitor) (code : UInt8) (s : σ) : Except ExchangeError (Option Reading) × σ :=
  let (reading, s) := readControl (devices.bus opened.transport) code ⟨s, []⟩
  (reading, s.device)

end Backend

/-! ### Reads only -/

section Keeps

variable {σ : Type}

/-- A predicate that is kept by reading a bus, by asking for an EDID, and by the requests of a
control and of capabilities. -/
structure ReadsKeep (bus : Bus σ) (P : σ → Prop) : Prop where
  read : ∀ address length s, P s → P (bus.read address length s).2
  edid : ∀ s, P s → P (bus.write edidAddress [0] s).2
  control : ∀ code s, P s → P (bus.write ddcAddress (requestFrame [0x01, code]) s).2
  caps : ∀ high low s, P s → P (bus.write ddcAddress (requestFrame [0xf3, high, low]) s).2

/-- And by finding, opening and dropping devices. -/
structure Devices.Keeps (devices : Devices σ) (P : σ → Prop) : Prop where
  readDir : ∀ path s, P s → P (devices.readDir path s).2
  openFile : ∀ path s, P s → P (devices.openFile path s).2
  drop : ∀ file s, P s → P (devices.drop file s)
  bus : ∀ file, ReadsKeep (devices.bus file) P

theorem retried_keeps {ε α τ : Type} {operation : τ → Except ε α × τ} {P : τ → Prop}
    (hoperation : ∀ s, P s → P (operation s).2) (tries : ℕ) (lastError : ε) {s : τ} (hs : P s) :
    P (retried operation tries lastError s).2 := by
  induction tries generalizing lastError s with
  | zero => exact hs
  | succ tries ih =>
    have hnext := hoperation s hs
    rw [retried]
    generalize operation s = result at hnext ⊢
    rcases result with ⟨error | value, s'⟩
    · exact ih error hnext
    · exact hnext

/-- The value of the tries is that of one, which was made where the predicate held. -/
theorem retried_ok {ε α τ : Type} {operation : τ → Except ε α × τ} {P : τ → Prop}
    (hoperation : ∀ s, P s → P (operation s).2) {tries : ℕ} {lastError : ε} {s : τ}
    (hs : P s) {value : α} (h : (retried operation tries lastError s).1 = .ok value) :
    ∃ last, P last ∧ (operation last).1 = .ok value := by
  induction tries generalizing lastError s with
  | zero => cases h
  | succ tries ih =>
    have hkept := hoperation s hs
    rw [retried] at h
    cases hnext : operation s with
    | mk result s' =>
      rw [hnext] at h hkept
      cases result with
      | error error => exact ih hkept h
      | ok found => exact ⟨s, hs, by rw [hnext]; exact h⟩

/-- `retry` with the errors of exchanges. -/
theorem retryFrom_eq {α τ : Type} (operation : τ → Except ExchangeError α × τ) (tries : ℕ)
    (lastError : ExchangeError)
    (s : τ) : retryFrom operation tries lastError s = retried operation tries lastError s := by
  induction tries generalizing lastError s with
  | zero => rfl
  | succ tries ih =>
    rw [retryFrom, retried]
    rcases operation s with ⟨error | value, s'⟩
    · exact ih error s'
    · rfl

/-- The id that is read is one of three letters and a number. -/
theorem readEdid_pnpId {bus : Bus σ} {s : σ} {info : EdidBlock}
    (h : (readEdid bus s).1 = .ok info) :
    ∃ id : PnpId, info.pnpId = id.text := by
  obtain ⟨last, -, hlast⟩ := retried_ok (P := fun _ => True) (fun _ h => h) trivial h
  unfold tryEdid at hlast
  generalize bus.write edidAddress [0] last = asked at hlast
  rcases asked with ⟨_ | _, s₁⟩
  · cases hlast
  dsimp only at hlast
  generalize bus.read edidAddress edidBlockLen s₁ = told at hlast
  rcases told with ⟨_ | bytes, s₂⟩
  · cases hlast
  dsimp only at hlast
  cases hparse : Identification.parse bytes.toList with
  | error e => rw [hparse] at hlast; cases hlast
  | ok found =>
    rw [hparse] at hlast
    dsimp only at hlast
    split_ifs at hlast with hvalid
    cases hlast
    exact ((parse_describes.2 bytes.toList info hparse).2).mp hvalid

variable {bus : Bus σ} {P : σ → Prop} (h : ReadsKeep bus P)
include h

theorem exchange_keeps {payload : List UInt8} (hlen : payload.length ≤ maxPayloadLen)
    (hwrite : ∀ s, P s → P (bus.write ddcAddress (requestFrame payload) s).2) (replySize : ℕ)
    {s : Traced σ} (hs : P s.device) : P (exchange bus payload replySize s).2.device := by
  have hframe : buildFrame ddcAddress payload = .ok (.ofRequest (ddcAddress <<< 1) payload hlen) :=
    buildFrame_eq_ok.mpr ⟨by decide, hlen, rfl⟩
  have hasked := hwrite s.device hs
  unfold exchange
  rw [hframe]
  dsimp only
  rw [asBytes_ofRequest]
  change P (bus.write ddcAddress (requestHead payload ++ _) s.device).2 at hasked
  generalize bus.write ddcAddress _ s.device = asked at hasked ⊢
  rcases asked with ⟨_ | _, device⟩
  · exact hasked
  have htold := h.read ddcAddress (replySize + frameOverhead) device hasked
  dsimp only
  generalize bus.read ddcAddress (replySize + frameOverhead) device = told at htold ⊢
  rcases told with ⟨_ | response, device'⟩
  · exact htold
  dsimp only
  cases parseFrame ddcAddress response.toList replySize <;> exact htold

theorem readEdid_keeps {s : σ} (hs : P s) : P (readEdid bus s).2 := by
  refine retried_keeps (fun s hs => ?_) 3 _ hs
  have hasked := h.edid s hs
  unfold tryEdid
  generalize bus.write edidAddress [0] s = asked at hasked ⊢
  rcases asked with ⟨_ | _, s₁⟩
  · exact hasked
  have htold := h.read edidAddress edidBlockLen s₁ hasked
  dsimp only
  generalize bus.read edidAddress edidBlockLen s₁ = told at htold ⊢
  rcases told with ⟨_ | bytes, s₂⟩
  · exact htold
  dsimp only
  cases Identification.parse bytes.toList <;> exact htold

theorem tryControl_keeps (code : UInt8) {s : Traced σ} (hs : P s.device) :
    P (tryControl bus code s).2.device := by
  have hexchange := exchange_keeps h (show [0x01, code].length ≤ maxPayloadLen by simp [maxPayloadLen])
    (h.control code) 8 hs
  unfold tryControl
  generalize exchange bus [0x01, code] 8 s = result at hexchange ⊢
  rcases result with ⟨_ | _, s'⟩ <;> exact hexchange

theorem readControl_keeps (code : UInt8) {s : Traced σ} (hs : P s.device) :
    P (readControl bus code s).2.device := by
  unfold readControl retry
  rw [retryFrom_eq]
  exact retried_keeps (P := fun s : Traced σ => P s.device) (fun s hs => tryControl_keeps h code hs) 3 _ hs

theorem readFragment_keeps (offset : UInt16) {s : Traced σ} (hs : P s.device) :
    P (retry (readFragment bus offset) s).2.device := by
  unfold retry
  rw [retryFrom_eq]
  refine retried_keeps (P := fun s : Traced σ => P s.device) (fun s hs => ?_) 3 _ hs
  have hexchange := exchange_keeps h
    (show ([0xf3, (offset >>> 8).toUInt8, offset.toUInt8] : List UInt8).length ≤ maxPayloadLen by
      simp [maxPayloadLen])
    (h.caps _ _) 64 hs
  unfold readFragment
  generalize exchange bus [0xf3, (offset >>> 8).toUInt8,
    offset.toUInt8] 64 s = result at hexchange ⊢
  rcases result with ⟨_ | _, s'⟩ <;> exact hexchange

theorem readCapabilitiesLoop_keeps (bytes : List UInt8) {s : Traced σ} (hs : P s.device) :
    P (readCapabilitiesLoop bus bytes s).2.device := by
  have hfragment : ∀ {offset s result s'}, retry (readFragment bus offset) s = (result, s') → P s.device →
      P s'.device := by
    intro offset s result s' heq hs
    have hkept := readFragment_keeps h offset hs
    rwa [heq] at hkept
  fun_induction readCapabilitiesLoop bus bytes s with
  | case1 bytes s e s' heq => exact hfragment heq hs
  | case2 bytes s fragment s' heq => exact hfragment heq hs
  | case3 bytes s fragment s' heq => exact hfragment heq hs
  | case4 bytes s fragment s' heq hmore hroom ih => exact ih (hfragment heq hs)

theorem readCapabilityText_keeps {s : σ} (hs : P s) : P (readCapabilityText bus s).2 := by
  have hcollect : P (readCollect bus ⟨s, []⟩).2.device := readCapabilitiesLoop_keeps h [] hs
  unfold readCapabilityText
  generalize readCollect bus ⟨s, []⟩ = result at hcollect ⊢
  rcases result with ⟨_ | bytes, s'⟩ <;> exact hcollect

end Keeps

section Devices

variable {σ : Type} {devices : Devices σ} {P : σ → Prop} (h : devices.Keeps P)
include h

theorem listEach_keeps (numbered : List (ℕ × String)) {s : σ} (hs : P s) :
    P (listEach devices numbered s).2 := by
  induction numbered generalizing s with
  | nil => exact hs
  | cons entry rest ih =>
    obtain ⟨number, path⟩ := entry
    have hopen := h.openFile path s hs
    rw [listEach]
    generalize devices.openFile path s = opened at hopen ⊢
    rcases opened with ⟨e | file, s₁⟩
    · exact ih hopen
    · have hedid := readEdid_keeps (h.bus file) hopen
      dsimp only
      generalize readEdid (devices.bus file) s₁ = read at hedid ⊢
      obtain ⟨info, s₂⟩ := read
      cases info <;> exact ih (h.drop file s₂ hedid)

/-- **Listing only reads.** -/
theorem listMonitors_keeps {s : σ} (hs : P s) : P (listMonitors devices s).2 := by
  have hdir := h.readDir "/dev" s hs
  unfold listMonitors
  generalize devices.readDir "/dev" s = found at hdir ⊢
  rcases found with ⟨e | entries, s₁⟩
  · exact hdir
  dsimp only
  split_ifs
  · exact hdir
  · exact listEach_keeps h _ hdir
  · exact listEach_keeps h _ hdir

/-- **Opening only reads.** -/
theorem openMonitor_keeps (device : String) {s : σ} (hs : P s) :
    P (openMonitor devices device s).2 := by
  unfold openMonitor
  cases deviceName device with
  | none => exact hs
  | some path =>
    have hopen := h.openFile ("/dev/" ++ path) s hs
    dsimp only
    generalize devices.openFile ("/dev/" ++ path) s = opened at hopen ⊢
    rcases opened with ⟨e | file, s₁⟩
    · exact hopen
    have hedid := readEdid_keeps (h.bus file) hopen
    dsimp only
    generalize readEdid (devices.bus file) s₁ = read at hedid ⊢
    rcases read with ⟨e | info, s₂⟩
    · exact h.drop file s₂ hedid
    · exact readCapabilityText_keeps (h.bus file) hedid

omit h in
variable (devices) in
/-- The id of a monitor that was opened is one of three letters and a number. -/
theorem openMonitor_pnpId {device : String} {s s' : σ} {opened : OpenedMonitor}
    (hopened : openMonitor devices device s = (.ok opened, s')) :
    ∃ id : PnpId, opened.pnpId = id.text := by
  unfold openMonitor at hopened
  cases hdevice : deviceName device with
  | none => rw [hdevice] at hopened; cases hopened
  | some path =>
    rw [hdevice] at hopened
    dsimp only at hopened
    generalize devices.openFile ("/dev/" ++ path) s = opening at hopened
    rcases opening with ⟨e | file, s₁⟩
    · cases hopened
    dsimp only at hopened
    have hread : ∀ {info}, (readEdid (devices.bus file) s₁).1 = .ok info → ∃ id : PnpId, info.pnpId = id.text :=
      readEdid_pnpId
    generalize readEdid (devices.bus file) s₁ = read at hread hopened
    rcases read with ⟨e | info, s₂⟩
    · cases hopened
    · cases hopened
      exact hread rfl

/-- **Reading a control only reads.** -/
theorem OpenedMonitor.read_keeps (opened : OpenedMonitor) (code : UInt8) {s : σ} (hs : P s) :
    P (opened.read devices code s).2 := readControl_keeps (h.bus opened.transport) code hs

end Devices

end DdcControl.Scanner
