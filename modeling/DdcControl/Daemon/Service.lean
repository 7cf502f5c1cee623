import DdcControl.Database.Session
import DdcControl.Library.Block
import DdcControl.Protocol.Control

/-!
# The service

The daemon serves six requests on the system bus. It keeps the devices the last probe
found in seven arrays, opens a device for the first request that names it, and closes at
the next probe what it opened. A request may only name a device that was found, by that
name or by another path to it.

## The model

`Ddcci` is what the service calls of the library: any probe, any opening, any closing, any
I2C bus under a monitor, any outcome of an allocation. `Service` is the globals of the
service, each array a `Block`. A handler is a program over them that goes wrong where the
source would use a null pointer, an index outside an array or an element it did not
write. What it does is recorded: the requests, the calls, the transactions with a monitor,
the replies and the signals. The texts printed and the module loading are left out.
-/

namespace DdcControl.Daemon

open Database Protocol

/-! ### The interface on the bus -/

/-- The D-Bus errors. -/
inductive BusError where
  | openFailed
  | invalidDevice
  | scanFailed
  deriving DecidableEq, Repr

/-- The name of an error. -/
def BusError.name : BusError → String
  | .openFailed => "ddccontrol.DDCControl.Error.OpenFailed"
  | .invalidDevice => "ddccontrol.DDCControl.Error.InvalidDevice"
  | .scanFailed => "ddccontrol.DDCControl.Error.ScanFailed"

/-- The message of an error. -/
def BusError.message : BusError → String
  | .openFailed => "Failed to open monitor"
  | .invalidDevice => "only detected devices are allowed"
  | .scanFailed => "Failed to scan monitors"

/-- The requests of the interface, with their arguments. -/
inductive Request where
  | getMonitors
  | rescanMonitors
  | openMonitor (device : List UInt8)
  | getEdid (device : List UInt8)
  | getControl (device : List UInt8) (control : UInt32)
  | setControl (device : List UInt8) (control value : UInt32)
  deriving DecidableEq, Repr

/-- The device a request names. -/
def Request.device : Request → Option (List UInt8)
  | .getMonitors | .rescanMonitors => none
  | .openMonitor device | .getEdid device | .getControl device _ | .setControl device _ _ => some device

/-- What a request is answered with. The value and maximum of a control are those stored,
`none` where nothing was. -/
inductive Reply where
  | error (e : BusError)
  | monitors (devices : List (List UInt8)) (supported : List Bool) (names : List (List UInt8)) (digital : List UInt8)
  | monitor (pnpid caps : List UInt8)
  | edid (bytes : List UInt8)
  | control (result : ℤ) (value maximum : Option UInt16)
  | done
  deriving DecidableEq, Repr

/-- `struct monitorlist`, without the link. -/
structure Detected where
  filename : List UInt8
  supported : Bool
  name : List UInt8
  digital : UInt8
  deriving DecidableEq, Repr

/-- What the service does. A monitor is named by its index in the arrays, with what was opened
there. -/
inductive Event (M : Type) where
  /-- A request arrives. -/
  | request (r : Request)
  /-- `rescan_monitors` is entered. -/
  | rescan
  /-- `ddcci_probe` returned this list. -/
  | probed (monlist : List Detected)
  /-- `ddcci_open` of this name. -/
  | opened (i : ℕ) (name : List UInt8) (mon : M) (ret : ℤ)
  /-- `ddcci_close`. -/
  | closed (i : ℕ) (mon : M)
  /-- A transaction of `ddcci_readctrl`. -/
  | read (i : ℕ) (mon : M) (t : Transaction)
  /-- `ddcci_writectrl` of this request and delay, and whether the monitor took it. -/
  | written (i : ℕ) (mon : M) (request : List UInt8) (delay : ℤ) (done : Bool)
  | replied (reply : Reply)
  /-- The signal `ControlChanged`. -/
  | controlChanged (device : List UInt8) (control value : UInt32)
  deriving DecidableEq, Repr

/-! ### The library -/

/-- Whether each allocation of `rescan_monitors` succeeds. -/
structure Allocated where
  devices : Bool
  supported : Bool
  names : Bool
  digital : Bool
  openMonitors : Bool
  monitorOpen : Bool
  monitorRet : Bool

/-- What the service calls: `ddcci_probe`, `ddcci_open`, `ddcci_close`, the bus of a
monitor, its fields, and `malloc`. -/
structure Ddcci (σ M : Type) where
  probe : σ → List Detected × σ
  openMonitor : List UInt8 → σ → (M × ℤ) × σ
  close : M → σ → σ
  bus : M → Bus σ
  db : M → Option MonitorDb
  pnpid : M → List UInt8
  rawCaps : M → Option (List UInt8)
  edid : M → List UInt8
  malloc : σ → Allocated × σ

/-- The daemon: the state `S` of the service, that of the library, and what was done. -/
structure State (σ M S : Type) where
  service : S
  library : σ
  log : List (Event M)

/-! ### Serving a monitor -/

section Serving

variable {σ S M : Type} {m : Type → Type} [Monad m]

/-- A call of the library. -/
def call {α : Type} (f : σ → α × σ) : StateT (State σ M S) m α :=
  modifyGet fun d => ((f d.library).1, { d with library := (f d.library).2 })

/-- What was done is recorded. -/
def record (events : List (Event M)) : StateT (State σ M S) m Unit :=
  modifyGet fun d => ((), { d with log := d.log ++ events })

/-- An answer. -/
def reply (r : Reply) : StateT (State σ M S) m Unit := record [.replied r]

/-- `RETRYS`. -/
def retrys : ℕ := 3

variable (lib : Ddcci σ M)

/-- `find_write_delay`, whose control is a `char`, which is signed. -/
def findWriteDelay (db : Option MonitorDb) (ctrl : ℤ) : ℤ :=
  match db with
  | none => -1
  | some monitor =>
    let controls := monitor.groups.flatMap fun group => group.subgroups.flatMap DbSubgroup.controls
    match controls.find? fun control => (control.address.toNat : ℤ) = ctrl with
    | none => -1
    | some control => control.delay

/-- A control number as a `char`. -/
def asChar (control : UInt32) : ℤ := (control.toNat : ℤ).bmod 256

/-- `ddcci_readctrl`. -/
def readctrl (i : ℕ) (mon : M) (ctrl : UInt8) : StateT (State σ M S) m (Option VcpReply) := do
  let (result, transactions) ← call fun s =>
    let (result, s) := ddcciReadctrl (lib.bus mon) ctrl ⟨s, []⟩
    ((result, s.transactions), s.device)
  record (transactions.map (.read i mon))
  return result

/-- The loop of `handle_get_control`, and what the last read stored. -/
def readRetry (i : ℕ) (mon : M) (ctrl : UInt8) : (retry : ℕ) → StateT (State σ M S) m (Option VcpReply)
  | 0 => return none
  | retry + 1 => do
    let result ← readctrl lib i mon ctrl
    if result.isSome then return result else readRetry i mon ctrl retry

/-- `ddcci_writectrl`. -/
def writectrl (i : ℕ) (mon : M) (ctrl : UInt8) (value : UInt16) (delay : ℤ) : StateT (State σ M S) m Unit := do
  let done ← call fun s => ddcciWritectrl (lib.bus mon) ctrl value s
  record [.written i mon (writeRequest ctrl value) delay done]

/-- `handle_open_monitor`, once the monitor is open. -/
def serveOpenMonitor (_i : ℕ) (mon : M) : StateT (State σ M S) m Unit :=
  reply (.monitor (lib.pnpid mon) ((lib.rawCaps mon).getD []))

/-- `handle_get_edid`, once the monitor is open. -/
def serveGetEdid (_i : ℕ) (mon : M) : StateT (State σ M S) m Unit := reply (.edid (lib.edid mon))

/-- The result of `ddcci_readctrl`. -/
def readResult : Option VcpReply → ℤ
  | none => -1
  | some reply => if reply.supported then 1 else 0

/-- `handle_get_control`, once the monitor is open. -/
def serveGetControl (control : UInt32) (i : ℕ) (mon : M) : StateT (State σ M S) m Unit := do
  let result ← readRetry lib i mon control.toUInt8 retrys
  reply (.control (readResult result) (result.map VcpReply.value) (result.map VcpReply.maximum))

/-- `handle_set_control`, once the monitor is open. -/
def serveSetControl (device : List UInt8) (control value : UInt32) (i : ℕ) (mon : M) : StateT (State σ M S) m Unit := do
  let delay := findWriteDelay (lib.db mon) (asChar control)
  writectrl lib i mon control.toUInt8 value.toUInt16 delay
  reply .done
  record [.controlChanged device control value]

/-- What a handler of a device begins with: the device must be listed, and open. -/
def admission (canOpenDevice : StateT (State σ M S) m Bool) (openMonitor : StateT (State σ M S) m (Option (ℕ × M) × ℤ)) :
    StateT (State σ M S) m (Except BusError (ℕ × M)) := do
  if !(← canOpenDevice) then return .error .invalidDevice
  else
    match ← openMonitor with
    | (some opened, ret) => return if ret < 0 then .error .openFailed else .ok opened
    | (none, _) => return .error .openFailed

/-- A handler of a device. -/
def onMonitor (canOpenDevice : StateT (State σ M S) m Bool) (openMonitor : StateT (State σ M S) m (Option (ℕ × M) × ℤ))
    (serve : ℕ → M → StateT (State σ M S) m Unit) : StateT (State σ M S) m Unit := do
  match ← admission canOpenDevice openMonitor with
  | .error e => reply (.error e)
  | .ok (i, mon) => serve i mon

/-- A handler that lists the monitors after a scan. -/
def onScan (scan : StateT (State σ M S) m Bool) (complete : StateT (State σ M S) m Unit) : StateT (State σ M S) m Unit := do
  if !(← scan) then reply (.error .scanFailed) else complete

end Serving

/-! ### Names -/

section Names

variable (realpath : List UInt8 → Option (List UInt8))

/-- `resolve_dev_device`. -/
def resolveDevDevice (device : List UInt8) : Option (List UInt8) :=
  if !(utf8 "dev:").isPrefixOf device then none
  else
    let devPath := device.drop 4
    if devPath.isEmpty then none
    else if !(utf8 "/dev/").isPrefixOf devPath then none
    else realpath devPath

/-- `same_device`. -/
def sameDevice (detected requested : List UInt8) : Bool :=
  if detected = requested then true
  else
    match resolveDevDevice realpath detected with
    | none => false
    | some detectedPath =>
      match resolveDevDevice realpath requested with
      | none => false
      | some requestedPath => detectedPath = requestedPath

end Names

/-! ### The globals -/

/-- The globals of `service.c`. A slot of `devices` or `names` may hold a null pointer. -/
structure Service (M : Type) where
  monlist : List Detected
  devicesCount : ℕ
  devices : Block (Option (List UInt8))
  supported : Block Bool
  names : Block (Option (List UInt8))
  digital : Block UInt8
  openMonitors : Block M
  monitorOpen : Block Bool
  monitorRet : Block ℤ

/-- The globals at the start, and after a failed scan. -/
def Service.null {M : Type} : Service M := ⟨[], 0, none, none, none, none, none, none, none⟩

/-- The arrays `rescan_monitors` allocates. -/
def Service.allocate {M : Type} (s : Service M) (allocated : Allocated) (count : ℕ) : Service M :=
  let allocCount := if count > 0 then count else 1
  { s with
    devices := .malloc allocated.devices (count + 1)
    supported := .malloc allocated.supported allocCount
    names := .malloc allocated.names (count + 1)
    digital := .malloc allocated.digital allocCount
    openMonitors := .malloc allocated.openMonitors allocCount
    monitorOpen := .malloc allocated.monitorOpen allocCount
    monitorRet := .malloc allocated.monitorRet allocCount }

/-- An allocation failed. -/
def Service.incomplete {M : Type} (s : Service M) : Bool :=
  s.devices.isNone || s.supported.isNone || s.names.isNone || s.digital.isNone || s.openMonitors.isNone ||
    s.monitorOpen.isNone || s.monitorRet.isNone

/-- The loop of `rescan_monitors` that fills the arrays, and the null pointers after it. -/
def Service.fill {M : Type} (s : Service M) : List Detected → ℕ → Option (Service M)
  | [], i => do
    return { s with devices := ← s.devices.store i none, names := ← s.names.store i none }
  | current :: rest, i => do
    let s := { s with
      devices := ← s.devices.store i (some current.filename)
      supported := ← s.supported.store i current.supported
      monitorOpen := ← s.monitorOpen.store i false
      names := ← s.names.store i (some current.name)
      digital := ← s.digital.store i current.digital }
    s.fill rest (i + 1)

/-- A monitor was opened. -/
def Service.enter {M : Type} (s : Service M) (i : ℕ) (mon : M) (ret : ℤ) : Option (Service M) := do
  return { s with
    openMonitors := ← s.openMonitors.store i mon
    monitorRet := ← s.monitorRet.store i ret
    monitorOpen := ← s.monitorOpen.store i true }

section Handlers

variable {σ M : Type}

/-- A program of the service, which may go wrong. -/
abbrev Handler (σ M α : Type) : Type := StateT (State σ M (Service M)) Option α

/-- A read of the globals. -/
def observe {α : Type} (f : Service M → α) : Handler σ M α := fun d => some (f d.service, d)

/-- A write of the globals. -/
def update (f : Service M → Service M) : Handler σ M Unit := fun d => some ((), { d with service := f d.service })

/-- A read of the arrays. -/
def look {α : Type} (f : Service M → Option α) : Handler σ M α := fun d => (f d.service).map (·, d)

/-- A write of the arrays. -/
def write (f : Service M → Option (Service M)) : Handler σ M Unit :=
  fun d => (f d.service).map fun service => ((), { d with service := service })

variable (lib : Ddcci σ M) (realpath : List UInt8 → Option (List UInt8))

/-- The loop that closes the monitors that are open. -/
def closeMonitors : (remaining : ℕ) → (i : ℕ) → Handler σ M Unit
  | 0, _ => return ()
  | remaining + 1, i => do
    if ← look (·.monitorOpen.load i) then
      let mon ← look (·.openMonitors.load i)
      call fun s => ((), lib.close mon s)
      record [.closed i mon]
    closeMonitors remaining (i + 1)

/-- The first half of `rescan_monitors`: the arrays are released. -/
def releaseMonitors : Handler σ M Unit := do
  if ← observe (·.openMonitors.isSome) then
    update fun s => { s with devices := none, supported := none, names := none, digital := none }
    closeMonitors lib (← observe (·.devicesCount)) 0
    update fun s => { s with
      openMonitors := none, monitorOpen := none, monitorRet := none, monlist := [], devicesCount := 0 }

/-- `rescan_monitors`. -/
def rescanMonitors : Handler σ M Bool := do
  record [.rescan]
  releaseMonitors lib
  let monlist ← call lib.probe
  record [.probed monlist]
  let allocated ← call lib.malloc
  update fun s => { s with monlist := monlist }.allocate allocated monlist.length
  if ← observe Service.incomplete then
    update fun _ => .null
    return false
  else
    write (·.fill monlist 0)
    update fun s => { s with devicesCount := monlist.length }
    return true

/-- The loops that look for a device in the list. -/
def findDevice (device : List UInt8) : (remaining : ℕ) → (i : ℕ) → Handler σ M (Option ℕ)
  | 0, _ => return none
  | remaining + 1, i => do
    let detected ← look fun s => (s.devices.load i).join
    if sameDevice realpath detected device then return some i else findDevice device remaining (i + 1)

/-- A search of the whole list. -/
def searchDevices (device : List UInt8) : Handler σ M (Option ℕ) := do
  findDevice realpath device (← observe (·.devicesCount)) 0

/-- A search of the list, if there is one. -/
def searchCached (device : List UInt8) : Handler σ M (Option ℕ) := do
  if ← observe (·.openMonitors.isSome) then searchDevices realpath device else return none

/-- `can_open_device`. -/
def canOpenDevice (device : List UInt8) : Handler σ M Bool := do
  if (← searchCached realpath device).isSome then return true
  else
    let _ ← rescanMonitors lib
    return (← searchDevices realpath device).isSome

/-- `ddcci_open`, of a monitor that is not open. -/
def ensureOpen (i : ℕ) : Handler σ M Unit := do
  if !(← look (·.monitorOpen.load i)) then
    let name ← look fun s => (s.devices.load i).join
    let (mon, ret) ← call (lib.openMonitor name)
    record [.opened i name mon ret]
    write (·.enter i mon ret)

/-- `open_monitor`: the monitor, if there is one, and the result. -/
def openMonitor (device : List UInt8) : Handler σ M (Option (ℕ × M) × ℤ) := do
  match ← searchDevices realpath device with
  | none => return (none, -1)
  | some i =>
    ensureOpen lib i
    let mon ← look (·.openMonitors.load i)
    return (some (i, mon), ← look (·.monitorRet.load i))

/-- `ddccontrol_complete_get_monitors`. -/
def completeGetMonitors : Handler σ M Unit := do
  let devices ← look (·.devices.untilNull)
  let supported ← look fun s => s.supported.take s.devicesCount
  let names ← look (·.names.untilNull)
  let digital ← look fun s => s.digital.take s.devicesCount
  reply (.monitors devices supported names digital)

/-- The scan of `handle_get_monitors`, which may be left out. -/
def scanMonitors : Handler σ M Bool := do
  if ← observe fun s => s.openMonitors.isNone || s.devicesCount = 0 then rescanMonitors lib else return true

/-- The handler of a request. -/
def handle (r : Request) : Handler σ M Unit :=
  match r with
  | .getMonitors => onScan (scanMonitors lib) completeGetMonitors
  | .rescanMonitors => onScan (rescanMonitors lib) completeGetMonitors
  | .openMonitor device =>
    onMonitor (canOpenDevice lib realpath device) (openMonitor lib realpath device) (serveOpenMonitor lib)
  | .getEdid device =>
    onMonitor (canOpenDevice lib realpath device) (openMonitor lib realpath device) (serveGetEdid lib)
  | .getControl device control =>
    onMonitor (canOpenDevice lib realpath device) (openMonitor lib realpath device) (serveGetControl lib control)
  | .setControl device control value =>
    onMonitor (canOpenDevice lib realpath device) (openMonitor lib realpath device)
      (serveSetControl lib device control value)

/-- A request arrives, and is handled. -/
def serve (r : Request) : Handler σ M Unit := do
  record [.request r]
  handle lib realpath r

/-- Requests, one after another. -/
def serveAll : List Request → Handler σ M Unit
  | [] => return ()
  | r :: rs => do
    serve lib realpath r
    serveAll rs

end Handlers

/-- The daemon when it starts. -/
def start {σ M : Type} (library : σ) : State σ M (Service M) := ⟨.null, library, []⟩

end DdcControl.Daemon
