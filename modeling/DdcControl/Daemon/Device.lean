import DdcControl.Capabilities.Received
import DdcControl.Daemon.Service
import DdcControl.Opening.DeviceOrder
import DdcControl.Opening.Fallback
import DdcControl.Protocol.Collect
import Mathlib.Data.Multiset.AddSub

/-!
# Monitors on their devices

What the library does with a monitor that is on an I2C device of this computer: probing
for one, opening it, and closing it, with all that is allocated on the way.

## The model

`System` is what the library asks of the operating system, and may answer anything. A
`DeviceMonitor` is a `struct monitor` of a device; `Resource` names what hangs on it and
has to be released, and `ddcciClose` lists what it released, in order. The descriptors
that are open, and the closings so far, are kept beside the state of the system
(`Descriptors`). `close` releases the descriptor whatever it returns, as Linux does.
The texts printed, the delays and the details of an EDID that no decision uses are left
out, and memory does not run out here.
-/

namespace DdcControl.Daemon

open Capabilities Comparison Opening Protocol

/-! ### EDID -/

/-- What is read of an EDID. -/
structure Edid where
  pnpId : String
  digital : UInt8
  raw : List UInt8
  deriving DecidableEq, Repr

/-- `EDID_HEADER`. -/
def edidHeader : List UInt8 := [0x00, 0xff, 0xff, 0xff, 0xff, 0xff, 0xff, 0x00]

/-- `EDID_BLOCK_LEN`. -/
def edidBlockLen : ℕ := 128

/-- A digit of `{:X}`. -/
def upperHexDigit (n : ℕ) : Char := if n < 10 then .ofNat ('0'.toNat + n) else .ofNat ('A'.toNat + (n - 10))

/-- `{product_code:04X}`. -/
def productCode (low high : UInt8) : List Char :=
  [upperHexDigit (high.toNat / 16), upperHexDigit (high.toNat % 16), upperHexDigit (low.toNat / 16),
    upperHexDigit (low.toNat % 16)]

/-- A letter of the manufacturer's id. -/
def manufacturerLetter (bits : UInt8) : Char := .ofNat ((bits + 'A'.toUInt8 - 1).toNat)

/-- `ddccontrol_edid::parse`. -/
def parseEdid (input : List UInt8) : Option Edid :=
  if input.length < 0x17 then none
  else if input.take 8 ≠ edidHeader then none
  else
    let byte (i : ℕ) : UInt8 := input.getD i 0
    let manufacturer := [(byte 8 >>> 2) &&& 0x1f, ((byte 8 &&& 0x03) <<< 3) + (byte 9 >>> 5), byte 9 &&& 0x1f]
    some {
      pnpId := String.ofList (manufacturer.map manufacturerLetter ++ productCode (byte 10) (byte 11))
      digital := if byte 0x14 &&& 0x80 ≠ 0 then 0x80 else 0
      raw := input.take edidBlockLen }

/-! ### The system -/

/-- What the library asks of the operating system: to open a file, to close a descriptor,
to use the bus a descriptor is open on, for the names under `/dev/`, and for memory. -/
structure System (σ : Type) where
  openFile : List UInt8 → σ → Option ℕ × σ
  closeFile : ℕ → σ → Bool × σ
  bus : ℤ → Bus σ
  entries : σ → List (List UInt8) × σ
  malloc : σ → Allocated × σ

/-- `struct monitor`, of a device: a descriptor, what its EDID and its capabilities say, what
was chosen for it, and how many profiles were fetched for it. -/
structure DeviceMonitor where
  fd : ℤ
  pnpid : String
  digital : UInt8
  edid : List UInt8
  rawCaps : Option (List UInt8)
  selected : Monitor
  profiles : ℕ

/-- A monitor after `memset`, with a descriptor. -/
def DeviceMonitor.blank (fd : ℤ) : DeviceMonitor := ⟨fd, "", 0, [], none, .start .default, 0⟩

/-- The system, the descriptors that are open, and the monitors closed so far, each with
the state it was closed in. -/
structure Descriptors (σ : Type) where
  os : σ
  held : Multiset ℕ
  closings : List (DeviceMonitor × σ)

section Library

variable {σ : Type}

/-! ### Opening -/

/-- `DEFAULT_EDID_ADDR`. -/
def edidAddress : UInt8 := 0x50

/-- `DDCCI_CTRL`. -/
def ddcciCtrl : UInt8 := 0xf5

/-- The loop of `ddcci_read_edid`. -/
def ddcciReadEdid (bus : Bus σ) : (retry : ℕ) → σ → Option Edid × σ
  | 0, s => (none, s)
  | retry + 1, s =>
    match bus.write edidAddress [0] s with
    | (false, s) => ddcciReadEdid bus retry s
    | (true, s) =>
      match bus.read edidAddress edidBlockLen s with
      | (none, s) => ddcciReadEdid bus retry s
      | (some buf, s) =>
        match parseEdid buf.toList with
        | some edid => (some edid, s)
        | none => ddcciReadEdid bus retry s

/-- `ddcci_caps`: the text that was kept and the table; the table is empty where it fails. -/
def ddcciCaps (bus : Bus σ) (s : σ) : Option (List UInt8 × Caps) × σ :=
  match ddcciCollect bus ⟨s, []⟩ with
  | (none, s) => (none, s.device)
  | (some rawCaps, s) =>
    match ddcciNormalizeCaps rawCaps with
    | none => (none, s.device)
    | some text => ((ddcciParseCaps (cString text) .default).map (text, ·), s.device)

/-- What the tree chosen for a monitor says of its init mode. -/
def isSamsung (selected : Monitor) : Bool := selected.db.any fun db => db.2.init = .samsung

/-- The end of `ddcci_open_with_addr`: the command that enables or finds the monitor. -/
def ddcciActivate (bus : Bus σ) (selected : Monitor) (capsProveSupport : Bool) (s : σ) : Bool × σ :=
  if isSamsung selected then ddcciWritectrl bus ddcciCtrl 1 s
  else if capsProveSupport then (true, s)
  else ddcciCommand bus 0xf7 s

variable (sys : System σ) (translate : String → List UInt8) (context : Database.DbContext)

/-- `ddcci_open_with_addr`, once the file is open. -/
def ddcciIdentify (mon : DeviceMonitor) (s : σ) : (DeviceMonitor × ℤ) × σ :=
  match ddcciReadEdid (sys.bus mon.fd) 3 s with
  | (none, s) => ((mon, -2), s)
  | (some edid, s) =>
    match ddcciCaps (sys.bus mon.fd) s with
    | (received, s) =>
      let caps := (received.map Prod.snd).getD .default
      let mon := { mon with
        pnpid := edid.pnpId, digital := edid.digital, edid := edid.raw, rawCaps := received.map Prod.fst }
      match selectWithAddr translate context edid.pnpId caps with
      | .error selected => (({ mon with selected := selected }, -1), s)
      | .ok selected =>
        match ddcciActivate (sys.bus mon.fd) selected received.isSome s with
        | (true, s) => (({ mon with selected := selected }, 0), s)
        | (false, s) => (({ mon with selected := selected }, -1), s)

/-- `ddcci_open`. -/
def ddcciOpen (filename : List UInt8) (d : Descriptors σ) : (DeviceMonitor × ℤ) × Descriptors σ :=
  if !(utf8 "dev:").isPrefixOf filename then ((.blank 0, -3), d)
  else
    match sys.openFile (filename.drop 4) d.os with
    | (none, s) => ((.blank (-1), -3), { d with os := s })
    | (some fd, s) =>
      match ddcciIdentify sys translate context (.blank fd) s with
      | (opened, s) => (opened, { d with os := s, held := fd ::ₘ d.held })

/-! ### Closing -/

/-- What hangs on a monitor and is released with it. -/
inductive Resource where
  | db
  | values (code : UInt8)
  | vcp (code : UInt8)
  | rawCaps
  | profile (i : ℕ)
  | descriptor
  deriving DecidableEq, Repr

/-- The codes of the table, `0` to `255`. -/
def codes : List UInt8 := (List.range 256).map UInt8.ofNat

/-- The entry of a code, and the array of its values, if it has one. -/
def DeviceMonitor.vcpResources (mon : DeviceMonitor) (code : UInt8) : List Resource :=
  match mon.selected.caps.vcp code with
  | none => []
  | some entry => (if (entry.values.getD []).isEmpty then [] else [.values code]) ++ [.vcp code]

/-- `ddcci_free_profile`, which begins with the last. -/
def freeProfiles (profiles : ℕ) : List Resource := (List.range profiles).reverse.map .profile

/-- What `ddcci_close` frees of the memory of a monitor. -/
def DeviceMonitor.allocated (mon : DeviceMonitor) : List Resource :=
  (if mon.selected.db.isSome then [.db] else []) ++ codes.flatMap mon.vcpResources ++
    (if mon.rawCaps.isSome then [.rawCaps] else []) ++ freeProfiles mon.profiles

/-- Whether a monitor has to be told that it is being closed. -/
def DeviceMonitor.needsDisable (mon : DeviceMonitor) : Bool :=
  if mon.selected.db.isSome then isSamsung mon.selected
  else 0 ≤ mon.selected.fallback && "SAM".toList.isPrefixOf mon.pnpid.toList

/-- `ddcci_close`, once the monitor was told. -/
def ddcciRelease (mon : DeviceMonitor) (d : Descriptors σ) : (ℤ × List Resource) × Descriptors σ :=
  if mon.fd > -1 then
    match sys.closeFile mon.fd.toNat d.os with
    | (closed, s) =>
      ((if closed then 0 else -3, mon.allocated ++ [.descriptor]),
        { d with os := s, held := d.held.erase mon.fd.toNat })
  else ((0, mon.allocated), d)

/-- `ddcci_close`: what it returns, and what it released. -/
def ddcciClose (mon : DeviceMonitor) (d : Descriptors σ) : (ℤ × List Resource) × Descriptors σ :=
  let d := { d with closings := d.closings ++ [(mon, d.os)] }
  if mon.needsDisable then
    match ddcciWritectrl (sys.bus mon.fd) ddcciCtrl 0 d.os with
    | (false, s) => ((-1, []), { d with os := s })
    | (true, s) => ddcciRelease sys mon { d with os := s }
  else ddcciRelease sys mon d

/-! ### Probing -/

/-- `printf` of a format with one `%s`. -/
def formatString (argument : List UInt8) : List UInt8 → List UInt8
  | [] => []
  | byte :: rest =>
    if (utf8 "%s").isPrefixOf (byte :: rest) then argument ++ rest.drop 1 else byte :: formatString argument rest

/-- The name under which a monitor is listed. -/
def DeviceMonitor.name (mon : DeviceMonitor) : List UInt8 :=
  match mon.selected.db with
  | some db =>
    if mon.selected.fallback > 0 then db.2.name ++ utf8 " [" ++ utf8 mon.pnpid ++ utf8 "]" else db.2.name
  | none => (formatString (utf8 mon.pnpid) (translate "Unknown monitor (%s)")).take 31

/-- `ddcci_probe_device`: what it adds to the list. -/
def ddcciProbeDevice (filename : List UInt8) (d : Descriptors σ) : List Detected × Descriptors σ :=
  match ddcciOpen sys translate context filename d with
  | ((mon, ret), d) =>
    let listed := if ret > -2 then [⟨filename, ret = 0, mon.name translate, mon.digital⟩] else []
    (listed, (ddcciClose sys mon d).2)

/-- The names that `ddcci_probe` tries, with merge sort for `qsort`. -/
def probedFilenames (entries : List (List UInt8)) : List (List UInt8) :=
  sortedFilenames (fun cmp l => l.mergeSort fun a b => AtMost cmp a b) (utf8 "i2c-") entries

/-- The loop of `ddcci_probe`. -/
def ddcciProbeEach : List (List UInt8) → Descriptors σ → List Detected × Descriptors σ
  | [], d => ([], d)
  | filename :: rest, d =>
    let (listed, d) := ddcciProbeDevice sys translate context filename d
    let (monlist, d) := ddcciProbeEach rest d
    (listed ++ monlist, d)

/-- `ddcci_probe`. -/
def ddcciProbe (d : Descriptors σ) : List Detected × Descriptors σ :=
  match sys.entries d.os with
  | (entries, s) => ddcciProbeEach sys translate context (probedFilenames entries) { d with os := s }

/-! ### Under the daemon -/

/-- A bus, beside the descriptors. -/
def busOf (bus : Bus σ) : Bus (Descriptors σ) where
  write address bytes d := ((bus.write address bytes d.os).1, { d with os := (bus.write address bytes d.os).2 })
  read address length d := ((bus.read address length d.os).1, { d with os := (bus.read address length d.os).2 })

/-- The library that the daemon calls. -/
def deviceLibrary : Ddcci (Descriptors σ) DeviceMonitor where
  probe := ddcciProbe sys translate context
  openMonitor := ddcciOpen sys translate context
  close mon d := (ddcciClose sys mon d).2
  bus mon := busOf (sys.bus mon.fd)
  db mon := mon.selected.db.map Prod.snd
  pnpid mon := utf8 mon.pnpid
  rawCaps mon := mon.rawCaps.map cString
  edid mon := mon.edid
  malloc d := ((sys.malloc d.os).1, { d with os := (sys.malloc d.os).2 })

/-- The library before anything is open. -/
def Descriptors.start (os : σ) : Descriptors σ := ⟨os, 0, []⟩

end Library

end DdcControl.Daemon
