import DdcControl.Client.Remote
import DdcControl.Protocol.Display
import DdcControl.Scanner.Backend
import DdcControl.Scanner.Loading

/-!
# A run of the scanner

`ddccontrol-scanmonitor` reads the vocabulary, opens the monitor that is named or chosen, asks
it for every control that its capabilities or the vocabulary know, and writes a profile. Its
help says that it does not set control values, and never overwrites existing files.

## The model

A `Host` is the devices with files, and may answer anything; nothing else changes its files
during a run. The standard input is a list of lines, and the directory that was built in is a
parameter. What is printed is left out, but for the list of monitors; printing does not fail.

## What is proved

* `main_creates` — a file that was there stays as it is, a run that says that it created one
  did, and any other run leaves the files as they were, or its own that it could not remove.
* `main_reads` — a run changes no control of any display, and the values in the profile are
  those that one display has, if the displays answer with them.
-/

namespace DdcControl.Scanner

open Capabilities Client Context Daemon Fallible Identification Protocol

/-! ### Arguments -/

/-- `OsString`, and a path. -/
abbrev OsString : Type := List UInt8

/-- `Args`. -/
structure Args where
  device : Option String
  output : Option OsString
  dbPath : Option OsString
  list : Bool
  help : Bool
  version : Bool
  deriving DecidableEq, Repr

/-- `Args::default`. -/
def Args.default : Args := ⟨none, none, none, false, false, false⟩

/-- What selects a device. -/
def deviceArg (arg : OsString) : Option String := do
  let text ← String.fromUTF8? ⟨arg.toArray⟩
  if "dev:/dev/".toList.isPrefixOf text.toList then some text else none

/-- A path is put where one was not given yet. -/
def Args.put (parsed : Args) (arg value : OsString) : Except String Args :=
  let again := toStringLossy arg ++ " specified more than once"
  if arg = utf8 "-o" || arg = utf8 "--output" then
    if parsed.output.isSome then .error again else .ok { parsed with output := some value }
  else if parsed.dbPath.isSome then .error again
  else .ok { parsed with dbPath := some value }

/-- The loop of `parse_args`. -/
def parseArgsFrom (parsed : Args) : List OsString → Except String Args
  | [] => .ok parsed
  | arg :: rest =>
    if arg = utf8 "-h" || arg = utf8 "--help" then parseArgsFrom { parsed with help := true } rest
    else if arg = utf8 "-V" || arg = utf8 "--version" then parseArgsFrom { parsed with version := true } rest
    else if arg = utf8 "--list" then parseArgsFrom { parsed with list := true } rest
    else if arg ∈ [utf8 "-o", utf8 "--output", utf8 "-b", utf8 "--db-path"] then
      match rest with
      | [] | [] :: _ => .error (toStringLossy arg ++ " requires a path")
      | value :: rest => do parseArgsFrom (← parsed.put arg value) rest
    else
      match deviceArg arg with
      | none => .error ("unknown argument: " ++ toStringLossy arg ++ ". Try --help")
      | some device =>
        if parsed.device.isSome then .error "select only one monitor at a time"
        else parseArgsFrom { parsed with device := some device } rest

/-- `parse_args`. -/
def parseArgs (args : List OsString) : Except String Args := do
  let parsed ← parseArgsFrom .default args
  reject (parsed.list && (parsed.device.isSome || parsed.output.isSome))
    "--list cannot be combined with a device or --output"
  return parsed

/-! ### The host -/

/-- What the scanner asks of the operating system beyond its devices: whether there is a file
at a path, what a file has, whether there is anything at a path, to create a file where there
is nothing, to write all of it to the disk, and to remove it. -/
structure Host (σ : Type) extends Devices σ where
  isFile : OsString → σ → Bool × σ
  readFile : OsString → σ → Except IoError (List UInt8) × σ
  isPresent : OsString → σ → Bool × σ
  createNew : OsString → σ → Except IoError ℕ × σ
  writeAll : ℕ → List UInt8 → σ → Except IoError Unit × σ
  removeFile : OsString → σ → Bool × σ
  isTerminal : Bool

/-- What a run ends with. -/
inductive Outcome where
  | help
  | version
  | listed (monitors : List ListedMonitor)
  | created (output : OsString) (scan : Scan)

/-- The operator `?`, after what changes a state. -/
def andThen {ε α β σ : Type} (result : Except ε α × σ) (next : α → σ → Except ε β × σ) : Except ε β × σ :=
  match result with
  | (.error e, s) => (.error e, s)
  | (.ok value, s) => next value s

section Run

variable {σ : Type} (host : Host σ)

/-! ### The vocabulary -/

/-- `Path::join`, with a name. -/
def joined (path : OsString) (name : String) : OsString :=
  if path = [] || path.getLast? = some 0x2f then path ++ utf8 name else path ++ utf8 "/" ++ utf8 name

/-- The first of the directories with a vocabulary. -/
def findDatabase : List OsString → σ → Except Failure OsString × σ
  | [], s => (.error (.message "cannot find ddccontrol-db; install it or use --db-path DIR"), s)
  | path :: rest, s =>
    match host.isFile (joined path "options.xml") s with
    | (true, s) => (.ok path, s)
    | (false, s) => findDatabase rest s

/-- `database_path`, with the directory that was built in. -/
def databasePath (dataDir explicit : Option OsString) (s : σ) : Except Failure OsString × σ :=
  match explicit.or dataDir with
  | some path => (.ok path, s)
  | none => findDatabase host [utf8 "/usr/share/ddccontrol-db", utf8 "/usr/local/share/ddccontrol-db"] s

/-- `options::load`, and `index_options`. -/
def loadIndex (x : XmlReader) (path : OsString) (s : σ) : Except Failure Options × σ :=
  match host.readFile (joined path "options.xml") s with
  | (.error e, s) => (.error (.message ("I/O error while reading options.xml: " ++ e.text ++ ".")), s)
  | (.ok file, s) => ((parse x file >>= indexOptions).mapError .message, s)

/-! ### The monitor -/

/-- `str::parse::<usize>`. -/
def parseUsize (text : List Char) : Option ℕ :=
  let digits := if text.head? = some '+' then text.tail else text
  if digits.isEmpty || !digits.all (isDigit 10) then none
  else if digitsValue 10 digits < 2 ^ 64 then some (digitsValue 10 digits)
  else none

/-- `select_monitor`. -/
def selectMonitor (monitors : List ListedMonitor) (choice : String) : Except String (Fin monitors.length) :=
  match parseUsize (trimmed choice) with
  | some (index + 1) =>
    if h : index < monitors.length then .ok ⟨index, h⟩
    else .error ("enter a monitor number from 1 to " ++ toString monitors.length)
  | _ => .error ("enter a monitor number from 1 to " ++ toString monitors.length)

/-- The loop of `choose_device`, over the lines that are typed. -/
def askMonitor (monitors : List ListedMonitor) : List (Except IoError String) → Except Failure String
  | [] => .error (.message "no monitor selected")
  | .error e :: _ => .error (.message e.text)
  | .ok choice :: rest =>
    if choice.isEmpty then .error (.message "no monitor selected")
    else match selectMonitor monitors choice with
      | .ok index => .ok (monitors.get index).device
      | .error _ => askMonitor monitors rest

/-- The device, of the monitors that were found. -/
def chooseAmong (input : List (Except IoError String)) : List ListedMonitor → Except Failure String
  | [] => .error (.message "no monitors found; check I2C permissions, the connection and the i2c-dev module")
  | [monitor] => .ok monitor.device
  | monitors =>
    if !host.isTerminal then
      .error (.message "more than one monitor found; pass a device from the list, for example ddccontrol-scanmonitor dev:/dev/i2c-4")
    else askMonitor monitors input

/-- `choose_device`, unless a device is given. -/
def chosenDevice (explicit : Option String) (input : List (Except IoError String)) (s : σ) : Except Failure String × σ :=
  match explicit with
  | some device => (.ok device, s)
  | none => andThen (listMonitors host.toDevices s) fun monitors s => (chooseAmong host input monitors, s)

/-! ### The scan -/

/-- The codes that are asked for: those that the capabilities or the vocabulary know. -/
def scannedCodes (caps : Caps) (options : Options) : List UInt8 :=
  allCodes.filter fun code => (caps.isSupported code || !(options code).isEmpty) && code < 0xe0

/-- The readings of the codes, in turn. -/
def readEach (opened : OpenedMonitor) : List UInt8 → (UInt8 → Option Reading) → σ → (UInt8 → Option Reading) × σ
  | [], readings, s => (readings, s)
  | code :: rest, readings, s =>
    match opened.read host.toDevices code s with
    | (.ok (some reading), s) => readEach opened rest (Function.update readings code (some reading)) s
    | (_, s) => readEach opened rest readings s

/-- `write_new`. -/
def writeNew (path : OsString) (contents : String) (s : σ) : Except Failure Unit × σ :=
  match host.createNew path s with
  | (.error e, s) =>
    (.error (.message (if e.kind = .alreadyExists then toStringLossy path ++ " already exists; choose another --output file"
      else "cannot create " ++ toStringLossy path ++ ": " ++ e.text)), s)
  | (.ok file, s) =>
    match host.writeAll file (utf8 contents) s with
    -- the file is this run's own, and incomplete
    | (.error e, s) =>
      (.error (.message ("cannot write " ++ toStringLossy path ++ ": " ++ e.text)), (host.removeFile path (host.drop file s)).2)
    | (.ok (), s) => (.ok (), host.drop file s)

/-- The rest of `run`, with an open monitor. -/
def scanOpened (options : Options) (explicit : Option OsString) (opened : OpenedMonitor) (s : σ) :
    Except Failure Outcome × σ :=
  let output := explicit.getD (utf8 (opened.pnpId ++ ".xml"))
  let (present, s) := host.isPresent output s
  if present then (.error (.message (toStringLossy output ++ " already exists; choose another --output file")), s)
  else
    let caps := (Caps.parse (utf8 opened.capabilities)).toOption.getD .default
    let (readings, s) := readEach host opened (scannedCodes caps options) (fun _ => none) s
    if allCodes.all fun code => (readings code).isNone then
      (.error (.message "no readable controls found; no XML written. Check that DDC/CI is enabled and retry"), s)
    else
      let scan : Scan := ⟨opened.pnpId, opened.name.getD "Unknown monitor (edit this name)", caps, readings⟩
      andThen (writeNew host output (generate scan options) s) fun _ s => (.ok (.created output scan), s)

/-- `run` with a device, which is dropped at its end. -/
def scanDevice (options : Options) (explicit : Option OsString) (device : String) (s : σ) : Except Failure Outcome × σ :=
  andThen (openMonitor host.toDevices device s) fun opened s =>
    let (result, s) := scanOpened host options explicit opened s
    (result, host.drop opened.transport s)

/-- `run`. -/
def run (x : XmlReader) (dataDir : Option OsString) (input : List (Except IoError String)) (args : Args) (s : σ) :
    Except Failure Outcome × σ :=
  if args.help then (.ok .help, s)
  else if args.version then (.ok .version, s)
  else if args.list then
    andThen (listMonitors host.toDevices s) fun monitors s =>
      (if monitors.isEmpty then .error (.message "no monitors found") else .ok (.listed monitors), s)
  else
    andThen (databasePath host dataDir args.dbPath s) fun path s =>
    andThen (loadIndex host x path s) fun options s =>
    andThen (chosenDevice host args.device input s) fun device s =>
    scanDevice host options args.output device s

/-- `main`. -/
def main (x : XmlReader) (dataDir : Option OsString) (input : List (Except IoError String)) (args : List OsString) (s : σ) :
    Except Failure Outcome × σ :=
  andThen ((parseArgs args).mapError .message, s) fun args s => run host x dataDir input args s

end Run

/-! ### What a run keeps -/

section Keeps

variable {σ : Type} {host : Host σ}

/-- A predicate that is kept by the devices and by looking at files. -/
structure Host.Keeps (host : Host σ) (P : σ → Prop) : Prop where
  devices : host.toDevices.Keeps P
  isFile : ∀ path s, P s → P (host.isFile path s).2
  readFile : ∀ path s, P s → P (host.readFile path s).2
  isPresent : ∀ path s, P s → P (host.isPresent path s).2

/-- What holds of every error holds of the whole, if it holds of what comes next. -/
theorem andThen_of {ε α β : Type} {result : Except ε α × σ} {next : α → σ → Except ε β × σ}
    {P : σ → Prop} {Q : Except ε β × σ → Prop} (hresult : P result.2)
    (herror : ∀ e s, P s → Q (.error e, s))
    (hnext : ∀ value s, result = (.ok value, s) → P s → Q (next value s)) :
    Q (andThen result next) := by
  rcases result with ⟨e | value, s⟩
  · exact herror e s hresult
  · exact hnext value s rfl hresult

variable {P : σ → Prop} (h : host.Keeps P)
include h

theorem findDatabase_keeps (paths : List OsString) {s : σ} (hs : P s) :
    P (findDatabase host paths s).2 := by
  induction paths generalizing s with
  | nil => exact hs
  | cons path rest ih =>
    have hfile := h.isFile (joined path "options.xml") s hs
    rw [findDatabase]
    generalize host.isFile (joined path "options.xml") s = result at hfile ⊢
    rcases result with ⟨_ | _, s'⟩
    · exact ih hfile
    · exact hfile

theorem databasePath_keeps (dataDir explicit : Option OsString) {s : σ} (hs : P s) :
    P (databasePath host dataDir explicit s).2 := by
  unfold databasePath
  cases explicit.or dataDir with
  | none => exact findDatabase_keeps h _ hs
  | some path => exact hs

theorem loadIndex_keeps (x : XmlReader) (path : OsString) {s : σ} (hs : P s) :
    P (loadIndex host x path s).2 := by
  have hfile := h.readFile (joined path "options.xml") s hs
  unfold loadIndex
  generalize host.readFile (joined path "options.xml") s = result at hfile ⊢
  rcases result with ⟨e | file, s'⟩ <;> exact hfile

theorem chosenDevice_keeps (explicit : Option String) (input : List (Except IoError String))
    {s : σ} (hs : P s) :
    P (chosenDevice host explicit input s).2 := by
  cases explicit with
  | some device => exact hs
  | none =>
    exact andThen_of (Q := fun result => P result.2) (listMonitors_keeps h.devices hs) (fun _ _ hs => hs)
      fun _ _ _ hs => hs

omit h in
/-- What is read is read where the predicate holds. -/
theorem readEach_spec (opened : OpenedMonitor) {codes : List UInt8} {G : UInt8 → Reading → Prop}
    (hread : ∀ code ∈ codes, ∀ s, P s → P (opened.read host.toDevices code s).2 ∧
      ∀ reading, (opened.read host.toDevices code s).1 = .ok (some reading) → G code reading)
    (readings : UInt8 → Option Reading) {s : σ} (hs : P s)
    (hgood : ∀ code reading, readings code = some reading → G code reading) :
    P (readEach host opened codes readings s).2 ∧
      ∀ code reading, (readEach host opened codes readings s).1 code = some reading → G code reading := by
  induction codes generalizing readings s with
  | nil => exact ⟨hs, hgood⟩
  | cons code rest ih =>
    obtain ⟨hkept, hvalue⟩ := hread code List.mem_cons_self s hs
    have hrest := fun readings {s} => @ih (fun code hmem => hread code (List.mem_cons_of_mem _ hmem)) readings s
    rw [readEach]
    generalize opened.read host.toDevices code s = result at hkept hvalue ⊢
    rcases result with ⟨e | _ | reading, s'⟩
    · exact hrest readings hkept hgood
    · exact hrest readings hkept hgood
    · refine hrest _ hkept fun code' reading' hreading => ?_
      rcases eq_or_ne code' code with rfl | hne
      · rw [Function.update_self] at hreading
        cases hreading
        exact hvalue reading rfl
      · rw [Function.update_of_ne hne] at hreading
        exact hgood code' reading' hreading

omit h in
/-- Only codes that were asked for are read. -/
theorem readEach_mem (opened : OpenedMonitor) {codes : List UInt8} {s : σ} {code : UInt8}
    {reading : Reading}
    (hreading : (readEach host opened codes (fun _ => none) s).1 code = some reading) :
    code ∈ codes :=
  (readEach_spec (P := fun _ => True) (G := fun code _ => code ∈ codes) opened
    (fun _ hmem _ _ => ⟨trivial, fun _ _ => hmem⟩) (fun _ => none) trivial nofun).2 code reading hreading

/-- From `s`, with an open monitor, a run comes to write this scan in `s'`: there was nothing
at the path, and what was read is of some control. -/
structure Host.Scans (host : Host σ) (options : Options) (explicit : Option OsString) (opened : OpenedMonitor) (s : σ)
    (output : OsString) (scan : Scan) (s' : σ) : Prop where
  path : output = explicit.getD (utf8 (scan.pnpId ++ ".xml"))
  pnpId : scan.pnpId = opened.pnpId
  name : scan.name = opened.name.getD "Unknown monitor (edit this name)"
  caps : scan.caps = (Caps.parse (utf8 opened.capabilities)).toOption.getD .default
  read : ∃ s₁, host.isPresent output s = (false, s₁) ∧
    readEach host opened (scannedCodes scan.caps options) (fun _ => none) s₁ = (scan.readings, s')
  answered : ∃ code reading, scan.readings code = some reading

/-- From `s`, a run comes to write this scan in `s'`, by a vocabulary that it has read. -/
def Host.Reaches (host : Host σ) (x : XmlReader) (dataDir : Option OsString) (input : List (Except IoError String))
    (args : List OsString) (s : σ) (output : OsString) (scan : Scan) (options : Options) (s' : σ) : Prop :=
  ∃ parsed path device opened s₁ s₂ s₃ s₄, parseArgs args = .ok parsed ∧
    (parsed.help || parsed.version || parsed.list) = false ∧
    databasePath host dataDir parsed.dbPath s = (.ok path, s₁) ∧ loadIndex host x path s₁ = (.ok options, s₂) ∧
    chosenDevice host parsed.device input s₂ = (.ok device, s₃) ∧
    openMonitor host.toDevices device s₃ = (.ok opened, s₄) ∧
    host.Scans options parsed.output opened s₄ output scan s'

/-- What a run writes: a profile of a monitor with an id, at the path that is given or that of
the id, with readings of controls below the engineering ones, by the vocabulary that it found. -/
structure Host.Scanned (host : Host σ) (x : XmlReader) (dataDir : Option OsString) (args : List OsString) (s : σ)
    (output : OsString) (scan : Scan) (options : Options) : Prop where
  path : ∃ parsed, parseArgs args = .ok parsed ∧ output = parsed.output.getD (utf8 (scan.pnpId ++ ".xml"))
  named : ∃ id : PnpId, scan.pnpId = id.text
  codes : ∀ code reading, scan.readings code = some reading → code < 0xe0
  answered : ∃ code reading, scan.readings code = some reading
  vocabulary : ∃ parsed path s₁ file database, parseArgs args = .ok parsed ∧
    databasePath host dataDir parsed.dbPath s = (.ok path, s₁) ∧
    (host.readFile (joined path "options.xml") s₁).1 = .ok file ∧
    parse x file = .ok database ∧ indexOptions database = .ok options

omit h in
theorem loadIndex_ok {x : XmlReader} {path : OsString} {s s' : σ} {options : Options}
    (hload : loadIndex host x path s = (.ok options, s')) :
    ∃ file database, (host.readFile (joined path "options.xml") s).1 = .ok file ∧
      parse x file = .ok database ∧ indexOptions database = .ok options := by
  unfold loadIndex at hload
  cases hfile : host.readFile (joined path "options.xml") s with
  | mk result s₁ =>
    rw [hfile] at hload
    cases result with
    | error e => cases hload
    | ok file =>
      obtain ⟨database, hparse, hindex⟩ :=
        bind_eq_ok.mp (mapError_eq_ok.mp (congrArg Prod.fst hload))
      exact ⟨file, database, rfl, hparse, hindex⟩

omit h in
/-- What a run comes to write is as it should be. -/
theorem Host.Reaches.scanned {x : XmlReader} {dataDir : Option OsString} {input : List (Except IoError String)}
    {args : List OsString} {s s' : σ} {output : OsString} {scan : Scan} {options : Options}
    (hreaches : host.Reaches x dataDir input args s output scan options s') :
    host.Scanned x dataDir args s output scan options := by
  obtain ⟨parsed, path, device, opened, s₁, s₂, s₃, s₄, hparsed, -, hpath, hload, -, hopened, hscans⟩ := hreaches
  obtain ⟨file, database, hfile, hparse, hindex⟩ := loadIndex_ok hload
  obtain ⟨id, hid⟩ := openMonitor_pnpId host.toDevices hopened
  obtain ⟨s₅, -, hread⟩ := hscans.read
  refine ⟨⟨parsed, hparsed, hscans.path⟩, ⟨id, hscans.pnpId.trans hid⟩, fun code reading hreading => ?_,
    hscans.answered, ⟨parsed, path, s₁, file, database, hparsed, hpath, hfile, hparse, hindex⟩⟩
  have hasked : (readEach host opened (scannedCodes scan.caps options) (fun _ => none) s₅).1 code = some reading := by
    rw [hread]
    exact hreading
  have hmem := readEach_mem opened hasked
  rw [scannedCodes, List.mem_filter] at hmem
  exact of_decide_eq_true (Bool.and_eq_true_iff.mp hmem.2).2

variable {x : XmlReader} {args : List OsString} {G : (UInt8 → Option Reading) → Prop}
  {Q : Except Failure Outcome × σ → Prop}
  (hread : ∀ opened codes s, P s → P (readEach host opened codes (fun _ => none) s).2 ∧
    G (readEach host opened codes (fun _ => none) s).1)
  (herror : ∀ e s, P s → Q (.error e, s))
include hread herror

/-- With an open monitor, a run fails or comes to write what it scanned. -/
theorem scanOpened_of {options : Options} {explicit : Option OsString} {opened : OpenedMonitor}
    {s : σ} (hs : P s)
    (hwrite : ∀ output scan s', host.Scans options explicit opened s output scan s' → P s' → G scan.readings →
      Q (andThen (writeNew host output (generate scan options) s') fun _ s => (.ok (.created output scan), s))) :
    Q (scanOpened host options explicit opened s) := by
  have hpresent := h.isPresent (explicit.getD (utf8 (opened.pnpId ++ ".xml"))) s hs
  have hscanned := fun codes => hread opened codes _ hpresent
  unfold scanOpened
  dsimp only
  split_ifs with hthere hnone
  · exact herror _ _ hpresent
  · exact herror _ _ (hscanned _).1
  · refine hwrite _ ⟨_, _, _, _⟩ _ ⟨rfl, rfl, rfl, rfl, ⟨_, ?_, rfl⟩, ?_⟩ (hscanned _).1 (hscanned _).2
    · exact Prod.ext (eq_false_of_ne_true hthere) rfl
    · rw [List.all_eq_true] at hnone
      push Not at hnone
      obtain ⟨code, -, hcode⟩ := hnone
      obtain ⟨reading, hreading⟩ := Option.ne_none_iff_exists'.mp fun hnone =>
        hcode (Option.isNone_iff_eq_none.mpr hnone)
      exact ⟨code, reading, hreading⟩

/-- A run looks, fails, or comes to write what it scanned. -/
theorem main_of (hidle : ∀ outcome s, (∀ output scan, outcome ≠ .created output scan) → P s → Q (.ok outcome, s))
    (dataDir : Option OsString) (input : List (Except IoError String)) {s : σ} (hs : P s)
    (hwrite : ∀ options output scan file s', host.Reaches x dataDir input args s output scan options s' → P s' →
      G scan.readings →
      Q ((andThen (writeNew host output (generate scan options) s') fun _ s => (.ok (.created output scan), s)).1,
        host.drop file
          (andThen (writeNew host output (generate scan options) s') fun _ s => (.ok (Outcome.created output scan), s)).2)) :
    Q (main host x dataDir input args s) := by
  refine andThen_of hs herror fun parsed s₀ hparsed hs => ?_
  obtain ⟨hargs, rfl⟩ := Prod.mk.inj hparsed
  unfold run
  split_ifs with hhelp hversion hlist
  · exact hidle _ s (fun _ _ hcreated => by cases hcreated) hs
  · exact hidle _ s (fun _ _ hcreated => by cases hcreated) hs
  · refine andThen_of (listMonitors_keeps h.devices hs) herror fun monitors s _ hs => ?_
    split_ifs
    · exact herror _ s hs
    · exact hidle _ s (fun _ _ hcreated => by cases hcreated) hs
  refine andThen_of (databasePath_keeps h _ _ hs) herror fun path s₁ hpath hs => ?_
  refine andThen_of (loadIndex_keeps h x path hs) herror fun options s₂ hload hs => ?_
  refine andThen_of (chosenDevice_keeps h _ input hs) herror fun device s₃ hdevice hs => ?_
  refine andThen_of (openMonitor_keeps h.devices device hs) herror fun opened s₄ hopened hs => ?_
  refine scanOpened_of (Q := fun result => Q (result.1, host.drop opened.transport result.2)) h hread
    (fun e s hs => herror e _ (h.devices.drop _ s hs)) hs fun output scan s' hscans hs hgood => ?_
  refine hwrite options output scan opened.transport s' ?_ hs hgood
  exact ⟨parsed, path, device, opened, s₁, s₂, s₃, s₄, mapError_eq_ok.mp hargs, by simp [hhelp, hversion, hlist],
    hpath, hload, hdevice, hopened, hscans⟩

end Keeps

/-! ### Files -/

section Files

variable {σ φ : Type} [DecidableEq φ] {host : Host σ} {place : OsString → φ} {look : σ → φ → Option (List UInt8)}

/-- A host with files: `place` says where a path leads, and `look` what is there. A file is
created only where there is nothing, and has then what was written to it, or a part of that. -/
structure Host.Files (host : Host σ) (place : OsString → φ) (look : σ → φ → Option (List UInt8)) : Prop where
  others : ∀ files, host.Keeps fun s => look s = files
  refused : ∀ path s e, (host.createNew path s).1 = .error e → look (host.createNew path s).2 = look s
  created : ∀ path s file, (host.createNew path s).1 = .ok file → look s (place path) = none
  written : ∀ path s file text, (host.createNew path s).1 = .ok file →
    ∃ part, look (host.writeAll file text (host.createNew path s).2).2 = Function.update (look s) (place path) (some part) ∧
      ((host.writeAll file text (host.createNew path s).2).1 = .ok () → part = text)
  removed : ∀ path s, look (host.removeFile path s).2 =
    if (host.removeFile path s).1 then Function.update (look s) (place path) none else look s

omit [DecidableEq φ] in
/-- The file that is created at a path is not written to its end, and then not removed. -/
def Host.NotRemoved (host : Host σ) (path : OsString) (text : List UInt8) (s : σ) : Prop :=
  ∃ file s₁ e s₂, host.createNew path s = (.ok file, s₁) ∧ host.writeAll file text s₁ = (.error e, s₂) ∧
    (host.removeFile path (host.drop file s₂)).1 = false

variable (h : host.Files place look)
include h

/-- `write_new` creates the file, or leaves a part of it that it does not come to remove, where
there was nothing. -/
theorem writeNew_files (path : OsString) (contents : String) (s : σ) :
    (look (writeNew host path contents s).2 = look s ∧ (writeNew host path contents s).1 ≠ .ok ()) ∨
      look s (place path) = none ∧ ∃ part,
        look (writeNew host path contents s).2 = Function.update (look s) (place path) (some part) ∧
          ((writeNew host path contents s).1 ≠ .ok () → host.NotRemoved path (utf8 contents) s) ∧
          ((writeNew host path contents s).1 = .ok () → part = utf8 contents) := by
  unfold Host.NotRemoved
  have hrefused := h.refused path s
  have hcreated := h.created path s
  have hwritten := fun file => h.written path s file (utf8 contents)
  unfold writeNew
  generalize host.createNew path s = result at hrefused hcreated hwritten ⊢
  rcases result with ⟨e | file, s₁⟩
  · exact .inl ⟨hrefused e rfl, nofun⟩
  obtain ⟨part, hpart, hall⟩ := hwritten file rfl
  have hnone := hcreated file rfl
  dsimp only at hpart hall ⊢
  rcases hresult : host.writeAll file (utf8 contents) s₁ with ⟨e | _, s₂⟩ <;> rw [hresult] at hpart hall
  · have hdropped := (h.others _).devices.drop file s₂ hpart
    have hremoved := h.removed path (host.drop file s₂)
    dsimp only at hdropped hremoved ⊢
    rw [hdropped] at hremoved
    split_ifs at hremoved with hdone
    · refine .inl ⟨hremoved.trans ?_, nofun⟩
      rw [Function.update_idem, ← hnone, Function.update_eq_self]
    · exact .inr ⟨hnone, part, hremoved,
        fun _ => ⟨file, s₁, e, s₂, rfl, hresult, eq_false_of_ne_true hdone⟩, nofun⟩
  · exact .inr ⟨hnone, part, (h.others _).devices.drop file s₂ hpart, fun hfailed => absurd rfl hfailed,
      fun _ => hall rfl⟩

/-- What a run leaves of the files: those that were there, and the profile that it says it
created, or no other than the one that it came to write and could not remove. -/
structure Leaves (host : Host σ) (place : OsString → φ) (look : σ → φ → Option (List UInt8)) (x : XmlReader)
    (dataDir : Option OsString) (input : List (Except IoError String)) (args : List OsString) (s : σ)
    (result : Except Failure Outcome × σ) : Prop where
  kept : ∀ p contents, look s p = some contents → look result.2 p = some contents
  created : ∀ output scan, result.1 = .ok (.created output scan) → look s (place output) = none ∧
    ∃ options s', host.Reaches x dataDir input args s output scan options s' ∧
      host.Scanned x dataDir args s output scan options ∧
      look result.2 = Function.update (look s) (place output) (some (utf8 (generate scan options)))
  idle : (∀ output scan, result.1 ≠ .ok (.created output scan)) → look result.2 = look s ∨
    ∃ output scan options s' part, host.Reaches x dataDir input args s output scan options s' ∧
      host.NotRemoved output (utf8 (generate scan options)) s' ∧
      look result.2 = Function.update (look s) (place output) (some part)

variable {x : XmlReader} {dataDir : Option OsString} {input : List (Except IoError String)} {args : List OsString}

omit h in
/-- A run that created nothing leaves the files that are as they were. -/
theorem leaves_of_same {s : σ} {result : Except Failure Outcome × σ} (hs : look result.2 = look s)
    (hidle : ∀ output scan, result.1 ≠ .ok (.created output scan)) :
    Leaves host place look x dataDir input args s result where
  kept p contents hp := by rw [hs]; exact hp
  created output scan hcreated := absurd hcreated (hidle output scan)
  idle _ := .inl hs

/-- And one that came to write a profile leaves that, or a part of it that is not removed. -/
theorem leaves_of_writes {options : Options} {output : OsString} {scan : Scan} {s s' : σ} (file : ℕ)
    (hreaches : host.Reaches x dataDir input args s output scan options s') (hs : look s' = look s) :
    Leaves host place look x dataDir input args s
      ((andThen (writeNew host output (generate scan options) s') fun _ s => (.ok (.created output scan), s)).1,
        host.drop file
          (andThen (writeNew host output (generate scan options) s') fun _ s => (.ok (Outcome.created output scan), s)).2) := by
  have hwrote := writeNew_files h output (generate scan options) s'
  rw [hs] at hwrote
  generalize writeNew host output (generate scan options) s' = result at hwrote ⊢
  obtain ⟨written, s₂⟩ := result
  have hdropped : look (host.drop file s₂) = look s₂ := (h.others _).devices.drop file s₂ rfl
  obtain ⟨hunchanged, hfailed⟩ | ⟨hnone, part, hpart, hremoves, hall⟩ := hwrote
  · cases written with
    | error e => exact leaves_of_same (hdropped.trans hunchanged) nofun
    | ok _ => exact absurd rfl hfailed
  · have hothers : ∀ p contents, look s p = some contents → look (host.drop file s₂) p = some contents := by
      intro p contents hp
      have hne : p ≠ place output := by rintro rfl; rw [hnone] at hp; cases hp
      rw [hdropped, hpart, Function.update_of_ne hne, hp]
    cases written with
    | error e =>
      exact ⟨hothers, nofun, fun _ =>
        .inr ⟨output, scan, options, s', part, hreaches, hremoves nofun, hdropped.trans hpart⟩⟩
    | ok _ =>
      refine ⟨hothers, fun output' scan' hcreated => ?_, fun hidle => absurd rfl (hidle output scan)⟩
      cases hcreated
      exact ⟨hnone, options, s', hreaches, hreaches.scanned, by rw [← hall rfl]; exact hdropped.trans hpart⟩

/-- **A run never overwrites a file.** Whatever the arguments, the monitors and the files are, a
file that was there before a run is there after it, as it was. A run that says that it created
a profile created it where there was nothing, with all of the text that is generated of what it
scanned by the vocabulary that it found, and changed no other file. Any other run leaves all
files as they were, unless the removal of the incomplete file that it made itself fails. -/
theorem main_creates (x : XmlReader) (dataDir : Option OsString)
    (input : List (Except IoError String)) (args : List OsString) (s : σ) :
    Leaves host place look x dataDir input args s (main host x dataDir input args s) := by
  have hkeeps := h.others (look s)
  refine main_of (G := fun _ => True) hkeeps (fun opened codes s' hs => ⟨?_, trivial⟩)
    (fun e s' hs => leaves_of_same hs nofun)
    (fun outcome s' hidle hs => leaves_of_same hs fun output scan hcreated =>
      hidle output scan (Except.ok.inj hcreated))
    dataDir input rfl fun options output scan file s' hreaches hs _ => leaves_of_writes h file hreaches hs
  exact (readEach_spec (P := fun s' => look s' = look s) (G := fun _ _ => True) opened
    (fun code _ s' hs => ⟨OpenedMonitor.read_keeps hkeeps.devices opened code hs, fun _ _ => trivial⟩)
    (fun _ => none) hs nofun).1

end Files

/-! ### Controls -/

section Controls

variable {σ β : Type} {host : Host σ} {control : σ → β → UInt8 → UInt16} {shown : σ → ℕ → β}

/-- A host with displays that have values for their controls: no request of the scanner changes
a value. -/
structure Host.Displays (host : Host σ) (control : σ → β → UInt8 → UInt16) : Prop where
  others : ∀ values, host.Keeps fun s => control s = values
  createNew : ∀ path s, control (host.createNew path s).2 = control s
  writeAll : ∀ file text s, control (host.writeAll file text s).2 = control s
  removeFile : ∀ path s, control (host.removeFile path s).2 = control s

/-- The displays answer with their values: `shown` is the display that a descriptor is of, and an
answer to the request of a control has its value. -/
structure Host.Shows (host : Host σ) (control : σ → β → UInt8 → UInt16) (shown : σ → ℕ → β) : Prop where
  same : ∀ file display, ReadsKeep (host.bus file) fun s => shown s file = display
  answer : ∀ file code s length bytes reply,
    ((host.bus file).write ddcAddress (requestFrame [0x01, code]) s).1 = true →
    ((host.bus file).read ddcAddress length ((host.bus file).write ddcAddress (requestFrame [0x01, code]) s).2).1 =
      some bytes →
    Answers code bytes.toList reply → reply.value = control s (shown s file) code

/-- Two predicates that reads keep are kept together. -/
theorem ReadsKeep.and {bus : Bus σ} {P P' : σ → Prop} (h : ReadsKeep bus P)
    (h' : ReadsKeep bus P') :
    ReadsKeep bus fun s => P s ∧ P' s where
  read address length s hs := ⟨h.read address length s hs.1, h'.read address length s hs.2⟩
  edid s hs := ⟨h.edid s hs.1, h'.edid s hs.2⟩
  control code s hs := ⟨h.control code s hs.1, h'.control code s hs.2⟩
  caps high low s hs := ⟨h.caps high low s hs.1, h'.caps high low s hs.2⟩

/-- A try reports what the answer says. -/
theorem tryControl_value {bus : Bus σ} {code : UInt8} {s : Traced σ} {value : UInt16}
    (hanswer : ∀ length bytes reply, (bus.write ddcAddress (requestFrame [0x01, code]) s.device).1 = true →
      (bus.read ddcAddress length (bus.write ddcAddress (requestFrame [0x01, code]) s.device).2).1 = some bytes →
      Answers code bytes.toList reply → reply.value = value)
    {reading : Reading} (hread : (tryControl bus code s).1 = .ok (some reading)) :
    reading.current = value := by
  have hlen : [0x01, code].length ≤ maxPayloadLen := by simp [maxPayloadLen]
  have hframe : buildFrame ddcAddress [0x01, code] = .ok (.ofRequest (ddcAddress <<< 1) [0x01, code] hlen) :=
    buildFrame_eq_ok.mpr ⟨by decide, hlen, rfl⟩
  have hrequest : (Frame.ofRequest (ddcAddress <<< 1) [0x01, code] hlen).asBytes = requestFrame [0x01, code] :=
    asBytes_ofRequest _ _ hlen
  have htold := hanswer (8 + frameOverhead)
  unfold tryControl exchange at hread
  rw [hframe] at hread
  dsimp only at hread
  rw [hrequest] at hread
  generalize bus.write ddcAddress (requestFrame [0x01, code]) s.device = asked at hread htold
  rcases asked with ⟨_ | _, device⟩
  · cases hread
  dsimp only at hread htold
  generalize bus.read ddcAddress (8 + frameOverhead) device = told at hread htold
  rcases told with ⟨_ | bytes, device'⟩
  · cases hread
  dsimp only at hread htold
  cases hreply : parseFrame ddcAddress bytes.toList 8 with
  | error e => rw [hreply] at hread; cases hread
  | ok frame =>
    rw [hreply] at hread
    dsimp only at hread
    cases hparse : parseVcpReply frame.payload code with
    | error e => rw [hparse] at hread; cases hread
    | ok reply =>
      rw [hparse] at hread
      have hreported : reported reply = some reading := Except.ok.inj hread
      unfold reported at hreported
      split_ifs at hreported
      cases hreported
      exact htold bytes reply rfl rfl (answers_iff.mpr ⟨frame, hreply, hparse⟩)

variable (h : host.Displays control)
include h

section Shown

variable (hshows : host.Shows control shown)
include hshows

/-- Reads keep the controls, and what display is read. -/
theorem Host.Displays.readsKeep (file : ℕ) (s : σ) :
    ReadsKeep (host.bus file) fun s' => control s' = control s ∧ shown s' file = shown s file :=
  ((h.others (control s)).devices.bus file).and (hshows.same file (shown s file))

/-- A reading of a control has the value of the display. -/
theorem Host.Displays.read_value (opened : OpenedMonitor) (code : UInt8) {s : σ} {reading : Reading}
    (hread : (opened.read host.toDevices code s).1 = .ok (some reading)) :
    reading.current = control s (shown s opened.transport) code := by
  have hkeeps := h.readsKeep hshows opened.transport s
  unfold OpenedMonitor.read readControl retry at hread
  dsimp only at hread
  rw [retryFrom_eq] at hread
  obtain ⟨last, ⟨hcontrol, hshown⟩, hlast⟩ := retried_ok
    (P := fun last : Traced σ => control last.device = control s ∧
      shown last.device opened.transport = shown s opened.transport)
    (fun last hlast => tryControl_keeps hkeeps code hlast) ⟨rfl, rfl⟩ hread
  rw [← hcontrol, ← hshown]
  exact tryControl_value
    (fun length bytes reply => hshows.answer opened.transport code last.device length bytes reply) hlast

theorem Host.Displays.readEach_values (opened : OpenedMonitor) (codes : List UInt8) (s : σ) :
    ∀ code reading, (readEach host opened codes (fun _ => none) s).1 code = some reading →
      reading.current = control s (shown s opened.transport) code := by
  have hkeeps := h.readsKeep hshows opened.transport s
  exact (readEach_spec
    (P := fun s' => control s' = control s ∧ shown s' opened.transport = shown s opened.transport)
    (G := fun code reading => reading.current = control s (shown s opened.transport) code) opened
    (fun code _ s' hs => ⟨readControl_keeps hkeeps code hs, fun reading hreading => by
      rw [← hs.1, ← hs.2]; exact h.read_value hshows opened code hreading⟩)
    (fun _ => none) ⟨rfl, rfl⟩ nofun).2

end Shown

theorem Host.Displays.writeNew_controls (path : OsString) (contents : String) (s : σ) :
    control (writeNew host path contents s).2 = control s := by
  have hcreated := h.createNew path s
  unfold writeNew
  generalize host.createNew path s = result at hcreated ⊢
  rcases result with ⟨e | file, s₁⟩
  · exact hcreated
  have hwritten := (h.writeAll file (utf8 contents) s₁).trans hcreated
  dsimp only
  generalize host.writeAll file (utf8 contents) s₁ = result at hwritten ⊢
  have hdropped := (h.others _).devices.drop file result.2 hwritten
  rcases result with ⟨e | _, s₂⟩
  · exact (h.removeFile path _).trans hdropped
  · exact hdropped

/-- **A run only reads.** Whatever the arguments and the files are, and however the monitors
answer, no control of any display is changed; and where displays answer with their values, the
values of the controls in a profile that a run created are those that a display has. -/
theorem main_reads (x : XmlReader) (dataDir : Option OsString)
    (input : List (Except IoError String)) (args : List OsString) (s : σ) :
    control (main host x dataDir input args s).2 = control s ∧
      ∀ shown, host.Shows control shown →
        ∀ output scan, (main host x dataDir input args s).1 = .ok (.created output scan) →
          ∃ display, ∀ code reading, scan.readings code = some reading → reading.current =
            control s display code := by
  have hkeeps := h.others (control s)
  refine main_of (Q := fun result => control result.2 = control s ∧
      ∀ shown, host.Shows control shown → ∀ output scan, result.1 = .ok (.created output scan) →
        ∃ display, ∀ code reading, scan.readings code = some reading → reading.current = control s display code)
    (G := fun readings => ∀ shown, host.Shows control shown → ∃ display, ∀ code reading, readings code =
      some reading → reading.current = control s display code)
    hkeeps (fun opened codes s' hs => ⟨?_, fun shown hshows => ?_⟩) (fun e s' hs => ⟨hs, fun _ _ => nofun⟩)
    (fun outcome s' hidle hs =>
      ⟨hs, fun _ _ output scan hcreated => absurd (Except.ok.inj hcreated) (hidle output scan)⟩)
    dataDir input rfl fun options output scan file s' _ hs hgood => ?_
  · exact (readEach_spec (P := fun s' => control s' = control s) (G := fun _ _ => True) opened
      (fun code _ s' hs => ⟨OpenedMonitor.read_keeps hkeeps.devices opened code hs, fun _ _ => trivial⟩)
      (fun _ => none) hs nofun).1
  · have hvalues := h.readEach_values hshows opened codes s'
    rw [hs] at hvalues
    exact ⟨_, hvalues⟩
  · have hwrote := (h.writeNew_controls output (generate scan options) s').trans hs
    generalize writeNew host output (generate scan options) s' = result at hwrote ⊢
    have hdropped := (h.others _).devices.drop file result.2 hwrote
    rcases result with ⟨e | _, s₂⟩
    · exact ⟨hdropped, fun _ _ => nofun⟩
    · refine ⟨hdropped, fun shown hshows output' scan' hcreated => ?_⟩
      cases hcreated
      exact hgood shown hshows

end Controls

/-! ### A desk -/

/-- A display and files, and the path that is being created. -/
structure Desk where
  display : RegisterDisplay
  files : OsString → Option (List UInt8)
  creating : OsString

/-- The display's bus, with the EDID of a `DEL40A0`. -/
def deskBus : Bus Desk where
  write address bytes s :=
    if address = edidAddress then (true, s)
    else ((registerDisplay.write address bytes s.display).1, { s with display := (registerDisplay.write address bytes s.display).2 })
  read address length s :=
    if address = edidAddress then (some (.ofFn fun i : Fin length => dellDescription.encode.getD i 0), s)
    else ((registerDisplay.read address length s.display).1, s)

/-- The host of such a desk. -/
def deskHost : Host Desk where
  readDir _ s := (.ok [some "i2c-4"], s)
  openFile _ s := (.ok 3, s)
  drop _ s := s
  bus _ := deskBus
  isFile path s := ((s.files path).isSome, s)
  readFile path s := ((s.files path).elim (.error ⟨.other, "No such file or directory"⟩) .ok, s)
  isPresent path s := ((s.files path).isSome, s)
  createNew path s :=
    if (s.files path).isSome then (.error ⟨.alreadyExists, "File exists"⟩, s)
    else (.ok 4, { s with files := Function.update s.files path (some []), creating := path })
  writeAll _ text s := (.ok (), { s with files := Function.update s.files s.creating (some text) })
  removeFile path s := (true, { s with files := Function.update s.files path none })
  isTerminal := true

/-- Only what the display was last asked for is changed by reads. -/
theorem deskBus_keeps {P : Desk → Prop}
    (hP : ∀ s asked, P s → P { s with display.asked := asked }) : ReadsKeep deskBus P where
  read address length s hs := by
    unfold deskBus
    dsimp only
    split_ifs <;> exact hs
  edid s hs := hs
  control code s hs := by
    show P { s with display := (registerDisplay.write ddcAddress (requestFrame [0x01, code]) s.display).2 }
    rw [registerDisplay_read]
    exact hP s code hs
  caps high low s hs := hs

theorem deskHost_keeps {P : Desk → Prop}
    (hP : ∀ s asked, P s → P { s with display.asked := asked }) : deskHost.Keeps P where
  devices := ⟨fun _ _ hs => hs, fun _ _ hs => hs, fun _ _ hs => hs, fun _ => deskBus_keeps hP⟩
  isFile _ _ hs := hs
  readFile _ _ hs := hs
  isPresent _ _ hs := hs

theorem deskHost_files : deskHost.Files id Desk.files where
  others files := deskHost_keeps fun _ _ hs => hs
  refused path s e hrefused := by
    unfold deskHost at hrefused ⊢
    dsimp only at hrefused ⊢
    split_ifs at hrefused ⊢
    rfl
  created path s file hcreated := by
    unfold deskHost at hcreated
    dsimp only at hcreated
    split_ifs at hcreated with hthere
    exact Option.not_isSome_iff_eq_none.mp hthere
  written path s file text hcreated := by
    refine ⟨text, ?_, fun _ => rfl⟩
    unfold deskHost at hcreated ⊢
    dsimp only at hcreated ⊢
    split_ifs at hcreated ⊢
    exact Function.update_idem ..
  removed path s := rfl

theorem deskHost_displays : deskHost.Displays fun s (_ : Unit) => s.display.values where
  others values := deskHost_keeps fun _ _ hs => hs
  createNew path s := by
    unfold deskHost
    dsimp only
    split_ifs <;> rfl
  writeAll _ _ _ := rfl
  removeFile _ _ := rfl

theorem deskHost_shows : deskHost.Shows (fun s (_ : Unit) => s.display.values) fun _ _ => () where
  same _ _ := deskBus_keeps fun _ _ hs => hs
  answer _ code s length bytes reply hasked htold hanswer :=
    registerDisplay_keeps.answer code s.display length bytes reply hasked htold hanswer

/-- The vocabulary is installed, and every control of the display is at 17. -/
def desk : Desk where
  display := ⟨fun _ => 17, 0⟩
  files path := if path = utf8 "/usr/share/ddccontrol-db/options.xml" then some (utf8 (inputText true)) else none
  creating := []

/-- A profile is created under the id. -/
theorem desk_creates :
    ((main deskHost (inputReader true) none [] [utf8 "dev:/dev/i2c-4"] desk).2.files (utf8 "DEL40A0.xml")).isSome = true ∧
      Leaves deskHost id Desk.files (inputReader true) none [] [utf8 "dev:/dev/i2c-4"] desk
        (main deskHost (inputReader true) none [] [utf8 "dev:/dev/i2c-4"] desk) :=
  ⟨by decide +kernel, main_creates deskHost_files (inputReader true) none [] [utf8 "dev:/dev/i2c-4"] desk⟩

/-- Whether a run created a profile. -/
def isCreated : Except Failure Outcome → Bool
  | .ok (.created _ _) => true
  | _ => false

/-- The display was asked, is as it was, and its values are those of the profile. -/
theorem desk_reads :
    (main deskHost (inputReader true) none [] [utf8 "dev:/dev/i2c-4"] desk).2.display.asked = 0x60 ∧
      (main deskHost (inputReader true) none [] [utf8 "dev:/dev/i2c-4"] desk).2.display.values =
        desk.display.values ∧
      ∃ output scan, (main deskHost (inputReader true) none [] [utf8 "dev:/dev/i2c-4"] desk).1 =
          .ok (.created output scan) ∧
        ∀ code reading, scan.readings code = some reading → reading.current = 17 := by
  have hcreated : isCreated (main deskHost (inputReader true) none [] [utf8 "dev:/dev/i2c-4"] desk).1 = true := by
    decide +kernel
  obtain ⟨hsame, hvalues⟩ := main_reads deskHost_displays (inputReader true) none [] [utf8 "dev:/dev/i2c-4"] desk
  refine ⟨by decide +kernel, congrFun hsame (), ?_⟩
  rcases hresult : (main deskHost (inputReader true) none [] [utf8 "dev:/dev/i2c-4"] desk).1 with
    _ | (_ | _ | _ | ⟨output, scan⟩)
  case ok.created =>
    obtain ⟨_, hread⟩ := hvalues _ deskHost_shows output scan hresult
    exact ⟨output, scan, rfl, hread⟩
  all_goals
    rw [hresult] at hcreated
    cases hcreated

end DdcControl.Scanner
