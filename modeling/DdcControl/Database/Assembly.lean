import DdcControl.Capabilities.Patch
import DdcControl.Database.Options

/-!
# Assembling a monitor

`create_db_protected` interprets a profile: it patches the capabilities, follows
includes and fills the groups of the options vocabulary with the controls the
profile maps, each at the first place that defines its VCP address.

## The model

The source mutates a `MonitorBuild`, the CAPS and the array `defined` of addresses
in use. Here they are one state, `Assembly`, passed from operation to operation; the
part a profile's operations read and write (the groups, the CAPS, `defined`) is its
`Table`. A fallible operation is an `Except` program in that state. Warnings, which
only go to the terminal, are left out.

`translate` is `dgettext` in the installed program and the identity in a build
without it.
-/

namespace DdcControl.Database

open Capabilities Fallible

/-! ### Contexts, trees and errors -/

/-- `MonitorFile`: the override of one PNP id. -/
structure MonitorFile where
  pnpid : String
  root : Node

/-- `DbContext`. A profile that did not parse is kept with its error. -/
structure DbContext where
  profiles : Std.TreeMap String (Except String Node)
  options : OptionsDb
  monitorFile : Option MonitorFile

/-- `LoadMode`. -/
structure LoadMode where
  faulttolerance : Bool
  validateAll : Bool
  deriving DecidableEq, Repr

/-- `DbValue`. -/
structure DbValue where
  id : String
  name : List UInt8
  value16 : UInt16
  deriving DecidableEq, Repr

/-- `DbControl`. -/
structure DbControl where
  id : String
  name : List UInt8
  address : UInt8
  delay : ℤ
  controlType : ControlType
  refresh : Refresh
  values : List DbValue
  deriving DecidableEq, Repr

/-- `DbSubgroup`. -/
structure DbSubgroup where
  name : List UInt8
  pattern : Option String
  controls : List DbControl
  deriving DecidableEq, Repr

/-- `DbGroup`. -/
structure DbGroup where
  name : List UInt8
  subgroups : List DbSubgroup
  deriving DecidableEq, Repr

/-- The `INIT_TYPE_*` constants. -/
inductive InitType where
  | unknown
  | standard
  | samsung
  deriving DecidableEq, Repr

/-- `MonitorBuild`, less its groups. -/
structure MonitorBuild where
  includeVisits : ℕ
  name : Option (List UInt8)
  init : InitType
  deriving DecidableEq, Repr

/-- What the operations of a profile read and write: `build.groups`, the CAPS and `defined`. -/
structure Table where
  groups : List DbGroup
  caps : Caps
  defined : UInt8 → Bool

/-- The state of a load. -/
structure Assembly where
  build : MonitorBuild
  table : Table

/-- The controls of a tree, in order. -/
def treeControls (groups : List DbGroup) : List DbControl :=
  groups.flatMap fun group => group.subgroups.flatMap fun subgroup => subgroup.controls

/-- `DbError`. -/
structure DbError where
  message : String
  missingProfile : Bool
  requiredFeature : Bool
  deriving DecidableEq, Repr

/-- `DbError::required`. -/
def DbError.required (message : String) : DbError := ⟨message, false, true⟩

/-- `DbError::new`. -/
def DbError.new (message : String) : DbError := ⟨message, false, false⟩

/-- `DbError::missing`. -/
def DbError.missing (message : String) : DbError := ⟨message, true, false⟩

/-! ### A profile's `controls` block -/

/-- `MonitorElement`: a child of a `controls` block. -/
structure MonitorElement where
  unavailable : Bool
  deriving DecidableEq, Repr

/-- `MonitorValue`. -/
structure MonitorValue where
  elementName : String
  id : Option String
  rawValue : Option String
  deriving DecidableEq, Repr

/-- `MonitorControl`. -/
structure MonitorControl where
  id : String
  rawAddress : Option String
  rawDelay : Option String
  values : List MonitorValue
  childIndex : ℕ
  unavailable : Bool
  deriving DecidableEq, Repr

/-- `ParsedMonitorControls`. -/
structure ParsedMonitorControls where
  controls : List MonitorControl
  elements : List MonitorElement
  deriving DecidableEq, Repr

/-- The loop body of `parse_monitor_controls` for a `value` of a control. -/
def monitorValue (value : Node) : MonitorValue := ⟨value.tag, value.attr "id", value.attr "value"⟩

/-- The loop body of `parse_monitor_controls` for one child: a control, unless the
child has another tag or no id. -/
def monitorControl (control : Node) (childIndex : ℕ) : Option MonitorControl :=
  if control.tag ≠ "control" then none
  else (control.attr "id").map fun id =>
    ⟨id, control.attr "address", control.attr "delay", control.children.map monitorValue, childIndex,
      control.hasRequired⟩

/-- `parse_monitor_controls`. -/
def parseMonitorControls (node : Node) : ParsedMonitorControls where
  controls := node.children.zipIdx.filterMap fun (control, childIndex) => monitorControl control childIndex
  elements := node.children.map fun control => ⟨control.hasRequired⟩

/-- The range check of `monitor_control_address`. -/
def addressInRange (address : ℤ) : Except DbError UInt8 :=
  orError (u8TryFrom address) (.new "Address is outside the supported 0-255 range.")

/-- `monitor_control_address`. -/
def monitorControlAddress (monitorControl : MonitorControl) : Except DbError UInt8 := do
  let rawAddress ← orError monitorControl.rawAddress (.new "Can't find address property.")
  match parseInteger rawAddress with
  | .ok address => addressInRange address
  | .error _ => .error (.new "Can't convert address to int.")

/-- `monitor_control_delay`. -/
def monitorControlDelay (monitorControl : MonitorControl) : Except DbError ℤ :=
  match monitorControl.rawDelay with
  | none => .ok (-1)
  | some delay => do
    let delay ← orError (parseIntDecimal delay) (.new "Can't convert delay to int.")
    reject (delay < -2 ^ 31 || 2 ^ 31 ≤ delay) (.new "Delay is outside the signed 32-bit range.")
    return delay

section Translated

variable (translate : String → List UInt8)

/-! ### Values -/

/-- The 16-bit number of a `value`. -/
def monitorValue16 (monitorValue : MonitorValue) : Except DbError UInt16 := do
  let rawValue ← orError monitorValue.rawValue (.new "Can't find value property.")
  match parseInteger rawValue with
  | .ok value => do
    reject (value < 0 || 65535 < value) (.new "Value is outside the supported 0-65535 range.")
    return UInt16.ofNat value.toNat
  | .error _ => .error (.new "Can't convert value to int.")

/-- The name of a matched value: a command's values may borrow the control's. -/
def optionValueName (optionControl : OptionControl) (optionValue : OptionValue) : Except DbError String :=
  if optionControl.controlType = .command then .ok (optionValue.name.getD optionControl.name)
  else orError optionValue.name (.new "Can't find name property.")

/-- The search of `get_value_list`: the first `value` with the option's id, and its index. -/
def findMonitorValue (monitorControl : MonitorControl) (optionValue : OptionValue) : Option (MonitorValue × ℕ) :=
  monitorControl.values.zipIdx.find? fun (value, _) => value.elementName = "value" ∧ value.id = some optionValue.id

/-- The loop body of `get_value_list`, on the values found and the marks `matched`. -/
def addValue (optionControl : OptionControl) (monitorControl : MonitorControl)
    (found : List DbValue × List Bool) (optionValue : OptionValue) : Except DbError (List DbValue × List Bool) :=
  match findMonitorValue monitorControl optionValue with
  | none => .ok found
  | some (monitorValue, monitorIndex) => do
    let value16 ← monitorValue16 monitorValue
    let name ← optionValueName optionControl optionValue
    return (found.1 ++ [⟨optionValue.id, translate name, value16⟩], found.2.set monitorIndex true)

/-- `get_value_list`. -/
def getValueList (optionControl : OptionControl) (monitorControl : MonitorControl) (faulttolerance : Bool) :
    Except DbError (List DbValue) := do
  let (values, matched) ← optionControl.values.foldlM (addValue translate optionControl monitorControl)
    ([], monitorControl.values.map fun _ => false)
  reject (!faulttolerance && matched.any (!·)) (.new "Unmatched value in monitor XML.")
  return values

/-! ### Controls -/

/-- `suppress_address` on the controls of a subgroup. -/
def DbSubgroup.suppress (address : UInt8) (subgroup : DbSubgroup) : DbSubgroup :=
  { subgroup with controls := subgroup.controls.filter fun control => control.address ≠ address }

/-- `suppress_address` on a group. -/
def DbGroup.suppress (address : UInt8) (group : DbGroup) : DbGroup :=
  { group with subgroups := group.subgroups.map (·.suppress address) }

/-- `suppress_address`: the address is taken, and no control remains at it. -/
def suppressAddress (table : Table) (address : UInt8) : Table :=
  { table with
    groups := table.groups.map (·.suppress address)
    defined := Function.update table.defined address true }

/-- Add a control at the end of a subgroup. -/
def DbSubgroup.push (control : DbControl) (subgroup : DbSubgroup) : DbSubgroup :=
  { subgroup with controls := subgroup.controls ++ [control] }

/-- Add a control at the end of one of a group's subgroups. -/
def DbGroup.push (subgroupIndex : ℕ) (control : DbControl) (group : DbGroup) : DbGroup :=
  { group with subgroups := group.subgroups.modify subgroupIndex (·.push control) }

/-- `build.groups[group_index].subgroups[subgroup_index].controls.push(control)`, and
the address is taken. -/
def Table.push (table : Table) (groupIndex subgroupIndex : ℕ) (control : DbControl) : Table :=
  { table with
    groups := table.groups.modify groupIndex (·.push subgroupIndex control)
    defined := Function.update table.defined control.address true }

/-- The option controls in order, each with the indices of its group and subgroup. -/
def OptionsDb.indexedControls (options : OptionsDb) : List (ℕ × ℕ × OptionControl) :=
  options.groups.zipIdx.flatMap fun (group, groupIndex) =>
    group.subgroups.zipIdx.flatMap fun (subgroup, subgroupIndex) =>
      subgroup.controls.map fun control => (groupIndex, subgroupIndex, control)

/-- The options mark a control of this id unavailable. -/
def OptionsDb.blocks (options : OptionsDb) (id : String) : Bool :=
  options.controls.any fun control => control.id = id && control.unavailable

/-- The first loop body of `add_controls_from_options`: a control whose shared
definition is unavailable loses its address. -/
def blockControl (options : OptionsDb) (state : Table × List Bool) (monitorControl : MonitorControl) :
    Except DbError (Table × List Bool) :=
  if options.blocks monitorControl.id then
    match monitorControlAddress monitorControl with
    | .error _ => .error (.required "Required shared control cannot be safely isolated by address.")
    | .ok address => .ok (suppressAddress state.1 address, state.2.set monitorControl.childIndex true)
  else .ok state

/-- The values of a control: a command without any gets the value `default`. -/
def controlValues (optionControl : OptionControl) (monitorControl : MonitorControl) (faulttolerance : Bool) :
    Except DbError (List DbValue) := do
  let values ← getValueList translate optionControl monitorControl faulttolerance
  if optionControl.controlType = .command ∧ values = [] then
    return [⟨"default", translate optionControl.name, 1⟩]
  else return values

/-- The control a match publishes. -/
def matchedControl (optionControl : OptionControl) (monitorControl : MonitorControl) (address : UInt8)
    (faulttolerance : Bool) : Except DbError DbControl := do
  let values ← controlValues translate optionControl monitorControl faulttolerance
  let delay ← monitorControlDelay monitorControl
  return ⟨optionControl.id, translate optionControl.name, address, delay, optionControl.controlType,
    optionControl.refresh, values⟩

/-- The second loop body of `add_controls_from_options`: one option control, mapped by
the profile's first control of the same id, if any. -/
def addControl (monitorControls : List MonitorControl) (mode : LoadMode) (state : Table × List Bool)
    (option : ℕ × ℕ × OptionControl) : Except DbError (Table × List Bool) :=
  let (groupIndex, subgroupIndex, optionControl) := option
  match monitorControls.find? fun control => control.id = optionControl.id with
  | none => .ok state
  | some monitorControl =>
    let matched := state.2.set monitorControl.childIndex true
    if monitorControl.unavailable || optionControl.unavailable then .ok (state.1, matched)
    else do
      let address ← monitorControlAddress monitorControl
      if !mode.validateAll && (!state.1.caps.isSupported address || state.1.defined address) then
        return (state.1, matched)
      let control ← matchedControl translate optionControl monitorControl address mode.faulttolerance
      return (state.1.push groupIndex subgroupIndex control, matched)

/-- `add_controls_from_options`. -/
def addControlsFromOptions (options : OptionsDb) (monitorControls : ParsedMonitorControls) (mode : LoadMode)
    (table : Table) : Except DbError Table := do
  let matched := monitorControls.elements.map (·.unavailable)
  let state ← monitorControls.controls.foldlM (blockControl options) (table, matched)
  let state ← options.indexedControls.foldlM (addControl translate monitorControls.controls mode) state
  reject (!mode.faulttolerance && state.2.any (!·)) (.new "Unmatched control in monitor XML.")
  return state.1

/-! ### Profiles -/

/-- The address an unknown required control reserves. -/
def requiredControlAddress (control : Node) : Option UInt8 := do
  let raw ← control.attr "address"
  let value ← (parseInteger raw).toOption
  u8TryFrom value

/-- The loop body over a `controls` block's children: required ones lose their address. -/
def reserveControl (table : Table) (control : Node) : Except DbError Table :=
  if control.hasRequired then do
    let address ← orError (requiredControlAddress control)
      (.required "Required control cannot be safely isolated by address.")
    return suppressAddress table address
  else .ok table

/-- The `controls` branch of `create_db_protected`. -/
def controlsBlock (options : OptionsDb) (mode : LoadMode) (child : Node) (table : Table) : Except DbError Table := do
  reject (child.children.any fun node => node.tag ≠ "control" && node.hasRequired)
    (.required "Unknown required controls operation.")
  let table ← child.children.foldlM reserveControl table
  addControlsFromOptions translate options (parseMonitorControls child) mode table

/-- Apply a patch attribute of a `caps` element, if it has it. -/
def patchCaps (child : Node) (message : String) (edit : Edit) (patch : Option String) (table : Table) :
    Except DbError Table :=
  match patch with
  | none => .ok table
  | some patch => do
    let caps ← orError (applyCaps patch table.caps edit) (.new (nodeError child message))
    return { table with caps := caps }

/-- The `caps` branch of `create_db_protected`. -/
def capsElement (child : Node) (table : Table) : Except DbError Table := do
  reject ((child.attr "remove").isNone && (child.attr "add").isNone)
    (.new (nodeError child "Can't find add or remove property in caps."))
  let table ← patchCaps child "Invalid remove caps." .remove (child.attr "remove") table
  patchCaps child "Invalid add caps." .add (child.attr "add") table

/-- The root a profile name stands for: the override at the top level, else an
installed profile. -/
def DbContext.root? (context : DbContext) (pnpname : String) (topLevel : Bool) : Option (Except String Node) :=
  match context.monitorFile.filter fun file => topLevel && file.pnpid == pnpname with
  | some file => some (.ok file.root)
  | none => context.profiles[pnpname]?

/-- The root of a profile, or why there is none. -/
def DbContext.resolve (context : DbContext) (pnpname : String) (topLevel : Bool) : Except DbError Node :=
  match context.root? pnpname topLevel with
  | none => .error (.missing ("Monitor profile " ++ pnpname ++ " is unavailable."))
  | some (.error error) => .error (.new error)
  | some (.ok root) => .ok root

/-- The init mode a profile declares. -/
def loadInit (root : Node) (init : String) : Except DbError InitType :=
  if init = "standard" then .ok .standard
  else if init = "samsung" then .ok .samsung
  else .error (.new (nodeError root "Invalid type."))

/-- The first name wins. -/
def openName (root : Node) (build : MonitorBuild) : Except DbError MonitorBuild :=
  match build.name with
  | some _ => .ok build
  | none => do
    let name ← orError (root.attr "name") (.new (nodeError root "Can't find name property."))
    return { build with name := some (utf8 name) }

/-- The first init mode wins; a full validation reads the others too. -/
def openInit (mode : LoadMode) (root : Node) (build : MonitorBuild) : Except DbError MonitorBuild :=
  if build.init = .unknown ∨ mode.validateAll then
    match root.attr "init" with
    | none => .ok build
    | some init => do
      let init ← loadInit root init
      if build.init = .unknown then return { build with init := init } else return build
  else .ok build

/-- `create_db_protected` up to its loop over the root's children: the checks of the
root, and what it says of the monitor's name and init mode. -/
def openRoot (mode : LoadMode) (pnpname : String) (root : Node) (build : MonitorBuild) :
    Except DbError MonitorBuild := do
  reject root.required (.required ("Monitor profile " ++ pnpname ++ " requires an unsupported feature."))
  reject (root.tag ≠ "monitor")
    (.new ("monitor/" ++ pnpname ++ ".xml of the wrong type, root node " ++ root.tag ++ " != monitor"))
  let build ← openName root build
  let build ← openInit mode root build
  reject ((root.attr "caps").isSome && !mode.faulttolerance) (.new "Error: caps property is deprecated.")
  reject ((root.attr "include").isSome && !mode.faulttolerance) (.new "Error: include property is deprecated.")
  return build

/-- The loop over a root's children: the state of the load, `controls_or_include` and
`seen_controls`. -/
structure Walk where
  assembly : Assembly
  controlsOrInclude : Bool
  seenControls : Bool

/-- The loop body of `create_db_protected`; `visit` is the recursive call on an include. -/
def profileChild (context : DbContext) (mode : LoadMode) (visit : String → Assembly → Except DbError Assembly)
    (walk : Walk) (child : Node) : Except DbError Walk := do
  reject (child.required || (child.tag ≠ "controls" && child.hasRequired))
    (.required (nodeError child "Profile operation requires an unsupported feature."))
  if child.tag = "caps" then
    let table ← capsElement child walk.assembly.table
    return { walk with assembly := { walk.assembly with table := table } }
  else if child.tag = "include" then
    let file ← (requiredAttr child "file").mapError DbError.new
    let assembly ← visit file walk.assembly
    return { walk with assembly := assembly, controlsOrInclude := true }
  else if child.tag = "controls" then
    reject walk.seenControls (.new (nodeError child "Two controls part in XML file."))
    let table ← controlsBlock translate context.options mode child walk.assembly.table
    return ⟨{ walk.assembly with table := table }, true, true⟩
  else do
    reject mode.validateAll (.new (nodeError child "Unknown monitor element."))
    return walk

/-- `create_db_protected` on a resolved root. -/
def interpretRoot (context : DbContext) (mode : LoadMode) (visit : String → Assembly → Except DbError Assembly)
    (pnpname : String) (root : Node) (assembly : Assembly) : Except DbError Assembly := do
  let build ← openRoot mode pnpname root assembly.build
  let walk ← root.children.foldlM (profileChild translate context mode visit)
    ⟨{ assembly with build := build }, false, false⟩
  reject (!walk.controlsOrInclude) (.new "document of the wrong type, can't find controls or include.")
  return walk.assembly

/-- The first checks of `create_db_protected`: the profile's name and the visits so far. -/
def countVisit (pnpname : String) (build : MonitorBuild) : Except DbError MonitorBuild := do
  reject (!isValidMonitorProfileName pnpname) (.new ("Invalid monitor profile name (" ++ pnpname ++ ")."))
  reject (1000000 < build.includeVisits + 1) (.new "Expanded include visit limit exceeded.")
  return { build with includeVisits := build.includeVisits + 1 }

/-- `create_db_protected`. -/
def createDbProtected (context : DbContext) (mode : LoadMode) (pnpname : String) (recursionlevel : ℕ)
    (assembly : Assembly) : Except DbError Assembly := do
  let build ← countVisit pnpname assembly.build
  if _h : 15 < recursionlevel then
    throw (.new ("Error, include recursion level > 15 (file: " ++ pnpname ++ ")."))
  else
    let root ← context.resolve pnpname (recursionlevel = 0)
    interpretRoot translate context mode
      (fun file assembly => createDbProtected context mode file (recursionlevel + 1) assembly)
      pnpname root { assembly with build := build }
termination_by 16 - recursionlevel

end Translated

end DdcControl.Database
