import DdcControl.Database.Node

/-!
# The options vocabulary

The common definitions every profile refers to: groups of subgroups of controls,
each control with the values it may take. `loadOptionsNode` reads them off the
database's `options` node. A control that carries required semantics is kept by its
id alone, marked `unavailable`, so that assembly can suppress what refers to it.
-/

namespace DdcControl.Database

open Fallible

/-- `ControlType`. -/
inductive ControlType where
  | value
  | command
  | list
  deriving DecidableEq, Repr

/-- `Refresh`. -/
inductive Refresh where
  | none
  | all
  deriving DecidableEq, Repr

/-- `OptionValue`. -/
structure OptionValue where
  id : String
  name : Option String
  rawValue : Option String
  deriving DecidableEq, Repr

/-- `OptionControl`. -/
structure OptionControl where
  unavailable : Bool
  id : String
  name : String
  controlType : ControlType
  refresh : Refresh
  rawAddress : Option String
  values : List OptionValue
  deriving DecidableEq, Repr

/-- `OptionSubgroup`. -/
structure OptionSubgroup where
  name : String
  pattern : Option String
  controls : List OptionControl
  deriving DecidableEq, Repr

/-- `OptionGroup`. -/
structure OptionGroup where
  name : String
  subgroups : List OptionSubgroup
  deriving DecidableEq, Repr

/-- `OptionsDb`. -/
structure OptionsDb where
  groups : List OptionGroup
  deriving DecidableEq, Repr

/-- `OptionsDb::controls`. -/
def OptionsDb.controls (options : OptionsDb) : List OptionControl :=
  options.groups.flatMap fun group => group.subgroups.flatMap fun subgroup => subgroup.controls

/-- `DBVERSION`. -/
def dbVersion : ℤ := 3

/-- The children of a node with a given tag. -/
def Node.childrenTagged (node : Node) (tag : String) : List Node := node.children.filter fun child => child.tag = tag

/-- Required semantics on a node, or anywhere below it outside its `inner` children. -/
def Node.requiredOutside (node : Node) (inner : String) : Bool :=
  node.required || node.children.any fun child => child.tag ≠ inner && child.hasRequired

/-- The loop body of `load_options_node` for a `value`. -/
def loadOptionValue (value : Node) : Except String OptionValue := do
  let id ← requiredAttr value "id"
  return ⟨id, value.attr "name", value.attr "value"⟩

/-- The refresh type a `control` declares. -/
def loadRefresh (control : Node) : Except String Refresh :=
  match control.attr "refresh" with
  | none => .ok .none
  | some refresh =>
    if refresh = "none" then .ok .none
    else if refresh = "all" then .ok .all
    else .error (nodeError control "Invalid refresh type (!= none, != all).")

/-- The control type a `control` declares. -/
def loadControlType (control : Node) : Except String ControlType := do
  let controlType ← requiredAttr control "type"
  if controlType = "value" then return .value
  else if controlType = "command" then return .command
  else if controlType = "list" then return .list
  else throw (nodeError control "Invalid type.")

/-- The loop body of `load_options_node` for a `control`. -/
def loadOptionControl (control : Node) : Except String OptionControl :=
  if control.hasRequired then do
    let id ← requiredAttr control "id"
    return ⟨true, id, "", .value, .none, none, []⟩
  else do
    let refresh ← loadRefresh control
    let controlType ← loadControlType control
    let id ← requiredAttr control "id"
    let name ← requiredAttr control "name"
    let values ← (control.childrenTagged "value").mapM loadOptionValue
    return ⟨control.hasRequired, id, name, controlType, refresh, control.attr "address", values⟩

/-- The loop body of `load_options_node` for a `subgroup`. -/
def loadOptionSubgroup (subgroup : Node) : Except String OptionSubgroup := do
  reject (subgroup.requiredOutside "control") "Options subgroup requires an unsupported feature."
  let name ← requiredAttr subgroup "name"
  let controls ← (subgroup.childrenTagged "control").mapM loadOptionControl
  return ⟨name, subgroup.attr "pattern", controls⟩

/-- The loop body of `load_options_node` for a `group`. -/
def loadOptionGroup (group : Node) : Except String OptionGroup := do
  reject (group.requiredOutside "subgroup") "Options group requires an unsupported feature."
  let name ← requiredAttr group "name"
  let subgroups ← (group.childrenTagged "subgroup").mapM loadOptionSubgroup
  return ⟨name, subgroups⟩

/-- `parse_int(version)` with its message. -/
def loadVersion (version : String) : Except String ℤ :=
  match parseInteger version with
  | .ok version => .ok version
  | .error _ => .error "Can't convert version to int."

/-- The version check of `load_options_node`. -/
def checkDbVersion (root : Node) : Except String Unit := do
  let version ← orError (root.attr "dbversion")
    "options.xml dbversion attribute missing, please update your database."
  let _ ← orError (root.attr "date") "options.xml date attribute missing, please update your database."
  let version ← loadVersion version
  reject (version > dbVersion)
    ("options.xml dbversion (" ++ toString version ++ ") is greater than the supported version (" ++
      toString dbVersion ++ ").\nPlease update ddccontrol program.")
  reject (version < dbVersion)
    ("options.xml dbversion (" ++ toString version ++ ") is less than the supported version (" ++
      toString dbVersion ++ ").\nPlease update ddccontrol database.")

/-- `load_options_node`. -/
def loadOptionsNode (root : Node) : Except String OptionsDb := do
  reject (root.requiredOutside "group") "Options require an unsupported database feature."
  reject (root.tag ≠ "options") ("options.xml of the wrong type, root node " ++ root.tag ++ " != options")
  checkDbVersion root
  let groups ← (root.childrenTagged "group").mapM loadOptionGroup
  return ⟨groups⟩

end DdcControl.Database
