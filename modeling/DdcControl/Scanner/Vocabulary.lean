import DdcControl.Context.Xml
import DdcControl.Database.Options
import DdcControl.Library.Markup

/-!
# The scanner's vocabulary

`ddccontrol-scanmonitor` reads `options.xml` by itself, with the address and value
hints that a monitor load ignores: `parse` reads the document, and `indexOptions`
groups its controls by their address hints.

`Options` is the `BTreeMap<u8, Vec<&OptionControl>>` of the source: an address without
candidates has no entry.

## What is proved

* `parse_available`, `parse_isChar` — a vocabulary read from a document has no
  unavailable control, and its ids are made of the characters of documents.
* `indexOptions_hinted`, `indexOptions_covers` — a candidate is one of the vocabulary's
  controls and stands at its hint, and every control with a hint has a candidate there that
  maps the same.
-/

namespace DdcControl.Context

/-- Every attribute value of the tree is made of XML characters. -/
abbrev Xml.Characters : Xml → Prop := Xml.All fun attr => ∀ c ∈ attr.value.toList, Markup.isChar c = true

/-- `Node::attribute`, on a name without namespace. -/
def Xml.attribute : Xml → String → Option String
  | .element _ attributes _ _, name =>
    (attributes.find? fun attr => attr.ns.isNone && attr.name = name).map XmlAttribute.value
  | _, _ => none

/-- `tag_name().name()`. -/
def Xml.tagName : Xml → String
  | .element tag _ _ _ => tag
  | _ => ""

/-- The element children with a given tag. -/
def Xml.childrenTagged : Xml → String → List Xml
  | .element _ _ children _, tag => children.filter fun child => child.isElement && child.tagName = tag
  | _, _ => []

/-- `node_error`. -/
def Xml.error (node : Xml) (message : String) : String :=
  match node with
  | .element _ _ _ row => "Error: " ++ message ++ " @line " ++ toString row
  | _ => "Error: " ++ message

/-- `required_attr`. -/
def Xml.requiredAttr (node : Xml) (name : String) : Except String String :=
  Fallible.orError (node.attribute name) (node.error ("Can't find " ++ name ++ " property."))

/-- An attribute of an element satisfies what all do. -/
theorem Xml.All.attribute {P : XmlAttribute → Prop} {node : Xml} (h : node.All P)
    {name value : String} (hvalue : node.attribute name = some value) :
    ∃ attr, P attr ∧ attr.value = value := by
  cases h with
  | element hattributes _ =>
    obtain ⟨attr, hattr, rfl⟩ := Option.map_eq_some_iff.mp hvalue
    exact ⟨attr, hattributes attr (List.mem_of_find?_eq_some hattr), rfl⟩
  | text => cases hvalue
  | other => cases hvalue

/-- A tagged child is as all of the tree. -/
theorem Xml.All.child {P : XmlAttribute → Prop} {node : Xml} (h : node.All P)
    {tag : String} {child : Xml} (hchild : child ∈ node.childrenTagged tag) : child.All P := by
  cases h with
  | element _ hchildren => exact hchildren child (List.mem_of_mem_filter hchild)
  | text => cases hchild
  | other => cases hchild

end DdcControl.Context

namespace DdcControl.Scanner

open Context Database Fallible

/-! ### Reading the document -/

/-- The loop body of `options::parse` for a `value`. -/
def parseValue (value : Xml) : Except String OptionValue := do
  let id ← value.requiredAttr "id"
  return ⟨id, value.attribute "name", value.attribute "value"⟩

/-- The refresh type of a `control`. -/
def parseRefresh (control : Xml) : Except String Refresh :=
  match control.attribute "refresh" with
  | none => .ok .none
  | some refresh =>
    if refresh = "none" then .ok .none
    else if refresh = "all" then .ok .all
    else .error (control.error "Invalid refresh type (!= none, != all).")

/-- The type of a `control`. -/
def parseControlType (control : Xml) : Except String ControlType := do
  let controlType ← control.requiredAttr "type"
  if controlType = "value" then return .value
  else if controlType = "command" then return .command
  else if controlType = "list" then return .list
  else throw (control.error "Invalid type.")

/-- The loop body of `options::parse` for a `control`. -/
def parseControl (control : Xml) : Except String OptionControl := do
  let refresh ← parseRefresh control
  let controlType ← parseControlType control
  let id ← control.requiredAttr "id"
  let name ← control.requiredAttr "name"
  let values ← (control.childrenTagged "value").mapM parseValue
  return ⟨false, id, name, controlType, refresh, control.attribute "address", values⟩

/-- The loop body of `options::parse` for a `subgroup`. -/
def parseSubgroup (subgroup : Xml) : Except String OptionSubgroup := do
  let name ← subgroup.requiredAttr "name"
  let controls ← (subgroup.childrenTagged "control").mapM parseControl
  return ⟨name, subgroup.attribute "pattern", controls⟩

/-- The loop body of `options::parse` for a `group`. -/
def parseGroup (group : Xml) : Except String OptionGroup := do
  let name ← group.requiredAttr "name"
  let subgroups ← (group.childrenTagged "subgroup").mapM parseSubgroup
  return ⟨name, subgroups⟩

/-- The version check of `options::parse`. -/
def parseVersion (root : Xml) : Except String Unit := do
  let version ← orError (root.attribute "dbversion")
    "options.xml dbversion attribute missing, please update your database."
  let _ ← orError (root.attribute "date") "options.xml date attribute missing, please update your database."
  let version ← loadVersion version
  reject (version > dbVersion)
    ("options.xml dbversion (" ++ toString version ++ ") is greater than the supported version (" ++
      toString dbVersion ++ ").\nPlease update ddccontrol program.")
  reject (version < dbVersion)
    ("options.xml dbversion (" ++ toString version ++ ") is less than the supported version (" ++
      toString dbVersion ++ ").\nPlease update ddccontrol database.")

/-- `options::parse` on the root element. -/
def parseRoot (root : Xml) : Except String OptionsDb := do
  reject (root.tagName ≠ "options") ("options.xml of the wrong type, root node " ++ root.tagName ++ " != options")
  parseVersion root
  let groups ← (root.childrenTagged "group").mapM parseGroup
  return ⟨groups⟩

/-- `options::parse`, on a file as `options::load` reads it. -/
def parse (x : XmlReader) (file : List UInt8) : Except String OptionsDb := do
  let root ← (x.document file).mapError fun _ => "Document not parsed successfully."
  parseRoot root

/-! ### Hints and the index -/

/-- `OptionControl::address`. -/
def hintedAddress (control : OptionControl) : Except String (Option UInt8) :=
  match control.rawAddress with
  | none => .ok none
  | some text =>
    some <$> orError ((parseInteger text).toOption.bind u8TryFrom)
      ("Invalid address in options.xml for " ++ control.id ++ ": " ++ text)

/-- `u16::try_from`. -/
def u16TryFrom (value : ℤ) : Option UInt16 :=
  if 0 ≤ value ∧ value ≤ 65535 then some (UInt16.ofNat value.toNat) else none

/-- `OptionValue::value`. -/
def hintedValue (value : OptionValue) : Option UInt16 := do
  let text ← value.rawValue
  let value ← (parseInteger text).toOption
  u16TryFrom value

/-- `Options`. -/
abbrev Options : Type := UInt8 → List OptionControl

/-- The ids of a control's values, with the numbers they are hinted to have. -/
def hintedValues (control : OptionControl) : List (String × Option UInt16) :=
  control.values.map fun value => (value.id, hintedValue value)

/-- The candidate maps what the control maps. -/
def SameMapping (candidate control : OptionControl) : Prop :=
  candidate.id = control.id ∧ candidate.name = control.name ∧ candidate.controlType = control.controlType ∧
    hintedValues candidate = hintedValues control

instance (candidate control : OptionControl) : Decidable (SameMapping candidate control) :=
  inferInstanceAs (Decidable (_ ∧ _))

/-- The loop body of `index_options`. -/
def indexControl (result : Options) (control : OptionControl) : Except String Options := do
  match ← hintedAddress control with
  | none => return result
  | some address =>
    if ∃ candidate ∈ result address, SameMapping candidate control then return result
    else return Function.update result address (result address ++ [control])

/-- `index_options`. -/
def indexOptions (database : OptionsDb) : Except String Options :=
  database.controls.foldlM indexControl fun _ => []

/-! ### What a vocabulary holds -/

theorem parseControl_ok {node : Xml} {control : OptionControl}
    (h : parseControl node = .ok control) :
    control.unavailable = false ∧ (node.attribute "id" = some control.id) ∧
      (node.childrenTagged "value").mapM parseValue = .ok control.values := by
  obtain ⟨refresh, -, h⟩ := bind_eq_ok.mp h
  obtain ⟨controlType, -, h⟩ := bind_eq_ok.mp h
  obtain ⟨id, hid, h⟩ := bind_eq_ok.mp h
  obtain ⟨name, -, h⟩ := bind_eq_ok.mp h
  obtain ⟨values, hvalues, h⟩ := bind_eq_ok.mp h
  cases h
  exact ⟨rfl, orError_eq_ok.mp hid, hvalues⟩

/-- A control of a vocabulary was read from an element of its document. -/
theorem parseRoot_control {P : XmlAttribute → Prop} {root : Xml} (hall : root.All P)
    {options : OptionsDb} (h : parseRoot root = .ok options) {control : OptionControl}
    (hcontrol : control ∈ options.controls) :
    ∃ node : Xml, node.All P ∧ parseControl node = .ok control := by
  obtain ⟨_, -, h⟩ := bind_eq_ok.mp h
  obtain ⟨_, -, h⟩ := bind_eq_ok.mp h
  obtain ⟨groups, hgroups, h⟩ := bind_eq_ok.mp h
  cases h
  simp only [OptionsDb.controls, List.mem_flatMap] at hcontrol
  obtain ⟨group, hgroup, subgroup, hsubgroup, hcontrol⟩ := hcontrol
  obtain ⟨groupNode, hgroupNode, hread⟩ := exists_of_forall₂ (mapM_eq_ok.mp hgroups).flip hgroup
  obtain ⟨_, -, hread⟩ := bind_eq_ok.mp hread
  obtain ⟨subgroups, hsubgroups, hread⟩ := bind_eq_ok.mp hread
  cases hread
  obtain ⟨subgroupNode, hsubgroupNode, hread⟩ :=
    exists_of_forall₂ (mapM_eq_ok.mp hsubgroups).flip hsubgroup
  obtain ⟨_, -, hread⟩ := bind_eq_ok.mp hread
  obtain ⟨controls, hcontrols, hread⟩ := bind_eq_ok.mp hread
  cases hread
  obtain ⟨node, hnode, hread⟩ := exists_of_forall₂ (mapM_eq_ok.mp hcontrols).flip hcontrol
  exact ⟨node, ((hall.child hgroupNode).child hsubgroupNode).child hnode, hread⟩

theorem parse_control {x : XmlReader} {file : List UInt8} {options : OptionsDb}
    (h : parse x file = .ok options) {control : OptionControl}
    (hcontrol : control ∈ options.controls) {P : XmlAttribute → Prop}
    (hall : ∀ tree, x.document file = .ok tree → tree.All P) :
    ∃ node : Xml, node.All P ∧ parseControl node = .ok control := by
  obtain ⟨root, hroot, h⟩ := bind_eq_ok.mp h
  exact parseRoot_control (hall root (mapError_eq_ok.mp hroot)) h hcontrol

/-- **No control of a vocabulary is unavailable**: a document cannot say so. -/
theorem parse_available {x : XmlReader} {file : List UInt8} {options : OptionsDb}
    (h : parse x file = .ok options) {control : OptionControl}
    (hcontrol : control ∈ options.controls) : control.unavailable = false := by
  obtain ⟨_, -, hread⟩ := parse_control h hcontrol (x.noNul file)
  exact (parseControl_ok hread).1

/-- **The ids of a vocabulary are made of the characters of documents.** -/
theorem parse_isChar {x : XmlReader} {file : List UInt8} {options : OptionsDb}
    (h : parse x file = .ok options) (hchars : ∀ tree, x.document file = .ok tree → tree.Characters)
    {control : OptionControl} (hcontrol : control ∈ options.controls) :
    (∀ c ∈ control.id.toList, Markup.isChar c = true) ∧
      ∀ value ∈ control.values, ∀ c ∈ value.id.toList, Markup.isChar c = true := by
  obtain ⟨node, hall, hread⟩ := parse_control h hcontrol hchars
  obtain ⟨-, hid, hvalues⟩ := parseControl_ok hread
  refine ⟨?_, fun value hvalue => ?_⟩
  · obtain ⟨attr, hattr, heq⟩ := hall.attribute hid
    exact heq ▸ hattr
  · obtain ⟨valueNode, hnode, hread⟩ := exists_of_forall₂ (mapM_eq_ok.mp hvalues).flip hvalue
    obtain ⟨id, hid, hread⟩ := bind_eq_ok.mp hread
    cases hread
    obtain ⟨attr, hattr, heq⟩ := (hall.child hnode).attribute (orError_eq_ok.mp hid)
    exact heq ▸ hattr

/-- What one control does to the index. -/
theorem indexControl_cases {index index' : Options} {control : OptionControl}
    (h : indexControl index control = .ok index') :
    (hintedAddress control = .ok none ∧ index' = index) ∨
      ∃ address, hintedAddress control = .ok (some address) ∧
        (((∃ candidate ∈ index address, SameMapping candidate control) ∧ index' = index) ∨
          index' = Function.update index address (index address ++ [control])) := by
  obtain ⟨address, haddress, h⟩ := bind_eq_ok.mp h
  cases address with
  | none =>
    cases h
    exact .inl ⟨haddress, rfl⟩
  | some address =>
    simp only at h
    split_ifs at h with hsame
    · cases h
      exact .inr ⟨address, haddress, .inl ⟨hsame, rfl⟩⟩
    · cases h
      exact .inr ⟨address, haddress, .inr rfl⟩

/-- **A candidate is a control of the vocabulary**, and stands at its hint. -/
theorem indexOptions_hinted {options : OptionsDb} {index : Options}
    (h : indexOptions options = .ok index) {code : UInt8} {candidate : OptionControl}
    (hcandidate : candidate ∈ index code) :
    candidate ∈ options.controls ∧ hintedAddress candidate = .ok (some code) := by
  have hnil : ∀ code : UInt8, ∀ candidate ∈ ([] : List OptionControl),
      candidate ∈ options.controls ∧ hintedAddress candidate = .ok (some code) :=
        fun _ => List.forall_mem_nil _
  refine foldlM_preserves
    (P := fun index : Options => ∀ code, ∀ candidate ∈ index code,
      candidate ∈ options.controls ∧ hintedAddress candidate = .ok (some code))
    (fun control hmem index index' hindex hstep => ?_) hnil h code candidate hcandidate
  obtain ⟨-, rfl⟩ | ⟨address, haddress, ⟨-, rfl⟩ | rfl⟩ := indexControl_cases hstep
  · exact hindex
  · exact hindex
  · intro code candidate hcandidate
    rw [Function.update_apply] at hcandidate
    split_ifs at hcandidate with hcode
    · rcases List.mem_append.mp hcandidate with hcandidate | hcandidate
      · exact hcode ▸ hindex address candidate hcandidate
      · obtain rfl := List.mem_singleton.mp hcandidate
        exact ⟨hmem, hcode ▸ haddress⟩
    · exact hindex code candidate hcandidate

theorem indexOptions_mem {options : OptionsDb} {index : Options}
    (h : indexOptions options = .ok index) {code : UInt8} {candidate : OptionControl}
    (hcandidate : candidate ∈ index code) : candidate ∈ options.controls :=
  (indexOptions_hinted h hcandidate).1

theorem SameMapping.refl (control : OptionControl) : SameMapping control control :=
  ⟨rfl, rfl, rfl, rfl⟩

/-- The index has a candidate that maps what the control maps, at its hint. -/
def Covers (index : Options) (control : OptionControl) : Prop :=
  ∀ address, hintedAddress control = .ok (some address) → ∃ candidate ∈ index address, SameMapping candidate control

/-- One control covers itself, and uncovers none. -/
theorem indexControl_covers {index index' : Options} {control : OptionControl}
    (h : indexControl index control = .ok index') :
    Covers index' control ∧ ∀ other, Covers index other → Covers index' other := by
  obtain ⟨hnone, rfl⟩ | ⟨address, haddress, ⟨hsame, rfl⟩ | rfl⟩ := indexControl_cases h
  · refine ⟨fun address haddress => ?_, fun _ hcovers => hcovers⟩
    cases hnone.symm.trans haddress
  · refine ⟨fun address' haddress' => ?_, fun _ hcovers => hcovers⟩
    cases haddress.symm.trans haddress'
    exact hsame
  · have hgrows : ∀ code, index code ⊆ Function.update index address (index address ++ [control]) code := by
      intro code
      rw [Function.update_apply]
      split_ifs with hcode
      · exact hcode ▸ List.subset_append_left ..
      · exact fun _ hmem => hmem
    refine ⟨fun address' haddress' => ?_, fun other hcovers address' haddress' => ?_⟩
    · cases haddress.symm.trans haddress'
      rw [Function.update_self]
      exact ⟨control, List.mem_append_right _ (List.mem_singleton.mpr rfl), .refl control⟩
    · obtain ⟨candidate, hcandidate, hsame⟩ := hcovers address' haddress'
      exact ⟨candidate, hgrows address' hcandidate, hsame⟩

/-- **Every control with a hint is covered** by the index. -/
theorem indexOptions_covers {options : OptionsDb} {index : Options}
    (h : indexOptions options = .ok index) {control : OptionControl}
    (hcontrol : control ∈ options.controls) : Covers index control := by
  have hrun : ∀ (controls : List OptionControl) (before : Options), controls.foldlM indexControl
      before = .ok index →
      (∀ other, Covers before other → Covers index other) ∧
      ∀ control ∈ controls, Covers index control := by
    intro controls
    induction controls with
    | nil =>
      intro before h
      cases h
      exact ⟨fun _ hcovers => hcovers, List.forall_mem_nil _⟩
    | cons first controls ih =>
      intro before h
      obtain ⟨next, hfirst, hrest⟩ := bind_eq_ok.mp h
      obtain ⟨hself, hkeeps⟩ := indexControl_covers hfirst
      obtain ⟨hkept, hall⟩ := ih next hrest
      exact ⟨fun other hcovers => hkept other (hkeeps other hcovers),
        List.forall_mem_cons.mpr ⟨hkept _ hself, hall⟩⟩
  exact (hrun _ _ h).2 control hcontrol

end DdcControl.Scanner
