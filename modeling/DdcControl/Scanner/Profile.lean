import DdcControl.Context.Elements
import DdcControl.Scanner.Adding
import DdcControl.Scanner.Printed

/-!
# The load of a generated profile

The loader's nodes of a profile are known from its element. So the load of a generated
profile is too: the root is opened, the patch applies to any CAPS and leaves the codes of
the scan supported, and what is left is to add the active controls to a table that has none.

## What is proved

* `loadable_profile_iff` — a profile is within the loader's limits by its name, its
  capabilities string, its ids and how many values it has.
* `createDbProtected_generated` — its load is `addControlsFromOptions` on a fresh table.
-/

namespace DdcControl.Scanner

open Capabilities Context Database Fallible Markup

/-! ### The nodes of a profile -/

theorem capsElements_nil {scan : Scan} (h : scan.codes = []) : capsElements scan = [] := by
  rw [capsElements, h]
  rfl

theorem capsElements_of_ne {scan : Scan} (h : scan.codes ≠ []) :
    capsElements scan = [.mk "caps" [("add", cleaned (normalizedCaps scan scan.codes))] []] := by
  rw [capsElements, if_neg (by rwa [List.isEmpty_iff])]

/-- The node of a mapped value. -/
theorem monitorValue_valueElement {node : Node} {value : String × UInt16}
    (h : IsNodeOf node (valueElement value)) :
    monitorValue node = ⟨"value", some (cleaned value.1),
      some ("0x" ++ hexText value.2.toNat)⟩ := by
  rw [monitorValue, h.attr, h.attr, h.1]
  rfl

/-- The node of an active control. -/
theorem monitorControl_element {node : Node} {control : ActiveControl}
    (h : IsNodeOf node control.element) (hid : cleaned control.option.id = control.option.id)
    (hids : ∀ value ∈ control.values, cleaned value.1 = value.1) (childIndex : ℕ) :
    monitorControl node childIndex = some (control.monitorControl childIndex) := by
  have hvalues : node.children.map monitorValue = control.values.map writtenValue := by
    have hsame : List.Forall₂ Eq (node.children.map monitorValue) (control.values.map writtenValue) := by
      obtain ⟨-, -, -, hchildren⟩ := h
      rw [areNodesOf_iff, List.forall₂_map_right_iff, List.forall₂_iff_zip] at hchildren
      rw [List.forall₂_map_left_iff, List.forall₂_map_right_iff, List.forall₂_iff_zip]
      refine ⟨hchildren.1, fun {child value} hmem => ?_⟩
      rw [monitorValue_valueElement (hchildren.2 hmem),
        hids value (List.of_mem_zip hmem).2, writtenValue]
    rwa [List.forall₂_eq_eq_eq] at hsame
  have htag : node.tag = "control" := h.1
  have hattrId : node.attr "id" = some control.option.id := by
    rw [h.attr]
    exact congrArg some hid
  have haddress : node.attr "address" = some ("0x" ++ hexText control.code.toNat) := by
    rw [h.attr]
    rfl
  have hdelay : node.attr "delay" = none := by
    rw [h.attr]
    rfl
  rw [monitorControl, if_neg (by simp [htag]), hattrId, haddress, hdelay, hvalues, h.hasRequired]
  rfl

theorem monitorControls_eq {children : List Node} {active : List ActiveControl} (start : ℕ)
    (h : List.Forall₂ (fun child control => ∀ childIndex, monitorControl child childIndex =
      some (control.monitorControl childIndex)) children active) :
    ((children.zipIdx start).filterMap fun (child, childIndex) => monitorControl child childIndex) =
      (active.zipIdx start).map fun (control, childIndex) => control.monitorControl childIndex := by
  induction h generalizing start with
  | nil => rfl
  | cons hchild _ ih =>
    rw [List.zipIdx_cons, List.zipIdx_cons, List.filterMap_cons, List.map_cons]
    simp only [hchild start, ih]

/-- The node of the `controls` block. -/
theorem parseMonitorControls_element {node : Node} {active : List ActiveControl}
    (h : IsNodeOf node (.mk "controls" [] (active.map ActiveControl.element)))
    (hids : ∀ control ∈ active, cleaned control.option.id = control.option.id ∧
      ∀ value ∈ control.values, cleaned value.1 = value.1) :
    parseMonitorControls node = generatedControls active := by
  have hchildren : List.Forall₂ IsNodeOf node.children (active.map ActiveControl.element) :=
    areNodesOf_iff.mp h.2.2.2
  rw [List.forall₂_map_right_iff] at hchildren
  have helements : node.children.map (fun child => (⟨child.hasRequired⟩ : MonitorElement)) =
      active.map fun _ => ⟨false⟩ := by
    have hsame : List.Forall₂ Eq (node.children.map fun child => (⟨child.hasRequired⟩ : MonitorElement))
        (active.map fun _ => ⟨false⟩) :=
      List.forall₂_map_left_iff.mpr (List.forall₂_map_right_iff.mpr (hchildren.imp fun child _ hchild => by
        rw [hchild.hasRequired]))
    rwa [List.forall₂_eq_eq_eq] at hsame
  rw [parseMonitorControls, generatedControls, helements, monitorControls_eq 0]
  rw [List.forall₂_iff_zip] at hchildren ⊢
  refine ⟨hchildren.1, fun {child control} hmem childIndex => ?_⟩
  obtain ⟨hid, hvalues⟩ := hids control (List.of_mem_zip hmem).2
  exact monitorControl_element (hchildren.2 hmem) hid hvalues childIndex

/-! ### The capabilities -/

theorem isChar_append {s t : String} (hs : ∀ c ∈ s.toList, isChar c = true)
    (ht : ∀ c ∈ t.toList, isChar c = true) :
    ∀ c ∈ (s ++ t).toList, isChar c = true := by
  rw [String.toList_append]
  exact List.forall_mem_append.mpr ⟨hs, ht⟩

theorem isChar_intercalate {texts : List String}
    (h : ∀ text ∈ texts, ∀ c ∈ text.toList, isChar c = true) :
    ∀ c ∈ (" ".intercalate texts).toList, isChar c = true := by
  induction texts with
  | nil => exact List.forall_mem_nil _
  | cons text texts ih =>
    rw [List.forall_mem_cons] at h
    cases texts with
    | nil =>
      rw [String.intercalate_singleton]
      exact h.1
    | cons text' texts =>
      rw [String.intercalate_cons_cons]
      exact isChar_append (isChar_append h.1 (List.all_eq_true.mp (by decide))) (ih h.2)

/-- NUL is no character of documents. -/
theorem nulFree_of_isChar {s : String} (h : ∀ c ∈ s.toList, isChar c = true) : NulFree s :=
  fun hmem => absurd (h _ hmem) (by decide)

theorem isChar_hexText (n : ℕ) : ∀ c ∈ (hexText n).toList, isChar c = true := by
  have hdigits : ∀ d < 16, isChar d.digitChar.toUpper = true := by decide
  exact forall_mem_hexText hdigits n

/-- The capabilities string is made of characters of documents. -/
theorem normalizedCaps_isChar (scan : Scan) (codes : List UInt8) :
    ∀ c ∈ (normalizedCaps scan codes).toList, isChar c = true := by
  have hentry : ∀ code, ∀ c ∈ (capsEntry scan code).toList, isChar c = true := fun code => by
    unfold capsEntry
    refine isChar_append (isChar_hexText _) ?_
    split
    · refine isChar_append
        (isChar_append (List.all_eq_true.mp (by decide)) (isChar_intercalate fun text htext => ?_))
        (List.all_eq_true.mp (by decide))
      obtain ⟨value, -, rfl⟩ := List.mem_map.mp htext
      exact isChar_hexText _
    · exact List.forall_mem_nil _
  unfold normalizedCaps
  refine isChar_append (isChar_append (isChar_append (isChar_append (List.all_eq_true.mp (by decide)) ?_)
    (List.all_eq_true.mp (by decide))) (isChar_intercalate fun text htext => ?_)) (List.all_eq_true.mp (by decide))
  · split
    · exact List.all_eq_true.mp (by decide)
    · exact List.all_eq_true.mp (by decide)
    · exact List.forall_mem_nil _
  · obtain ⟨code, -, rfl⟩ := List.mem_map.mp htext
    exact hentry code

/-! ### Limits -/

/-- A text is within the loader's limit on attributes. -/
def Short (text : String) : Prop := (utf8 text).length ≤ maxAttribute

/-- A profile is within the limits of `parse_xml`. -/
structure WithinLimits (scan : Scan) (index : Options) : Prop where
  name : Short (cleaned (monitorName scan))
  caps : scan.codes ≠ [] → Short (normalizedCaps scan scan.codes)
  ids : ∀ control ∈ activeControls scan index, Short control.option.id ∧ ∀ value ∈ control.values, Short value.1
  elements : 2 + (if scan.codes = [] then 0 else 1) +
    ((activeControls scan index).map fun control => 1 + control.values.length).sum ≤ 4000000

theorem short_hexText {n : ℕ} (h : n < 2 ^ 16) : Short ("0x" ++ hexText n) := by
  obtain ⟨digits, -, hbytes, -, -, hlength⟩ := exists_utf8_hexText n
  have hdigits : digits.length ≤ 4 := hlength 2 h
  have hprefix : (utf8 "0x").length = 2 := by decide
  rw [Short, utf8_append, List.length_append, hbytes, List.length_map, hprefix, maxAttribute]
  omega

theorem size_element (control : ActiveControl) :
    control.element.size = 1 + control.values.length := by
  have hones : ∀ values : List (String × UInt16), ((values.map valueElement).map Element.size).sum =
      values.length := by
    intro values
    induction values with
    | nil => rfl
    | cons value values ih =>
      have hone : (valueElement value).size = 1 := rfl
      rw [List.map_cons, List.map_cons, List.sum_cons, ih, hone, List.length_cons]
      omega
  rw [ActiveControl.element, Element.size, sizeAll_eq, hones]

/-- A profile is four elements deep at most. -/
theorem height_profile (scan : Scan) (index : Options) : (profile scan index).height ≤ 65 := by
  have hcontrol : ∀ control : ActiveControl, control.element.height ≤ 2 := fun control => by
    have hvalues : heightAll (control.values.map valueElement) ≤ 1 :=
      heightAll_le fun e he => by
        obtain ⟨value, -, rfl⟩ := List.mem_map.mp he
        exact le_rfl
    rw [ActiveControl.element, Element.height]
    omega
  have hcontrols : heightAll ((activeControls scan index).map ActiveControl.element) ≤ 2 :=
    heightAll_le fun e he => by
      obtain ⟨control, -, rfl⟩ := List.mem_map.mp he
      exact hcontrol control
  have hchildren : heightAll (capsElements scan ++
      [.mk "controls" [] ((activeControls scan index).map ActiveControl.element)]) ≤ 3 :=
    heightAll_le fun e he => by
      rcases List.mem_append.mp he with he | he
      · by_cases hcodes : scan.codes = []
        · rw [capsElements_nil hcodes] at he
          cases he
        · rw [capsElements_of_ne hcodes] at he
          rw [List.mem_singleton.mp he, Element.height, heightAll]
          omega
      · rw [List.mem_singleton.mp he, Element.height]
        omega
  rw [profile, Element.height]
  omega

/-- The attributes of a profile have short names. -/
theorem shortAttribute_iff {name value : String}
    (h : name ∈ ["name", "init", "add", "id", "address", "value"]) :
    ShortAttribute (name, value) ↔ Short value := by
  have hnames : ∀ name ∈ ["name", "init", "add", "id", "address",
      "value"], (utf8 name).length ≤ maxAttribute := by
    simp only [maxAttribute, List.forall_mem_cons]
    decide
  exact and_iff_right (hnames name h)

/-- The attributes of a control's element are its ids and hexadecimal numbers. -/
theorem all_element (control : ActiveControl) : control.element.All ShortAttribute ↔
    Short (cleaned control.option.id) ∧ ∀ value ∈ control.values, Short (cleaned value.1) := by
  have hvalue : ∀ value : String × UInt16, (valueElement value).All ShortAttribute ↔
      Short (cleaned value.1) := fun value => by
    rw [valueElement, Element.all_mk, List.forall_mem_cons, List.forall_mem_singleton,
      shortAttribute_iff (by simp), shortAttribute_iff (by simp)]
    exact ⟨fun h => h.1.1, fun h => ⟨⟨h, short_hexText value.2.toNat_lt⟩, List.forall_mem_nil _⟩⟩
  have hcode : Short ("0x" ++ hexText control.code.toNat) :=
    short_hexText (by have := control.code.toNat_lt; omega)
  rw [ActiveControl.element, Element.all_mk, List.forall_mem_cons, List.forall_mem_singleton,
    shortAttribute_iff (by simp), shortAttribute_iff (by simp), List.forall_mem_map]
  simp only [hvalue]
  exact and_congr_left fun _ => and_iff_left hcode

/-- **The loader's limits on a profile**, by what is written in it. -/
theorem loadable_profile_iff {scan : Scan} {index : Options}
    (hids : ∀ control ∈ activeControls scan index, cleaned control.option.id = control.option.id ∧
      ∀ value ∈ control.values, cleaned value.1 = value.1) :
    Loadable (profile scan index) ↔ WithinLimits scan index := by
  have hcaps : cleaned (normalizedCaps scan scan.codes) = normalizedCaps scan scan.codes :=
    cleaned_of_isChar (normalizedCaps_isChar scan scan.codes)
  have hcontrols : (∀ e ∈ (activeControls scan index).map ActiveControl.element, e.All ShortAttribute) ↔
      ∀ control ∈ activeControls scan index, Short control.option.id ∧ ∀ value ∈ control.values, Short value.1 := by
    rw [List.forall_mem_map]
    refine forall₂_congr fun control hcontrol => ?_
    obtain ⟨hid, hvalues⟩ := hids control hcontrol
    rw [all_element, hid]
    exact and_congr_right fun _ => forall₂_congr fun value hvalue => by rw [hvalues value hvalue]
  have hsize : (profile scan index).size = 2 + (if scan.codes = [] then 0 else 1) +
      ((activeControls scan index).map fun control => 1 + control.values.length).sum := by
    have hsum : sizeAll ((activeControls scan index).map ActiveControl.element) =
        ((activeControls scan index).map fun control => 1 + control.values.length).sum := by
      rw [sizeAll_eq, List.map_map]
      exact congrArg List.sum (List.map_congr_left fun control _ => size_element control)
    rw [profile, Element.size, sizeAll_eq, List.map_append, List.sum_append, List.map_singleton,
      List.sum_singleton, Element.size, hsum]
    by_cases hcodes : scan.codes = []
    · rw [capsElements_nil hcodes, if_pos hcodes, List.map_nil, List.sum_nil]
      omega
    · rw [capsElements_of_ne hcodes, if_neg hcodes, List.map_singleton, List.sum_singleton,
        Element.size, sizeAll]
      omega
  have hcapsAll : (∀ e ∈ capsElements scan, e.All ShortAttribute) ↔
      (scan.codes ≠ [] → Short (normalizedCaps scan scan.codes)) := by
    by_cases hcodes : scan.codes = []
    · rw [capsElements_nil hcodes]
      exact iff_of_true (List.forall_mem_nil _) fun hne => absurd hcodes hne
    · rw [capsElements_of_ne hcodes, List.forall_mem_singleton, Element.all_mk,
        List.forall_mem_singleton, shortAttribute_iff (by simp), hcaps]
      exact ⟨fun h _ => h.1, fun h => ⟨h hcodes, List.forall_mem_nil _⟩⟩
  rw [Loadable, hsize, profile, Element.all_mk, List.forall_mem_append, List.forall_mem_singleton,
    Element.all_mk, hcontrols, hcapsAll, List.forall_mem_cons, List.forall_mem_singleton,
    shortAttribute_iff (by simp), shortAttribute_iff (by simp)]
  have hstandard : Short "standard" := by
    rw [Short, maxAttribute]
    decide
  constructor
  · rintro ⟨⟨⟨hname, -⟩, hcaps, -, hids⟩, helements⟩
    exact ⟨hname, hcaps, hids, helements⟩
  · rintro ⟨hname, hcaps, hids, helements⟩
    exact ⟨⟨⟨hname, hstandard⟩, hcaps, List.forall_mem_nil _, hids⟩, helements⟩

section Scanned

variable {input : List UInt8} {scan : Scan} (hcaps : Caps.parse input = .ok scan.caps)
include hcaps

/-- **The patch of a profile applies to any CAPS**, and leaves every code of the scan supported. -/
theorem applyCaps_normalizedCaps (hcodes : scan.codes ≠ []) (caps : Caps) :
    ∃ caps', applyCaps (normalizedCaps scan scan.codes) caps .add = some caps' ∧
      ∀ code ∈ scan.codes, caps'.isSupported code = true := by
  have hparse := parse_normalizedCaps (values_ne_nil hcaps) scan.codes
  have hnul : ¬ ((normalizedCaps scan scan.codes).toList.contains '\x00') = true := fun hmem =>
    nulFree_of_isChar (normalizedCaps_isChar scan scan.codes) (List.contains_iff_mem.mp hmem)
  have hall : allCodes.length = 256 := by rw [allCodes, List.length_map, List.length_range]
  have hlength : scan.codes.length ≤ allCodes.length := by
    rw [Scan.codes]
    exact List.length_filter_le _ _
  have hpos := List.length_pos_of_ne_nil hcodes
  have hcount : ¬ asCInt scan.codes.length ≤ 0 := by
    rw [asCInt_eq (by omega)]
    omega
  refine ⟨caps.patched ⟨printedType scan.caps.monitorType, scan.codes.map scan.item⟩ .add, ?_,
    fun code hcode => ?_⟩
  · rw [applyCaps, if_neg hnul, Caps.apply_eq_patched hparse, List.length_map]
    exact if_neg hcount
  · show (Edits.edits ParsedVcp.code (ParsedVcp.editEntry .add) caps.vcp (scan.codes.map scan.item) code).isSome = true
    rw [edits_items, if_pos hcode]
    rfl

/-- The node of the `caps` element. -/
theorem capsElement_generated {node : Node}
    (h : IsNodeOf node (.mk "caps" [("add", cleaned (normalizedCaps scan scan.codes))] []))
    (hcodes : scan.codes ≠ []) (table : Table) :
    ∃ caps', capsElement node table = .ok { table with caps := caps' } ∧
      ∀ code ∈ scan.codes, caps'.isSupported code = true := by
  obtain ⟨caps', happly, hsupported⟩ := applyCaps_normalizedCaps hcaps hcodes table.caps
  have hremove : node.attr "remove" = none := by
    rw [h.attr]
    rfl
  have hadd : node.attr "add" = some (normalizedCaps scan scan.codes) := by
    rw [h.attr]
    exact congrArg some (cleaned_of_isChar (normalizedCaps_isChar scan scan.codes))
  refine ⟨caps', ?_, hsupported⟩
  refine bind_eq_ok.mpr ⟨(), reject_eq_ok.mpr (by rw [hremove, hadd]; rfl),
    bind_eq_ok.mpr ⟨table, by rw [hremove]; rfl, ?_⟩⟩
  rw [hadd]
  exact bind_eq_ok.mpr ⟨caps', orError_eq_ok.mpr happly, rfl⟩

end Scanned

/-! ### The profile -/

section Translated

variable (translate : String → List UInt8)

section Profile

variable {context : DbContext} {validateAll : Bool} {visit : String → Assembly → Except DbError Assembly}

/-- The `controls` block is added to the table. -/
theorem profileChild_controls {child : Node} {active : List ActiveControl}
    (h : IsNodeOf child (.mk "controls" [] (active.map ActiveControl.element)))
    (hids : ∀ control ∈ active, cleaned control.option.id = control.option.id ∧
      ∀ value ∈ control.values, cleaned value.1 = value.1) {walk : Walk}
        (hseen : walk.seenControls = false) :
    profileChild translate context ⟨false, validateAll⟩ visit walk child =
      (addControlsFromOptions translate context.options (generatedControls active) ⟨false,
        validateAll⟩ walk.assembly.table >>=
        fun table => .ok ⟨{ walk.assembly with table := table }, true, true⟩) := by
  have hrequired : child.hasRequired = false := h.hasRequired
  have hchildren : ∀ node ∈ child.children, node.hasRequired = false := fun node hnode => by
    obtain ⟨e, -, he⟩ := exists_of_forall₂ (areNodesOf_iff.mp h.2.2.2) hnode
    exact he.hasRequired
  have hnone : (child.children.any fun node => node.tag ≠ "control" && node.hasRequired) = false :=
    List.any_eq_false.mpr fun node hnode => by simp [hchildren node hnode]
  have hreserved : child.children.foldlM reserveControl walk.assembly.table = .ok walk.assembly.table :=
    foldlM_eq_self fun node hnode => by rw [reserveControl, if_neg (by simp [hchildren node hnode])]
  have hblock : controlsBlock translate context.options ⟨false, validateAll⟩ child walk.assembly.table =
      addControlsFromOptions translate context.options (generatedControls active)
        ⟨false, validateAll⟩ walk.assembly.table := by
    unfold controlsBlock
    rw [hnone, hreserved, parseMonitorControls_element h hids]
    rfl
  have htag : child.tag = "controls" := h.1
  have hmark : child.required = false := h.2.2.1
  unfold profileChild
  rw [hmark, hrequired, htag, hseen, hblock]
  rfl

/-- The `caps` element patches the CAPS. -/
theorem profileChild_caps {child : Node} {attributes : List (String × String)}
    (h : IsNodeOf child (.mk "caps" attributes [])) {walk : Walk} {table : Table}
    (htable : capsElement child walk.assembly.table = .ok table) :
    profileChild translate context ⟨false, validateAll⟩ visit walk child =
      .ok { walk with assembly := { walk.assembly with table := table } } := by
  have hrequired : child.hasRequired = false := h.hasRequired
  have htag : child.tag = "caps" := h.1
  have hmark : child.required = false := h.2.2.1
  unfold profileChild
  rw [hmark, hrequired, htag, htable]
  rfl

end Profile

/-- The root of a profile is opened: a name, an init mode, and nothing deprecated. -/
theorem openRoot_generated {scan : Scan} {index : Options} {node : Node}
    (h : IsNodeOf node (profile scan index)) (validateAll : Bool) (pnpname : String) :
    openRoot ⟨false, validateAll⟩ pnpname node ⟨1, none, .unknown⟩ =
      .ok ⟨1, some (utf8 (cleaned (monitorName scan))), .standard⟩ := by
  have htag : node.tag = "monitor" := h.1
  have hmark : node.required = false := h.2.2.1
  have hname : node.attr "name" = some (cleaned (monitorName scan)) := by
    rw [profile] at h
    rw [h.attr]
    rfl
  have hinit : node.attr "init" = some "standard" := by
    rw [profile] at h
    rw [h.attr]
    rfl
  have hcaps : node.attr "caps" = none := by
    rw [profile] at h
    rw [h.attr]
    rfl
  have hinclude : node.attr "include" = none := by
    rw [profile] at h
    rw [h.attr]
    rfl
  unfold openRoot
  simp only [hmark, htag, openName, openInit, hname, hinit, hcaps, hinclude]
  rfl

section Scanned

variable {scan : Scan} {index : Options} {input : List UInt8} (hcaps : Caps.parse input = .ok scan.caps)
include hcaps

/-- The elements of a profile patch the CAPS, and add its active controls. -/
theorem walk_generated {context : DbContext}
    (hids : ∀ control ∈ activeControls scan index, cleaned control.option.id = control.option.id ∧
      ∀ value ∈ control.values, cleaned value.1 = value.1) {nodes : List Node}
    (h : AreNodesOf nodes (capsElements scan ++
    [.mk "controls" [] ((activeControls scan index).map ActiveControl.element)]))
    (build : MonitorBuild) (table : Table) :
    ∃ caps, (∀ code ∈ scan.codes, caps.isSupported code = true) ∧ ∀ validateAll visit,
      nodes.foldlM (profileChild translate context ⟨false, validateAll⟩ visit) ⟨⟨build, table⟩, false, false⟩ =
        (addControlsFromOptions translate context.options
          (generatedControls (activeControls scan index)) ⟨false, validateAll⟩
            { table with caps := caps } >>= fun table => .ok ⟨⟨build, table⟩, true, true⟩) := by
  rw [areNodesOf_iff] at h
  by_cases hcodes : scan.codes = []
  · rw [capsElements_nil hcodes, List.nil_append] at h
    obtain ⟨node, rest, hnode, hrest, rfl⟩ := List.forall₂_cons_right_iff.mp h
    obtain rfl := List.forall₂_nil_right_iff.mp hrest
    refine ⟨table.caps, by simp [hcodes], fun validateAll visit => ?_⟩
    rw [List.foldlM_cons, profileChild_controls translate hnode hids rfl]
    exact bind_pure _
  · rw [capsElements_of_ne hcodes, List.singleton_append] at h
    obtain ⟨capsNode, rest, hcapsNode, hrest, rfl⟩ := List.forall₂_cons_right_iff.mp h
    obtain ⟨node, rest', hnode, hrest', rfl⟩ := List.forall₂_cons_right_iff.mp hrest
    obtain rfl := List.forall₂_nil_right_iff.mp hrest'
    obtain ⟨caps, htable, hsupported⟩ := capsElement_generated hcaps hcapsNode hcodes table
    refine ⟨caps, hsupported, fun validateAll visit => ?_⟩
    have hfirst : profileChild translate context ⟨false, validateAll⟩ visit
        ⟨⟨build, table⟩, false, false⟩ capsNode =
        .ok ⟨⟨build, { table with caps := caps }⟩, false, false⟩ :=
          profileChild_caps translate hcapsNode htable
    rw [List.foldlM_cons, hfirst, ok_bind, List.foldlM_cons,
      profileChild_controls translate hnode hids rfl]
    exact bind_pure _

/-- **The load of a generated profile** is the addition of its controls to a fresh table. -/
theorem createDbProtected_generated {context : DbContext} {node : Node}
    (hname : isValidMonitorProfileName scan.pnpId = true)
    (hresolve : context.resolve scan.pnpId true = .ok node)
    (hnode : IsNodeOf node (profile scan index))
    (hids : ∀ control ∈ activeControls scan index, cleaned control.option.id = control.option.id ∧
      ∀ value ∈ control.values, cleaned value.1 = value.1) (caps : Caps) :
    ∃ build table, Fresh context.options (activeControls scan index) table ∧ ∀ validateAll,
      createDbProtected translate context ⟨false, validateAll⟩ scan.pnpId 0
        (.start translate context.options caps) =
        (addControlsFromOptions translate context.options
          (generatedControls (activeControls scan index)) ⟨false, validateAll⟩
            table >>= fun table => .ok ⟨build, table⟩) := by
  have hchildren : AreNodesOf node.children
      (capsElements scan ++ [.mk "controls" [] ((activeControls scan index).map ActiveControl.element)]) := hnode.2.2.2
  obtain ⟨caps', hsupported, hwalk⟩ := @walk_generated translate scan index input hcaps context hids _ hchildren
    ⟨1, some (utf8 (cleaned (monitorName scan))), .standard⟩ (Assembly.start translate context.options caps).table
  have hcount : countVisit scan.pnpId (Assembly.start translate context.options caps).build =
      .ok ⟨1, none, .unknown⟩ := by
    rw [countVisit, hname]
    rfl
  refine ⟨⟨1, some (utf8 (cleaned (monitorName scan))), .standard⟩,
    { (Assembly.start translate context.options caps).table with caps := caps' }, ?_, fun validateAll => ?_⟩
  · refine ⟨?_, treeControls_groupsFromOptions translate context.options, fun _ => rfl,
      fun control hcontrol => ?_⟩
    · exact (groupsFromOptions_shape translate context.options).imp fun _ _ h => h.2.length_eq
    · exact hsupported control.code (mem_activeControls.mp hcontrol).1
  · have htop : decide ((0 : ℕ) = 0) = true := rfl
    rw [createDbProtected, hcount, ok_bind, dif_neg (by omega), htop, hresolve, ok_bind,
      interpretRoot, openRoot_generated hnode, ok_bind, hwalk]
    cases addControlsFromOptions translate context.options (generatedControls (activeControls scan index))
        ⟨false, validateAll⟩ { (Assembly.start translate context.options caps).table with caps := caps' } with
    | error e => rfl
    | ok table => rfl

end Scanned

end Translated

end DdcControl.Scanner
