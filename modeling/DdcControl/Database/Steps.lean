import DdcControl.Database.Script

/-!
# The steps of a tree

Everything a profile does to the groups and to `defined` is one of two steps: an
address is suppressed, or a control is pushed that is supported, not defined yet, and
made from a control of the profile and an available options control of the subgroup it
goes to. `Table.Step` says
so once; the invariants of published trees are proved over it.
-/

namespace DdcControl.Database

open Capabilities Fallible

section Translated

variable (translate : String → List UInt8)

/-- The values of a control are its option's, in the option's order, except that a
command whose option values all go unmatched has the value `default`. -/
def ValuesFrom (optionControl : OptionControl) (monitorControl : MonitorControl) (values : List DbValue) : Prop :=
  (values.map DbValue.id).Sublist (optionControl.values.map OptionValue.id) ∧
      (optionControl.controlType = .command → values ≠ []) ∨
    optionControl.controlType = .command ∧ values = [⟨"default", translate optionControl.name, 1⟩] ∧
      ∀ value ∈ optionControl.values, findMonitorValue monitorControl value = none

/-- The names of a control's values are names of its option's values, or its own. -/
def NamesFrom (optionControl : OptionControl) (values : List DbValue) : Prop :=
  ∀ value ∈ values, value.name = translate optionControl.name ∨
    ∃ optionValue ∈ optionControl.values, ∃ name, optionValue.name = some name ∧ value.name = translate name

/-- A control is made from an available options control and a control of the profile. -/
structure FromOption (optionControl : OptionControl) (monitorControl : MonitorControl) (control : DbControl) : Prop where
  available : optionControl.unavailable = false
  matched : monitorControl.id = optionControl.id
  id : control.id = optionControl.id
  name : control.name = translate optionControl.name
  address : monitorControlAddress monitorControl = .ok control.address
  controlType : control.controlType = optionControl.controlType
  refresh : control.refresh = optionControl.refresh
  values : ValuesFrom translate optionControl monitorControl control.values
  names : NamesFrom translate optionControl control.values

/-- What the controls of a block can do to a table, one address or one control at a time. -/
inductive Table.Step (options : OptionsDb) (monitorControls : List MonitorControl) : Table → Table → Prop
  /-- An address is suppressed. -/
  | suppress (table : Table) (address : UInt8) : Step options monitorControls table (suppressAddress table address)
  /-- A control is accepted. -/
  | push {table : Table} {groupIndex subgroupIndex : ℕ} {optionControl : OptionControl} {monitorControl : MonitorControl}
      {control : DbControl} :
      (groupIndex, subgroupIndex, optionControl) ∈ options.indexedControls →
      monitorControl ∈ monitorControls →
      FromOption translate optionControl monitorControl control →
      table.caps.isSupported control.address = true →
      table.defined control.address = false →
      Step options monitorControls table (table.push groupIndex subgroupIndex control)

/-- Any number of steps. -/
abbrev Table.Steps (options : OptionsDb) (monitorControls : List MonitorControl) : Table → Table → Prop :=
  Relation.ReflTransGen (Table.Step translate options monitorControls)

/-! ### Values -/

/-- An option value adds its own value, or is not mapped and adds nothing. -/
theorem addValue_eq_ok {optionControl : OptionControl} {monitorControl : MonitorControl}
    {found found' : List DbValue × List Bool} {optionValue : OptionValue}
    (h : addValue translate optionControl monitorControl found optionValue = .ok found') :
    findMonitorValue monitorControl optionValue = none ∧ found' = found ∨
      ∃ monitorValue monitorIndex value16 name,
        findMonitorValue monitorControl optionValue = some (monitorValue, monitorIndex) ∧
        monitorValue16 monitorValue = .ok value16 ∧
        optionValueName optionControl optionValue = .ok name ∧
        found' = (found.1 ++ [⟨optionValue.id, translate name, value16⟩], found.2.set monitorIndex true) := by
  unfold addValue at h
  split at h
  · rename_i hfind
    cases h
    exact .inl ⟨hfind, rfl⟩
  · rename_i monitorValue monitorIndex hfind
    obtain ⟨value16, hvalue, h⟩ := bind_eq_ok.mp h
    obtain ⟨name, hname, h⟩ := bind_eq_ok.mp h
    exact .inr ⟨monitorValue, monitorIndex, value16, name, hfind, hvalue, hname,
      (Except.ok.inj h).symm⟩

/-- The values of a control occur among its option's, in order, and there are none
only where no option value is mapped. -/
theorem getValueList_from {optionControl : OptionControl} {monitorControl : MonitorControl}
    {faulttolerance : Bool} {values : List DbValue}
    (h : getValueList translate optionControl monitorControl faulttolerance = .ok values) :
    (values.map DbValue.id).Sublist (optionControl.values.map OptionValue.id) ∧
      (values = [] → ∀ value ∈ optionControl.values, findMonitorValue monitorControl value = none) := by
  obtain ⟨found, hfound, h⟩ := bind_eq_ok.mp h
  obtain ⟨_, -, h⟩ := bind_eq_ok.mp h
  cases h
  refine foldlM_history (P := fun done found => (found.1.map DbValue.id).Sublist (done.map OptionValue.id) ∧
      (found.1 = [] → ∀ value ∈ done, findMonitorValue monitorControl value = none))
    (fun done value found found' hP hstep => ?_) ⟨List.Sublist.refl _, fun _ => List.forall_mem_nil _⟩ hfound
  obtain ⟨hsub, hnil⟩ := hP
  rw [List.map_append, List.map_singleton]
  rcases addValue_eq_ok translate hstep with ⟨hnone, rfl⟩ | ⟨monitorValue, monitorIndex, value16,
    name, -, -, -, rfl⟩
  · refine ⟨hsub.trans (List.sublist_append_left _ _), fun h => ?_⟩
    exact List.forall_mem_append.mpr ⟨hnil h, List.forall_mem_singleton.mpr hnone⟩
  · refine ⟨?_, fun h => by simp at h⟩
    rw [List.map_append]
    exact hsub.append (List.Sublist.refl _)

/-- A value is named after its option value; a command's may borrow the control's name. -/
theorem optionValueName_eq_ok {optionControl : OptionControl} {optionValue : OptionValue}
    {name : String} (h : optionValueName optionControl optionValue = .ok name) :
    name = optionControl.name ∨ optionValue.name = some name := by
  unfold optionValueName at h
  split at h
  · cases h
    cases optionValue.name with
    | none => exact .inl rfl
    | some name => exact .inr rfl
  · exact .inr (orError_eq_ok.mp h)

theorem getValueList_names {optionControl : OptionControl} {monitorControl : MonitorControl}
    {faulttolerance : Bool} {values : List DbValue}
    (h : getValueList translate optionControl monitorControl faulttolerance = .ok values) :
    NamesFrom translate optionControl values := by
  obtain ⟨found, hfound, h⟩ := bind_eq_ok.mp h
  obtain ⟨_, -, h⟩ := bind_eq_ok.mp h
  cases h
  have hnil : NamesFrom translate optionControl [] := List.forall_mem_nil _
  refine foldlM_preserves (P := fun found => NamesFrom translate optionControl found.1)
    (fun optionValue hmem found found' hP hstep => ?_) hnil hfound
  rcases addValue_eq_ok translate hstep with ⟨-, rfl⟩ | ⟨monitorValue, monitorIndex, value16, name,
    -, -, hname, rfl⟩
  · exact hP
  · intro value hvalue
    rcases List.mem_append.mp hvalue with hvalue | hvalue
    · exact hP value hvalue
    · rw [List.mem_singleton.mp hvalue]
      rcases optionValueName_eq_ok hname with rfl | hsome
      · exact .inl rfl
      · exact .inr ⟨optionValue, hmem, name, hsome, rfl⟩

theorem controlValues_names {optionControl : OptionControl} {monitorControl : MonitorControl}
    {faulttolerance : Bool} {values : List DbValue}
    (h : controlValues translate optionControl monitorControl faulttolerance = .ok values) :
    NamesFrom translate optionControl values := by
  obtain ⟨found, hfound, h⟩ := bind_eq_ok.mp h
  split at h
  · cases h
    intro value hvalue
    rw [List.mem_singleton.mp hvalue]
    exact .inl rfl
  · cases h
    exact getValueList_names translate hfound

theorem controlValues_from {optionControl : OptionControl} {monitorControl : MonitorControl}
    {faulttolerance : Bool} {values : List DbValue}
    (h : controlValues translate optionControl monitorControl faulttolerance = .ok values) :
    ValuesFrom translate optionControl monitorControl values := by
  obtain ⟨found, hfound, h⟩ := bind_eq_ok.mp h
  obtain ⟨hsub, hnil⟩ := getValueList_from translate hfound
  split at h
  · rename_i hcommand
    cases h
    exact .inr ⟨hcommand.1, rfl, hnil hcommand.2⟩
  · rename_i hcommand
    cases h
    exact .inl ⟨hsub, fun htype hnil => hcommand ⟨htype, hnil⟩⟩

theorem matchedControl_from {optionControl : OptionControl} {monitorControl : MonitorControl}
    {address : UInt8} {faulttolerance : Bool} {control : DbControl}
    (hav : optionControl.unavailable = false) (hid : monitorControl.id = optionControl.id)
    (haddress : monitorControlAddress monitorControl = .ok address)
    (h : matchedControl translate optionControl monitorControl address faulttolerance = .ok control) :
    FromOption translate optionControl monitorControl control ∧ control.address = address := by
  obtain ⟨values, hvalues, h⟩ := bind_eq_ok.mp h
  obtain ⟨delay, -, h⟩ := bind_eq_ok.mp h
  cases h
  exact ⟨⟨hav, hid, rfl, rfl, haddress, rfl, rfl, controlValues_from translate hvalues,
    controlValues_names translate hvalues⟩, rfl⟩

/-! ### A `controls` block is steps -/

/-- Reserving a control's address is a step, and a required control's address is reserved. -/
theorem reserveControl_eq_ok {table table' : Table} {control : Node}
    (h : reserveControl table control = .ok table') :
    control.hasRequired = false ∧ table' = table ∨
      control.hasRequired = true ∧ ∃ address, requiredControlAddress control = some address ∧
        table' = suppressAddress table address := by
  unfold reserveControl at h
  split at h
  · rename_i hreq
    obtain ⟨address, haddress, h⟩ := bind_eq_ok.mp h
    exact .inr ⟨hreq, address, orError_eq_ok.mp haddress, (Except.ok.inj h).symm⟩
  · rename_i hreq
    exact .inl ⟨by simpa using hreq, (Except.ok.inj h).symm⟩

/-- A control whose shared definition is unavailable loses its address. -/
theorem blockControl_eq_ok {options : OptionsDb} {state state' : Table × List Bool}
    {monitorControl : MonitorControl} (h : blockControl options state monitorControl = .ok state') :
    options.blocks monitorControl.id = false ∧ state' = state ∨
      options.blocks monitorControl.id = true ∧ ∃ address, monitorControlAddress monitorControl = .ok address ∧
        state' = (suppressAddress state.1 address, state.2.set monitorControl.childIndex true) := by
  unfold blockControl at h
  split at h
  · rename_i hblocks
    split at h
    · cases h
    · rename_i address haddress
      exact .inr ⟨hblocks, address, haddress, (Except.ok.inj h).symm⟩
  · rename_i hblocks
    exact .inl ⟨by simpa using hblocks, (Except.ok.inj h).symm⟩

/-- An options control leaves the table, or has its control pushed. -/
theorem addControl_eq_ok {monitorControls : List MonitorControl} {mode : LoadMode}
    {state state' : Table × List Bool} {groupIndex subgroupIndex : ℕ}
    {optionControl : OptionControl}
    (h : addControl translate monitorControls mode state (groupIndex, subgroupIndex, optionControl) = .ok state') :
    state'.1 = state.1 ∨
      ∃ monitorControl ∈ monitorControls, monitorControl.id = optionControl.id ∧
        monitorControl.unavailable = false ∧
        optionControl.unavailable = false ∧ ∃ address control, monitorControlAddress monitorControl = .ok address ∧
          (mode.validateAll = false → state.1.caps.isSupported address = true ∧ state.1.defined address = false) ∧
          matchedControl translate optionControl monitorControl address mode.faulttolerance = .ok control ∧
          state'.1 = state.1.push groupIndex subgroupIndex control := by
  simp only [addControl] at h
  split at h
  · cases h
    exact .inl rfl
  rename_i monitorControl hfind
  split at h
  · cases h
    exact .inl rfl
  rename_i hunavailable
  obtain ⟨address, haddress, h⟩ := bind_eq_ok.mp h
  split at h
  · cases h
    exact .inl rfl
  rename_i hskip
  obtain ⟨control, hcontrol, h⟩ := bind_eq_ok.mp h
  cases h
  rw [Bool.or_eq_true, not_or, Bool.not_eq_true, Bool.not_eq_true] at hunavailable
  have hid := List.find?_some hfind
  refine .inr ⟨monitorControl, List.mem_of_find?_eq_some hfind, by simpa using hid, hunavailable.1,
    hunavailable.2, address,
    control, haddress, fun hmode => ?_, hcontrol, rfl⟩
  simpa [hmode] using hskip

/-- Adding an options control is at most one step. -/
theorem addControl_steps {options : OptionsDb} {monitorControls : List MonitorControl}
    {mode : LoadMode} (hmode : mode.validateAll = false) {state state' : Table × List Bool}
    {option : ℕ × ℕ × OptionControl} (hoption : option ∈ options.indexedControls)
    (h : addControl translate monitorControls mode state option = .ok state') :
    Table.Steps translate options monitorControls state.1 state'.1 := by
  obtain ⟨groupIndex, subgroupIndex, optionControl⟩ := option
  rcases addControl_eq_ok translate h with h | ⟨_, hmem, hid, -, hav, address, control, haddress,
    hguard, hcontrol, h⟩
  · rw [h]
  · rw [h]
    obtain ⟨hfrom, rfl⟩ := matchedControl_from translate hav hid haddress hcontrol
    exact .single (.push hoption hmem hfrom (hguard hmode).1 (hguard hmode).2)

theorem blockControl_steps {options : OptionsDb} {monitorControls : List MonitorControl}
    {state state' : Table × List Bool} {monitorControl : MonitorControl}
    (h : blockControl options state monitorControl = .ok state') :
    Table.Steps translate options monitorControls state.1 state'.1 := by
  rcases blockControl_eq_ok h with ⟨-, rfl⟩ | ⟨-, address, -, rfl⟩
  · exact .refl
  · exact .single (.suppress _ _)

theorem reserveControl_steps {options : OptionsDb} {monitorControls : List MonitorControl}
    {table table' : Table} {control : Node} (h : reserveControl table control = .ok table') :
    Table.Steps translate options monitorControls table table' := by
  rcases reserveControl_eq_ok h with ⟨-, rfl⟩ | ⟨-, address, -, rfl⟩
  · exact .refl
  · exact .single (.suppress _ _)

/-- A loop of steps is steps. -/
theorem foldlM_steps {α β : Type} {f : β → α → Except DbError β} {options : OptionsDb}
    {monitorControls : List MonitorControl} (view : β → Table) {l : List α}
    (hstep : ∀ a ∈ l, ∀ b b', f b a = .ok b' → Table.Steps translate options monitorControls (view b) (view b'))
    {b b' : β}
    (h : l.foldlM f b = .ok b') : Table.Steps translate options monitorControls (view b)
    (view b') :=
  foldlM_preserves (P := fun c => Table.Steps translate options monitorControls (view b) (view c))
    (fun a ha c c' hc hf => hc.trans (hstep a ha c c' hf)) .refl h

/-- What adding a block's controls has done: the blocking loop, then the matching one. -/
theorem addControlsFromOptions_eq_ok {options : OptionsDb} {monitorControls : ParsedMonitorControls}
    {mode : LoadMode} {table table' : Table}
    (h : addControlsFromOptions translate options monitorControls mode table = .ok table') :
    ∃ blocked added, monitorControls.controls.foldlM (blockControl options)
        (table, monitorControls.elements.map (·.unavailable)) = .ok blocked ∧
      options.indexedControls.foldlM (addControl translate monitorControls.controls mode) blocked = .ok added ∧
      (mode.faulttolerance = false → added.2.all (·) = true) ∧ added.1 = table' := by
  obtain ⟨blocked, hblocked, h⟩ := bind_eq_ok.mp h
  obtain ⟨added, hadded, h⟩ := bind_eq_ok.mp h
  obtain ⟨_, hmatched, h⟩ := bind_eq_ok.mp h
  refine ⟨blocked, added, hblocked, hadded, fun hmode => ?_, Except.ok.inj h⟩
  simpa [hmode] using reject_eq_ok.mp hmatched

/-- What a `controls` block has done: the reserving loop, then its controls. -/
theorem controlsBlock_eq_ok {options : OptionsDb} {mode : LoadMode} {child : Node}
    {table table' : Table} (h : controlsBlock translate options mode child table = .ok table') :
    (∀ node ∈ child.children, node.tag ≠ "control" → node.hasRequired = false) ∧
      ∃ reserved, child.children.foldlM reserveControl table = .ok reserved ∧
        addControlsFromOptions translate options (parseMonitorControls child) mode reserved =
          .ok table' := by
  obtain ⟨_, hreq, h⟩ := bind_eq_ok.mp h
  obtain ⟨reserved, hreserved, h⟩ := bind_eq_ok.mp h
  refine ⟨fun node hn htag => ?_, reserved, hreserved, h⟩
  have := List.any_eq_false.mp (reject_eq_ok.mp hreq) node hn
  simpa [htag] using this

section Ordinary

variable {options : OptionsDb} {mode : LoadMode} (hmode : mode.validateAll = false)
include hmode

theorem addControls_steps {monitorControls : List MonitorControl} {state state' : Table × List Bool}
    (h : options.indexedControls.foldlM (addControl translate monitorControls mode) state = .ok state') :
    Table.Steps translate options monitorControls state.1 state'.1 :=
  foldlM_steps translate Prod.fst (fun _ hoption _ _ h => addControl_steps translate hmode hoption h) h

theorem addControlsFromOptions_steps {monitorControls : ParsedMonitorControls}
    {table table' : Table}
    (h : addControlsFromOptions translate options monitorControls mode table = .ok table') :
    Table.Steps translate options monitorControls.controls table table' := by
  obtain ⟨blocked, added, hblocked, hadded, -, rfl⟩ := addControlsFromOptions_eq_ok translate h
  exact (foldlM_steps translate Prod.fst (fun _ _ _ _ h => blockControl_steps translate h) hblocked).trans
    (addControls_steps translate hmode hadded)

/-- **A `controls` block takes steps**, in the ordinary mode. -/
theorem controlsBlock_steps {child : Node} {table table' : Table}
    (h : controlsBlock translate options mode child table = .ok table') :
    Table.Steps translate options (parseMonitorControls child).controls table table' := by
  obtain ⟨-, reserved, hreserved, h⟩ := controlsBlock_eq_ok translate h
  exact (foldlM_steps translate id (fun _ _ _ _ h => reserveControl_steps translate h) hreserved).trans
    (addControlsFromOptions_steps translate hmode h)

end Ordinary

/-- A `caps` element changes the CAPS alone. -/
theorem capsElement_eq_ok {child : Node} {table table' : Table}
    (h : capsElement child table = .ok table') :
    table' = { table with caps := table'.caps } := by
  have hpatch : ∀ {message edit patch} {table table' : Table}, patchCaps child message edit patch
      table = .ok table' →
      table' = { table with caps := table'.caps } := by
    intro message edit patch table table' h
    unfold patchCaps at h
    split at h
    · cases h
      rfl
    · obtain ⟨caps, -, h⟩ := bind_eq_ok.mp h
      cases h
      rfl
  obtain ⟨_, -, h⟩ := bind_eq_ok.mp h
  obtain ⟨table₁, h₁, h⟩ := bind_eq_ok.mp h
  rw [hpatch h, hpatch h₁]

/-- Steps leave the CAPS alone. -/
theorem Table.Steps.caps {options : OptionsDb} {monitorControls : List MonitorControl}
    {table table' : Table} (h : Table.Steps translate options monitorControls table table') :
    table'.caps = table.caps := by
  induction h with
  | refl => rfl
  | tail _ hstep ih =>
    cases hstep with
    | suppress => exact ih
    | push => exact ih

/-! ### The controls of a tree, step by step -/

/-- Suppressing an address keeps the controls at the others. -/
theorem treeControls_suppress (table : Table) (address : UInt8) :
    treeControls (suppressAddress table address).groups =
      (treeControls table.groups).filter fun control => control.address ≠ address := by
  simp only [treeControls, suppressAddress, DbGroup.suppress, DbSubgroup.suppress, List.flatMap_map,
    List.filter_flatMap]

/-- Pushing a control adds it, at some place. -/
theorem treeControls_push (table : Table) (groupIndex subgroupIndex : ℕ) (control : DbControl) :
    ∃ pre post, treeControls table.groups = pre ++ post ∧
      (treeControls (table.push groupIndex subgroupIndex control).groups = pre ++ post ∨
        treeControls (table.push groupIndex subgroupIndex control).groups = pre ++ control :: post) := by
  have hsub : ∀ (subgroups : List DbSubgroup) (index : ℕ),
      ∃ pre post, (subgroups.flatMap fun subgroup => subgroup.controls) = pre ++ post ∧
        (((subgroups.modify index (·.push control)).flatMap fun subgroup => subgroup.controls) = pre ++ post ∨
          ((subgroups.modify index (·.push control)).flatMap fun subgroup => subgroup.controls) =
            pre ++ control :: post) := by
    intro subgroups
    induction subgroups with
    | nil => exact fun index => ⟨[], [], rfl, .inl (by simp)⟩
    | cons subgroup subgroups ih =>
      intro index
      cases index with
      | zero =>
        exact ⟨subgroup.controls, subgroups.flatMap fun subgroup => subgroup.controls, rfl,
          .inr (by simp [DbSubgroup.push])⟩
      | succ index =>
        obtain ⟨pre, post, heq, h⟩ := ih index
        refine ⟨subgroup.controls ++ pre, post, by simp [heq], ?_⟩
        rcases h with h | h <;> simp [h]
  have hgroups : ∀ (groups : List DbGroup) (index : ℕ),
      ∃ pre post, treeControls groups = pre ++ post ∧
        (treeControls (groups.modify index (·.push subgroupIndex control)) = pre ++ post ∨
          treeControls (groups.modify index (·.push subgroupIndex control)) = pre ++ control :: post) := by
    intro groups
    induction groups with
    | nil => exact fun index => ⟨[], [], rfl, .inl (by simp [treeControls])⟩
    | cons group groups ih =>
      intro index
      cases index with
      | zero =>
        obtain ⟨pre, post, heq, h⟩ := hsub group.subgroups subgroupIndex
        refine ⟨pre, post ++ treeControls groups, by simp [treeControls, heq], ?_⟩
        rcases h with h | h <;> simp [treeControls, DbGroup.push, h]
      | succ index =>
        obtain ⟨pre, post, heq, h⟩ := ih index
        simp only [treeControls] at heq h
        refine ⟨(group.subgroups.flatMap fun subgroup => subgroup.controls) ++ pre,
          post, by simp [treeControls, heq], ?_⟩
        rcases h with h | h <;> simp [treeControls, h]
  exact hgroups table.groups groupIndex

/-- A control after a push is the pushed one, or was there. -/
theorem mem_treeControls_push {table : Table} {groupIndex subgroupIndex : ℕ} {control c : DbControl}
    (h : c ∈ treeControls (table.push groupIndex subgroupIndex control).groups) :
    c = control ∨ c ∈ treeControls table.groups := by
  obtain ⟨pre, post, heq, hpush⟩ := treeControls_push table groupIndex subgroupIndex control
  rw [heq]
  rcases hpush with hpush | hpush <;> rw [hpush] at h
  · exact .inr h
  · simp only [List.mem_append, List.mem_cons] at h ⊢
    tauto

theorem mem_treeControls_suppress {table : Table} {address : UInt8} {c : DbControl} :
    c ∈ treeControls (suppressAddress table address).groups ↔ c ∈ treeControls table.groups ∧
    c.address ≠ address := by
  rw [treeControls_suppress, List.mem_filter, decide_eq_true_eq]

end Translated

end DdcControl.Database
