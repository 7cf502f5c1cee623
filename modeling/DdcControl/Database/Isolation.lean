import DdcControl.Database.Steps

/-!
# Isolation of unknown required semantics

A profile may mark a control whose meaning this program does not know, and may refer
to an options control that is marked so. Such a control must not be written to: its
VCP address is suppressed, and nothing else of the profile, earlier or later, at any
depth of includes, may publish a control there.

## What is proved

`Suppressed address` — the address is taken and no control is at it — is preserved by
every step of a tree and established by every block that has such a control
(`Suppressed.steps`, `controlsBlock_suppresses`). So it holds of the published tree
for every such control of every reachable profile (`requiredControls_isolated`), and
there is no other place for required semantics in a profile that loads.
-/

namespace DdcControl.Database

open Capabilities Fallible

section Translated

variable (translate : String → List UInt8)

/-- The address is taken, and no control is at it. -/
def Suppressed (address : UInt8) (table : Table) : Prop :=
  table.defined address = true ∧ ∀ control ∈ treeControls table.groups, control.address ≠ address

/-- Suppressing an address suppresses it. -/
theorem suppressed_suppressAddress (table : Table) (address : UInt8) :
    Suppressed address (suppressAddress table address) :=
  ⟨Function.update_self .., fun _ hc => (mem_treeControls_suppress.mp hc).2⟩

/-- A step keeps a suppressed address suppressed: a control is pushed only where
nothing is defined. -/
theorem Suppressed.step {options : OptionsDb} {monitorControls : List MonitorControl}
    {address : UInt8} {table table' : Table} (h : Suppressed address table)
    (hstep : Table.Step translate options monitorControls table table') :
    Suppressed address table' := by
  obtain ⟨hdefined, hfree⟩ := h
  cases hstep with
  | suppress address' =>
    refine ⟨?_, fun c hc => hfree c (mem_treeControls_suppress.mp hc).1⟩
    show Function.update table.defined address' true address = true
    rw [Function.update_apply]
    split
    · rfl
    · exact hdefined
  | @push _ _ _ _ control _ _ _ _ hnew =>
    refine ⟨?_, fun c hc => ?_⟩
    · show Function.update table.defined control.address true address = true
      rw [Function.update_apply]
      split
      · rfl
      · exact hdefined
    · rcases mem_treeControls_push hc with rfl | hc
      · rintro rfl
        rw [hdefined] at hnew
        cases hnew
      · exact hfree c hc

theorem Suppressed.steps {options : OptionsDb} {monitorControls : List MonitorControl}
    {address : UInt8} {table table' : Table} (h : Suppressed address table)
    (hsteps : Table.Steps translate options monitorControls table table') :
    Suppressed address table' := by
  induction hsteps with
  | refl => exact h
  | tail _ hstep ih => exact ih.step translate hstep

/-- An operation keeps a suppressed address suppressed. -/
theorem Suppressed.run {options : OptionsDb} {mode : LoadMode} (hmode : mode.validateAll = false)
    {address : UInt8} {op : Op} {table table' : Table} (h : Suppressed address table)
    (hrun : Op.run translate options mode table op = .ok table') : Suppressed address table' := by
  cases op with
  | caps child => rw [capsElement_eq_ok hrun]; exact h
  | controls child => exact h.steps translate (controlsBlock_steps translate hmode hrun)

/-! ### What a block suppresses -/

/-- The address an assembled control is pushed at is the one its element declares. -/
theorem monitorControlAddress_eq {control : Node} {childIndex : ℕ} {mc : MonitorControl}
    {address : UInt8} (hmc : monitorControl control childIndex = some mc)
    (h : monitorControlAddress mc = .ok address) :
    requiredControlAddress control = some address := by
  simp only [monitorControl] at hmc
  split at hmc
  · cases hmc
  obtain ⟨id, -, rfl⟩ := Option.map_eq_some_iff.mp hmc
  obtain ⟨raw, hraw, h⟩ := bind_eq_ok.mp h
  have hraw : control.attr "address" = some raw := orError_eq_ok.mp hraw
  split at h
  · rename_i value hvalue
    have haddress : u8TryFrom value = some address := orError_eq_ok.mp h
    simp only [requiredControlAddress, hraw, Option.bind_eq_bind, Option.bind_some, hvalue,
      Except.toOption, haddress]
  · cases h

/-- The reserving loop suppresses the address of every required control. -/
theorem reserveControl_suppresses {children : List Node} {control : Node} {table table' : Table}
    (hc : control ∈ children) (hreq : control.hasRequired = true)
    (h : children.foldlM reserveControl table = .ok table') :
    ∃ address, requiredControlAddress control = some address ∧ Suppressed address table' := by
  obtain ⟨pre, post, rfl⟩ := List.append_of_mem hc
  obtain ⟨table₁, table₂, -, hreserve, hpost⟩ := foldlM_split h
  rcases reserveControl_eq_ok hreserve with ⟨hnot, -⟩ | ⟨-, address, haddress, rfl⟩
  · rw [hreq] at hnot
    cases hnot
  · have hsteps : Table.Steps utf8 ⟨[]⟩ [] (suppressAddress table₁ address) table' :=
      foldlM_steps utf8 id (fun _ _ _ _ h => reserveControl_steps utf8 h) hpost
    exact ⟨address, haddress, (suppressed_suppressAddress table₁ address).steps utf8 hsteps⟩

/-- The blocking loop suppresses the address of every control whose shared definition
is unavailable. -/
theorem blockControl_suppresses {options : OptionsDb} {controls : List MonitorControl}
    {mc : MonitorControl} {state state' : Table × List Bool} (hmc : mc ∈ controls)
    (hblocks : options.blocks mc.id = true)
    (h : controls.foldlM (blockControl options) state = .ok state') :
    ∃ address, monitorControlAddress mc = .ok address ∧ Suppressed address state'.1 := by
  obtain ⟨pre, post, rfl⟩ := List.append_of_mem hmc
  obtain ⟨state₁, state₂, -, hblock, hpost⟩ := foldlM_split h
  rcases blockControl_eq_ok hblock with ⟨hnot, -⟩ | ⟨-, address, haddress, rfl⟩
  · rw [hblocks] at hnot
    cases hnot
  · have hsteps : Table.Steps utf8 options [] (suppressAddress state₁.1 address) state'.1 :=
      foldlM_steps utf8 Prod.fst (fun _ _ _ _ h => blockControl_steps utf8 h) hpost
    exact ⟨address, haddress, (suppressed_suppressAddress state₁.1 address).steps utf8 hsteps⟩

/-- **A block suppresses what it must not publish**: the address of each control that
has required semantics, or whose shared definition has. -/
theorem controlsBlock_suppresses {options : OptionsDb} {mode : LoadMode}
    (hmode : mode.validateAll = false) {child control : Node} {table table' : Table}
    (hc : control ∈ child.children)
    (hreq : control.hasRequired = true ∨ options.sharesBlocked control = true)
    (h : controlsBlock translate options mode child table = .ok table') :
    ∃ address, requiredControlAddress control = some address ∧ Suppressed address table' := by
  obtain ⟨-, reserved, hreserved, hadd⟩ := controlsBlock_eq_ok translate h
  rcases hreq with hreq | hshared
  · obtain ⟨address, haddress, hsup⟩ := reserveControl_suppresses hc hreq hreserved
    exact ⟨address, haddress, hsup.steps translate (addControlsFromOptions_steps translate hmode hadd)⟩
  · obtain ⟨blocked, added, hblocked, hadded, -, rfl⟩ := addControlsFromOptions_eq_ok translate hadd
    rw [OptionsDb.sharesBlocked, Bool.and_eq_true, decide_eq_true_eq, Option.any_eq_true] at hshared
    obtain ⟨htag, id, hid, hblocks⟩ := hshared
    obtain ⟨index, hindex⟩ := List.mem_iff_getElem?.mp hc
    obtain ⟨mc, hmc, hmcid⟩ : ∃ mc, monitorControl control index = some mc ∧ mc.id = id := by
      rw [monitorControl, if_neg (not_not_intro htag), hid]
      exact ⟨_, rfl, rfl⟩
    have hmem : mc ∈ (parseMonitorControls child).controls :=
      List.mem_filterMap.mpr ⟨(control, index), List.mk_mem_zipIdx_iff_getElem?.mpr hindex, hmc⟩
    obtain ⟨address, haddress, hsup⟩ := blockControl_suppresses hmem (hmcid ▸ hblocks) hblocked
    exact ⟨address, monitorControlAddress_eq hmc haddress,
      hsup.steps translate (addControls_steps translate hmode hadded)⟩

/-! ### The whole load -/

/-- Where required semantics may stand in a root that is interpreted: below a `control`
of a `controls` block. -/
theorem interpretRoot_required {context : DbContext} {mode : LoadMode}
    {visit : String → Assembly → Except DbError Assembly} {pnpname : String} {root n : Node}
    {assembly assembly' : Assembly}
    (h : interpretRoot translate context mode visit pnpname root assembly = .ok assembly') {position : List ℕ}
    (hn : root.nodeAt position = some n) (hreq : n.required = true) :
    ∃ i child j control below, position = i :: j :: below ∧ root.children[i]? = some child ∧ child.tag = "controls" ∧
      child.children[j]? = some control ∧ control.tag = "control" := by
  obtain ⟨build, walk, hopen, hwalk, -, -⟩ := interpretRoot_eq_ok translate h
  match position with
  | [] =>
    cases hn
    obtain ⟨_, hroot, -⟩ := bind_eq_ok.mp hopen
    rw [reject_eq_ok, hreq] at hroot
    cases hroot
  | i :: position =>
    obtain ⟨child, hi, hn⟩ := Option.bind_eq_some_iff.mp hn
    obtain ⟨pre, post, hsplit⟩ := List.append_of_mem (List.mem_of_getElem? hi)
    rw [hsplit] at hwalk
    obtain ⟨walk₁, walk₂, -, hchild, -⟩ := foldlM_split hwalk
    obtain ⟨hnot, hother, hcase⟩ := profileChild_eq_ok translate hchild
    have hsub : child.hasRequired = true := Node.hasRequired_iff.mpr ⟨n, Node.within_of_nodeAt hn, hreq⟩
    by_cases htag : child.tag = "controls"
    · rw [htag] at hcase
      simp only [String.reduceEq, false_and, true_and, false_or, ne_eq, not_true_eq_false,
        and_false, or_false] at hcase
      obtain ⟨-, table, hblock, -⟩ := hcase
      obtain ⟨hclean, -⟩ := controlsBlock_eq_ok translate hblock
      match position with
      | [] =>
        cases hn
        rw [hreq] at hnot
        cases hnot
      | j :: below =>
        obtain ⟨control, hj, hn⟩ := Option.bind_eq_some_iff.mp hn
        refine ⟨i, child, j, control, below, rfl, hi, htag, hj, ?_⟩
        by_contra hctag
        have := hclean control (List.mem_of_getElem? hj) hctag
        rw [Node.hasRequired_iff.mpr ⟨n, Node.within_of_nodeAt hn, hreq⟩] at this
        cases this
    · rw [hother htag] at hsub
      cases hsub

/-- **Isolation of unknown required semantics.** In a tree that was loaded, no control
is at the address of a `control`, in any profile reachable by includes, that has
required semantics in its subtree or refers to an unavailable options control; and a
reachable profile has required semantics at no other position. -/
theorem requiredControls_isolated {context : DbContext} {pnpname : String} {caps : Caps} {faulttolerance : Bool}
    {monitor : MonitorDb}
    (h : (createDb translate (some context) pnpname caps faulttolerance).monitor = some monitor)
    {key : Key} {root : Node} (hkey : Included context (pnpname, true) key) (hroot : context.rootOf key = some root) :
    (∀ child ∈ root.children, child.tag = "controls" → ∀ control ∈ child.children, control.tag = "control" →
      ((∃ n : Node, n.Within control ∧ n.required = true) ∨
        ∃ shared ∈ context.options.controls, control.attr "id" = some shared.id ∧ shared.unavailable = true) →
      ∃ address, requiredControlAddress control = some address ∧
        ∀ c ∈ treeControls monitor.groups, c.address ≠ address) ∧
    ∀ position n, root.nodeAt position = some n → n.required = true →
      ∃ i child j control below, position = i :: j :: below ∧ root.children[i]? = some child ∧ child.tag = "controls" ∧
        child.children[j]? = some control ∧ control.tag = "control" := by
  obtain ⟨assembly, hload, hpublish⟩ := createDb_eq_some translate h
  obtain ⟨recursionlevel, before, after, hlevel, htop, hvisit, hscript⟩ :=
    createDbProtected_included translate hload hkey
  obtain ⟨build, root', -, -, hroot', hinterpret⟩ := createDbProtected_eq_ok translate hvisit
  rw [← htop, show (key.1, key.2) = key from rfl, hroot, Option.some.injEq] at hroot'
  subst hroot'
  refine ⟨fun child hc htag control hctl hctag hreq => ?_,
    fun position n hn hreq => interpretRoot_required translate hinterpret hn hreq⟩
  have hop : Op.controls child ∈ context.script 16 (pnpname, true) := by
    refine hscript _ ?_
    rw [show 16 - recursionlevel = (15 - recursionlevel) + 1 by omega, DbContext.script, hroot]
    refine List.mem_flatMap.mpr ⟨child, hc, ?_⟩
    rw [if_neg (by rw [htag]; decide), if_neg (by rw [htag]; decide), if_pos htag]
    exact List.mem_singleton_self _
  have hrun := createDbProtected_run translate hload
  obtain ⟨pre, post, hsplit⟩ := List.append_of_mem hop
  rw [Nat.sub_zero, show decide (0 = 0) = true from rfl, hsplit] at hrun
  obtain ⟨table₁, table₂, -, hblock, hpost⟩ := foldlM_split hrun
  have hreq' : control.hasRequired = true ∨ context.options.sharesBlocked control = true := by
    rw [Node.hasRequired_iff]
    refine hreq.imp id ?_
    rintro ⟨shared, hs, hid, hun⟩
    rw [OptionsDb.sharesBlocked, Bool.and_eq_true, decide_eq_true_eq, Option.any_eq_true]
    exact ⟨hctag, shared.id, hid, blocks_iff.mpr ⟨shared, hs, rfl, hun⟩⟩
  obtain ⟨address, haddress, hsup⟩ := controlsBlock_suppresses translate (by rfl) hctl hreq' hblock
  have hfinal : Suppressed address assembly.table :=
    foldlM_preserves (P := Suppressed address) (fun _ _ _ _ hs hrun => hs.run translate (by rfl) hrun) hsup hpost
  refine ⟨address, haddress, ?_⟩
  rw [publish_groups hpublish, treeControls_prune]
  exact hfinal.2

end Translated

/-- A control this program does not know, at address `0x10`. -/
def secretControl : Node := { Node.element "control" [("id", "secret"), ("address", "0x10")] [] with required := true }

/-- The block of a profile with a control it knows and one it does not. -/
def secretControls : Node :=
  .element "controls" [] [secretControl, .element "control" [("id", "brightness"), ("address", "0x12")] []]

/-- The root of that profile; its include maps a known control to the unknown one's address. -/
def secretRoot : Node :=
  .element "monitor" [("name", "Dell"), ("init", "standard")] [secretControls, .element "include" [("file", "LIB")] []]

/-- A database with that profile. -/
def secretContext : DbContext where
  options := ⟨[⟨"Picture", [⟨"Light", none, [⟨false, "brightness", "Brightness", .value, .none, none, []⟩]⟩]⟩]⟩
  profiles := .ofList [("DEL1234", Except.ok secretRoot),
    ("LIB", Except.ok (.element "monitor" [("name", "Library")]
      [.element "controls" [] [.element "control" [("id", "brightness"), ("address", "0x10")] []]]))]
  monitorFile := none

/-- CAPS that support every code. -/
def fullCaps : Caps := ⟨.unknown, fun _ => some ⟨none⟩⟩

theorem secretRoot_isolated :
    ∃ monitor, (createDb utf8 (some secretContext) "DEL1234" fullCaps false).monitor = some monitor ∧
      ∃ address, requiredControlAddress secretControl = some address ∧
        ∀ c ∈ treeControls monitor.groups, c.address ≠ address := by
  have hload : (createDb utf8 (some secretContext) "DEL1234" fullCaps false).monitor.isSome =
      true := by decide +kernel
  obtain ⟨monitor, hmonitor⟩ := Option.isSome_iff_exists.mp hload
  have hroot : secretContext.rootOf ("DEL1234", true) = some secretRoot := by rfl
  refine ⟨monitor, hmonitor, ?_⟩
  refine (requiredControls_isolated utf8 hmonitor .refl hroot).1 secretControls ?_ rfl secretControl ?_ rfl
    (.inl ⟨secretControl, .self, rfl⟩)
  · exact List.mem_cons_self ..
  · exact List.mem_cons_self ..

end DdcControl.Database
