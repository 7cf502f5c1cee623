import DdcControl.Database.Isolation
import Mathlib.Data.List.Nodup

/-!
# Published trees

What is true of every tree a load publishes. `Assembled` is the invariant of a run of
a profile's script: it relates the table to the operations run so far. It holds of the
groups a load starts from, every step of a block keeps it, so every operation does,
and pruning the empty groups of the result leaves a `PublishedTree`.
-/

namespace DdcControl.Database

open Capabilities Fallible

/-- The CAPS after a patch, where it applies. -/
def patched (edit : Edit) (patch : Option String) (caps : Caps) : Caps :=
  (patch.bind fun patch => applyCaps patch caps edit).getD caps

/-- The CAPS after an operation: a `caps` element removes first, then adds. -/
def Op.patch (caps : Caps) : Op → Caps
  | .caps child => patched .add (child.attr "add") (patched .remove (child.attr "remove") caps)
  | .controls _ => caps

/-- The CAPS after a script's patches. -/
def capsAfter (caps : Caps) (ops : List Op) : Caps := ops.foldl Op.patch caps

/-- A control was accepted: in a block of the script that maps its id to its address,
when the CAPS, patched by the operations before it, supported that address. -/
def Accepted (caps : Caps) (ops : List Op) (control : DbControl) : Prop :=
  ∃ pre child post, ops = pre ++ .controls child :: post ∧
    (capsAfter caps pre).isSupported control.address = true ∧
    ∃ monitorControl ∈ (parseMonitorControls child).controls,
      monitorControl.id = control.id ∧ monitorControlAddress monitorControl = .ok control.address

section Translated

variable (translate : String → List UInt8)

/-- A subgroup of a tree is one of the vocabulary's, its controls made from available
options controls of that subgroup. -/
def SubgroupFrom (subgroup : DbSubgroup) (optionSubgroup : OptionSubgroup) : Prop :=
  subgroup.name = translate optionSubgroup.name ∧ subgroup.pattern = optionSubgroup.pattern ∧
    ∀ control ∈ subgroup.controls, ∃ optionControl ∈ optionSubgroup.controls, ∃ monitorControl,
      FromOption translate optionControl monitorControl control

/-- A group of a table is one of the vocabulary's, with all its subgroups. -/
def GroupFrom (group : DbGroup) (optionGroup : OptionGroup) : Prop :=
  group.name = translate optionGroup.name ∧
    List.Forall₂ (SubgroupFrom translate) group.subgroups optionGroup.subgroups

/-- A group of a published tree is one of the vocabulary's, with some of its subgroups
in order. -/
def PrunedGroupFrom (group : DbGroup) (optionGroup : OptionGroup) : Prop :=
  group.name = translate optionGroup.name ∧
    List.SublistForall₂ (SubgroupFrom translate) group.subgroups optionGroup.subgroups

/-- The invariant of a run of a script on a table. -/
structure Assembled (options : OptionsDb) (caps : Caps) (ops : List Op) (table : Table) : Prop where
  distinct : ((treeControls table.groups).map DbControl.address).Nodup
  defined : ∀ control ∈ treeControls table.groups, table.defined control.address = true
  accepted : ∀ control ∈ treeControls table.groups, Accepted caps ops control
  shape : List.Forall₂ (GroupFrom translate) table.groups options.groups

/-- A published tree: distinct addresses, each control accepted, no empty group or
subgroup, and the vocabulary's groups, subgroups, controls and values in its order. -/
structure PublishedTree (options : OptionsDb) (caps : Caps) (ops : List Op) (groups : List DbGroup) : Prop where
  distinct : ((treeControls groups).map DbControl.address).Nodup
  accepted : ∀ control ∈ treeControls groups, Accepted caps ops control
  nonempty : ∀ group ∈ groups, group.subgroups ≠ [] ∧ ∀ subgroup ∈ group.subgroups, subgroup.controls ≠ []
  shape : List.SublistForall₂ (PrunedGroupFrom translate) groups options.groups
  command : ∀ control ∈ treeControls groups, control.controlType = .command → control.values ≠ []

/-! ### The start, and one step -/

theorem treeControls_groupsFromOptions (options : OptionsDb) :
    treeControls (groupsFromOptions translate options) = [] := by
  simp [treeControls, groupsFromOptions]

/-- The groups a load starts from are the vocabulary's, without controls. -/
theorem groupsFromOptions_shape (options : OptionsDb) :
    List.Forall₂ (GroupFrom translate) (groupsFromOptions translate options) options.groups := by
  rw [groupsFromOptions, List.forall₂_map_left_iff, List.forall₂_same]
  refine fun group _ => ⟨rfl, ?_⟩
  rw [List.forall₂_map_left_iff, List.forall₂_same]
  exact fun subgroup _ => ⟨rfl, rfl, List.forall_mem_nil _⟩

theorem assembled_start (options : OptionsDb) (caps : Caps) :
    Assembled translate options caps [] (Assembly.start translate options caps).table where
  distinct := by
    show ((treeControls (groupsFromOptions translate options)).map _).Nodup
    rw [treeControls_groupsFromOptions]
    exact List.nodup_nil
  defined control h := by
    rw [show (Assembly.start translate options caps).table.groups = groupsFromOptions translate options from rfl,
      treeControls_groupsFromOptions] at h
    cases h
  accepted control h := by
    rw [show (Assembly.start translate options caps).table.groups = groupsFromOptions translate options from rfl,
      treeControls_groupsFromOptions] at h
    cases h
  shape := groupsFromOptions_shape translate options

/-- Changing one item of a list keeps it related to another. -/
theorem forall₂_modify {α β : Type*} {R : α → β → Prop} {f : α → α} {l : List α}
    {l' : List β} (i : ℕ) (h : List.Forall₂ R l l')
    (hf : ∀ a b, l'[i]? = some b → R a b → R (f a) b) : List.Forall₂ R (l.modify i f) l' := by
  induction h generalizing i with
  | nil => rw [List.modify_nil]; exact .nil
  | @cons a b l l' hab hl ih =>
    cases i with
    | zero => exact .cons (hf a b rfl hab) hl
    | succ i => exact .cons hab (ih i hf)

/-- Where an indexed options control stands. -/
theorem mem_indexedControls {options : OptionsDb} {groupIndex subgroupIndex : ℕ}
    {optionControl : OptionControl}
    (h : (groupIndex, subgroupIndex, optionControl) ∈ options.indexedControls) :
    ∃ group subgroup, options.groups[groupIndex]? = some group ∧ group.subgroups[subgroupIndex]? = some subgroup ∧
      optionControl ∈ subgroup.controls := by
  simp only [OptionsDb.indexedControls, List.mem_flatMap, List.mem_map, Prod.exists,
    Prod.mk.injEq] at h
  obtain ⟨group, _, hgroup, subgroup, _, hsubgroup, _, hcontrol, rfl, rfl, rfl⟩ := h
  exact ⟨group, subgroup, List.mk_mem_zipIdx_iff_getElem?.mp hgroup,
    List.mk_mem_zipIdx_iff_getElem?.mp hsubgroup, hcontrol⟩

/-- A step keeps every group the vocabulary's. -/
theorem shape_step {options : OptionsDb} {monitorControls : List MonitorControl}
    {table table' : Table} (h : List.Forall₂ (GroupFrom translate) table.groups options.groups)
    (hstep : Table.Step translate options monitorControls table table') :
    List.Forall₂ (GroupFrom translate) table'.groups options.groups := by
  cases hstep with
  | suppress address =>
    show List.Forall₂ _ (table.groups.map _) _
    rw [List.forall₂_map_left_iff]
    refine h.imp fun group optionGroup hgroup => ⟨hgroup.1, ?_⟩
    show List.Forall₂ _ (group.subgroups.map _) _
    rw [List.forall₂_map_left_iff]
    refine hgroup.2.imp fun subgroup optionSubgroup hsub => ⟨hsub.1, hsub.2.1, fun control hc => ?_⟩
    exact hsub.2.2 control (List.mem_of_mem_filter hc)
  | @push groupIndex subgroupIndex optionControl monitorControl control hoption _ hfrom _ _ =>
    obtain ⟨group, subgroup, hgroup, hsubgroup, hmem⟩ := mem_indexedControls hoption
    refine forall₂_modify groupIndex h fun g og hog hg => ⟨hg.1, ?_⟩
    rw [hgroup, Option.some.injEq] at hog
    subst hog
    refine forall₂_modify subgroupIndex hg.2 fun s os hos hs => ⟨hs.1, hs.2.1, fun c hc => ?_⟩
    rw [hsubgroup, Option.some.injEq] at hos
    subst hos
    rcases List.mem_append.mp hc with hc | hc
    · exact hs.2.2 c hc
    · exact ⟨optionControl, hmem, monitorControl, List.mem_singleton.mp hc ▸ hfrom⟩

/-- A step of a block at the end of a script keeps the invariant of the script with
that block, as long as the CAPS are those of the script before it. -/
theorem Assembled.step {options : OptionsDb} {caps : Caps} {pre : List Op} {child : Node}
    {table table' : Table} (h : Assembled translate options caps (pre ++ [.controls child]) table)
    (hcaps : table.caps = capsAfter caps pre)
    (hstep : Table.Step translate options (parseMonitorControls child).controls table table') :
    Assembled translate options caps (pre ++ [.controls child]) table' := by
  have hshape := shape_step translate h.shape hstep
  cases hstep with
  | suppress address =>
    refine ⟨?_, fun c hc => ?_, fun c hc => h.accepted c (mem_treeControls_suppress.mp hc).1,
      hshape⟩
    · rw [treeControls_suppress]
      exact h.distinct.sublist (List.filter_sublist.map _)
    · show Function.update table.defined address true c.address = true
      rw [Function.update_apply]
      split
      · rfl
      · exact h.defined c (mem_treeControls_suppress.mp hc).1
  | @push groupIndex subgroupIndex optionControl monitorControl control _ hmem hfrom hsupported hnew =>
    refine ⟨?_, fun c hc => ?_, fun c hc => ?_, hshape⟩
    · obtain ⟨front, back, heq, hpush⟩ := treeControls_push table groupIndex subgroupIndex control
      have hdistinct := h.distinct
      rw [heq] at hdistinct
      rcases hpush with hpush | hpush <;> rw [hpush]
      · exact hdistinct
      · rw [List.map_append, List.map_cons, List.nodup_middle, ← List.map_append, List.nodup_cons]
        refine ⟨fun hc => ?_, hdistinct⟩
        obtain ⟨c, hc, haddress⟩ := List.mem_map.mp hc
        have := h.defined c (heq ▸ hc)
        rw [haddress, hnew] at this
        cases this
    · show Function.update table.defined control.address true c.address = true
      rw [Function.update_apply]
      split
      · rfl
      · rename_i hne
        rcases mem_treeControls_push hc with rfl | hc
        · exact absurd rfl hne
        · exact h.defined c hc
    · rcases mem_treeControls_push hc with rfl | hc
      · exact ⟨pre, child, [], rfl, hcaps ▸ hsupported, monitorControl, hmem,
          hfrom.matched.trans hfrom.id.symm,
          hfrom.address⟩
      · exact h.accepted c hc

theorem Assembled.steps {options : OptionsDb} {caps : Caps} {pre : List Op} {child : Node}
    {table table' : Table} (h : Assembled translate options caps (pre ++ [.controls child]) table)
    (hcaps : table.caps = capsAfter caps pre)
    (hsteps : Table.Steps translate options (parseMonitorControls child).controls table table') :
    Assembled translate options caps (pre ++ [.controls child]) table' := by
  induction hsteps with
  | refl => exact h
  | tail hsteps hstep ih => exact ih.step translate ((Table.Steps.caps translate hsteps).trans hcaps) hstep

/-! ### One operation, and a whole run -/

theorem Accepted.append {caps : Caps} {ops ops' : List Op} {control : DbControl}
    (h : Accepted caps ops control) :
    Accepted caps (ops ++ ops') control := by
  obtain ⟨pre, child, post, rfl, h⟩ := h
  exact ⟨pre, child, post ++ ops', by simp, h⟩

/-- An operation that succeeds patches the CAPS. -/
theorem run_caps {options : OptionsDb} {mode : LoadMode}
    (hmode : mode.validateAll = false) {op : Op} {table table' : Table}
    (h : Op.run translate options mode table op = .ok table') :
    table'.caps = op.patch table.caps := by
  have hpatch : ∀ {child message edit patch} {table table' : Table}, patchCaps child message edit
      patch table = .ok table' →
      table'.caps = patched edit patch table.caps := by
    intro child message edit patch table table' h
    unfold patchCaps at h
    split at h
    · cases h
      rfl
    · obtain ⟨caps, hcaps, h⟩ := bind_eq_ok.mp h
      cases h
      rw [orError_eq_ok] at hcaps
      simp only [patched, Option.bind_some, hcaps, Option.getD_some]
  cases op with
  | caps child =>
    obtain ⟨_, -, h⟩ := bind_eq_ok.mp h
    obtain ⟨table₁, h₁, h⟩ := bind_eq_ok.mp h
    rw [hpatch h, hpatch h₁]
    rfl
  | controls child => exact Table.Steps.caps translate (controlsBlock_steps translate hmode h)

/-- An operation keeps the invariant, of the script with the operation. -/
theorem Assembled.run {options : OptionsDb} {mode : LoadMode}
    (hmode : mode.validateAll = false) {caps : Caps} {pre : List Op} {op : Op}
    {table table' : Table} (h : Assembled translate options caps pre table)
    (hcaps : table.caps = capsAfter caps pre)
    (hrun : Op.run translate options mode table op = .ok table') :
    Assembled translate options caps (pre ++ [op]) table' := by
  have hlonger : Assembled translate options caps (pre ++ [op]) table :=
    ⟨h.distinct, h.defined, fun c hc => (h.accepted c hc).append, h.shape⟩
  cases op with
  | caps child =>
    rw [capsElement_eq_ok hrun]
    exact ⟨hlonger.distinct, hlonger.defined, hlonger.accepted, hlonger.shape⟩
  | controls child => exact hlonger.steps translate hcaps (controlsBlock_steps translate hmode hrun)

/-- A run of a script keeps the invariant, and patches the CAPS. -/
theorem assembled_run {options : OptionsDb} {mode : LoadMode}
    (hmode : mode.validateAll = false) {caps : Caps} {ops : List Op} {table : Table}
    (h : ops.foldlM (Op.run translate options mode) (Assembly.start translate options caps).table = .ok table) :
    Assembled translate options caps ops table := by
  refine (foldlM_history (P := fun done table => Assembled translate options caps done table ∧
    table.caps = capsAfter caps done) (fun done op table table' hP hrun => ?_)
    ⟨assembled_start translate options caps, rfl⟩ h).1
  refine ⟨hP.1.run translate hmode hP.2 hrun, ?_⟩
  rw [run_caps translate hmode hrun, hP.2, capsAfter, capsAfter, List.foldl_append]
  rfl

/-! ### Pruning -/

/-- Keeping the items of a list that satisfy a test, and changing them, keeps it related
to part of another. -/
theorem sublistForall₂_filter {α β : Type*} {R S : α → β → Prop} {f : α → α} {p : α → Bool}
    {l : List α} {l' : List β} (hR : ∀ a b, R a b → S (f a) b) (h : List.Forall₂ R l l') :
    List.SublistForall₂ S ((l.map f).filter p) l' := by
  induction h with
  | nil => exact .nil
  | @cons a b l l' hab _ ih =>
    rw [List.map_cons, List.filter_cons]
    split
    · exact .cons (hR a b hab) ih
    · exact .cons_right ih

/-- Pruned groups are groups of the vocabulary, in its order. -/
theorem pruneEmptyGroups_shape {options : OptionsDb} {groups : List DbGroup}
    (h : List.Forall₂ (GroupFrom translate) groups options.groups) :
    List.SublistForall₂ (PrunedGroupFrom translate) (pruneEmptyGroups groups) options.groups := by
  refine sublistForall₂_filter (fun group optionGroup hgroup => ⟨hgroup.1, ?_⟩) h
  have := sublistForall₂_filter (S := SubgroupFrom translate) (f := id)
    (p := fun subgroup => subgroup.controls ≠ [])
    (fun _ _ h => h) hgroup.2
  rwa [List.map_id] at this

/-- Pruned groups are not empty. -/
theorem pruneEmptyGroups_nonempty {groups : List DbGroup} :
    ∀ group ∈ pruneEmptyGroups groups, group.subgroups ≠ [] ∧
      ∀ subgroup ∈ group.subgroups, subgroup.controls ≠ [] := by
  intro group hgroup
  obtain ⟨hmem, hne⟩ := List.mem_filter.mp hgroup
  obtain ⟨group', -, rfl⟩ := List.mem_map.mp hmem
  refine ⟨by simpa using hne, fun subgroup hsub => ?_⟩
  simpa using (List.mem_filter.mp hsub).2

/-- A control of a table is made from an available options control. -/
theorem exists_fromOption {options : OptionsDb} {groups : List DbGroup}
    (h : List.Forall₂ (GroupFrom translate) groups options.groups) {control : DbControl}
    (hc : control ∈ treeControls groups) :
    ∃ optionControl monitorControl, FromOption translate optionControl monitorControl control := by
  simp only [treeControls, List.mem_flatMap] at hc
  obtain ⟨group, hgroup, subgroup, hsub, hc⟩ := hc
  obtain ⟨_, -, -, hsubs⟩ := exists_of_forall₂ h hgroup
  obtain ⟨_, -, -, -, hcontrols⟩ := exists_of_forall₂ hsubs hsub
  obtain ⟨optionControl, -, monitorControl, hfrom⟩ := hcontrols control hc
  exact ⟨optionControl, monitorControl, hfrom⟩

/-- A command has a value. -/
theorem FromOption.command_values {optionControl : OptionControl} {monitorControl : MonitorControl}
    {control : DbControl} (h : FromOption translate optionControl monitorControl control)
    (htype : control.controlType = .command) : control.values ≠ [] := by
  rcases h.values with ⟨-, hvalues⟩ | ⟨-, hvalues, -⟩
  · exact hvalues (h.controlType ▸ htype)
  · rw [hvalues]
    exact List.cons_ne_nil _ _

/-- **The invariant of published trees.** A tree that was loaded has controls at
distinct addresses, each accepted when the CAPS supported its address, in non-empty
groups and subgroups of the options vocabulary, with that vocabulary's ids, types,
refresh modes and values, in its order. -/
theorem createDb_publishedTree {context : DbContext} {pnpname : String} {caps : Caps} {faulttolerance : Bool}
    {monitor : MonitorDb}
    (h : (createDb translate (some context) pnpname caps faulttolerance).monitor = some monitor) :
    PublishedTree translate context.options caps (context.script 16 (pnpname, true)) monitor.groups := by
  obtain ⟨assembly, hload, hpublish⟩ := createDb_eq_some translate h
  have hinv := assembled_run translate (by rfl) (createDbProtected_run translate hload)
  rw [publish_groups hpublish]
  refine ⟨?_, ?_, pruneEmptyGroups_nonempty, pruneEmptyGroups_shape translate hinv.shape, ?_⟩
  all_goals rw [treeControls_prune]
  · exact hinv.distinct
  · exact hinv.accepted
  · intro control hc
    obtain ⟨_, _, hfrom⟩ := exists_fromOption translate hinv.shape hc
    exact hfrom.command_values translate

end Translated

theorem secretRoot_publishedTree :
    ∃ monitor, (createDb utf8 (some secretContext) "DEL1234" fullCaps false).monitor = some monitor ∧
      PublishedTree utf8 secretContext.options fullCaps (secretContext.script 16 ("DEL1234", true)) monitor.groups := by
  have hload : (createDb utf8 (some secretContext) "DEL1234" fullCaps false).monitor.isSome =
      true := by decide +kernel
  obtain ⟨monitor, hmonitor⟩ := Option.isSome_iff_exists.mp hload
  exact ⟨monitor, hmonitor, createDb_publishedTree utf8 hmonitor⟩

end DdcControl.Database
