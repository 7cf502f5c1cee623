import DdcControl.Database.Requirements

/-!
# Loading a monitor

`ddcci_create_db` loads one monitor from the session's context: it scans the profile
for requirements, assembles it over the groups of the options vocabulary and a copy
of the caller's CAPS, drops the groups left empty and allocates the tree. The CAPS
are published with the tree, and only then.

Allocation is taken to succeed; `alloc_monitor` still fails on a text with a NUL byte.
-/

namespace DdcControl.Database

open Capabilities Fallible

section Translated

variable (translate : String → List UInt8)

/-- `groups_from_options`. -/
def groupsFromOptions (options : OptionsDb) : List DbGroup :=
  options.groups.map fun group =>
    ⟨translate group.name, group.subgroups.map fun subgroup => ⟨translate subgroup.name, subgroup.pattern, []⟩⟩

/-- The subgroups of a group that have controls. -/
def DbGroup.prune (group : DbGroup) : DbGroup :=
  { group with subgroups := group.subgroups.filter fun subgroup => subgroup.controls ≠ [] }

/-- `prune_empty_groups`. -/
def pruneEmptyGroups (groups : List DbGroup) : List DbGroup :=
  (groups.map DbGroup.prune).filter fun group => group.subgroups ≠ []

/-- `CMonitorDb`: the tree a load publishes. -/
structure MonitorDb where
  name : List UInt8
  init : InitType
  groups : List DbGroup
  deriving DecidableEq, Repr

/-- The strings of a value that become C strings. -/
def DbValue.texts (value : DbValue) : List (List UInt8) := [utf8 value.id, value.name]

/-- The strings of a control that become C strings. -/
def DbControl.texts (control : DbControl) : List (List UInt8) :=
  utf8 control.id :: control.name :: control.values.flatMap DbValue.texts

/-- The strings of a subgroup that become C strings. -/
def DbSubgroup.texts (subgroup : DbSubgroup) : List (List UInt8) :=
  subgroup.name :: subgroup.pattern.toList.map utf8 ++ subgroup.controls.flatMap DbControl.texts

/-- The strings of a group that become C strings. -/
def DbGroup.texts (group : DbGroup) : List (List UInt8) := group.name :: group.subgroups.flatMap DbSubgroup.texts

/-- The strings of a tree that become C strings. -/
def MonitorDb.texts (monitor : MonitorDb) : List (List UInt8) := monitor.name :: monitor.groups.flatMap DbGroup.texts

/-- `alloc_monitor`: a copy of the build in C strings, which have no NUL byte. -/
def allocMonitor (build : MonitorBuild) (groups : List DbGroup) : Option MonitorDb :=
  let monitor : MonitorDb := ⟨build.name.getD [], build.init, groups⟩
  if monitor.texts.any (·.contains 0) then none else some monitor

/-- The `MonitorBuild` and `defined` a load starts from. -/
def Assembly.start (options : OptionsDb) (caps : Caps) : Assembly :=
  ⟨⟨0, none, .unknown⟩, ⟨groupsFromOptions translate options, caps, fun _ => false⟩⟩

/-- A load of the overridden PNP id is never fault tolerant. -/
def DbContext.tolerates (context : DbContext) (pnpname : String) (faulttolerance : Bool) : Bool :=
  faulttolerance && !context.monitorFile.any fun file => file.pnpid == pnpname

/-- The assembly step of `create_db_inner`. -/
def assemble (context : DbContext) (pnpname : String) (caps : Caps) (faulttolerance : Bool) :
    Except DbError Assembly :=
  createDbProtected translate context ⟨context.tolerates pnpname faulttolerance, false⟩ pnpname 0
    (.start translate context.options caps)

/-- A profile without an init mode is loaded as a standard one, if faults are tolerated. -/
def defaultInit (faulttolerance : Bool) (build : MonitorBuild) : Option MonitorBuild :=
  if build.init = .unknown then
    if faulttolerance then some { build with init := .standard } else none
  else some build

/-- What `create_db_inner` makes of an assembled profile: its tree and its CAPS. -/
def publish (faulttolerance : Bool) (assembly : Assembly) : Option (MonitorDb × Caps) := do
  let build ← defaultInit faulttolerance assembly.build
  let monitor ← allocMonitor build (pruneEmptyGroups assembly.table.groups)
  return (monitor, assembly.table.caps)

/-- The outcome of `ddcci_create_db`: the tree, the caller's CAPS, and the flag
`ddcci_db_requirements_failed` reads. -/
structure Outcome where
  monitor : Option MonitorDb
  caps : Caps
  requirementsFailed : Bool

/-- `ddcci_create_db`, on a C string and CAPS that are not null. -/
def createDb (context : Option DbContext) (pnpname : String) (caps : Caps) (faulttolerance : Bool) : Outcome :=
  match context with
  | none => ⟨none, caps, false⟩
  | some context =>
    let failed := profileHasRequirements context pnpname
    match assemble translate context pnpname caps faulttolerance with
    | .error e => ⟨none, caps, failed || e.requiredFeature⟩
    | .ok assembly =>
      match publish (context.tolerates pnpname faulttolerance) assembly with
      | none => ⟨none, caps, failed⟩
      | some (monitor, caps) => ⟨some monitor, caps, false⟩

/-- A load that returns a tree published an assembled profile. -/
theorem createDb_eq_some {context : DbContext} {pnpname : String} {caps : Caps}
    {faulttolerance : Bool} {monitor : MonitorDb}
    (h : (createDb translate (some context) pnpname caps faulttolerance).monitor = some monitor) :
    ∃ assembly, assemble translate context pnpname caps faulttolerance = .ok assembly ∧
      publish (context.tolerates pnpname faulttolerance) assembly = some (monitor, assembly.table.caps) := by
  simp only [createDb] at h
  split at h
  · cases h
  · rename_i assembly hassembly
    refine ⟨assembly, hassembly, ?_⟩
    split at h
    · cases h
    · rename_i monitor' caps' hpublish
      cases h
      rw [hpublish]
      simp only [publish, Option.bind_eq_bind, Option.bind_eq_some_iff] at hpublish
      obtain ⟨build, -, monitor', -, heq⟩ := hpublish
      cases heq
      rfl

/-- What a published tree is made of. -/
theorem publish_groups {faulttolerance : Bool} {assembly : Assembly}
    {monitor : MonitorDb} {caps : Caps}
    (h : publish faulttolerance assembly = some (monitor, caps)) :
    monitor.groups = pruneEmptyGroups assembly.table.groups := by
  simp only [publish, Option.bind_eq_bind, Option.bind_eq_some_iff] at h
  obtain ⟨build, -, monitor', halloc, heq⟩ := h
  cases heq
  unfold allocMonitor at halloc
  dsimp only at halloc
  split at halloc
  · cases halloc
  · cases halloc
    rfl

/-- Pruning keeps every control. -/
theorem treeControls_prune (groups : List DbGroup) :
    treeControls (pruneEmptyGroups groups) = treeControls groups := by
  induction groups with
  | nil => rfl
  | cons group groups ih =>
    have hsub : ∀ subgroups : List DbSubgroup,
        (subgroups.filter fun subgroup => subgroup.controls ≠ []).flatMap (fun subgroup => subgroup.controls) =
          subgroups.flatMap fun subgroup => subgroup.controls := by
      intro subgroups
      induction subgroups with
      | nil => rfl
      | cons subgroup subgroups ih =>
        by_cases h : subgroup.controls = []
        · simpa [h] using ih
        · simpa [h] using ih
    simp only [treeControls, pruneEmptyGroups, List.map_cons, List.flatMap_cons] at ih ⊢
    rw [← hsub group.subgroups, ← ih]
    by_cases h : group.prune.subgroups = []
    · rw [List.filter_cons_of_neg (by simpa using h)]
      simp only [DbGroup.prune] at h
      rw [h]
      rfl
    · rw [List.filter_cons_of_pos (by simpa using h), List.flatMap_cons]
      rfl

/-- **The requirements-failed flag is the scan's**: a load that fails has set it to
whether a reachable root has requirements, whichever error was reported. -/
theorem createDb_requirementsFailed {context : DbContext} {pnpname : String} {caps : Caps}
    {faulttolerance : Bool}
    (h : (createDb translate (some context) pnpname caps faulttolerance).monitor = none) :
    (createDb translate (some context) pnpname caps faulttolerance).requirementsFailed =
      profileHasRequirements context pnpname := by
  simp only [createDb] at h ⊢
  split
  · rename_i e he
    have herr := (createDbProtected_requiresOnly translate context _ pnpname pnpname 0 _ .refl).error he
    cases hreq : e.requiredFeature with
    | true => rw [herr hreq, Bool.true_or]
    | false => exact Bool.or_false _
  · rename_i assembly hassembly
    rw [hassembly] at h
    split
    · rfl
    · rename_i hpublish
      simp only [hpublish] at h
      cases h

/-- **The requirement scan covers everything assembly can reject.** It ends; it finds
exactly the reachable roots with a requirement; assembly started on the profile fails
over a required feature only where it finds one; and the flag of a failed load is its
answer. -/
theorem requirementScan_covers (context : DbContext) (pnpname : String) :
    (Closure.search context.rootHasRequirements context.successors context.scanFuel [(pnpname, true)] []).isSome = true ∧
    (profileHasRequirements context pnpname = true ↔
      ∃ key root, Included context (pnpname, true) key ∧ context.rootOf key = some root ∧
        HasRequirement context.options root) ∧
    (∀ mode assembly e, createDbProtected translate context mode pnpname 0 assembly = .error e →
      e.requiredFeature = true → profileHasRequirements context pnpname = true) ∧
    ∀ caps faulttolerance, (createDb translate (some context) pnpname caps faulttolerance).monitor = none →
      (createDb translate (some context) pnpname caps faulttolerance).requirementsFailed =
        profileHasRequirements context pnpname :=
  ⟨scan_isSome context pnpname, profileHasRequirements_iff,
    fun mode assembly _ he =>
      (createDbProtected_requiresOnly translate context mode pnpname pnpname 0 assembly .refl).error he,
    fun _ _ h => createDb_requirementsFailed translate h⟩

end Translated

end DdcControl.Database
