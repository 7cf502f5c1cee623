import DdcControl.Database.Published
import DdcControl.Database.Tolerance
import DdcControl.Database.Validation
import DdcControl.Capabilities.Patching

/-!
# Loading from fewer capabilities

A profile is loaded from the CAPS of each monitor, and tested from CAPS that have every
code. A control is left out where the CAPS do not have its address, and where an earlier
control took it: from fewer codes there are fewer controls, but an address may also be
left to a later control, which the test has never read.

That does not happen where, at every `controls` block, the two loads differ by the same
codes. Then a strict load from the larger CAPS is a test of every load from the smaller
ones.

## What is proved

* `createDbProtected_rerun` — a load that succeeds does so from any table on which its
  script runs.
* `run_restricts` — a script that runs on a table runs on a part of it.
* `createDb_restricts` — if a strict load returns a tree, the load from fewer
  capabilities returns the controls of that tree that it has the addresses of.
-/

namespace DdcControl.Database

open Capabilities Fallible

/-! ### Part of a tree -/

/-- The controls of a subgroup at some addresses. -/
def DbSubgroup.keep (codes : UInt8 → Bool) (subgroup : DbSubgroup) : DbSubgroup :=
  { subgroup with controls := subgroup.controls.filter fun control => codes control.address }

/-- The controls of a group at some addresses. -/
def DbGroup.keep (codes : UInt8 → Bool) (group : DbGroup) : DbGroup :=
  { group with subgroups := group.subgroups.map (·.keep codes) }

/-- The tree with its controls at some addresses, and no group left empty. -/
def MonitorDb.keep (codes : UInt8 → Bool) (monitor : MonitorDb) : MonitorDb :=
  { monitor with groups := pruneEmptyGroups (monitor.groups.map (·.keep codes)) }

theorem suppress_keep (codes : UInt8 → Bool) (address : UInt8) (group : DbGroup) :
    (group.keep codes).suppress address = (group.suppress address).keep codes := by
  simp only [DbGroup.keep, DbGroup.suppress, List.map_map]
  congr 1
  refine List.map_congr_left fun subgroup _ => ?_
  simp only [Function.comp_apply, DbSubgroup.keep, DbSubgroup.suppress, List.filter_filter]
  congr 1
  exact List.filter_congr fun control _ => Bool.and_comm ..

theorem push_keep_sub {codes : UInt8 → Bool} {control : DbControl} (subgroup : DbSubgroup) :
    (subgroup.push control).keep codes =
      if codes control.address then (subgroup.keep codes).push control else subgroup.keep codes := by
  cases hcode : codes control.address <;>
    simp [DbSubgroup.push, DbSubgroup.keep, List.filter_append, hcode]

/-- A control at one of the addresses is pushed to both, another to the larger only. -/
theorem push_keep {codes : UInt8 → Bool} {control : DbControl} (subgroupIndex : ℕ) (group : DbGroup) :
    (group.push subgroupIndex control).keep codes =
      if codes control.address then (group.keep codes).push subgroupIndex control else group.keep codes := by
  have hmap (change : DbSubgroup → DbSubgroup)
      (h : ∀ subgroup : DbSubgroup, (subgroup.push control).keep codes = change (subgroup.keep codes)) :
      (group.subgroups.modify subgroupIndex (·.push control)).map (·.keep codes) =
        (group.subgroups.map (·.keep codes)).modify subgroupIndex change := by
    refine List.ext_getElem? fun i => ?_
    simp only [List.getElem?_map, List.getElem?_modify]
    cases group.subgroups[i]? with
    | none => rfl
    | some subgroup =>
      by_cases hi : subgroupIndex = i
      · simp [hi, h]
      · simp [hi]
  unfold DbGroup.push DbGroup.keep
  cases hcode : codes control.address with
  | true =>
    rw [hmap (·.push control) fun subgroup => by rw [push_keep_sub, hcode, if_pos rfl], if_pos rfl]
  | false =>
    rw [hmap id fun subgroup => by rw [push_keep_sub, hcode]; rfl, List.modify_id]
    rfl

/-- What is pruned of part of a tree, is pruned of part of the pruned tree. -/
theorem prune_keep (codes : UInt8 → Bool) (groups : List DbGroup) :
    pruneEmptyGroups ((pruneEmptyGroups groups).map (·.keep codes)) = pruneEmptyGroups (groups.map (·.keep codes)) := by
  have hsub : ∀ subgroups : List DbSubgroup,
      ((subgroups.filter fun subgroup => subgroup.controls ≠ []).map (·.keep codes)).filter (fun subgroup => subgroup.controls ≠ []) =
        (subgroups.map (·.keep codes)).filter fun subgroup => subgroup.controls ≠ [] := by
    intro subgroups
    rw [List.filter_map, List.filter_map, List.filter_filter]
    congr 1
    refine List.filter_congr fun subgroup _ => ?_
    cases hnil : subgroup.controls <;> simp [DbSubgroup.keep, hnil]
  have hgroup : ∀ group : DbGroup, (group.prune.keep codes).prune = (group.keep codes).prune := by
    intro group
    simp only [DbGroup.prune, DbGroup.keep]
    rw [hsub]
  have hempty : ∀ group : DbGroup, group.prune.subgroups = [] → (group.keep codes).prune.subgroups = [] := by
    intro group hnil
    rw [← hgroup, DbGroup.prune, DbGroup.keep, hnil]
    rfl
  induction groups with
  | nil => rfl
  | cons group groups ih =>
    unfold pruneEmptyGroups at ih ⊢
    simp only [List.map_cons] at ih ⊢
    by_cases hnil : group.prune.subgroups = []
    · rw [List.filter_cons_of_neg (by simpa using hnil), ih,
        List.filter_cons_of_neg (by simpa using hempty group hnil)]
    · rw [List.filter_cons_of_pos (by simpa using hnil), List.map_cons, List.map_cons, hgroup,
        List.filter_cons, List.filter_cons, ih]

/-! ### Running a script again -/

section Translated

variable (translate : String → List UInt8)

/-- A loop whose passes each run a script on a part of their state can be run again, where
the scripts run on another part. -/
theorem foldlM_rerun {ε β γ α ω : Type} {step : β → α → Except ε β} {run : γ → ω → Except ε γ}
    (put : γ → β → β) (script : α → List ω) {l : List α}
    (hstep : ∀ a ∈ l, ∀ b b', step b a = .ok b' → ∀ c c', (script a).foldlM run c = .ok c' →
      step (put c b) a = .ok (put c' b'))
    {b b' : β} (h : l.foldlM step b = .ok b') {c c' : γ} (hrun : (l.flatMap script).foldlM run c = .ok c') :
    l.foldlM step (put c b) = .ok (put c' b') := by
  induction l generalizing b c with
  | nil =>
    cases h
    cases hrun
    rfl
  | cons a l ih =>
    rw [List.foldlM_cons] at h ⊢
    obtain ⟨b₁, hb, h⟩ := bind_eq_ok.mp h
    rw [List.flatMap_cons, List.foldlM_append] at hrun
    obtain ⟨c₁, hc, hrun⟩ := bind_eq_ok.mp hrun
    rw [hstep a List.mem_cons_self b b₁ hb c c₁ hc]
    exact ih (fun a' ha' => hstep a' (List.mem_cons_of_mem _ ha')) h hrun

/-- A load, on another table. -/
def Assembly.on (table : Table) (assembly : Assembly) : Assembly := { assembly with table := table }

/-- A walk over the children of a root, on another table. -/
def Walk.on (table : Table) (walk : Walk) : Walk := { walk with assembly := walk.assembly.on table }

/-- A child of a root succeeds on any table on which its part of the script runs. -/
theorem profileChild_rerun {context : DbContext} {mode : LoadMode} {depth : ℕ}
    {visit : String → Assembly → Except DbError Assembly}
    (hvisit : ∀ file assembly assembly', visit file assembly = .ok assembly' → ∀ table table',
      (context.script depth (file, false)).foldlM (Op.run translate context.options mode) table = .ok table' →
      visit file (assembly.on table) = .ok (assembly'.on table'))
    {child : Node} {walk walk' : Walk} (h : profileChild translate context mode visit walk child = .ok walk')
    {table table' : Table}
    (hrun : (if child.tag = "caps" then [Op.caps child]
      else if child.tag = "include" then (child.attr "file").toList.flatMap fun file => context.script depth (file, false)
      else if child.tag = "controls" then [.controls child]
      else []).foldlM (Op.run translate context.options mode) table = .ok table') :
    profileChild translate context mode visit (walk.on table) child = .ok (walk'.on table') := by
  have hrequired : reject (ε := DbError) (child.required || (child.tag ≠ "controls" && child.hasRequired))
      (.required (nodeError child "Profile operation requires an unsupported feature.")) = .ok () := by
    rw [profileChild] at h
    obtain ⟨_, hrequired, -⟩ := bind_eq_ok.mp h
    exact hrequired
  obtain ⟨-, -, hcase⟩ := profileChild_eq_ok translate h
  rw [profileChild, hrequired, ok_bind]
  rcases hcase with ⟨htag, _, -, rfl⟩ | ⟨htag, file, assembly, hfile, hassembly, rfl⟩ |
    ⟨htag, hseen, _, -, rfl⟩ | ⟨hcaps, hinclude, hcontrols, hmode, rfl⟩
  · rw [if_pos htag, List.foldlM_cons] at hrun
    rw [if_pos htag]
    obtain ⟨_, hop, hrun⟩ := bind_eq_ok.mp hrun
    cases hrun
    exact bind_eq_ok.mpr ⟨_, hop, rfl⟩
  · rw [if_neg (by rw [htag]; decide), if_pos htag, hfile, Option.toList_some, List.flatMap_singleton] at hrun
    rw [if_neg (by rw [htag]; decide), if_pos htag]
    have hattr : (requiredAttr child "file").mapError DbError.new = .ok file := by
      rw [requiredAttr, mapError_orError, orError_eq_ok, hfile]
    rw [hattr, ok_bind]
    exact bind_eq_ok.mpr ⟨_, hvisit file _ _ hassembly _ _ hrun, rfl⟩
  · rw [if_neg (by rw [htag]; decide), if_neg (by rw [htag]; decide), if_pos htag, List.foldlM_cons] at hrun
    rw [if_neg (by rw [htag]; decide), if_neg (by rw [htag]; decide), if_pos htag]
    obtain ⟨_, hop, hrun⟩ := bind_eq_ok.mp hrun
    cases hrun
    exact bind_eq_ok.mpr ⟨(), reject_eq_ok.mpr hseen, bind_eq_ok.mpr ⟨_, hop, rfl⟩⟩
  · rw [if_neg hcaps, if_neg hinclude, if_neg hcontrols] at hrun
    cases hrun
    rw [if_neg hcaps, if_neg hinclude, if_neg hcontrols]
    exact bind_eq_ok.mpr ⟨(), reject_eq_ok.mpr hmode, rfl⟩

/-- **A load that succeeds does so on any table on which its script runs.** -/
theorem createDbProtected_rerun {context : DbContext} {mode : LoadMode} {pnpname : String} {recursionlevel : ℕ}
    {assembly assembly' : Assembly}
    (h : createDbProtected translate context mode pnpname recursionlevel assembly = .ok assembly') {table table' : Table}
    (hrun : (context.script (16 - recursionlevel) (pnpname, recursionlevel = 0)).foldlM
      (Op.run translate context.options mode) table = .ok table') :
    createDbProtected translate context mode pnpname recursionlevel (assembly.on table) = .ok (assembly'.on table') := by
  induction pnpname, recursionlevel, assembly using createDbProtected.induct generalizing assembly' table table' with
  | case1 pnpname recursionlevel assembly ih =>
    rw [createDbProtected] at h ⊢
    obtain ⟨build, hbuild, h⟩ := bind_eq_ok.mp h
    rw [show (assembly.on table).build = assembly.build from rfl, hbuild]
    show (if _h : 15 < recursionlevel then _ else _) = _
    split at h
    · cases h
    · rename_i hlevel
      rw [dif_neg hlevel]
      obtain ⟨root, hroot, h⟩ := bind_eq_ok.mp h
      rw [hroot, ok_bind]
      obtain ⟨build', walk, hopen, hwalk, hfound, rfl⟩ := interpretRoot_eq_ok translate h
      rw [show 16 - recursionlevel = (16 - (recursionlevel + 1)) + 1 by omega, DbContext.script,
        rootOf_of_resolve hroot] at hrun
      have hchildren : ∀ child ∈ root.children, ∀ walk walk' : Walk,
          profileChild translate context mode (fun file assembly =>
            createDbProtected translate context mode file (recursionlevel + 1) assembly) walk child = .ok walk' →
          ∀ table table', (if child.tag = "caps" then [Op.caps child]
            else if child.tag = "include" then (child.attr "file").toList.flatMap fun file =>
              context.script (16 - (recursionlevel + 1)) (file, false)
            else if child.tag = "controls" then [.controls child]
            else []).foldlM (Op.run translate context.options mode) table = .ok table' →
          profileChild translate context mode (fun file assembly =>
            createDbProtected translate context mode file (recursionlevel + 1) assembly) (walk.on table) child =
              .ok (walk'.on table') := by
        intro child _ walk walk' hchild table table' hops
        refine profileChild_rerun translate (fun file assembly assembly' hvisit table table' hops => ?_) hchild hops
        exact ih hlevel file assembly hvisit (by simpa using hops)
      have hwalk' := foldlM_rerun Walk.on _ hchildren hwalk hrun
      refine bind_eq_ok.mpr ⟨build', hopen, bind_eq_ok.mpr ⟨_, hwalk', ?_⟩⟩
      rw [show (Walk.on table' walk).controlsOrInclude = true from hfound]
      rfl

/-! ### One block -/

/-- A table is another one at some addresses: of its groups, and of what is in use. -/
structure Restricts (codes : UInt8 → Bool) (table table' : Table) : Prop where
  groups : table'.groups = table.groups.map (·.keep codes)
  defined : ∀ address, codes address = true → table'.defined address = table.defined address

/-- The CAPS of a table have the codes of the other's that are among these. -/
def SupportsOf (codes : UInt8 → Bool) (table table' : Table) : Prop :=
  ∀ address, table'.caps.isSupported address = (table.caps.isSupported address && codes address)

/-- Both, and the same controls are marked. -/
def RestrictsMarked (codes : UInt8 → Bool) (state state' : Table × List Bool) : Prop :=
  Restricts codes state.1 state'.1 ∧ SupportsOf codes state.1 state'.1 ∧ state.2 = state'.2

variable {codes : UInt8 → Bool}

theorem Restricts.suppress {table table' : Table} (h : Restricts codes table table') (address : UInt8) :
    Restricts codes (suppressAddress table address) (suppressAddress table' address) where
  groups := by
    simp only [suppressAddress, h.groups, List.map_map]
    exact List.map_congr_left fun group _ => suppress_keep codes address group
  defined a ha := by
    simp only [suppressAddress, Function.update_apply, h.defined a ha]

/-- A control at an address that both have is pushed to both. -/
theorem Restricts.push {table table' : Table} (h : Restricts codes table table') (groupIndex subgroupIndex : ℕ)
    {control : DbControl} (hcode : codes control.address = true) :
    Restricts codes (table.push groupIndex subgroupIndex control) (table'.push groupIndex subgroupIndex control) where
  groups := by
    refine List.ext_getElem? fun i => ?_
    simp only [Table.push, h.groups, List.getElem?_map, List.getElem?_modify]
    cases table.groups[i]? with
    | none => rfl
    | some group =>
      by_cases hi : groupIndex = i
      · simp [hi, push_keep, hcode]
      · simp [hi]
  defined a ha := by
    simp only [Table.push, Function.update_apply, h.defined a ha]

/-- A control at another address is pushed to the larger alone. -/
theorem Restricts.push_other {table table' : Table} (h : Restricts codes table table') (groupIndex subgroupIndex : ℕ)
    {control : DbControl} (hcode : codes control.address = false) :
    Restricts codes (table.push groupIndex subgroupIndex control) table' where
  groups := by
    refine List.ext_getElem? fun i => ?_
    simp only [Table.push, h.groups, List.getElem?_map, List.getElem?_modify]
    cases table.groups[i]? with
    | none => rfl
    | some group =>
      by_cases hi : groupIndex = i
      · simp [hi, push_keep, hcode]
      · simp [hi]
  defined a ha := by
    have hne : a ≠ control.address := by
      rintro rfl
      rw [hcode] at ha
      cases ha
    simp only [Table.push, Function.update_of_ne hne, h.defined a ha]

theorem reserveControl_restricts {table table' : Table} (h : Restricts codes table table')
    (hsupported : SupportsOf codes table table') (control : Node) :
    Simulates (reserveControl table control) (reserveControl table' control)
      fun table table' => Restricts codes table table' ∧ SupportsOf codes table table' := by
  unfold reserveControl
  split
  · exact Simulates.common fun address => .pure ⟨h.suppress address, hsupported⟩
  · exact .pure ⟨h, hsupported⟩

theorem blockControl_restricts {options : OptionsDb} {state state' : Table × List Bool}
    (h : RestrictsMarked codes state state') (monitorControl : MonitorControl) :
    Simulates (blockControl options state monitorControl) (blockControl options state' monitorControl)
      (RestrictsMarked codes) := by
  obtain ⟨htable, hsupported, hmarks⟩ := h
  unfold blockControl
  split
  · split
    · exact .error
    · rename_i address _
      exact .pure ⟨htable.suppress address, hsupported, by rw [hmarks]⟩
  · exact .pure ⟨htable, hsupported, hmarks⟩

theorem matchedControl_address {optionControl : OptionControl} {monitorControl : MonitorControl} {address : UInt8}
    {faulttolerance : Bool} {control : DbControl}
    (h : matchedControl translate optionControl monitorControl address faulttolerance = .ok control) :
    control.address = address := by
  obtain ⟨_, -, h⟩ := bind_eq_ok.mp h
  obtain ⟨_, -, h⟩ := bind_eq_ok.mp h
  cases h
  rfl

/-- **A control is in the part if it has its address**: where the load of the whole leaves
it out, so does that of the part. -/
theorem addControl_restricts {monitorControls : List MonitorControl} {faulttolerance : Bool}
    {state state' : Table × List Bool} (h : RestrictsMarked codes state state') (option : ℕ × ℕ × OptionControl) :
    Simulates (addControl translate monitorControls ⟨faulttolerance, false⟩ state option)
      (addControl translate monitorControls ⟨faulttolerance, false⟩ state' option) (RestrictsMarked codes) := by
  obtain ⟨groupIndex, subgroupIndex, optionControl⟩ := option
  obtain ⟨htable, hsupported, hmarks⟩ := h
  simp only [addControl]
  split
  · exact .pure ⟨htable, hsupported, hmarks⟩
  rename_i monitorControl _
  rw [← hmarks]
  split
  · exact .pure ⟨htable, hsupported, rfl⟩
  refine Simulates.common fun address => ?_
  rw [hsupported address]
  by_cases hcode : codes address = true
  · rw [hcode, Bool.and_true, htable.defined address hcode]
    split
    · exact .pure ⟨htable, hsupported, rfl⟩
    · intro pushed hok
      obtain ⟨control, hcontrol, hok⟩ := bind_eq_ok.mp hok
      cases hok
      have haddress := matchedControl_address translate hcontrol
      exact ⟨_, bind_eq_ok.mpr ⟨control, hcontrol, rfl⟩,
        htable.push groupIndex subgroupIndex (by rw [haddress, hcode]), hsupported, rfl⟩
  · rw [Bool.not_eq_true] at hcode
    rw [hcode, Bool.and_false]
    simp only [Bool.not_false, Bool.true_or, Bool.and_true, if_true]
    split
    · exact .pure ⟨htable, hsupported, rfl⟩
    · intro pushed hok
      obtain ⟨control, hcontrol, hok⟩ := bind_eq_ok.mp hok
      cases hok
      have haddress := matchedControl_address translate hcontrol
      exact ⟨_, rfl, htable.push_other groupIndex subgroupIndex (by rw [haddress, hcode]), hsupported, rfl⟩

theorem addControlsFromOptions_restricts (options : OptionsDb) (monitorControls : ParsedMonitorControls)
    {faulttolerance : Bool} {table table' : Table} (h : Restricts codes table table')
    (hsupported : SupportsOf codes table table') :
    Simulates (addControlsFromOptions translate options monitorControls ⟨faulttolerance, false⟩ table)
      (addControlsFromOptions translate options monitorControls ⟨faulttolerance, false⟩ table') (Restricts codes) := by
  have hblock := Simulates.foldlM (f := blockControl options) (g := blockControl options) (R := RestrictsMarked codes)
    (l := monitorControls.controls) (b := (table, monitorControls.elements.map MonitorElement.unavailable))
    (c := (table', monitorControls.elements.map MonitorElement.unavailable))
    (fun control _ _ _ h => blockControl_restricts h control) ⟨h, hsupported, rfl⟩
  refine hblock.bind fun blocked blocked' hblocked => ?_
  have hadd := Simulates.foldlM (f := addControl translate monitorControls.controls ⟨faulttolerance, false⟩)
    (g := addControl translate monitorControls.controls ⟨faulttolerance, false⟩) (R := RestrictsMarked codes)
    (l := options.indexedControls) (fun option _ _ _ h => addControl_restricts translate h option) hblocked
  refine hadd.bind fun added added' hadded => ?_
  rw [← hadded.2.2]
  exact Simulates.common fun _ => .pure hadded.1

/-- **A block that runs on a table runs on a part of it.** -/
theorem controlsBlock_restricts (options : OptionsDb) (child : Node) {faulttolerance : Bool} {table table' : Table}
    (h : Restricts codes table table') (hsupported : SupportsOf codes table table') :
    Simulates (controlsBlock translate options ⟨faulttolerance, false⟩ child table)
      (controlsBlock translate options ⟨faulttolerance, false⟩ child table') (Restricts codes) := by
  refine Simulates.common fun _ => ?_
  refine (Simulates.foldlM (R := fun table table' => Restricts codes table table' ∧ SupportsOf codes table table')
    (fun control _ table table' h => reserveControl_restricts h.1 h.2 control) ⟨h, hsupported⟩).bind fun _ _ h => ?_
  exact addControlsFromOptions_restricts translate options (parseMonitorControls child) h.1 h.2

/-! ### A script -/

/-- At every block of a script, the CAPS have the codes of the other's that are among
these. -/
def Narrows (codes : UInt8 → Bool) (wide narrow : Caps) (ops : List Op) : Prop :=
  ∀ pre child post, ops = pre ++ Op.controls child :: post → ∀ address,
    (capsAfter narrow pre).isSupported address = ((capsAfter wide pre).isSupported address && codes address)

theorem capsElement_restricts {child : Node} {table table' : Table} (h : Restricts codes table table') :
    Simulates (capsElement child table) (capsElement child table') (Restricts codes) := by
  intro after hrun
  obtain ⟨after', hrun', -⟩ := capsElement_succeeds child table table' after hrun
  refine ⟨after', hrun', ?_⟩
  rw [capsElement_eq_ok hrun, capsElement_eq_ok hrun']
  exact ⟨h.groups, h.defined⟩

/-- **A script that runs on a table runs on a part of it**, where it narrows the CAPS. -/
theorem run_restricts {options : OptionsDb} {faulttolerance : Bool} {wide narrow : Caps} {ops : List Op}
    (hnarrows : Narrows codes wide narrow ops) {table after table' : Table} (h : Restricts codes table table')
    (hwide : table.caps = wide) (hnarrow : table'.caps = narrow)
    (hrun : ops.foldlM (Op.run translate options ⟨faulttolerance, false⟩) table = .ok after) :
    ∃ after', ops.foldlM (Op.run translate options ⟨faulttolerance, false⟩) table' = .ok after' ∧
      Restricts codes after after' := by
  induction ops generalizing table table' wide narrow with
  | nil =>
    cases hrun
    exact ⟨table', rfl, h⟩
  | cons op ops ih =>
    rw [List.foldlM_cons] at hrun
    obtain ⟨next, hop, hrun⟩ := bind_eq_ok.mp hrun
    have hsimulates : Simulates (Op.run translate options ⟨faulttolerance, false⟩ table op)
        (Op.run translate options ⟨faulttolerance, false⟩ table' op) (Restricts codes) := by
      cases op with
      | caps child => exact capsElement_restricts h
      | controls child =>
        refine controlsBlock_restricts translate options child h fun address => ?_
        rw [hwide, hnarrow]
        exact hnarrows [] child ops rfl address
    obtain ⟨next', hop', hnext⟩ := hsimulates next hop
    have hnarrows' : Narrows codes (op.patch wide) (op.patch narrow) ops := fun pre child post hops =>
      hnarrows (op :: pre) child post (by rw [hops]; rfl)
    obtain ⟨after', hrun', hafter⟩ := ih hnarrows' hnext (by rw [run_caps translate rfl hop, hwide])
      (by rw [run_caps translate rfl hop', hnarrow]) hrun
    exact ⟨after', by rw [List.foldlM_cons]; exact bind_eq_ok.mpr ⟨next', hop', hrun'⟩, hafter⟩

/-! ### A load -/

/-- Part of a tree has no text that the tree has not. -/
theorem texts_keep {monitor : MonitorDb} {text : List UInt8} (h : text ∈ (monitor.keep codes).texts) :
    text ∈ monitor.texts := by
  rcases List.mem_cons.mp h with rfl | h
  · exact List.mem_cons_self
  obtain ⟨pruned, hpruned, h⟩ := List.mem_flatMap.mp h
  obtain ⟨kept, hkept, rfl⟩ := List.mem_map.mp (List.mem_of_mem_filter hpruned)
  obtain ⟨group, hgroup, rfl⟩ := List.mem_map.mp hkept
  refine List.mem_cons_of_mem _ (List.mem_flatMap.mpr ⟨group, hgroup, ?_⟩)
  rcases List.mem_cons.mp h with rfl | h
  · exact List.mem_cons_self
  obtain ⟨kept, hkept, h⟩ := List.mem_flatMap.mp h
  obtain ⟨subgroup, hsubgroup, rfl⟩ := List.mem_map.mp (List.mem_of_mem_filter hkept)
  refine List.mem_cons_of_mem _ (List.mem_flatMap.mpr ⟨subgroup, hsubgroup, ?_⟩)
  unfold DbSubgroup.texts at h ⊢
  rcases List.mem_append.mp h with h | h
  · exact List.mem_append_left _ h
  obtain ⟨control, hcontrol, h⟩ := List.mem_flatMap.mp h
  exact List.mem_append_right _ (List.mem_flatMap.mpr ⟨control, List.mem_of_mem_filter hcontrol, h⟩)

theorem allocMonitor_keep {build : MonitorBuild} {groups : List DbGroup} {monitor : MonitorDb}
    (h : allocMonitor build (pruneEmptyGroups groups) = some monitor) (codes : UInt8 → Bool) :
    allocMonitor build (pruneEmptyGroups (groups.map (·.keep codes))) = some (monitor.keep codes) := by
  unfold allocMonitor at h ⊢
  dsimp only at h ⊢
  split at h
  · cases h
  · rename_i hnul
    cases h
    rw [← prune_keep, if_neg]
    · rfl
    · intro hnul'
      obtain ⟨text, htext, hzero⟩ := List.any_eq_true.mp hnul'
      exact hnul (List.any_eq_true.mpr ⟨text, texts_keep htext, hzero⟩)

theorem publish_keep {faulttolerance : Bool} {assembly assembly' : Assembly} {monitor : MonitorDb} {caps : Caps}
    (h : publish faulttolerance assembly = some (monitor, caps)) (hbuild : assembly'.build = assembly.build)
    (hgroups : assembly'.table.groups = assembly.table.groups.map (·.keep codes)) :
    publish faulttolerance assembly' = some (monitor.keep codes, assembly'.table.caps) := by
  obtain ⟨build, hinit, h⟩ := Option.bind_eq_some_iff.mp h
  obtain ⟨monitor', halloc, h⟩ := Option.bind_eq_some_iff.mp h
  cases h
  refine Option.bind_eq_some_iff.mpr ⟨build, by rw [hbuild, hinit], Option.bind_eq_some_iff.mpr ⟨_, ?_, rfl⟩⟩
  rw [hgroups]
  exact allocMonitor_keep halloc codes

/-- **The load from fewer capabilities.** If a strict load returns a tree, and at every
block of the profile's script other CAPS have those codes of its CAPS that are among
these, then every load from them, with or without fault tolerance, returns the tree with
its controls at these. -/
theorem createDb_restricts {context : DbContext} {pnpname : String} {wide narrow : Caps} {monitor : MonitorDb}
    (h : (createDb translate (some context) pnpname wide false).monitor = some monitor)
    (hnarrows : Narrows codes wide narrow (context.script 16 (pnpname, true))) (faulttolerance : Bool) :
    (createDb translate (some context) pnpname narrow faulttolerance).monitor = some (monitor.keep codes) := by
  have hstrict : (createDb translate (some context) pnpname narrow false).monitor = some (monitor.keep codes) := by
    obtain ⟨assembly, hload, hpublish⟩ := createDb_eq_some translate h
    have hstart : Restricts codes (Assembly.start translate context.options wide).table
        (Assembly.start translate context.options narrow).table := by
      refine ⟨?_, fun _ _ => rfl⟩
      simp [Assembly.start, groupsFromOptions, DbGroup.keep, DbSubgroup.keep, Function.comp_def]
    obtain ⟨table, hrun, hrestricts⟩ := run_restricts translate hnarrows hstart rfl rfl
      (createDbProtected_run translate hload)
    have hload' : assemble translate context pnpname narrow false = .ok (assembly.on table) :=
      createDbProtected_rerun translate hload hrun
    have hpublish' : publish (context.tolerates pnpname false) (assembly.on table) = some (monitor.keep codes, table.caps) :=
      publish_keep hpublish rfl hrestricts.groups
    simp only [createDb, hload', hpublish']
  cases faulttolerance with
  | false => exact hstrict
  | true => exact ((createDb_tolerates translate (some context) pnpname narrow).1 _ hstrict).1

end Translated

/-- CAPS with a code of the profile, and one that it has not. -/
def someCaps : Caps := ⟨.lcd, fun code => if code = 0x12 ∨ code = 0x60 then some ⟨some [1]⟩ else none⟩

theorem secretContext_restricts : ∃ monitor,
    (createDb utf8 (some secretContext) "DEL1234" fullCaps false).monitor = some monitor ∧
      (createDb utf8 (some secretContext) "DEL1234" someCaps true).monitor = some (monitor.keep someCaps.isSupported) := by
  have hload : (createDb utf8 (some secretContext) "DEL1234" fullCaps false).monitor.isSome = true := by decide +kernel
  obtain ⟨monitor, hmonitor⟩ := Option.isSome_iff_exists.mp hload
  refine ⟨monitor, hmonitor, createDb_restricts utf8 hmonitor (fun pre child post hops address => ?_) true⟩
  have hblocks : ∀ op ∈ pre, ∃ child, op = Op.controls child := by
    obtain ⟨child', hscript⟩ : ∃ child', secretContext.script 16 ("DEL1234", true) = [.controls secretControls, .controls child'] :=
      ⟨_, rfl⟩
    intro op hop
    have hmem : op ∈ secretContext.script 16 ("DEL1234", true) := by
      rw [hops]
      exact List.mem_append_left _ hop
    rw [hscript] at hmem
    rcases List.mem_cons.mp hmem with rfl | hmem
    · exact ⟨_, rfl⟩
    · exact ⟨_, List.mem_singleton.mp hmem⟩
  have hcaps : ∀ caps : Caps, capsAfter caps pre = caps := by
    clear hops
    induction pre with
    | nil => exact fun _ => rfl
    | cons op pre ih =>
      obtain ⟨child', rfl⟩ := hblocks op List.mem_cons_self
      exact ih fun op hop => hblocks op (List.mem_cons_of_mem _ hop)
  rw [hcaps, hcaps]
  rfl

end DdcControl.Database
