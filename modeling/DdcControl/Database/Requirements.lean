import DdcControl.Database.Errors
import DdcControl.Library.Closure

/-!
# The requirement scan

Before a profile is interpreted, `profile_has_requirements` decides whether anything
it could reach carries semantics this program does not know. A later failure then
keeps the caller from falling back to a generic profile, whichever error came first.

The scan is a search of the include graph, whose vertices are a profile name and
whether it is the one asked for: the override stands for its PNP id at the top level
only.

## What is proved

* `profileHasRequirements_iff` — the scan ends, and finds exactly the reachable roots
  with required semantics or a reference to an unavailable options control.
* `createDbProtected_requiresOnly` — assembly fails over a required feature only where
  the scan finds one.
-/

namespace DdcControl.Database

open Capabilities Fallible

/-- A profile name, and whether it is the one asked for rather than an include. -/
abbrev Key := String × Bool

/-- The root a key stands for, where it parsed. -/
def DbContext.rootOf (context : DbContext) (key : Key) : Option Node :=
  (context.root? key.1 key.2).bind Except.toOption

/-- The files a root includes. -/
def Node.includes (root : Node) : List String :=
  (root.childrenTagged "include").filterMap (·.attr "file")

/-- The keys a key's root includes. -/
def DbContext.successors (context : DbContext) (key : Key) : List Key :=
  match context.rootOf key with
  | none => []
  | some root => root.includes.map fun file => (file, false)

/-- A `control` refers to an options control that is unavailable. -/
def OptionsDb.sharesBlocked (options : OptionsDb) (control : Node) : Bool :=
  control.tag = "control" && (control.attr "id").any options.blocks

/-- A `controls` block refers to an unavailable options control. -/
def OptionsDb.blocksIn (options : OptionsDb) (child : Node) : Bool :=
  child.tag = "controls" && child.children.any options.sharesBlocked

/-- The root of a key carries required semantics, its own or shared. -/
def DbContext.rootHasRequirements (context : DbContext) (key : Key) : Bool :=
  (context.rootOf key).any fun root => root.hasRequired || root.children.any context.options.blocksIn

/-- Every key whose root may include others. -/
def DbContext.keys (context : DbContext) : List Key :=
  (context.monitorFile.toList.map fun file => (file.pnpid, true)) ++
    context.profiles.keys.flatMap fun id => [(id, true), (id, false)]

/-- The fuel of the scan: the key asked for, and every include edge. -/
def DbContext.scanFuel (context : DbContext) : ℕ :=
  1 + (context.keys.map fun key => (context.successors key).length).sum

/-- `profile_has_requirements`. -/
def profileHasRequirements (context : DbContext) (pnpname : String) : Bool :=
  (Closure.search context.rootHasRequirements context.successors context.scanFuel [(pnpname, true)] []).getD false

/-! ### The scan is reachability -/

/-- `IncludeEdge context key key'`: the root of `key` has an `include` of `key'`. -/
def IncludeEdge (context : DbContext) (key key' : Key) : Prop :=
  ∃ root, context.rootOf key = some root ∧
    ∃ child ∈ root.children, child.tag = "include" ∧ child.attr "file" = some key'.1 ∧ key'.2 = false

/-- The keys reachable by includes. -/
abbrev Included (context : DbContext) : Key → Key → Prop := Relation.ReflTransGen (IncludeEdge context)

/-- A root has a required node, or a `controls` block that refers to an options control
marked unavailable. -/
def HasRequirement (options : OptionsDb) (root : Node) : Prop :=
  (∃ n : Node, n.Within root ∧ n.required = true) ∨
    ∃ child ∈ root.children, child.tag = "controls" ∧ ∃ control ∈ child.children, control.tag = "control" ∧
      ∃ shared ∈ options.controls, control.attr "id" = some shared.id ∧ shared.unavailable = true

theorem edge_successors {context : DbContext} {key key' : Key} :
    Closure.Edge context.successors key key' ↔ IncludeEdge context key key' := by
  obtain ⟨file, topLevel⟩ := key'
  simp only [Closure.Edge, IncludeEdge, DbContext.successors]
  cases context.rootOf key with
  | none => simp
  | some root =>
    simp only [Node.includes, Node.childrenTagged, List.mem_map, List.mem_filterMap,
      List.mem_filter, decide_eq_true_eq, Prod.mk.injEq, Option.some.injEq, exists_eq_left']
    constructor
    · rintro ⟨_, ⟨child, ⟨hc, htag⟩, hfile⟩, rfl, rfl⟩
      exact ⟨child, hc, htag, hfile, rfl⟩
    · rintro ⟨child, hc, htag, hfile, rfl⟩
      exact ⟨file, ⟨child, ⟨hc, htag⟩, hfile⟩, rfl, rfl⟩

theorem reachable_successors {context : DbContext} {key key' : Key} :
    Closure.Reachable context.successors key key' ↔ Included context key key' := by
  have h : Closure.Edge context.successors = IncludeEdge context := by
    funext key key'
    exact propext edge_successors
  rw [Closure.Reachable, h]

theorem blocks_iff {options : OptionsDb} {id : String} :
    options.blocks id = true ↔ ∃ shared ∈ options.controls, id = shared.id ∧ shared.unavailable = true := by
  simp only [OptionsDb.blocks, List.any_eq_true, Bool.and_eq_true, decide_eq_true_eq,
    eq_comm (a := id)]

theorem blocksIn_iff {options : OptionsDb} {child : Node} :
    options.blocksIn child = true ↔ child.tag = "controls" ∧
    ∃ control ∈ child.children, control.tag = "control" ∧
      ∃ shared ∈ options.controls, control.attr "id" = some shared.id ∧ shared.unavailable = true := by
  simp only [OptionsDb.blocksIn, OptionsDb.sharesBlocked, Bool.and_eq_true, decide_eq_true_eq,
    List.any_eq_true, Option.any_eq_true, blocks_iff]
  constructor
  · rintro ⟨htag, control, hc, hctag, _, hid, shared, hs, rfl, hun⟩
    exact ⟨htag, control, hc, hctag, shared, hs, hid, hun⟩
  · rintro ⟨htag, control, hc, hctag, shared, hs, hid, hun⟩
    exact ⟨htag, control, hc, hctag, _, hid, shared, hs, rfl, hun⟩

theorem rootHasRequirements_iff {context : DbContext} {key : Key} :
    context.rootHasRequirements key = true ↔
      ∃ root, context.rootOf key = some root ∧ HasRequirement context.options root := by
  simp only [DbContext.rootHasRequirements, Option.any_eq_true, HasRequirement, Bool.or_eq_true,
    Node.hasRequired_iff, List.any_eq_true, blocksIn_iff]

/-- A key outside `keys` has no root, so it includes nothing. -/
theorem successors_eq_nil {context : DbContext} {key : Key} (h : key ∉ context.keys) :
    context.successors key = [] := by
  have hroot : context.rootOf key = none := by
    obtain ⟨id, topLevel⟩ := key
    simp only [DbContext.keys, List.mem_append, List.mem_map, Option.mem_toList,
      List.mem_flatMap, not_or] at h
    obtain ⟨hfile, hprofile⟩ := h
    have hid : context.profiles[id]? = none := by
      refine Std.TreeMap.getElem?_eq_none fun hmem => hprofile ⟨id,
        Std.TreeMap.mem_keys.mpr hmem, ?_⟩
      cases topLevel <;> simp
    have hover : (context.monitorFile.filter fun file => topLevel && file.pnpid == id) = none := by
      rw [Option.filter_eq_none_iff]
      intro file hf hcond
      simp only [Bool.and_eq_true, beq_iff_eq] at hcond
      exact hfile ⟨file, hf, by rw [hcond.1, hcond.2]⟩
    rw [DbContext.rootOf, DbContext.root?, hover]
    simp only [hid, Option.bind_none]
  rw [DbContext.successors, hroot]

/-- **The scan ends.** -/
theorem scan_isSome (context : DbContext) (pnpname : String) :
    (Closure.search context.rootHasRequirements context.successors context.scanFuel [(pnpname, true)] []).isSome =
      true := by
  refine Closure.search_isSome _ _ context.keys (fun _ => successors_eq_nil) ?_
  simp [Closure.remaining, DbContext.scanFuel]

/-- **The scan is exact**: it answers whether a root reachable from the profile asked
for has a required node or refers to an unavailable options control. -/
theorem profileHasRequirements_iff {context : DbContext} {pnpname : String} :
    profileHasRequirements context pnpname = true ↔
      ∃ key root, Included context (pnpname, true) key ∧ context.rootOf key = some root ∧
        HasRequirement context.options root := by
  have hfuel := scan_isSome context pnpname
  have hiff := Closure.search_eq_true_iff _ _ hfuel
  obtain ⟨b, hb⟩ := Option.isSome_iff_exists.mp hfuel
  rw [profileHasRequirements, hb]
  rw [hb] at hiff
  simp only [Option.some.injEq, reachable_successors, rootHasRequirements_iff] at hiff
  rw [Option.getD_some, hiff]
  constructor
  · rintro ⟨key, hkey, root, hroot, hreq⟩
    exact ⟨key, root, hkey, hroot, hreq⟩
  · rintro ⟨key, root, hkey, hroot, hreq⟩
    exact ⟨key, hkey, root, hroot, hreq⟩

/-! ### What assembly rejects -/

section Rejected

variable (translate : String → List UInt8)

/-- A program that never fails over a required feature. -/
abbrev Ordinary {α : Type} (x : Except DbError α) : Prop :=
  Yields x (fun _ => True) fun e => e.requiredFeature = false

/-- A program that fails over a required feature only where `p` holds. -/
abbrev RequiresOnly {α : Type} (p : Prop) (x : Except DbError α) : Prop :=
  Yields x (fun _ => True) fun e => e.requiredFeature = true → p

theorem Ordinary.requiresOnly {α : Type} {p : Prop} {x : Except DbError α} (h : Ordinary x) :
    RequiresOnly p x :=
  h.mono (fun _ h => h) fun e he hreq => by rw [he] at hreq; cases hreq

theorem RequiresOnly.bind {α β : Type} {p : Prop} {x : Except DbError α} {k : α → Except DbError β}
    (h : RequiresOnly p x) (hk : ∀ a, RequiresOnly p (k a)) : RequiresOnly p (x >>= k) :=
  Yields.bind h fun a _ _ => hk a

theorem Ordinary.bind {α β : Type} {x : Except DbError α} {k : α → Except DbError β}
    (h : Ordinary x) (hk : ∀ a, Ordinary (k a)) : Ordinary (x >>= k) :=
  Yields.bind h fun a _ _ => hk a

theorem ordinary_ok {α : Type} (a : α) : Ordinary (.ok a : Except DbError α) := trivial

theorem ordinary_new {α : Type} (message : String) :
    Ordinary (.error (.new message) : Except DbError α) := rfl

theorem ordinary_reject (condition : Bool) (message : String) :
    Ordinary (reject condition (DbError.new message)) :=
  Yields.reject (fun _ => trivial) fun _ => rfl

theorem requiresOnly_reject {p : Prop} {condition : Bool} {message : String}
    (h : condition = true → p) :
    RequiresOnly p (reject condition (DbError.required message)) :=
  Yields.reject (fun _ => trivial) fun hc _ => h hc

theorem Reports.ordinary {α : Type} {texts : String → Prop} {x : Except DbError α}
    (h : Reports texts x) : Ordinary x := by
  refine h.mono (fun _ h => h) fun e he => ?_
  obtain ⟨message, -, rfl⟩ := he
  rfl

/-- The controls of a block are its `control` children with an id. -/
theorem mem_parseMonitorControls {node : Node} {monitorControl : MonitorControl}
    (h : monitorControl ∈ (parseMonitorControls node).controls) :
    ∃ control ∈ node.children, control.tag = "control" ∧ control.attr "id" = some monitorControl.id := by
  simp only [parseMonitorControls, List.mem_filterMap] at h
  obtain ⟨⟨control, childIndex⟩, hmem, hctl⟩ := h
  simp only [Database.monitorControl] at hctl
  split at hctl
  · cases hctl
  · rename_i htag
    obtain ⟨id, hid, rfl⟩ := Option.map_eq_some_iff.mp hctl
    exact ⟨control, (List.mem_zipIdx' hmem).2 ▸ List.getElem_mem .., by simpa using htag, hid⟩

/-- Adding a block's controls fails over a required feature only where the block
refers to an unavailable options control. -/
theorem requiresOnly_addControls (options : OptionsDb) (child : Node) (mode : LoadMode)
    (table : Table) (htag : child.tag = "controls") :
    RequiresOnly (options.blocksIn child = true)
      (addControlsFromOptions translate options (parseMonitorControls child) mode table) := by
  refine RequiresOnly.bind (Yields.foldlM (fun monitorControl hmem state _ => ?_) trivial) fun state => ?_
  · unfold blockControl
    split
    · rename_i hblocks
      split
      · refine fun _ => blocksIn_iff.mpr ⟨htag, ?_⟩
        obtain ⟨control, hc, hctag, hid⟩ := mem_parseMonitorControls hmem
        obtain ⟨shared, hs, hids, hun⟩ := blocks_iff.mp hblocks
        exact ⟨control, hc, hctag, shared, hs, by rw [hid, hids], hun⟩
      · trivial
    · trivial
  · refine RequiresOnly.bind (Ordinary.requiresOnly ?_) fun state =>
      Ordinary.requiresOnly ((ordinary_reject _ _).bind fun _ => ordinary_ok _)
    exact Yields.foldlM (fun option _ state _ =>
      (addControl_reports translate _ _ state option).ordinary) trivial

/-- A `controls` block fails over a required feature only where it has one. -/
theorem requiresOnly_controlsBlock (options : OptionsDb) (mode : LoadMode) (child : Node)
    (table : Table) (htag : child.tag = "controls") :
    RequiresOnly (child.hasRequired = true ∨ options.blocksIn child = true)
      (controlsBlock translate options mode child table) := by
  refine RequiresOnly.bind (requiresOnly_reject fun hany => ?_) fun _ =>
    RequiresOnly.bind ?_ fun table => ?_
  · obtain ⟨node, hn, hreq⟩ := List.any_eq_true.mp hany
    exact .inl (Node.hasRequired_of_mem hn (Bool.and_eq_true .. ▸ hreq).2)
  · refine Yields.foldlM (fun control hc table _ => ?_) trivial
    unfold reserveControl
    split
    · rename_i hreq
      refine RequiresOnly.bind (Yields.orError (fun _ _ => trivial) fun _ _ => ?_) fun _ => trivial
      exact .inl (Node.hasRequired_of_mem hc hreq)
    · trivial
  · exact (requiresOnly_addControls translate options child mode table htag).mono (fun _ h => h)
      fun e he hreq => .inr (he hreq)

/-- Opening a root fails over a required feature only where the root is marked. -/
theorem requiresOnly_openRoot (mode : LoadMode) (pnpname : String) (root : Node)
    (build : MonitorBuild) :
    RequiresOnly (root.required = true) (openRoot mode pnpname root build) := by
  refine RequiresOnly.bind (requiresOnly_reject id) fun _ => Ordinary.requiresOnly ?_
  refine (ordinary_reject _ _).bind fun _ => ?_
  refine (openName_reports root build).ordinary.bind fun build => ?_
  refine (openInit_reports mode root build).ordinary.bind fun build => ?_
  exact (ordinary_reject _ _).bind fun _ => (ordinary_reject _ _).bind fun _ => ordinary_ok _

/-- One child of a root fails over a required feature only where the root has a
requirement, or the include it follows does. -/
theorem requiresOnly_profileChild {context : DbContext} {mode : LoadMode}
    {visit : String → Assembly → Except DbError Assembly} {p : Prop} {root child : Node}
    (hc : child ∈ root.children) (hroot : HasRequirement context.options root → p)
    (hvisit : child.tag = "include" → ∀ file assembly, child.attr "file" =
      some file → RequiresOnly p (visit file assembly))
    (walk : Walk) : RequiresOnly p (profileChild translate context mode visit walk child) := by
  have hreq : child.hasRequired = true → p := fun h =>
    hroot (.inl (Node.hasRequired_iff.mp (Node.hasRequired_of_mem hc h)))
  refine RequiresOnly.bind (requiresOnly_reject fun h => ?_) fun _ => ?_
  · rw [Bool.or_eq_true, Bool.and_eq_true] at h
    refine hreq (h.elim (fun h => ?_) (·.2))
    rw [child.hasRequired_eq, h, Bool.true_or]
  split
  · exact RequiresOnly.bind (capsElement_reports _ _).ordinary.requiresOnly fun _ => trivial
  split
  · rename_i htag
    rw [requiredAttr, mapError_orError]
    refine Yields.bind (Yields.orError (Q :=
      fun file => child.attr "file" = some file) (fun _ h => h) fun _ h => by cases h)
      fun file _ hfile => ?_
    exact RequiresOnly.bind (hvisit htag file walk.assembly hfile) fun _ => trivial
  split
  · rename_i htag
    refine RequiresOnly.bind (ordinary_reject _ _).requiresOnly fun _ =>
      RequiresOnly.bind ?_ fun _ => trivial
    refine (requiresOnly_controlsBlock translate context.options mode child walk.assembly.table htag).mono
      (fun _ h => h) fun e he h => (he h).elim hreq fun hblocks => ?_
    obtain ⟨htag, control, hctl, hctag, shared, hs, hid, hun⟩ := blocksIn_iff.mp hblocks
    exact hroot (.inr ⟨child, hc, htag, control, hctl, hctag, shared, hs, hid, hun⟩)
  · exact (Ordinary.requiresOnly ((ordinary_reject _ _).bind fun _ => ordinary_ok _))

theorem rootOf_of_resolve {context : DbContext} {pnpname : String} {topLevel : Bool} {root : Node}
    (h : context.resolve pnpname topLevel = .ok root) :
    context.rootOf (pnpname, topLevel) = some root := by
  unfold DbContext.resolve at h
  unfold DbContext.rootOf
  split at h
  · cases h
  · cases h
  · rename_i hroot
    cases h
    rw [hroot]
    rfl

/-- **Assembly fails over a required feature only where the scan finds one**, started
from any key the scan reaches. -/
theorem createDbProtected_requiresOnly (context : DbContext) (mode : LoadMode)
    (start pnpname : String) (recursionlevel : ℕ) (assembly : Assembly)
    (hkey : Included context (start, true) (pnpname, recursionlevel = 0)) :
    RequiresOnly (profileHasRequirements context start = true)
      (createDbProtected translate context mode pnpname recursionlevel assembly) := by
  induction pnpname, recursionlevel, assembly using createDbProtected.induct with
  | case1 pnpname recursionlevel assembly ih =>
    rw [createDbProtected]
    refine RequiresOnly.bind (Ordinary.requiresOnly ?_) fun build => ?_
    · exact (ordinary_reject _ _).bind fun _ => (ordinary_reject _ _).bind fun _ => ordinary_ok _
    split
    · exact (ordinary_new _).requiresOnly
    rename_i hlevel
    refine Yields.bind (P := fun _ => True) ?_ fun root hroot _ => ?_
    · unfold DbContext.resolve
      split
      · exact fun h => by cases h
      · exact fun h => by cases h
      · trivial
    have hrootOf := rootOf_of_resolve hroot
    have hreq : HasRequirement context.options root → profileHasRequirements context start = true :=
      fun h =>
      profileHasRequirements_iff.mpr ⟨_, root, hkey, hrootOf, h⟩
    refine RequiresOnly.bind ?_ fun build => RequiresOnly.bind ?_ fun walk => ?_
    · refine (requiresOnly_openRoot mode pnpname root _).mono (fun _ h => h) fun e he h =>
        hreq (.inl ?_)
      exact ⟨root, .self, he h⟩
    · refine Yields.foldlM (fun child hc walk _ => ?_) trivial
      refine requiresOnly_profileChild translate hc hreq (fun htag file assembly hfile => ?_) walk
      refine ih hlevel file assembly (hkey.tail ?_)
      exact ⟨root, hrootOf, child, hc, htag, hfile, by simp⟩
    · exact Ordinary.requiresOnly ((ordinary_reject _ _).bind fun _ => ordinary_ok _)

end Rejected

end DdcControl.Database
