import DdcControl.Database.Session

/-!
# Profiles as scripts

What a profile does to a tree does not depend on how its operations are spread over
includes: expanded in document order, a profile is a script of CAPS patches and
`controls` blocks. This module is that view of assembly, in which its invariants are
proved: `DbContext.script` expands a profile, `Op.run` is the meaning of one
operation, and a run of a script is a loop over its operations.

## What is proved

* `createDbProtected_run` — a load that succeeds has run the profile's script.
* `createDbProtected_included` — it has also visited every profile reachable by
  includes, whose scripts are parts of the whole one.
-/

namespace DdcControl.Database

open Capabilities Fallible

/-- An operation of a profile: a `caps` element or a `controls` block. -/
inductive Op where
  /-- Patch the CAPS. -/
  | caps (child : Node)
  /-- Suppress and add controls. -/
  | controls (child : Node)

/-- The operations of a profile in document order, its includes expanded to a depth. -/
def DbContext.script (context : DbContext) : ℕ → Key → List Op
  | 0, _ => []
  | depth + 1, key =>
    match context.rootOf key with
    | none => []
    | some root => root.children.flatMap fun child =>
      if child.tag = "caps" then [.caps child]
      else if child.tag = "include" then
        (child.attr "file").toList.flatMap fun file => context.script depth (file, false)
      else if child.tag = "controls" then [.controls child]
      else []

section Translated

variable (translate : String → List UInt8)

/-- The meaning of an operation. -/
def Op.run (options : OptionsDb) (mode : LoadMode) (table : Table) : Op → Except DbError Table
  | .caps child => capsElement child table
  | .controls child => controlsBlock translate options mode child table

/-! ### A load runs the script -/

/-- What a successful load has done: counted its visit, resolved its root and
interpreted it. -/
theorem createDbProtected_eq_ok {context : DbContext} {mode : LoadMode} {pnpname : String}
    {recursionlevel : ℕ} {assembly assembly' : Assembly}
    (h : createDbProtected translate context mode pnpname recursionlevel assembly = .ok assembly') :
    ∃ build root, recursionlevel ≤ 15 ∧ countVisit pnpname assembly.build = .ok build ∧
      context.rootOf (pnpname, recursionlevel = 0) = some root ∧
      interpretRoot translate context mode
        (fun file assembly => createDbProtected translate context mode file (recursionlevel + 1) assembly)
        pnpname root { assembly with build := build } = .ok assembly' := by
  rw [createDbProtected, bind_eq_ok] at h
  obtain ⟨build, hbuild, h⟩ := h
  split at h
  · cases h
  · rename_i hlevel
    obtain ⟨root, hroot, h⟩ := bind_eq_ok.mp h
    exact ⟨build, root, by omega, hbuild, rootOf_of_resolve hroot, h⟩

/-- What interpreting a root has done: opened it and walked its children. -/
theorem interpretRoot_eq_ok {context : DbContext} {mode : LoadMode}
    {visit : String → Assembly → Except DbError Assembly} {pnpname : String} {root : Node}
    {assembly assembly' : Assembly}
    (h : interpretRoot translate context mode visit pnpname root assembly = .ok assembly') :
    ∃ build walk, openRoot mode pnpname root assembly.build = .ok build ∧
      root.children.foldlM (profileChild translate context mode visit)
        ⟨{ assembly with build := build }, false, false⟩ = .ok walk ∧
      walk.controlsOrInclude = true ∧ walk.assembly = assembly' := by
  simp only [interpretRoot, bind_eq_ok] at h
  obtain ⟨build, hbuild, walk, hwalk, _, hflag, h⟩ := h
  refine ⟨build, walk, hbuild, hwalk, ?_, Except.ok.inj h⟩
  simpa using hflag

/-- What one child of a root does, by its tag. -/
theorem profileChild_eq_ok {context : DbContext} {mode : LoadMode}
    {visit : String → Assembly → Except DbError Assembly} {child : Node} {walk walk' : Walk}
    (h : profileChild translate context mode visit walk child = .ok walk') :
    child.required = false ∧ (child.tag ≠ "controls" → child.hasRequired = false) ∧
      ((child.tag = "caps" ∧ ∃ table, capsElement child walk.assembly.table = .ok table ∧
          walk' = { walk with assembly := { walk.assembly with table := table } }) ∨
        (child.tag = "include" ∧ ∃ file assembly, child.attr "file" = some file ∧
          visit file walk.assembly = .ok assembly ∧
          walk' = { walk with assembly := assembly, controlsOrInclude := true }) ∨
        (child.tag = "controls" ∧ walk.seenControls = false ∧
          ∃ table, controlsBlock translate context.options mode child walk.assembly.table = .ok table ∧
            walk' = ⟨{ walk.assembly with table := table }, true, true⟩) ∨
        (child.tag ≠ "caps" ∧ child.tag ≠ "include" ∧ child.tag ≠ "controls" ∧ mode.validateAll = false ∧
          walk' = walk)) := by
  rw [profileChild, bind_eq_ok] at h
  obtain ⟨_, hreq, h⟩ := h
  rw [reject_eq_ok, Bool.or_eq_false_iff, Bool.and_eq_false_iff] at hreq
  refine ⟨hreq.1, fun htag => hreq.2.resolve_left (by simpa using htag), ?_⟩
  split at h
  · rename_i htag
    obtain ⟨table, htable, h⟩ := bind_eq_ok.mp h
    exact .inl ⟨htag, table, htable, (Except.ok.inj h).symm⟩
  rename_i hcaps
  split at h
  · rename_i htag
    obtain ⟨file, hfile, h⟩ := bind_eq_ok.mp h
    rw [requiredAttr, mapError_orError, orError_eq_ok] at hfile
    obtain ⟨assembly, hassembly, h⟩ := bind_eq_ok.mp h
    exact .inr (.inl ⟨htag, file, assembly, hfile, hassembly, (Except.ok.inj h).symm⟩)
  rename_i hinclude
  split at h
  · rename_i htag
    obtain ⟨_, hseen, h⟩ := bind_eq_ok.mp h
    obtain ⟨table, htable, h⟩ := bind_eq_ok.mp h
    exact .inr (.inr (.inl ⟨htag, reject_eq_ok.mp hseen, table, htable, (Except.ok.inj h).symm⟩))
  · rename_i hcontrols
    obtain ⟨_, hmode, h⟩ := bind_eq_ok.mp h
    exact .inr (.inr (.inr ⟨hcaps, hinclude, hcontrols, reject_eq_ok.mp hmode, (Except.ok.inj h).symm⟩))

/-- **A load that succeeds has run the profile's script.** -/
theorem createDbProtected_run {context : DbContext} {mode : LoadMode} {pnpname : String}
    {recursionlevel : ℕ} {assembly assembly' : Assembly}
    (h : createDbProtected translate context mode pnpname recursionlevel assembly = .ok assembly') :
    (context.script (16 - recursionlevel) (pnpname, recursionlevel = 0)).foldlM
      (Op.run translate context.options mode) assembly.table = .ok assembly'.table := by
  induction pnpname, recursionlevel, assembly using createDbProtected.induct generalizing assembly' with
  | case1 pnpname recursionlevel assembly ih =>
    obtain ⟨build, root, hlevel, -, hroot, h⟩ := createDbProtected_eq_ok translate h
    obtain ⟨build', walk, -, hwalk, -, rfl⟩ := interpretRoot_eq_ok translate h
    rw [show 16 - recursionlevel = (16 - (recursionlevel + 1)) + 1 by omega,
      DbContext.script, hroot]
    refine foldlM_flatMap (fun walk : Walk => walk.assembly.table) _ (fun child _ walk walk' hchild => ?_) hwalk
    obtain ⟨-, -, hcase⟩ := profileChild_eq_ok translate hchild
    rcases hcase with ⟨htag, table, htable, rfl⟩ | ⟨htag, file, assembly', hfile, hvisit, rfl⟩ |
      ⟨htag, -, table, htable, rfl⟩ | ⟨hcaps, hinclude, hcontrols, -, rfl⟩
    · rw [if_pos htag, List.foldlM_cons, bind_eq_ok]
      exact ⟨table, htable, rfl⟩
    · rw [if_neg (by rw [htag]; decide), if_pos htag, hfile]
      simp only [Option.toList_some, List.flatMap_cons, List.flatMap_nil, List.append_nil]
      have := ih (by omega) file walk.assembly hvisit
      simpa using this
    · rw [if_neg (by rw [htag]; decide), if_neg (by rw [htag]; decide), if_pos htag,
        List.foldlM_cons, bind_eq_ok]
      exact ⟨table, htable, rfl⟩
    · rw [if_neg hcaps, if_neg hinclude, if_neg hcontrols]
      rfl

/-- The script of an included profile is part of the including one's. -/
theorem mem_script_of_include {context : DbContext} {depth : ℕ} {key : Key} {root child : Node}
    {file : String} (hroot : context.rootOf key = some root) (hc : child ∈ root.children)
    (htag : child.tag = "include") (hfile : child.attr "file" = some file) {op : Op}
    (hop : op ∈ context.script depth (file, false)) :
    op ∈ context.script (depth + 1) key := by
  rw [DbContext.script, hroot]
  refine List.mem_flatMap.mpr ⟨child, hc, ?_⟩
  rw [if_neg (by rw [htag]; decide), if_pos htag, hfile]
  simpa using hop

/-- **A load that succeeds has visited every profile reachable by includes**, and each
one's operations are in the script. -/
theorem createDbProtected_included {context : DbContext} {mode : LoadMode} {start : String}
    {assembly assembly' : Assembly}
    (h : createDbProtected translate context mode start 0 assembly = .ok assembly') {key : Key}
    (hkey : Included context (start, true) key) :
    ∃ recursionlevel before after, recursionlevel ≤ 15 ∧ key.2 = decide (recursionlevel = 0) ∧
      createDbProtected translate context mode key.1 recursionlevel before = .ok after ∧
      ∀ op ∈ context.script (16 - recursionlevel) key, op ∈ context.script 16 (start, true) := by
  induction hkey with
  | refl => exact ⟨0, assembly, assembly', by omega, rfl, h, fun _ h => h⟩
  | @tail key key' _ hedge ih =>
    obtain ⟨recursionlevel, before, after, hlevel, htop, hload, hscript⟩ := ih
    obtain ⟨root, hroot, child, hc, htag, hfile, htop'⟩ := hedge
    obtain ⟨build, root', -, -, hroot', hload⟩ := createDbProtected_eq_ok translate hload
    rw [← htop, show (key.1, key.2) = key from rfl, hroot, Option.some.injEq] at hroot'
    subst hroot'
    obtain ⟨build', walk, -, hwalk, -, rfl⟩ := interpretRoot_eq_ok translate hload
    obtain ⟨pre, post, hsplit⟩ := List.append_of_mem hc
    rw [hsplit] at hwalk
    obtain ⟨walk₁, walk₂, -, hchild, -⟩ := foldlM_split hwalk
    obtain ⟨-, -, hcase⟩ := profileChild_eq_ok translate hchild
    rw [htag] at hcase
    simp only [String.reduceEq, false_and, true_and, false_or, ne_eq, not_true_eq_false, and_false,
      or_false] at hcase
    obtain ⟨file, assembly₂, hfile', hvisit, -⟩ := hcase
    rw [hfile, Option.some.injEq] at hfile'
    subst hfile'
    obtain ⟨-, -, hnext, -⟩ := createDbProtected_eq_ok translate hvisit
    refine ⟨recursionlevel + 1, walk₁.assembly, assembly₂, hnext, by rw [htop']; simp, hvisit,
      fun op hop => ?_⟩
    refine hscript op ?_
    rw [show 16 - recursionlevel = (16 - (recursionlevel + 1)) + 1 by omega]
    refine mem_script_of_include hroot hc htag hfile ?_
    rwa [show key' = (key'.1, false) by rw [← htop']] at hop

end Translated

end DdcControl.Database
