import DdcControl.Database.Session

/-!
# Full validation

A full validation of a profile (`validate_all`) interprets every control, also one at an
address that the CAPS do not support or that is taken, and reads every init mode. An
ordinary load skips some of that, and which part it skips depends on its CAPS. So what a
full validation accepts, an ordinary load accepts, from any table: the two go through
the same marks of matched controls and the same build, and nothing else that they keep
can make a load fail.

## What is proved

* `createDbProtected_validated` — where a full validation succeeds from some table, an
  ordinary load with the same build succeeds from every table, and ends in the same
  build.
-/

namespace DdcControl.Database

open Capabilities Fallible

/-- Two runs of the loops over a block's controls have marked the same controls. -/
def SameMarks (state state' : Table × List Bool) : Prop := state.2 = state'.2

/-- Two loads are at the same place of the same profiles. -/
def SameBuild (assembly assembly' : Assembly) : Prop := assembly.build = assembly'.build

/-- Two walks over the children of a root are at the same place. -/
structure SameWalk (walk walk' : Walk) : Prop where
  build : SameBuild walk.assembly walk'.assembly
  controlsOrInclude : walk.controlsOrInclude = walk'.controlsOrInclude
  seenControls : walk.seenControls = walk'.seenControls

/-- The second program succeeds where the first does. -/
abbrev Succeeds {α β : Type} (x : Except DbError α) (y : Except DbError β) : Prop := Simulates x y fun _ _ => True

section Translated

variable (translate : String → List UInt8) {faulttolerance : Bool}

/-! ### A `controls` block -/

theorem reserveControl_succeeds (table table' : Table) (control : Node) :
    Succeeds (reserveControl table control) (reserveControl table' control) := by
  unfold reserveControl
  split
  · exact Simulates.common fun _ => .pure trivial
  · exact .pure trivial

theorem blockControl_validated {options : OptionsDb} {state state' : Table × List Bool}
    (h : SameMarks state state') (monitorControl : MonitorControl) :
    Simulates (blockControl options state monitorControl)
      (blockControl options state' monitorControl) SameMarks := by
  unfold blockControl
  split
  · split
    · exact .error
    · exact .pure (congrArg (List.set · monitorControl.childIndex true) h)
  · exact .pure h

/-- A full validation interprets the control that an ordinary load may skip. -/
theorem addControl_validated {monitorControls : List MonitorControl}
    {state state' : Table × List Bool} (h : SameMarks state state')
    (option : ℕ × ℕ × OptionControl) :
    Simulates (addControl translate monitorControls ⟨faulttolerance, true⟩ state option)
      (addControl translate monitorControls ⟨faulttolerance, false⟩ state' option) SameMarks := by
  obtain ⟨groupIndex, subgroupIndex, optionControl⟩ := option
  simp only [addControl]
  split
  · exact .pure h
  rename_i monitorControl _
  have hmarks : state.2.set monitorControl.childIndex true =
      state'.2.set monitorControl.childIndex true := by rw [h]
  split
  · exact .pure hmarks
  refine Simulates.common fun address => ?_
  simp only [Bool.not_true, Bool.false_and, Bool.false_eq_true, if_false]
  split
  · intro _ hok
    obtain ⟨control, -, hok⟩ := bind_eq_ok.mp hok
    cases hok
    exact ⟨_, rfl, hmarks⟩
  · refine Simulates.common fun control => ?_
    exact .pure hmarks

theorem addControlsFromOptions_validated (options : OptionsDb)
    (monitorControls : ParsedMonitorControls) (table table' : Table) :
    Succeeds (addControlsFromOptions translate options monitorControls ⟨faulttolerance, true⟩ table)
      (addControlsFromOptions translate options monitorControls ⟨faulttolerance, false⟩ table') := by
  have hblock := Simulates.foldlM (f := blockControl options) (g := blockControl options) (R := SameMarks)
    (l := monitorControls.controls) (b := (table, monitorControls.elements.map MonitorElement.unavailable))
    (c := (table', monitorControls.elements.map MonitorElement.unavailable))
    (fun control _ _ _ h => blockControl_validated h control) rfl
  refine hblock.bind fun blocked blocked' hblocked => ?_
  have hadd := Simulates.foldlM (f := addControl translate monitorControls.controls ⟨faulttolerance, true⟩)
    (g := addControl translate monitorControls.controls ⟨faulttolerance, false⟩) (R := SameMarks)
    (l := options.indexedControls) (fun option _ _ _ h => addControl_validated translate h option) hblocked
  refine hadd.bind fun added added' hadded => ?_
  rw [show added.2 = added'.2 from hadded]
  exact Simulates.common fun _ => .pure trivial

theorem controlsBlock_validated (options : OptionsDb) (child : Node) (table table' : Table) :
    Succeeds (controlsBlock translate options ⟨faulttolerance, true⟩ child table)
      (controlsBlock translate options ⟨faulttolerance, false⟩ child table') := by
  refine Simulates.common fun _ => ?_
  refine (Simulates.foldlM (R := fun _ _ => True) (fun control _ table table' _ =>
    reserveControl_succeeds table table' control) trivial).bind fun table table' _ => ?_
  exact addControlsFromOptions_validated translate options (parseMonitorControls child) table table'

/-! ### A `caps` element -/

/-- Whether a patch applies depends on the patch alone. -/
theorem patchCaps_succeeds (child : Node) (message : String) (edit : Edit) (patch : Option String)
    (table table' : Table) :
    Succeeds (patchCaps child message edit patch table)
      (patchCaps child message edit patch table') := by
  cases patch with
  | none => exact .pure trivial
  | some patch =>
    refine Simulates.bind (R := fun _ _ => True) ?_ fun _ _ _ => .pure trivial
    intro caps hcaps
    rw [orError_eq_ok] at hcaps
    have hsome := applyCaps_isSome patch table.caps table'.caps edit edit
    rw [hcaps, Option.isSome_some] at hsome
    obtain ⟨caps', hcaps'⟩ := Option.isSome_iff_exists.mp hsome.symm
    exact ⟨caps', orError_eq_ok.mpr hcaps', trivial⟩

theorem capsElement_succeeds (child : Node) (table table' : Table) :
    Succeeds (capsElement child table) (capsElement child table') := by
  refine Simulates.common fun _ => ?_
  refine (patchCaps_succeeds child _ .remove _ table table').bind fun table table' _ => ?_
  exact patchCaps_succeeds child _ .add _ table table'

/-! ### A profile -/

/-- A full validation reads the init mode that an ordinary load may leave. -/
theorem openInit_validated (root : Node) (build : MonitorBuild) :
    Simulates (openInit ⟨faulttolerance, true⟩ root build)
      (openInit ⟨faulttolerance, false⟩ root build) Eq := by
  unfold openInit
  rw [if_pos (.inr rfl)]
  by_cases hinit : build.init = .unknown
  · rw [if_pos (.inl hinit)]
    exact .refl fun _ => rfl
  · rw [if_neg (by simpa using hinit)]
    intro build' hok
    split at hok
    · exact ⟨build, rfl, (Except.ok.inj hok).symm⟩
    · obtain ⟨init, -, hok⟩ := bind_eq_ok.mp hok
      rw [if_neg hinit] at hok
      exact ⟨build, rfl, (Except.ok.inj hok).symm⟩

theorem openRoot_validated (pnpname : String) (root : Node) (build : MonitorBuild) :
    Simulates (openRoot ⟨faulttolerance, true⟩ pnpname root build)
      (openRoot ⟨faulttolerance, false⟩ pnpname root build)
      Eq := by
  refine Simulates.common fun _ => ?_
  refine Simulates.common fun _ => ?_
  refine Simulates.common fun build => ?_
  refine (openInit_validated root build).bind fun build _ hbuild => ?_
  subst hbuild
  exact .refl fun _ => rfl

section Visit

variable {visit visit' : String → Assembly → Except DbError Assembly}

/-- An unknown child, which a full validation rejects, is the only one they treat apart. -/
theorem profileChild_validated {context : DbContext}
    (hvisit : ∀ file assembly assembly', SameBuild assembly assembly' →
      Simulates (visit file assembly) (visit' file assembly') SameBuild)
    (child : Node) {walk walk' : Walk} (h : SameWalk walk walk') :
    Simulates (profileChild translate context ⟨faulttolerance, true⟩ visit walk child)
      (profileChild translate context ⟨faulttolerance, false⟩ visit' walk' child) SameWalk := by
  refine Simulates.common fun _ => ?_
  split
  · exact (capsElement_succeeds child _ _).bind fun _ _ _ => .pure ⟨h.build, h.controlsOrInclude,
      h.seenControls⟩
  split
  · refine Simulates.common fun file => ?_
    exact (hvisit file _ _ h.build).bind fun _ _ hbuild => .pure ⟨hbuild, rfl, h.seenControls⟩
  split
  · refine (Simulates.reject (R := Eq) (h.seenControls ▸ id) rfl).bind fun _ _ _ => ?_
    exact (controlsBlock_validated translate context.options child _ _).bind fun _ _ _ =>
      .pure ⟨h.build, rfl, rfl⟩
  · exact Simulates.error

theorem interpretRoot_validated {context : DbContext}
    (hvisit : ∀ file assembly assembly', SameBuild assembly assembly' →
      Simulates (visit file assembly) (visit' file assembly') SameBuild)
    (pnpname : String) (root : Node) {assembly assembly' : Assembly}
    (h : SameBuild assembly assembly') :
    Simulates (interpretRoot translate context ⟨faulttolerance, true⟩ visit pnpname root assembly)
      (interpretRoot translate context ⟨faulttolerance, false⟩ visit' pnpname root assembly') SameBuild := by
  unfold interpretRoot
  rw [show assembly.build = assembly'.build from h]
  refine (openRoot_validated pnpname root _).bind fun build _ hbuild => ?_
  subst hbuild
  have hwalks := Simulates.foldlM (f := profileChild translate context ⟨faulttolerance, true⟩ visit)
    (g := profileChild translate context ⟨faulttolerance, false⟩ visit') (R := SameWalk) (l := root.children)
    (b := ⟨{ assembly with build := build }, false, false⟩) (c := ⟨{ assembly' with build := build }, false, false⟩)
    (fun child _ _ _ h => profileChild_validated translate hvisit child h) ⟨rfl, rfl, rfl⟩
  refine hwalks.bind fun walk walk' hwalk => ?_
  rw [hwalk.controlsOrInclude]
  exact Simulates.common fun _ => .pure hwalk.build

end Visit

/-- **What a full validation accepts, an ordinary load accepts**, whatever the groups,
the CAPS and the addresses in use, and it ends in the same build. -/
theorem createDbProtected_validated (context : DbContext) (pnpname : String) (recursionlevel : ℕ)
    {assembly assembly' : Assembly} (h : SameBuild assembly assembly') :
    Simulates (createDbProtected translate context ⟨faulttolerance, true⟩ pnpname recursionlevel assembly)
      (createDbProtected translate context ⟨faulttolerance, false⟩ pnpname recursionlevel assembly') SameBuild := by
  induction hdepth : 16 - recursionlevel generalizing pnpname recursionlevel assembly assembly' with
  | zero =>
    intro _ hok
    rw [createDbProtected] at hok
    obtain ⟨_, -, hok⟩ := bind_eq_ok.mp hok
    rw [dif_pos (by omega)] at hok
    cases hok
  | succ depth ih =>
    rw [createDbProtected, createDbProtected, show assembly.build = assembly'.build from h]
    refine Simulates.common fun build => ?_
    rw [dif_neg (by omega), dif_neg (by omega)]
    refine Simulates.common fun root => ?_
    exact interpretRoot_validated translate
      (fun file _ _ h => ih file (recursionlevel + 1) h (by omega)) pnpname root rfl

end Translated

end DdcControl.Database
