import DdcControl.Database.Session

/-!
# Tolerating faults

A load that tolerates faults leaves out some checks: of marks in a controls block that
nothing matched, of deprecated attributes, and of a profile without an init mode. Where
a strict load succeeds, those checks have passed, and they are all the two differ in.

## What is proved

* `createDbProtected_tolerates` — what a strict load assembles, a tolerant one assembles.
* `createDb_tolerates` — where the strict load returns a tree, the tolerant one returns
  the same tree and the same CAPS; where the tolerant load fails, so does the strict one.
-/

namespace DdcControl.Database

open Capabilities Fallible

/-- The load modes of the two. -/
abbrev strict : LoadMode := ⟨false, false⟩

/-- A load that tolerates faults. -/
abbrev tolerant : LoadMode := ⟨true, false⟩

/-- The second program ends as the first does, where that succeeds. -/
abbrev Extends {α : Type} (x y : Except DbError α) : Prop := Simulates x y Eq

/-- A check that a tolerant load leaves out. -/
theorem reject_tolerates (condition : Bool) (e : DbError) :
    Extends (reject (!false && condition) e) (reject (!true && condition) e) :=
  fun u _ => ⟨u, by simp, rfl⟩

section Translated

variable (translate : String → List UInt8)

/-! ### A `controls` block -/

theorem getValueList_tolerates (optionControl : OptionControl) (monitorControl : MonitorControl) :
    Extends (getValueList translate optionControl monitorControl false)
      (getValueList translate optionControl monitorControl true) := by
  refine Simulates.common fun found => ?_
  refine (reject_tolerates _ _).bind fun _ _ _ => ?_
  exact .pure rfl

theorem matchedControl_tolerates (optionControl : OptionControl) (monitorControl : MonitorControl)
    (address : UInt8) :
    Extends (matchedControl translate optionControl monitorControl address false)
      (matchedControl translate optionControl monitorControl address true) := by
  have hvalues : Extends (controlValues translate optionControl monitorControl false)
      (controlValues translate optionControl monitorControl true) := by
    refine (getValueList_tolerates translate optionControl monitorControl).bind fun values _ hvalues => ?_
    subst hvalues
    exact .refl fun _ => rfl
  refine hvalues.bind fun values _ hvalues => ?_
  subst hvalues
  exact .refl fun _ => rfl

theorem addControl_tolerates (monitorControls : List MonitorControl) (state : Table × List Bool)
    (option : ℕ × ℕ × OptionControl) :
    Extends (addControl translate monitorControls strict state option)
      (addControl translate monitorControls tolerant state option) := by
  obtain ⟨groupIndex, subgroupIndex, optionControl⟩ := option
  simp only [addControl]
  split
  · exact .refl fun _ => rfl
  split
  · exact .refl fun _ => rfl
  refine Simulates.common fun address => ?_
  split
  · exact .refl fun _ => rfl
  · refine (matchedControl_tolerates translate _ _ _).bind fun control _ hcontrol => ?_
    subst hcontrol
    exact .refl fun _ => rfl

theorem addControlsFromOptions_tolerates (options : OptionsDb)
    (monitorControls : ParsedMonitorControls) (table : Table) :
    Extends (addControlsFromOptions translate options monitorControls strict table)
      (addControlsFromOptions translate options monitorControls tolerant table) := by
  refine Simulates.common fun blocked => ?_
  have hadd := Simulates.foldlM (f := addControl translate monitorControls.controls strict)
    (g := addControl translate monitorControls.controls tolerant) (R := Eq) (l := options.indexedControls)
    (fun option _ state _ h => by subst h; exact addControl_tolerates translate _ state option) (b := blocked) rfl
  refine hadd.bind fun added _ hadded => ?_
  subst hadded
  exact (reject_tolerates _ _).bind fun _ _ _ => .pure rfl

theorem controlsBlock_tolerates (options : OptionsDb) (child : Node) (table : Table) :
    Extends (controlsBlock translate options strict child table)
      (controlsBlock translate options tolerant child table) := by
  refine Simulates.common fun _ => ?_
  refine Simulates.common fun table => ?_
  exact addControlsFromOptions_tolerates translate options (parseMonitorControls child) table

/-! ### A profile -/

theorem openRoot_tolerates (pnpname : String) (root : Node) (build : MonitorBuild) :
    Extends (openRoot strict pnpname root build) (openRoot tolerant pnpname root build) := by
  refine Simulates.common fun _ => ?_
  refine Simulates.common fun _ => ?_
  refine Simulates.common fun build => ?_
  refine Simulates.common (x := openInit strict root build) fun build => ?_
  -- the deprecated attributes, which a tolerant load lets pass
  have hdeprecated : ∀ (present : Bool) (e : DbError),
      Extends (reject (present && !false) e) (reject (present && !true) e) :=
        fun present e u _ => ⟨u, by simp, rfl⟩
  refine (hdeprecated _ _).bind fun _ _ _ => ?_
  exact (hdeprecated _ _).bind fun _ _ _ => .pure rfl

section Visit

variable {visit visit' : String → Assembly → Except DbError Assembly}

theorem profileChild_tolerates {context : DbContext}
    (hvisit : ∀ file assembly, Extends (visit file assembly) (visit' file assembly)) (child : Node)
    (walk : Walk) :
    Extends (profileChild translate context strict visit walk child)
      (profileChild translate context tolerant visit' walk child) := by
  refine Simulates.common fun _ => ?_
  split
  · exact .refl fun _ => rfl
  split
  · refine Simulates.common fun file => ?_
    refine (hvisit file walk.assembly).bind fun assembly _ hassembly => ?_
    subst hassembly
    exact .pure rfl
  split
  · refine Simulates.common fun _ => ?_
    refine (controlsBlock_tolerates translate context.options child walk.assembly.table).bind
      fun table _ htable => ?_
    subst htable
    exact .pure rfl
  · exact .refl fun _ => rfl

theorem interpretRoot_tolerates {context : DbContext}
    (hvisit : ∀ file assembly, Extends (visit file assembly) (visit' file assembly))
    (pnpname : String) (root : Node) (assembly : Assembly) :
    Extends (interpretRoot translate context strict visit pnpname root assembly)
      (interpretRoot translate context tolerant visit' pnpname root assembly) := by
  refine (openRoot_tolerates pnpname root assembly.build).bind fun build _ hbuild => ?_
  subst hbuild
  have hwalk := Simulates.foldlM (f := profileChild translate context strict visit)
    (g := profileChild translate context tolerant visit') (R := Eq) (l := root.children)
    (fun child _ walk _ h => by subst h; exact profileChild_tolerates translate hvisit child walk)
    (b := ⟨{ assembly with build := build }, false, false⟩) rfl
  refine hwalk.bind fun walk _ heq => ?_
  subst heq
  exact .refl fun _ => rfl

end Visit

/-- **What a strict load assembles, a tolerant one assembles.** -/
theorem createDbProtected_tolerates (context : DbContext) (pnpname : String) (recursionlevel : ℕ)
    (assembly : Assembly) :
    Extends (createDbProtected translate context strict pnpname recursionlevel assembly)
      (createDbProtected translate context tolerant pnpname recursionlevel assembly) := by
  induction hdepth : 16 - recursionlevel generalizing pnpname recursionlevel assembly with
  | zero =>
    rw [createDbProtected, createDbProtected]
    refine Simulates.common fun _ => ?_
    rw [dif_pos (by omega)]
    exact .error
  | succ depth ih =>
    rw [createDbProtected, createDbProtected]
    refine Simulates.common fun build => ?_
    rw [dif_neg (by omega), dif_neg (by omega)]
    refine Simulates.common fun root => ?_
    exact interpretRoot_tolerates translate
      (fun file assembly => ih file (recursionlevel + 1) assembly (by omega)) pnpname
      root _

/-! ### A load -/

/-- A build that a strict load publishes, a tolerant one publishes. -/
theorem publish_tolerates {assembly : Assembly} {monitor : MonitorDb} {caps : Caps}
    (h : publish false assembly = some (monitor, caps)) :
    publish true assembly = some (monitor, caps) := by
  have hbuild : ∀ build, defaultInit false assembly.build = some build →
      defaultInit true assembly.build = some build := by
    intro build hinit
    simp only [defaultInit] at hinit ⊢
    split_ifs at hinit ⊢ <;> exact hinit
  obtain ⟨build, hinit, halloc⟩ := Option.bind_eq_some_iff.mp h
  exact Option.bind_eq_some_iff.mpr ⟨build, hbuild build hinit, halloc⟩

/-- **Tolerating faults extends the strict load**: where that returns a tree, the tolerant
load returns the same tree and the same CAPS; and where the tolerant load fails, the
strict one does. -/
theorem createDb_tolerates (context : Option DbContext) (pnpname : String) (caps : Caps) :
    (∀ monitor, (createDb translate context pnpname caps false).monitor = some monitor →
        (createDb translate context pnpname caps true).monitor = some monitor ∧
          (createDb translate context pnpname caps true).caps = (createDb translate context pnpname caps false).caps) ∧
      ((createDb translate context pnpname caps true).monitor = none →
        (createDb translate context pnpname caps false).monitor = none) := by
  have hextends : ∀ monitor, (createDb translate context pnpname caps false).monitor = some monitor →
      createDb translate context pnpname caps true = createDb translate context pnpname caps false := by
    intro monitor h
    cases context with
    | none => rfl
    | some context =>
      obtain ⟨assembly, hassembly, hpublish⟩ := createDb_eq_some translate h
      -- an overridden id is loaded strictly in either case
      by_cases hoverride : context.tolerates pnpname true = true
      · have hstrict : context.tolerates pnpname false = false := rfl
        have hmode : assemble translate context pnpname caps false =
          createDbProtected translate context strict pnpname 0 (.start translate context.options caps) := rfl
        obtain ⟨_, htolerant, rfl⟩ :=
          createDbProtected_tolerates translate context pnpname 0 _ assembly (hmode ▸ hassembly)
        have hassembly' : assemble translate context pnpname caps true = .ok assembly := by
          rw [assemble, hoverride]
          exact htolerant
        rw [hstrict] at hpublish
        have hpublish' := publish_tolerates hpublish
        simp only [createDb, hassembly, hassembly', hstrict, hoverride, hpublish, hpublish']
      · have hsame : context.tolerates pnpname true = context.tolerates pnpname false :=
          Bool.eq_false_iff.mpr hoverride
        simp only [createDb, assemble, hsame]
  refine ⟨fun monitor h => ?_, fun hnone => ?_⟩
  · rw [hextends monitor h]
    exact ⟨h, rfl⟩
  · cases hmonitor : (createDb translate context pnpname caps false).monitor with
    | none => rfl
    | some monitor =>
      rw [hextends monitor hmonitor, hmonitor] at hnone
      cases hnone

end Translated

end DdcControl.Database
