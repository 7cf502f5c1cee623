import DdcControl.Dbgen.Agreement
import DdcControl.Database.Script

/-!
# Loads of contexts that agree

A load goes through its context and compares nothing else, so contexts that agree are
loaded alike: `ddcci_create_db` returns the same tree and CAPS, or fails, with the same
flag. A `controls` block is interpreted to one result; elsewhere the messages of errors
name lines, which differ.

## What is proved

* `controlsBlock_agrees` — `controls` blocks that agree do the same to a table.
* `createDbProtected_agrees` — profiles that agree both fail, or end in one assembly.
* `createDb_agrees` — loads of contexts that agree have one outcome.
-/

namespace DdcControl.Dbgen

open Capabilities Fallible Database Wire

/-! ### What a block's controls say -/

/-- Values of a control that mean the same; one with another tag is not looked at. -/
structure ValueAgrees (v w : MonitorValue) : Prop where
  elementName : v.elementName = w.elementName
  id : v.elementName = "value" → v.id = w.id
  rawValue : v.elementName = "value" → Option.Rel (SameNumber 8) v.rawValue w.rawValue

/-- Controls of a profile that mean the same. -/
structure ControlAgrees (c d : MonitorControl) : Prop where
  id : c.id = d.id
  rawAddress : Option.Rel (SameNumber 6) c.rawAddress d.rawAddress
  rawDelay : Option.Rel (SameNumber 7) c.rawDelay d.rawDelay
  values : List.Forall₂ ValueAgrees c.values d.values
  childIndex : c.childIndex = d.childIndex
  unavailable : c.unavailable = d.unavailable

theorem monitorValue_agrees {n m : Node} (h : Agrees false "control" true n m) :
    ValueAgrees (monitorValue n) (monitorValue m) where
  elementName := h.step.tag
  id htag := by
    have htag : n.tag = "value" := htag
    exact h.text 1 "id" (by rw [htag]; rfl) (by rw [htag]; decide) rfl rfl
  rawValue htag := by
    have htag : n.tag = "value" := htag
    exact h.number 8 "value" (by rw [htag]; rfl) (by rw [htag]; decide) rfl rfl

theorem monitorControl_agrees {n m : Node} (h : Agrees false "controls" true n m) (childIndex : ℕ) :
    Option.Rel ControlAgrees (monitorControl n childIndex) (monitorControl m childIndex) := by
  unfold monitorControl
  rw [← h.step.tag]
  split
  · exact .none
  rename_i htag
  have htag : n.tag = "control" := by simpa using htag
  have hactive : executablePath n.tag "controls" false true = true := by rw [htag]; rfl
  have hchildren := h.step.children
  rw [hactive, htag] at hchildren
  rw [h.text 1 "id" hactive (by rw [htag]; decide) rfl rfl]
  cases m.attr "id" with
  | none => exact .none
  | some id =>
    refine .some ⟨rfl, h.number 6 _ hactive (by rw [htag]; decide) rfl rfl,
      h.number 7 _ hactive (by rw [htag]; decide) rfl rfl,
      ?_, rfl, h.unmarked_left.trans h.unmarked_right.symm⟩
    rw [List.forall₂_map_left_iff, List.forall₂_map_right_iff]
    exact hchildren.imp fun _ _ => monitorValue_agrees

/-- Numbering related rows. -/
theorem forall₂_zipIdx {α β : Type} {R : α → β → Prop} {l : List α} {l' : List β}
    (h : List.Forall₂ R l l') (start : ℕ) :
    List.Forall₂ (fun p q => R p.1 q.1 ∧ p.2 = q.2) (l.zipIdx start) (l'.zipIdx start) := by
  induction h generalizing start with
  | nil => exact .nil
  | cons hab _ ih => exact .cons ⟨hab, rfl⟩ (ih (start + 1))

/-- Searching related rows. -/
theorem rel_find? {α β : Type} {R : α → β → Prop} {p : α → Bool} {q : β → Bool}
    {l : List α} {l' : List β} (hpq : ∀ a b, R a b → p a = q b) (h : List.Forall₂ R l l') :
    Option.Rel R (l.find? p) (l'.find? q) := by
  induction h with
  | nil => exact .none
  | @cons a b l l' hab _ ih =>
    rw [List.find?_cons, List.find?_cons, hpq a b hab]
    cases q b with
    | true => exact .some hab
    | false => exact ih

theorem parseMonitorControls_agrees {n m : Node}
    (h : List.Forall₂ (Agrees false "controls" true) n.children m.children) :
    List.Forall₂ ControlAgrees (parseMonitorControls n).controls (parseMonitorControls m).controls ∧
      (parseMonitorControls n).elements = (parseMonitorControls m).elements := by
  constructor
  · refine List.rel_filterMap (R := fun p q : Node × ℕ => Agrees false "controls" true p.1 q.1 ∧ p.2 = q.2) ?_
      (forall₂_zipIdx h 0)
    rintro ⟨c, i⟩ ⟨d, j⟩ ⟨hcd, hij⟩
    obtain rfl : i = j := hij
    exact monitorControl_agrees hcd i
  · show n.children.map _ = m.children.map _
    rw [← forall₂_view]
    exact h.imp fun _ _ hcd => by rw [hcd.unmarked_left, hcd.unmarked_right]

/-! ### A control -/

theorem ControlAgrees.address {c d : MonitorControl} (h : ControlAgrees c d) :
    monitorControlAddress c = monitorControlAddress d := by
  unfold monitorControlAddress
  have hraw := h.rawAddress
  generalize c.rawAddress = raw, d.rawAddress = raw' at hraw
  cases hraw with
  | none => rfl
  | some hst =>
    obtain ⟨number, hs, ht⟩ := hst
    simp only [orError, bind, Except.bind, hs, ht]

theorem ControlAgrees.delay {c d : MonitorControl} (h : ControlAgrees c d) :
    monitorControlDelay c = monitorControlDelay d := by
  unfold monitorControlDelay
  have hraw := h.rawDelay
  generalize c.rawDelay = raw, d.rawDelay = raw' at hraw
  cases hraw with
  | none => rfl
  | some hst =>
    obtain ⟨number, hs, ht⟩ := hst
    simp only [hs, ht]

theorem ValueAgrees.value16 {v w : MonitorValue} (h : ValueAgrees v w)
    (hvalue : v.elementName = "value") :
    monitorValue16 v = monitorValue16 w := by
  unfold monitorValue16
  have hraw := h.rawValue hvalue
  generalize v.rawValue = raw, w.rawValue = raw' at hraw
  cases hraw with
  | none => rfl
  | some hst =>
    obtain ⟨number, hs, ht⟩ := hst
    simp only [orError, bind, Except.bind, hs, ht]

theorem findMonitorValue_agrees {c d : MonitorControl} (h : ControlAgrees c d)
    (optionValue : OptionValue) :
    Option.Rel (fun p q : MonitorValue × ℕ => ValueAgrees p.1 q.1 ∧ p.2 = q.2)
      (findMonitorValue c optionValue)
      (findMonitorValue d optionValue) := by
  refine rel_find? ?_ (forall₂_zipIdx h.values 0)
  rintro ⟨v, i⟩ ⟨w, j⟩ ⟨hvw, -⟩
  show decide (v.elementName = "value" ∧ v.id = _) = decide (w.elementName = "value" ∧ w.id = _)
  rw [← hvw.elementName]
  by_cases hvalue : v.elementName = "value"
  · rw [hvw.id hvalue]
  · simp [hvalue]

section Translated

variable (translate : String → List UInt8)

theorem addValue_agrees {c d : MonitorControl} (h : ControlAgrees c d)
    (optionControl : OptionControl) (found : List DbValue × List Bool) (optionValue : OptionValue) :
    addValue translate optionControl c found optionValue =
      addValue translate optionControl d found optionValue := by
  have hfound := findMonitorValue_agrees h optionValue
  unfold addValue
  cases hc : findMonitorValue c optionValue with
  | none =>
    rw [hc] at hfound
    cases hd : findMonitorValue d optionValue with
    | none => rfl
    | some q => rw [hd] at hfound; cases hfound
  | some p =>
    rw [hc] at hfound
    cases hd : findMonitorValue d optionValue with
    | none => rw [hd] at hfound; cases hfound
    | some q =>
      rw [hd] at hfound
      cases hfound with
      | some hpq =>
        have hvalue : p.1.elementName = "value" := by
          have := List.find?_some hc
          simp only [decide_eq_true_eq] at this
          exact this.1
        simp only [hpq.1.value16 hvalue, hpq.2]

theorem getValueList_agrees {c d : MonitorControl} (h : ControlAgrees c d)
    (optionControl : OptionControl) (faulttolerance : Bool) :
    getValueList translate optionControl c faulttolerance =
      getValueList translate optionControl d faulttolerance := by
  have hstep : addValue translate optionControl c = addValue translate optionControl d :=
    funext fun found => funext (addValue_agrees translate h optionControl found)
  have hmarks : (c.values.map fun _ => false) = d.values.map fun _ => false := by
    rw [List.map_const', List.map_const', h.values.length_eq]
  rw [getValueList, hstep, hmarks]
  rfl

theorem matchedControl_agrees {c d : MonitorControl} (h : ControlAgrees c d)
    (optionControl : OptionControl) (address : UInt8) (faulttolerance : Bool) :
    matchedControl translate optionControl c address faulttolerance =
      matchedControl translate optionControl d address faulttolerance := by
  rw [matchedControl, matchedControl, controlValues, controlValues,
    getValueList_agrees translate h, h.delay]

theorem blockControl_agrees {c d : MonitorControl} (h : ControlAgrees c d) (options : OptionsDb)
    (state : Table × List Bool) : blockControl options state c = blockControl options state d := by
  rw [blockControl, blockControl, h.id, h.address, h.childIndex]

theorem addControl_agrees {cs ds : List MonitorControl} (h : List.Forall₂ ControlAgrees cs ds)
    (mode : LoadMode) (state : Table × List Bool) (option : ℕ × ℕ × OptionControl) :
    addControl translate cs mode state option = addControl translate ds mode state option := by
  obtain ⟨groupIndex, subgroupIndex, optionControl⟩ := option
  have hfind := rel_find? (p := fun control => decide (control.id = optionControl.id))
    (q := fun control => decide (control.id = optionControl.id)) (fun c d hcd => by rw [hcd.id]) h
  simp only [addControl]
  generalize cs.find? _ = found, ds.find? _ = found' at hfind
  cases hfind with
  | none => rfl
  | some hcd => simp only [hcd.childIndex, hcd.unavailable, hcd.address,
    matchedControl_agrees translate hcd]

/-! ### What no load reads of a vocabulary -/

theorem forget_controls (options : OptionsDb) :
    (forget options).controls = options.controls.map forgetControl := by
  simp only [OptionsDb.controls, forget, forgetGroup, forgetSubgroup, List.flatMap_map,
    List.map_flatMap]

theorem forget_blocks (options : OptionsDb) (id : String) :
    (forget options).blocks id = options.blocks id := by
  rw [OptionsDb.blocks, forget_controls, List.any_map]
  rfl

theorem forget_indexedControls (options : OptionsDb) :
    (forget options).indexedControls =
      options.indexedControls.map fun (groupIndex, subgroupIndex, control) =>
        (groupIndex, subgroupIndex, forgetControl control) := by
  simp only [OptionsDb.indexedControls, forget, List.zipIdx_map, List.flatMap_map,
    List.map_flatMap, Prod.map_fst, Prod.map_snd, id, forgetGroup, forgetSubgroup, List.map_map, Function.comp_def]

theorem forget_groups (options : OptionsDb) :
    groupsFromOptions translate (forget options) = groupsFromOptions translate options := by
  simp only [groupsFromOptions, forget, List.map_map, Function.comp_def, forgetGroup,
    forgetSubgroup]

theorem matchedControl_forget (optionControl : OptionControl) (monitorControl : MonitorControl)
    (address : UInt8) (faulttolerance : Bool) :
    matchedControl translate (forgetControl optionControl) monitorControl address faulttolerance =
      matchedControl translate optionControl monitorControl address faulttolerance := by
  have hvalues : getValueList translate (forgetControl optionControl) monitorControl faulttolerance =
      getValueList translate optionControl monitorControl faulttolerance := by
    unfold getValueList
    show List.foldlM _ _ (optionControl.values.map forgetValue) >>= _ = _
    rw [List.foldlM_map]
    rfl
  rw [matchedControl, matchedControl, controlValues, controlValues, hvalues]
  rfl

theorem addControlsFromOptions_forget (options : OptionsDb)
    (monitorControls : ParsedMonitorControls) (mode : LoadMode) (table : Table) :
    addControlsFromOptions translate (forget options) monitorControls mode table =
      addControlsFromOptions translate options monitorControls mode table := by
  have hblock : blockControl (forget options) = blockControl options := by
    funext state monitorControl
    rw [blockControl, blockControl, forget_blocks]
  have hadd : ∀ state option, addControl translate monitorControls.controls mode state
      (option.1, option.2.1, forgetControl option.2.2) =
        addControl translate monitorControls.controls mode state option := by
    rintro state ⟨groupIndex, subgroupIndex, optionControl⟩
    simp only [addControl, matchedControl_forget]
    rfl
  rw [addControlsFromOptions, addControlsFromOptions, hblock, forget_indexedControls]
  simp only [List.foldlM_map, hadd]

/-! ### A block -/

/-- **`controls` blocks that agree do the same to a table**, over vocabularies that differ
in the texts no load reads. -/
theorem controlsBlock_agrees {options options' : OptionsDb}
    (hoptions : forget options = forget options') {n m : Node} (h : Agrees false "monitor" true n m)
    (htag : n.tag = "controls") (mode : LoadMode) (table : Table) :
    controlsBlock translate options mode n table = controlsBlock translate options' mode m table := by
  have hchildren := h.step.children
  rw [htag, show executablePath "controls" "monitor" false true = true from rfl] at hchildren
  obtain ⟨hcontrols, helements⟩ := parseMonitorControls_agrees hchildren
  have hplain : ∀ {node : Node}, node.hasRequired = false →
      (node.children.any fun child => child.tag ≠ "control" && child.hasRequired) = false := by
    intro node hnode
    rw [List.any_eq_false]
    intro child hc hmarked
    rw [Bool.and_eq_true] at hmarked
    rw [Node.hasRequired_of_mem hc hmarked.2] at hnode
    cases hnode
  have hreserve : ∀ table, n.children.foldlM reserveControl table = m.children.foldlM reserveControl table :=
    foldlM_congr₂ hchildren fun c d hcd table => by
      rw [reserveControl, reserveControl, hcd.unmarked_left, hcd.unmarked_right]
      rfl
  have hadd : ∀ table, addControlsFromOptions translate options (parseMonitorControls n) mode table =
      addControlsFromOptions translate options' (parseMonitorControls m) mode table := by
    intro table
    rw [← addControlsFromOptions_forget, hoptions, addControlsFromOptions_forget]
    have hstep : addControl translate (parseMonitorControls n).controls mode =
        addControl translate (parseMonitorControls m).controls mode :=
      funext fun state => funext (addControl_agrees translate hcontrols mode state)
    rw [addControlsFromOptions, addControlsFromOptions, helements, hstep,
      foldlM_congr₂ hcontrols fun c d hcd state => blockControl_agrees hcd options' state]
  rw [controlsBlock, controlsBlock, hplain h.unmarked_left, hplain h.unmarked_right, hreserve]
  simp only [hadd]

/-! ### A profile -/

theorem patchCaps_agrees (n m : Node) (message : String) (edit : Edit) (patch : Option String)
    (table : Table) :
    Matches (patchCaps n message edit patch table) (patchCaps m message edit patch table) Eq := by
  cases patch with
  | none => exact rfl
  | some patch =>
    refine Matches.bind (R := Eq) (Matches.orError ?_) fun caps _ heq => by rw [heq]; exact rfl
    cases applyCaps patch table.caps edit with
    | none => exact .none
    | some caps => exact .some rfl

theorem capsElement_agrees {n m : Node} (hadd : n.attr "add" = m.attr "add")
    (hremove : n.attr "remove" = m.attr "remove") (table : Table) :
    Matches (capsElement n table) (capsElement m table) Eq := by
  unfold capsElement
  rw [hadd, hremove]
  refine (Matches.reject (R := Eq) rfl rfl).bind fun _ _ _ => ?_
  refine (patchCaps_agrees n m _ _ _ table).bind fun table _ heq => ?_
  subst heq
  exact patchCaps_agrees n m _ _ _ table

theorem loadInit_agrees (n m : Node) (init : String) : Matches (loadInit n init)
    (loadInit m init) Eq := by
  unfold loadInit
  split_ifs
  · exact rfl
  · exact rfl
  · exact .error

theorem openName_agrees {n m : Node} (h : n.attr "name" = m.attr "name") (build : MonitorBuild) :
    Matches (openName n build) (openName m build) Eq := by
  unfold openName
  split
  · exact rfl
  · rw [h]
    refine Matches.bind (R := Eq) (Matches.orError ?_) fun name _ heq => by rw [heq]; exact rfl
    cases m.attr "name" with
    | none => exact .none
    | some name => exact .some rfl

theorem openInit_agrees {n m : Node} (h : n.attr "init" = m.attr "init") (mode : LoadMode)
    (build : MonitorBuild) :
    Matches (openInit mode n build) (openInit mode m build) Eq := by
  unfold openInit
  rw [h]
  split
  · split
    · exact rfl
    · refine (loadInit_agrees n m _).bind fun init _ heq => ?_
      subst heq
      exact .refl fun _ => rfl
  · exact rfl

theorem openRoot_agrees {n m : Node} (h : Agrees false "" true n m) (htag : n.tag = "monitor")
    (mode : LoadMode) (pnpname : String) (build : MonitorBuild) :
    Matches (openRoot mode pnpname n build) (openRoot mode pnpname m build) Eq := by
  have hattr : ∀ id, id ∈ [0, 5, 14, 15] → ∀ name, nameOf attributes id = some name →
      (attributeIntegerBounds id).isSome = false → n.attr name = m.attr name := fun id hid name =>
    h.text id _ (by rw [htag]; rfl) (by rw [htag]; exact hid)
  unfold openRoot
  rw [h.step.required.1, h.step.required.2, ← h.step.tag, hattr 14 (by decide) "caps" rfl rfl,
    hattr 15 (by decide) "include" rfl rfl]
  refine (Matches.reject (R := Eq) rfl rfl).bind fun _ _ _ => ?_
  refine (Matches.reject (R := Eq) rfl rfl).bind fun _ _ _ => ?_
  refine (openName_agrees (hattr 0 (by decide) "name" rfl rfl) build).bind fun build _ heq => ?_
  subst heq
  refine (openInit_agrees (hattr 5 (by decide) "init" rfl rfl) mode build).bind fun build _ heq => ?_
  subst heq
  exact .refl fun _ => rfl

/-- Contexts that agree: vocabularies that differ in the texts no load reads, without
unavailable controls, and profiles that agree. -/
structure ContextAgrees (context context' : DbContext) : Prop where
  options : forget context.options = forget context'.options
  available : ∀ control ∈ context.options.controls, control.unavailable = false
  profiles : ∀ id : String, Option.Rel (fun r r' : Except String Node => ∃ n m, r = .ok n ∧ r' = .ok m ∧
    Agrees false "" true n m ∧ n.tag = "monitor") context.profiles[id]? context'.profiles[id]?
  monitorFile : context.monitorFile = none ∧ context'.monitorFile = none

theorem ContextAgrees.resolve {context context' : DbContext} (h : ContextAgrees context context')
    (pnpname : String) (topLevel : Bool) :
    Matches (context.resolve pnpname topLevel) (context'.resolve pnpname topLevel) fun n m =>
      Agrees false "" true n m ∧ n.tag = "monitor" := by
  have hprofile := h.profiles pnpname
  simp only [DbContext.resolve, DbContext.root?, h.monitorFile.1, h.monitorFile.2,
    Option.filter_none]
  generalize context.profiles[pnpname]? = found, context'.profiles[pnpname]? = found' at hprofile
  cases hprofile with
  | none => exact .error
  | some hrel =>
    obtain ⟨n, m, rfl, rfl, hnm⟩ := hrel
    exact hnm

section Visit

variable {context context' : DbContext} {mode : LoadMode} {visit visit' : String → Assembly → Except DbError Assembly}

theorem profileChild_agrees (hoptions : forget context.options = forget context'.options)
    (hvisit : ∀ file assembly, Matches (visit file assembly) (visit' file assembly) Eq) {n m : Node}
    (h : Agrees false "monitor" true n m) (walk : Walk) :
    Matches (profileChild translate context mode visit walk n)
      (profileChild translate context' mode visit' walk m) Eq := by
  unfold profileChild
  rw [h.step.required.1, h.step.required.2, h.unmarked_left, h.unmarked_right, ← h.step.tag]
  refine (Matches.reject (R := Eq) rfl rfl).bind fun _ _ _ => ?_
  split
  · rename_i htag
    have hactive : executablePath n.tag "monitor" false true = true := by rw [htag]; rfl
    have hadd := h.text 10 "add" hactive (by rw [htag]; decide) rfl rfl
    have hremove := h.text 11 "remove" hactive (by rw [htag]; decide) rfl rfl
    refine (capsElement_agrees hadd hremove walk.assembly.table).bind fun table _ heq => ?_
    subst heq
    exact rfl
  split
  · rename_i htag
    have hfile := h.text 9 "file" (by rw [htag]; rfl) (by rw [htag]; decide) rfl rfl
    refine Matches.bind (R := Eq) ?_ fun file _ heq => ?_
    · rw [requiredAttr, requiredAttr, mapError_orError, mapError_orError, hfile]
      refine Matches.orError ?_
      cases m.attr "file" with
      | none => exact .none
      | some file => exact .some rfl
    · subst heq
      refine (hvisit file walk.assembly).bind fun assembly _ heq => ?_
      subst heq
      exact rfl
  split
  · rename_i htag
    refine (Matches.reject (R := Eq) rfl rfl).bind fun _ _ _ => ?_
    rw [controlsBlock_agrees translate hoptions h htag]
    exact .refl fun _ => rfl
  · exact (Matches.reject (R := Eq) rfl rfl).bind fun _ _ _ => rfl

theorem interpretRoot_agrees (hoptions : forget context.options = forget context'.options)
    (hvisit : ∀ file assembly, Matches (visit file assembly) (visit' file assembly) Eq) {n m : Node}
    (h : Agrees false "" true n m) (htag : n.tag = "monitor") (pnpname : String)
    (assembly : Assembly) :
    Matches (interpretRoot translate context mode visit pnpname n assembly)
      (interpretRoot translate context' mode visit' pnpname m assembly) Eq := by
  have hchildren := h.step.children
  rw [htag, show executablePath "monitor" "" false true = true from rfl] at hchildren
  refine (openRoot_agrees h htag mode pnpname assembly.build).bind fun build _ heq => ?_
  subst heq
  have hwalk := Matches.foldlM (f := profileChild translate context mode visit)
    (g := profileChild translate context' mode visit') (R := Eq) hchildren (fun c d hcd walk walk' heq => by
      subst heq
      exact profileChild_agrees translate hoptions hvisit hcd walk)
    (b := ⟨{ assembly with build := build }, false, false⟩) rfl
  refine hwalk.bind fun walk _ heq => ?_
  subst heq
  exact .refl fun _ => rfl

end Visit

/-- **Profiles of contexts that agree are assembled alike.** -/
theorem createDbProtected_agrees {context context' : DbContext} (h : ContextAgrees context context')
    (mode : LoadMode) (pnpname : String) (recursionlevel : ℕ) (assembly : Assembly) :
    Matches (createDbProtected translate context mode pnpname recursionlevel assembly)
      (createDbProtected translate context' mode pnpname recursionlevel assembly) Eq := by
  induction hdepth : 16 - recursionlevel generalizing pnpname recursionlevel assembly with
  | zero =>
    rw [createDbProtected, createDbProtected]
    refine (Matches.refl (R := Eq) fun _ => rfl).bind fun build _ _ => ?_
    rw [dif_pos (by omega), dif_pos (by omega)]
    exact .error
  | succ depth ih =>
    rw [createDbProtected, createDbProtected]
    refine (Matches.refl (R := Eq) fun _ => rfl).bind fun build _ heq => ?_
    subst heq
    rw [dif_neg (by omega), dif_neg (by omega)]
    refine (h.resolve pnpname _).bind fun n m hnm => ?_
    exact interpretRoot_agrees translate h.options
      (fun file assembly => ih file (recursionlevel + 1) assembly (by omega))
      hnm.1 hnm.2 pnpname _

/-! ### A load -/

theorem ContextAgrees.available_right {context context' : DbContext}
    (h : ContextAgrees context context') :
    ∀ control ∈ context'.options.controls, control.unavailable = false := by
  intro control hc
  have hmem : forgetControl control ∈ (forget context.options).controls := by
    rw [h.options, forget_controls]
    exact List.mem_map_of_mem hc
  rw [forget_controls] at hmem
  obtain ⟨control', hc', heq⟩ := List.mem_map.mp hmem
  have hsame : (forgetControl control').unavailable = (forgetControl control).unavailable := by rw [heq]
  exact hsame.symm.trans (h.available control' hc')

/-- A context of unmarked profiles and available controls requires nothing. -/
theorem not_profileHasRequirements {context : DbContext}
    (havailable : ∀ control ∈ context.options.controls, control.unavailable = false)
    (hplain : ∀ key root, context.rootOf key = some root → root.hasRequired = false)
    (pnpname : String) :
    profileHasRequirements context pnpname = false := by
  rw [← Bool.not_eq_true, profileHasRequirements_iff]
  rintro ⟨key, root, -, hroot, hmarked | ⟨-, -, -, -, -, -, control, hc, -, hunavailable⟩⟩
  · rw [← Node.hasRequired_iff, hplain key root hroot] at hmarked
    cases hmarked
  · rw [havailable control hc] at hunavailable
    cases hunavailable

theorem ContextAgrees.not_requires {context context' : DbContext}
    (h : ContextAgrees context context') (pnpname : String) :
    profileHasRequirements context pnpname = false ∧
    profileHasRequirements context' pnpname = false := by
  constructor
  · refine not_profileHasRequirements h.available (fun key root hroot => ?_) pnpname
    have hprofile := h.profiles key.1
    simp only [DbContext.rootOf, DbContext.root?, h.monitorFile.1, Option.filter_none] at hroot
    generalize context.profiles[key.1]? = found, context'.profiles[key.1]? = found' at hprofile hroot
    cases hprofile with
    | none => cases hroot
    | some hrel =>
      obtain ⟨n, m, rfl, rfl, hnm, -⟩ := hrel
      cases hroot
      exact hnm.unmarked_left
  · refine not_profileHasRequirements h.available_right (fun key root hroot => ?_) pnpname
    have hprofile := h.profiles key.1
    simp only [DbContext.rootOf, DbContext.root?, h.monitorFile.2, Option.filter_none] at hroot
    generalize context.profiles[key.1]? = found, context'.profiles[key.1]? = found' at hprofile hroot
    cases hprofile with
    | none => cases hroot
    | some hrel =>
      obtain ⟨n, m, rfl, rfl, hnm, -⟩ := hrel
      cases hroot
      exact hnm.unmarked_right

/-- **Loads of contexts that agree have one outcome**: the same tree and CAPS, or none,
and the same flag. -/
theorem createDb_agrees {context context' : DbContext} (h : ContextAgrees context context')
    (pnpname : String) (caps : Caps) (faulttolerance : Bool) :
    createDb translate (some context) pnpname caps faulttolerance =
      createDb translate (some context') pnpname caps faulttolerance := by
  obtain ⟨hfree, hfree'⟩ := h.not_requires pnpname
  have htolerates : context.tolerates pnpname faulttolerance = context'.tolerates pnpname faulttolerance := by
    simp only [DbContext.tolerates, h.monitorFile.1, h.monitorFile.2]
  have hstart : Assembly.start translate context.options caps = Assembly.start translate context'.options caps := by
    rw [Assembly.start, Assembly.start, ← forget_groups, h.options, forget_groups]
  have hmatch : Matches (assemble translate context pnpname caps faulttolerance)
      (assemble translate context' pnpname caps faulttolerance) Eq := by
    rw [assemble, assemble, hstart, htolerates]
    exact createDbProtected_agrees translate h _ pnpname 0 _
  have hflag := @createDb_requirementsFailed translate context pnpname caps faulttolerance
  have hflag' := @createDb_requirementsFailed translate context' pnpname caps faulttolerance
  simp only [createDb, hfree, hfree', htolerates] at hflag hflag' ⊢
  cases hx : assemble translate context pnpname caps faulttolerance with
  | error e =>
    cases hy : assemble translate context' pnpname caps faulttolerance with
    | error e' =>
      simp only [hx, hy, forall_const] at hflag hflag' ⊢
      rw [hflag, hflag']
    | ok assembly' => rw [hx, hy] at hmatch; exact hmatch.elim
  | ok assembly =>
    cases hy : assemble translate context' pnpname caps faulttolerance with
    | error e' => rw [hx, hy] at hmatch; exact hmatch.elim
    | ok assembly' =>
      rw [hx, hy] at hmatch
      obtain rfl : assembly = assembly' := hmatch
      rfl

end Translated

end DdcControl.Dbgen
