import DdcControl.Database.Session
import DdcControl.Wire.Schema

/-!
# Nodes that mean the same

Two nodes agree when a loader that goes through them side by side finds the same tags
and the same executable attributes: the same texts, or texts of one number. It may find
other attributes that differ, since it executes none of them. `Agrees` is the largest
such relation, so it is shown by any relation that is closed under one step
(`Agrees.step`, `Agrees.of_closed`).

## What is proved

* `Agrees.unmarked` — nodes that agree have no required semantics.
* `loadOptionsNode_agrees` — options nodes that agree both fail to load, or load as
  vocabularies that differ in the texts no load reads.
-/

namespace DdcControl.Dbgen

open Fallible Database Wire

/-! ### Agreement -/

/-- Texts of one number, in the grammar of an attribute: delays are decimal. -/
def SameNumber (id : ℕ) (s t : String) : Prop :=
  if id = 7 then ∃ n, parseIntDecimal s = some n ∧ parseIntDecimal t = some n
  else ∃ n, parseInteger s = .ok n ∧ parseInteger t = .ok n

/-- Attributes that mean the same: texts of one number, if the attribute is numeric. -/
def SameAttribute (id : ℕ) (a b : Option String) : Prop :=
  if (attributeIntegerBounds id).isSome then Option.Rel (SameNumber id) a b else a = b

/-- One step of agreement: under a parent, with an executed path above or not, the nodes
have one tag and no mark, their executable attributes mean the same, and their children
are related. -/
structure AgreesStep (inOptions : Bool) (R : String → Bool → Node → Node → Prop) (parent : String) (ancestor : Bool)
    (n m : Node) : Prop where
  tag : n.tag = m.tag
  required : n.required = false ∧ m.required = false
  attrs : executablePath n.tag parent inOptions ancestor = true → ∀ id ∈ executableAttributes n.tag parent inOptions,
    ∀ name, nameOf attributes id = some name → SameAttribute id (n.attr name) (m.attr name)
  children : List.Forall₂ (R n.tag (executablePath n.tag parent inOptions ancestor)) n.children m.children

/-- Nodes that mean the same to a loader. -/
def Agrees (inOptions : Bool) (parent : String) (ancestor : Bool) (n m : Node) : Prop :=
  ∃ R : String → Bool → Node → Node → Prop,
    (∀ parent ancestor n m, R parent ancestor n m → AgreesStep inOptions R parent ancestor n m) ∧ R parent ancestor n m

/-- **Agreement by a closed relation.** -/
theorem Agrees.of_closed {inOptions : Bool} {R : String → Bool → Node → Node → Prop}
    (hR : ∀ parent ancestor n m, R parent ancestor n m → AgreesStep inOptions R parent ancestor n m)
    {parent : String} {ancestor : Bool} {n m : Node} (h : R parent ancestor n m) :
    Agrees inOptions parent ancestor n m := ⟨R, hR, h⟩

theorem Agrees.step {inOptions : Bool} {parent : String} {ancestor : Bool} {n m : Node}
    (h : Agrees inOptions parent ancestor n m) :
    AgreesStep inOptions (Agrees inOptions) parent ancestor n m := by
  obtain ⟨R, hR, h⟩ := h
  obtain ⟨htag, hrequired, hattrs, hchildren⟩ := hR _ _ _ _ h
  exact ⟨htag, hrequired, hattrs, hchildren.imp fun _ _ h => ⟨R, hR, h⟩⟩

section Agrees

variable {inOptions : Bool} {parent : String} {ancestor : Bool} {n m : Node}

/-- A text attribute that is executed is the same. -/
theorem Agrees.text (h : Agrees inOptions parent ancestor n m) (id : ℕ) (name : String)
    (hactive : executablePath n.tag parent inOptions ancestor = true)
    (hid : id ∈ executableAttributes n.tag parent inOptions)
    (hname : nameOf attributes id = some name)
    (htext : (attributeIntegerBounds id).isSome = false) : n.attr name = m.attr name := by
  have := h.step.attrs hactive id hid name hname
  rwa [SameAttribute, if_neg (by simpa using htext)] at this

/-- A numeric attribute that is executed is the same number. -/
theorem Agrees.number (h : Agrees inOptions parent ancestor n m) (id : ℕ) (name : String)
    (hactive : executablePath n.tag parent inOptions ancestor = true)
    (hid : id ∈ executableAttributes n.tag parent inOptions)
    (hname : nameOf attributes id = some name)
    (hnumber : (attributeIntegerBounds id).isSome = true) :
    Option.Rel (SameNumber id) (n.attr name) (m.attr name) := by
  have := h.step.attrs hactive id hid name hname
  rwa [SameAttribute, if_pos hnumber] at this

theorem Agrees.unmarked_left (h : Agrees inOptions parent ancestor n m) :
    n.hasRequired = false := by
  rw [← Bool.not_eq_true, Node.hasRequired_iff]
  rintro ⟨n', hn', hreq⟩
  induction hn' generalizing parent ancestor m with
  | self => exact absurd h.step.required.1 (by simp [hreq])
  | child hc _ ih =>
    obtain ⟨m', -, hchild⟩ := exists_of_forall₂ h.step.children hc
    exact ih hchild

theorem Agrees.unmarked_right (h : Agrees inOptions parent ancestor n m) :
    m.hasRequired = false := by
  rw [← Bool.not_eq_true, Node.hasRequired_iff]
  rintro ⟨m', hm', hreq⟩
  induction hm' generalizing parent ancestor n with
  | self => exact absurd h.step.required.2 (by simp [hreq])
  | child hc _ ih =>
    obtain ⟨n', -, hchild⟩ := exists_of_forall₂ h.step.children.flip hc
    exact ih hchild

/-- The children with a tag agree pairwise. -/
theorem Agrees.childrenTagged (h : Agrees inOptions parent ancestor n m) (tag : String) :
    List.Forall₂ (fun c d => Agrees inOptions n.tag (executablePath n.tag parent inOptions ancestor) c d ∧ c.tag = tag)
      (n.childrenTagged tag) (m.childrenTagged tag) := by
  have hchildren := h.step.children
  unfold Node.childrenTagged
  generalize n.children = cs, m.children = ds at hchildren
  induction hchildren with
  | nil => exact .nil
  | @cons c d cs ds hcd _ ih =>
    rw [List.filter_cons, List.filter_cons, ← hcd.step.tag]
    split
    · rename_i htag
      exact .cons ⟨hcd, by simpa using htag⟩ ih
    · exact ih

end Agrees

/-! ### Vocabularies -/

/-- An option value without the text no load reads. -/
def forgetValue (value : OptionValue) : OptionValue := { value with rawValue := none }

/-- An options control without the texts no load reads. -/
def forgetControl (control : OptionControl) : OptionControl :=
  { control with rawAddress := none, values := control.values.map forgetValue }

/-- An options subgroup without the texts no load reads. -/
def forgetSubgroup (subgroup : OptionSubgroup) : OptionSubgroup :=
  { subgroup with controls := subgroup.controls.map forgetControl }

/-- An options group without the texts no load reads. -/
def forgetGroup (group : OptionGroup) : OptionGroup :=
  { group with subgroups := group.subgroups.map forgetSubgroup }

/-- A vocabulary without the texts no load reads. -/
def forget (options : OptionsDb) : OptionsDb := ⟨options.groups.map forgetGroup⟩

/-- Collected results that agree up to a view have one list of views. -/
theorem forall₂_view {α β : Type} {view : α → β} {l l' : List α} :
    List.Forall₂ (fun a b => view a = view b) l l' ↔ l.map view = l'.map view := by
  rw [← List.forall₂_eq_eq_eq, List.forall₂_map_left_iff, List.forall₂_map_right_iff]

theorem requiredAttr_matches {n m : Node} {name : String} (h : n.attr name = m.attr name) :
    Matches (requiredAttr n name) (requiredAttr m name) Eq := by
  refine Matches.orError ?_
  rw [h]
  cases m.attr name with
  | none => exact .none
  | some s => exact .some rfl

theorem requiredOutside_eq_false {node : Node} (h : node.hasRequired = false) (inner : String) :
    node.requiredOutside inner = false := by
  rw [node.hasRequired_eq, Bool.or_eq_false_iff, List.any_eq_false] at h
  rw [Node.requiredOutside, h.1, Bool.false_or, List.any_eq_false]
  exact fun child hc => by simp [h.2 child hc]

theorem rejectOutside_matches {inOptions : Bool} {parent : String} {ancestor : Bool} {n m : Node}
    (h : Agrees inOptions parent ancestor n m) (inner e : String) :
    Matches (reject (n.requiredOutside inner) e) (reject (m.requiredOutside inner) e) Eq := by
  rw [requiredOutside_eq_false h.unmarked_left, requiredOutside_eq_false h.unmarked_right]
  exact rfl

theorem loadOptionValue_agrees {n m : Node} (h : Agrees true "control" true n m)
    (htag : n.tag = "value") :
    Matches (loadOptionValue n) (loadOptionValue m) fun v w => forgetValue v = forgetValue w := by
  have hid := h.text 1 "id" (by rw [htag]; rfl) (by rw [htag]; decide) rfl rfl
  have hname := h.text 0 "name" (by rw [htag]; rfl) (by rw [htag]; decide) rfl rfl
  refine (requiredAttr_matches hid).bind fun id _ heq => ?_
  subst heq
  rw [hname]
  exact rfl

theorem loadRefresh_matches {n m : Node} (h : n.attr "refresh" = m.attr "refresh") :
    Matches (loadRefresh n) (loadRefresh m) Eq := by
  unfold loadRefresh
  rw [h]
  split
  · exact rfl
  · split_ifs
    · exact rfl
    · exact rfl
    · exact .error

theorem loadControlType_matches {n m : Node} (h : n.attr "type" = m.attr "type") :
    Matches (loadControlType n) (loadControlType m) Eq := by
  refine (requiredAttr_matches h).bind fun controlType _ heq => ?_
  subst heq
  split_ifs
  · exact rfl
  · exact rfl
  · exact rfl
  · exact .error

theorem loadOptionControl_agrees {n m : Node} (h : Agrees true "subgroup" true n m)
    (htag : n.tag = "control") :
    Matches (loadOptionControl n)
      (loadOptionControl m) fun c d => forgetControl c = forgetControl d := by
  have hactive : executablePath n.tag "subgroup" true true = true := by rw [htag]; rfl
  have hattr : ∀ id, id ∈ [0, 1, 2, 3] → ∀ name, nameOf attributes id = some name →
      (attributeIntegerBounds id).isSome = false → n.attr name = m.attr name := fun id hid name =>
    h.text id _ hactive (by rw [htag]; exact hid)
  have hchildren := h.childrenTagged "value"
  rw [hactive, htag] at hchildren
  unfold loadOptionControl
  rw [h.unmarked_left, h.unmarked_right]
  refine (loadRefresh_matches (hattr 3 (by decide) _ rfl rfl)).bind fun refresh _ heq => ?_
  subst heq
  refine (loadControlType_matches (hattr 2 (by decide) _ rfl rfl)).bind fun controlType _ heq => ?_
  subst heq
  refine (requiredAttr_matches (hattr 1 (by decide) _ rfl rfl)).bind fun id _ heq => ?_
  subst heq
  refine (requiredAttr_matches (hattr 0 (by decide) _ rfl rfl)).bind fun name _ heq => ?_
  subst heq
  refine (Matches.mapM hchildren fun _ _ h => loadOptionValue_agrees h.1 h.2).bind fun values values' hvalues => ?_
  rw [forall₂_view] at hvalues
  show forgetControl _ = forgetControl _
  simp only [forgetControl, hvalues]

theorem loadOptionSubgroup_agrees {n m : Node} (h : Agrees true "group" true n m)
    (htag : n.tag = "subgroup") :
    Matches (loadOptionSubgroup n)
      (loadOptionSubgroup m) fun s t => forgetSubgroup s = forgetSubgroup t := by
  have hactive : executablePath n.tag "group" true true = true := by rw [htag]; rfl
  have hname := h.text 0 "name" hactive (by rw [htag]; decide) rfl rfl
  have hpattern := h.text 4 "pattern" hactive (by rw [htag]; decide) rfl rfl
  have hchildren := h.childrenTagged "control"
  rw [hactive, htag] at hchildren
  refine (rejectOutside_matches h _ _).bind fun _ _ _ => ?_
  refine (requiredAttr_matches hname).bind fun name _ heq => ?_
  subst heq
  refine (Matches.mapM hchildren fun _ _ h => loadOptionControl_agrees h.1 h.2).bind
    fun controls controls' hcontrols => ?_
  rw [forall₂_view] at hcontrols
  rw [hpattern]
  show forgetSubgroup _ = forgetSubgroup _
  simp only [forgetSubgroup, hcontrols]

theorem loadOptionGroup_agrees {n m : Node} (h : Agrees true "options" true n m)
    (htag : n.tag = "group") :
    Matches (loadOptionGroup n) (loadOptionGroup m) fun g g' => forgetGroup g = forgetGroup g' := by
  have hactive : executablePath n.tag "options" true true = true := by rw [htag]; rfl
  have hname := h.text 0 "name" hactive (by rw [htag]; decide) rfl rfl
  have hchildren := h.childrenTagged "subgroup"
  rw [hactive, htag] at hchildren
  refine (rejectOutside_matches h _ _).bind fun _ _ _ => ?_
  refine (requiredAttr_matches hname).bind fun name _ heq => ?_
  subst heq
  refine (Matches.mapM hchildren fun _ _ h => loadOptionSubgroup_agrees h.1 h.2).bind
    fun subgroups subgroups' hsubgroups => ?_
  rw [forall₂_view] at hsubgroups
  show forgetGroup _ = forgetGroup _
  simp only [forgetGroup, hsubgroups]

/-- The database version is read as a number. -/
theorem checkDbVersion_agrees {n m : Node}
    (hversion : Option.Rel (SameNumber 12) (n.attr "dbversion") (m.attr "dbversion"))
    (hdate : n.attr "date" = m.attr "date") : Matches (checkDbVersion n) (checkDbVersion m) Eq := by
  refine (Matches.orError hversion).bind fun s t hst => ?_
  rw [hdate]
  refine (Matches.refl (R := Eq) fun _ => rfl).bind fun _ _ _ => ?_
  obtain ⟨number, hs, ht⟩ := hst
  rw [loadVersion, loadVersion, hs, ht]
  exact .refl fun _ => rfl

/-- **Options nodes that agree** both fail to load, or load as vocabularies that differ in
the texts no load reads. -/
theorem loadOptionsNode_agrees {n m : Node} (h : Agrees true "" true n m)
    (htag : n.tag = "options") :
    Matches (loadOptionsNode n) (loadOptionsNode m) fun o o' => forget o = forget o' := by
  have hactive : executablePath n.tag "" true true = true := by rw [htag]; rfl
  have hversion := h.number 12 "dbversion" hactive (by rw [htag]; decide) rfl rfl
  have hdate := h.text 13 "date" hactive (by rw [htag]; decide) rfl rfl
  have hchildren := h.childrenTagged "group"
  rw [hactive, htag] at hchildren
  refine (rejectOutside_matches h _ _).bind fun _ _ _ => ?_
  rw [← h.step.tag]
  refine (Matches.refl (R := Eq) fun _ => rfl).bind fun _ _ _ => ?_
  refine (checkDbVersion_agrees hversion hdate).bind fun _ _ _ => ?_
  refine (Matches.mapM hchildren fun _ _ h => loadOptionGroup_agrees h.1 h.2).bind fun groups groups' hgroups => ?_
  rw [forall₂_view] at hgroups
  show forget _ = forget _
  simp only [forget, hgroups]

/-! ### Availability -/

/-- A vocabulary loaded from a node without marks has every control available. -/
theorem loadOptionsNode_available {root : Node} (hroot : root.hasRequired = false)
    {options : OptionsDb} (h : loadOptionsNode root = .ok options) :
    ∀ control ∈ options.controls, control.unavailable = false := by
  have hchild : ∀ {node child : Node} {tag : String}, node.hasRequired = false → child ∈ node.childrenTagged tag →
      child.hasRequired = false := by
    intro node child tag hnode hc
    rw [← Bool.not_eq_true] at hnode ⊢
    exact fun h => hnode (Node.hasRequired_of_mem (List.mem_filter.mp hc).1 h)
  simp only [loadOptionsNode, bind_eq_ok, mapM_eq_ok] at h
  obtain ⟨_, -, _, -, _, -, groups, hgroups, h⟩ := h
  cases h
  intro control hcontrol
  simp only [OptionsDb.controls, List.mem_flatMap] at hcontrol
  obtain ⟨group, hgroup, subgroup, hsubgroup, hcontrol⟩ := hcontrol
  obtain ⟨groupNode, hgroupNode, hload⟩ := exists_of_forall₂ hgroups.flip hgroup
  simp only [loadOptionGroup, bind_eq_ok, mapM_eq_ok] at hload
  obtain ⟨_, -, name, -, subgroups, hsubgroups, hload⟩ := hload
  cases hload
  obtain ⟨subgroupNode, hsubgroupNode, hload⟩ := exists_of_forall₂ hsubgroups.flip hsubgroup
  simp only [loadOptionSubgroup, bind_eq_ok, mapM_eq_ok] at hload
  obtain ⟨_, -, name', -, controls, hcontrols, hload⟩ := hload
  cases hload
  obtain ⟨controlNode, hcontrolNode, hload⟩ := exists_of_forall₂ hcontrols.flip hcontrol
  have hplain := hchild (hchild (hchild hroot hgroupNode) hsubgroupNode) hcontrolNode
  rw [loadOptionControl, hplain, if_neg (by decide)] at hload
  simp only [bind_eq_ok] at hload
  obtain ⟨_, -, _, -, _, -, _, -, _, -, hload⟩ := hload
  cases hload
  rfl

end DdcControl.Dbgen
