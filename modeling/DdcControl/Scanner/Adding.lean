import DdcControl.Database.Published
import DdcControl.Database.Validation
import DdcControl.Scanner.Mapped

/-!
# Adding generated controls

A generated profile maps controls with distinct ids and distinct addresses. The loader goes
through the vocabulary, not through the profile: every option with the id of an active
control publishes this control, so an id that the vocabulary has twice is published twice
in a full validation, and once in the ordinary mode, where its address is then in use.

## What is proved

* `Filled.step`, `filled_run` — what one option control does to the table, and what the
  loop over the vocabulary has done.
* `addControls_generated_iff` — the strict loader accepts the block and builds its controls,
  in both modes, exactly where the vocabulary has each id once and its values are
  `Unambiguous`.
-/

namespace DdcControl.Scanner

open Capabilities Database Fallible Lookup

/-! ### Active controls -/

theorem mem_activeAt {scan : Scan} {index : Options} {code : UInt8} {control : ActiveControl} :
    control ∈ activeAt scan index code ↔ control.code = code ∧ control.option ∈ index code ∧
      reasons scan index code control.option = [] ∧
      control.values = matchingValues control.option (scan.advertised code) := by
  rw [activeAt, List.mem_map]
  constructor
  · rintro ⟨candidate, hcandidate, rfl⟩
    obtain ⟨hmem, hreasons⟩ := List.mem_filter.mp hcandidate
    exact ⟨rfl, hmem, List.isEmpty_iff.mp hreasons, rfl⟩
  · rintro ⟨rfl, hmem, hreasons, hvalues⟩
    exact ⟨control.option, List.mem_filter.mpr ⟨hmem, List.isEmpty_iff.mpr hreasons⟩, by rw [← hvalues]⟩

theorem mem_activeControls {scan : Scan} {index : Options} {control : ActiveControl} :
    control ∈ activeControls scan index ↔ control.code ∈ scan.codes ∧
    control.option ∈ index control.code ∧
      reasons scan index control.code control.option = [] ∧
      control.values = matchingValues control.option (scan.advertised control.code) := by
  rw [activeControls, List.mem_flatMap]
  constructor
  · rintro ⟨code, hcode, hcontrol⟩
    obtain ⟨rfl, hcontrol⟩ := mem_activeAt.mp hcontrol
    exact ⟨hcode, hcontrol⟩
  · exact fun h => ⟨control.code, h.1, mem_activeAt.mpr ⟨rfl, h.2⟩⟩

/-- What no reason against a candidate means for the vocabulary: it is alone at its address,
its id is nowhere else, and it is no command. -/
theorem reasons_eq_nil {scan : Scan} {index : Options} {code : UInt8} {candidate : OptionControl}
    (h : reasons scan index code candidate = []) :
    (index code).length ≤ 1 ∧ (∀ other ≠ code, ∀ control ∈ index other, control.id ≠ candidate.id) ∧
      candidate.controlType ≠ .command := by
  simp only [reasons, List.append_eq_nil_iff, ite_eq_right_iff, List.cons_ne_nil, imp_false] at h
  obtain ⟨⟨⟨⟨⟨⟨-, hlength⟩, helsewhere⟩, -⟩, hcommand⟩, -⟩, -⟩ := h
  refine ⟨by omega, fun other hother control hcontrol hid => helsewhere ?_, hcommand⟩
  exact List.any_eq_true.mpr ⟨other, mem_allCodes other, by
    rw [Bool.and_eq_true, decide_eq_true_iff, List.any_eq_true]
    exact ⟨hother, control, hcontrol, decide_eq_true hid⟩⟩

section Active

variable {scan : Scan} {index : Options} {control control' : ActiveControl} (h : control ∈ activeControls scan index)
include h

/-- There is one active control at an address. -/
theorem eq_of_code (h' : control' ∈ activeControls scan index)
    (hcode : control.code = control'.code) :
    control = control' := by
  obtain ⟨-, hmem, hreasons, hvalues⟩ := mem_activeControls.mp h
  obtain ⟨-, hmem', -, hvalues'⟩ := mem_activeControls.mp h'
  rw [← hcode] at hmem' hvalues'
  have hlength := (reasons_eq_nil hreasons).1
  have hoption : control.option = control'.option := by
    match hindex : index control.code, hlength with
    | [], _ => rw [hindex] at hmem; cases hmem
    | [candidate], _ =>
      rw [hindex, List.mem_singleton] at hmem hmem'
      rw [hmem, hmem']
  obtain ⟨option, code, values⟩ := control
  obtain ⟨option', code', values'⟩ := control'
  obtain rfl : code = code' := hcode
  obtain rfl : option = option' := hoption
  obtain rfl : values = values' := hvalues.trans hvalues'.symm
  rfl

/-- There is one active control of an id. -/
theorem eq_of_id (h' : control' ∈ activeControls scan index)
    (hid : control.option.id = control'.option.id) :
    control = control' := by
  obtain ⟨-, -, hreasons, -⟩ := mem_activeControls.mp h
  obtain ⟨-, hmem', -, -⟩ := mem_activeControls.mp h'
  by_contra hne
  refine (reasons_eq_nil hreasons).2.1 control'.code
    (fun hcode => hne (eq_of_code h h' hcode.symm)) _ hmem' hid.symm

end Active

/-- **No id is active twice.** -/
theorem activeControls_nodup (scan : Scan) (index : Options) :
    ((activeControls scan index).map fun control => control.option.id).Nodup := by
  have hcodes : scan.codes.Nodup := by
    refine List.Nodup.filter _ (List.Nodup.map_on ?_ List.nodup_range)
    intro m hm n hn heq
    have := congrArg UInt8.toNat heq
    rw [List.mem_range] at hm hn
    simpa [Nat.mod_eq_of_lt hm, Nat.mod_eq_of_lt hn] using this
  refine List.Nodup.map_on (fun control h control' h' hid => eq_of_id h h' hid) ?_
  refine List.nodup_flatMap.mpr ⟨fun code hcode => ?_,
    hcodes.imp fun hne control hcontrol hcontrol' => ?_⟩
  · have hle : (activeAt scan index code).length ≤ (index code).length := by
      rw [activeAt, List.length_map]
      exact List.length_filter_le ..
    cases hactive : activeAt scan index code with
    | nil => exact List.nodup_nil
    | cons control rest =>
      have hmem : control ∈ activeAt scan index code := hactive ▸ List.mem_cons_self ..
      have hlength := (reasons_eq_nil (mem_activeAt.mp hmem).2.2.1).1
      rw [hactive, List.length_cons] at hle
      obtain rfl : rest = [] := List.length_eq_zero_iff.mp (by omega)
      exact List.nodup_singleton control
  · exact hne ((mem_activeAt.mp hcontrol).1.symm.trans (mem_activeAt.mp hcontrol').1)

/-! ### Adding them -/

/-- What a profile and a tree say of a control: its id, its address and its values. -/
structure Mapping where
  id : String
  address : UInt8
  values : List (String × UInt16)
  deriving DecidableEq, Repr

/-- What a profile says of an active control. -/
def ActiveControl.mapping (control : ActiveControl) : Mapping := ⟨control.option.id, control.code, control.values⟩

/-- What a tree says of a control. -/
def treeMapping (control : DbControl) : Mapping := ⟨control.id, control.address, control.values.map valueEntry⟩

/-- The `controls` block of a profile, as the loader reads it. -/
def generatedControls (active : List ActiveControl) : ParsedMonitorControls where
  controls := active.zipIdx.map fun (control, childIndex) => control.monitorControl childIndex
  elements := active.map fun _ => ⟨false⟩

/-- The active control of an id, and its index. -/
abbrev activeOf (active : List ActiveControl) (id : String) : Option (ActiveControl × ℕ) :=
  first (fun control => control.option.id) active id

theorem activeOf_isSome {active : List ActiveControl} {control : ActiveControl}
    (h : control ∈ active) :
    (activeOf active control.option.id).isSome = true := by
  refine Option.isSome_iff_ne_none.mpr fun hnone => ?_
  exact first_eq_none.mp hnone control h rfl

/-- Looking a control up is looking its id up among the active ones. -/
theorem find_generatedControls (active : List ActiveControl) (id : String) :
    ((generatedControls active).controls.find? fun control => control.id = id) =
      (activeOf active id).map fun (control, childIndex) => control.monitorControl childIndex :=
  List.find?_map ..

/-- The loader reads the address that was written. -/
theorem monitorControlAddress_generated (control : ActiveControl) (childIndex : ℕ) :
    monitorControlAddress (control.monitorControl childIndex) = .ok control.code := by
  have hlt := control.code.toNat_lt
  have hparse : parseInteger ("0x" ++ hexText control.code.toNat) = .ok control.code.toNat :=
    parseInteger_hexText (by omega)
  refine bind_eq_ok.mpr ⟨_, rfl, ?_⟩
  rw [hparse]
  exact orError_eq_ok.mpr (u8TryFrom_toNat control.code)

/-- Active controls that a vocabulary has, with distinct ids and addresses. -/
structure Compatible (options : OptionsDb) (active : List ActiveControl) : Prop where
  ids : (active.map fun control => control.option.id).Nodup
  codes : ∀ control ∈ active, ∀ control' ∈ active, control.code = control'.code → control = control'
  known : ∀ control ∈ active, control.option ∈ options.controls
  types : ∀ control ∈ active, control.option.controlType ≠ .command
  available : ∀ option ∈ options.controls, option.unavailable = false

/-! ### Pushing -/

/-- Adding an item under one item of a list adds it to what is under them all. -/
theorem perm_flatMap_modify {α β : Type*} {f : α → List β} {g : α → α} {b : β} {l : List α}
    {i : ℕ} {a : α} (ha : l[i]? = some a) (hg : (f (g a)).Perm (b :: f a)) :
    ((l.modify i g).flatMap f).Perm (b :: l.flatMap f) := by
  induction l generalizing i with
  | nil => cases ha
  | cons a' l ih =>
    cases i with
    | zero =>
      cases ha
      exact hg.append_right (l.flatMap f)
    | succ i =>
      rw [List.modify_succ_cons, List.flatMap_cons, List.flatMap_cons]
      exact ((ih ha).append_left (f a')).trans List.perm_middle

/-- The groups and subgroups of a table are those of the vocabulary. -/
def SameShape (options : OptionsDb) (groups : List DbGroup) : Prop :=
  List.Forall₂ (fun group optionGroup => group.subgroups.length = optionGroup.subgroups.length) groups options.groups

theorem SameShape.push {options : OptionsDb} {table : Table} (h : SameShape options table.groups)
    (groupIndex subgroupIndex : ℕ) (control : DbControl) :
    SameShape options (table.push groupIndex subgroupIndex control).groups :=
  forall₂_modify groupIndex h fun _ _ _ hlength => (List.length_modify ..).trans hlength

theorem map_indexedControls (options : OptionsDb) :
    (options.indexedControls.map fun item => item.2.2) = options.controls := by
  have hzip : ∀ {α β : Type} (l : List α) (f : α → List β), (l.zipIdx.flatMap fun item => f item.1) = l.flatMap f :=
    fun l f => by rw [← List.flatMap_map Prod.fst f, List.zipIdx_map_fst]
  simp only [OptionsDb.indexedControls, OptionsDb.controls, List.map_flatMap, List.map_map]
  rw [← hzip options.groups]
  refine List.flatMap_congr fun group _ => ?_
  rw [← hzip group.1.subgroups]
  exact List.flatMap_congr fun subgroup _ => List.map_id _

theorem mem_controls {options : OptionsDb} {item : ℕ × ℕ × OptionControl}
    (h : item ∈ options.indexedControls) :
    item.2.2 ∈ options.controls :=
  map_indexedControls options ▸ List.mem_map_of_mem h

/-- A table without controls, whose CAPS support the addresses of active controls. -/
structure Fresh (options : OptionsDb) (active : List ActiveControl) (table : Table) : Prop where
  shape : SameShape options table.groups
  empty : treeControls table.groups = []
  free : ∀ address, table.defined address = false
  supported : ∀ control ∈ active, table.caps.isSupported control.code = true

/-- A control pushed at a place of the vocabulary is in the tree. -/
theorem treeControls_push_perm {options : OptionsDb} {table : Table}
    (h : SameShape options table.groups) {groupIndex subgroupIndex : ℕ} {option : OptionControl}
    (hoption : (groupIndex, subgroupIndex, option) ∈ options.indexedControls)
    (control : DbControl) :
    (treeControls (table.push groupIndex subgroupIndex control).groups).Perm
      (control :: treeControls table.groups) := by
  obtain ⟨optionGroup, optionSubgroup, hgroup, hsubgroup, -⟩ := mem_indexedControls hoption
  have hlt : groupIndex < table.groups.length :=
    h.length_eq ▸ (List.getElem?_eq_some_iff.mp hgroup).1
  have hlength := (List.forall₂_iff_get.mp h).2 groupIndex hlt (List.getElem?_eq_some_iff.mp hgroup).1
  simp only [List.get_eq_getElem, (List.getElem?_eq_some_iff.mp hgroup).2] at hlength
  have hsub : subgroupIndex < table.groups[groupIndex].subgroups.length :=
    hlength ▸ (List.getElem?_eq_some_iff.mp hsubgroup).1
  refine perm_flatMap_modify (List.getElem?_eq_getElem hlt) ?_
  refine perm_flatMap_modify (List.getElem?_eq_getElem hsub) ?_
  exact List.perm_append_singleton ..

section Translated

variable (translate : String → List UInt8)

/-- The loop body of `add_controls_from_options` on a generated block. -/
theorem addControl_generated {active : List ActiveControl} {validateAll : Bool}
    (state : Table × List Bool) (groupIndex subgroupIndex : ℕ) {option : OptionControl}
    (havailable : option.unavailable = false) :
    addControl translate (generatedControls active).controls ⟨false, validateAll⟩ state
      (groupIndex, subgroupIndex, option) =
      match activeOf active option.id with
      | none => .ok state
      | some (control, childIndex) =>
        if !validateAll && (!state.1.caps.isSupported control.code || state.1.defined control.code) then
          .ok (state.1, state.2.set childIndex true)
        else
          matchedControl translate option (control.monitorControl childIndex) control.code false >>= fun added =>
            .ok (state.1.push groupIndex subgroupIndex added, state.2.set childIndex true) := by
  simp only [addControl, find_generatedControls]
  cases activeOf active option.id with
  | none => rfl
  | some found =>
    obtain ⟨control, childIndex⟩ := found
    have havailable' : (control.monitorControl childIndex).unavailable = false := rfl
    simp only [Option.map_some, monitorControlAddress_generated, havailable, havailable',
      Bool.or_false, Bool.false_eq_true, if_false]
    rfl

/-! ### The loop over the vocabulary -/

/-- A control is what the loader makes of the active control with an option's id. -/
def Publishes (active : List ActiveControl) (control : DbControl) (option : OptionControl) : Prop :=
  ∃ found childIndex, activeOf active option.id = some (found, childIndex) ∧
    matchedControl translate option (found.monitorControl childIndex) found.code false = .ok control

/-- What is published of an option has its id. -/
theorem Publishes.id {active : List ActiveControl} {control : DbControl} {option : OptionControl}
    (h : Publishes translate active control option) : control.id = option.id := by
  obtain ⟨found, childIndex, -, hcontrol⟩ := h
  obtain ⟨values, -, hcontrol⟩ := bind_eq_ok.mp hcontrol
  obtain ⟨delay, -, hcontrol⟩ := bind_eq_ok.mp hcontrol
  cases hcontrol
  rfl

/-- The options with the id of an active control. -/
def activeOptions (active : List ActiveControl) (options : List OptionControl) : List OptionControl :=
  options.filter fun option => (activeOf active option.id).isSome

theorem activeOptions_concat (active : List ActiveControl) (done : List (ℕ × ℕ × OptionControl))
    (item : ℕ × ℕ × OptionControl) :
    activeOptions active ((done ++ [item]).map fun item => item.2.2) =
      activeOptions active (done.map fun item => item.2.2) ++
        if (activeOf active item.2.2.id).isSome then [item.2.2] else [] := by
  rw [List.map_append, activeOptions, List.filter_append, List.map_singleton, List.filter_singleton,
    Bool.cond_eq_ite]
  rfl

/-- What the loop has done after some of the vocabulary. -/
structure Filled (options : OptionsDb) (active : List ActiveControl) (caps : Caps) (done : List (ℕ × ℕ × OptionControl))
    (state : Table × List Bool) : Prop where
  shape : SameShape options state.1.groups
  caps : state.1.caps = caps
  published : ∃ published, (treeControls state.1.groups).Perm published ∧
    List.Forall₂ (Publishes translate active) published (activeOptions active (done.map fun item => item.2.2))
  defined : ∀ address, state.1.defined address = true →
    ∃ item ∈ done, ∃ found childIndex, activeOf active item.2.2.id = some (found, childIndex) ∧ found.code = address
  length : state.2.length = active.length
  marked : ∀ (childIndex : ℕ) (control : ActiveControl), active[childIndex]? = some control →
    (∃ item ∈ done, item.2.2.id = control.option.id) → state.2[childIndex]? = some true

section Step

variable {options : OptionsDb} {active : List ActiveControl} {caps : Caps} {done : List (ℕ × ℕ × OptionControl)}
  {state : Table × List Bool} (h : Filled translate options active caps done state)
include h

theorem Filled.defined_concat (item : ℕ × ℕ × OptionControl) {address : UInt8}
    (hd : state.1.defined address = true) :
    ∃ other ∈ done ++ [item], ∃ found childIndex,
      activeOf active other.2.2.id = some (found, childIndex) ∧ found.code = address := by
  obtain ⟨other, hother, hfound⟩ := h.defined address hd
  exact ⟨other, List.mem_append_left _ hother, hfound⟩

/-- An option control without the id of an active one changes nothing. -/
theorem Filled.skip {item : ℕ × ℕ × OptionControl} (hfirst : activeOf active item.2.2.id = none) :
    Filled translate options active caps (done ++ [item]) state := by
  refine ⟨h.shape, h.caps, ?_, fun _ => h.defined_concat translate item, h.length,
    fun childIndex control hcontrol hitem => ?_⟩
  · rw [activeOptions_concat, hfirst, Option.isSome_none, if_neg Bool.false_ne_true,
      List.append_nil]
    exact h.published
  · obtain ⟨other, hother, hid⟩ := hitem
    rcases List.mem_append.mp hother with hother | hother
    · exact h.marked childIndex control hcontrol ⟨other, hother, hid⟩
    · obtain rfl := List.mem_singleton.mp hother
      exact absurd hid.symm (first_eq_none.mp hfirst control (List.mem_of_getElem? hcontrol))

variable (hactive : Compatible options active)
include hactive

/-- The ordinary mode takes an active control that it meets for the first time: the profile
supports its address, and nothing has defined it. -/
theorem Filled.takes (hsupported : ∀ control ∈ active, caps.isSupported control.code = true)
    {id : String} {validateAll : Bool}
    (hnew : validateAll = false → ∀ other ∈ done, other.2.2.id ≠ id) {found : ActiveControl}
    {childIndex : ℕ} (hfirst : activeOf active id = some (found, childIndex)) :
    (!validateAll && (!state.1.caps.isSupported found.code || state.1.defined found.code)) = false := by
  obtain ⟨hget, hid⟩ := first_eq_some hfirst
  have hmem : found ∈ active := List.mem_of_getElem? hget
  cases validateAll with
  | true => rfl
  | false =>
    rw [h.caps, hsupported found hmem]
    cases hd : state.1.defined found.code with
    | false => rfl
    | true =>
      -- the control at this address is the same, and has been met before
      obtain ⟨other, hother, found', childIndex', hfirst', hcode⟩ := h.defined _ hd
      obtain ⟨hget', hid'⟩ := first_eq_some hfirst'
      obtain rfl := hactive.codes found' (List.mem_of_getElem? hget') found hmem hcode
      exact absurd (hid'.symm.trans hid) (hnew rfl other hother)

/-- An option control with the id of an active one is published in its subgroup, and the
active control is marked as found. -/
theorem Filled.publish {groupIndex subgroupIndex : ℕ} {option : OptionControl}
    (hitem : (groupIndex, subgroupIndex, option) ∈ options.indexedControls) {found : ActiveControl}
    {childIndex : ℕ} (hfirst : activeOf active option.id = some (found, childIndex))
    {added : DbControl}
    (hadded : matchedControl translate option (found.monitorControl childIndex) found.code false = .ok added) :
    Filled translate options active caps (done ++ [(groupIndex, subgroupIndex, option)])
      (state.1.push groupIndex subgroupIndex added, state.2.set childIndex true) := by
  obtain ⟨hget, hid⟩ := first_eq_some hfirst
  obtain ⟨-, haddress⟩ := matchedControl_from translate (hactive.available option (mem_controls hitem)) hid
    (monitorControlAddress_generated found childIndex) hadded
  obtain ⟨published, hperm, hpublished⟩ := h.published
  refine ⟨h.shape.push .., h.caps, ⟨published ++ [added], ?_, ?_⟩, fun address hd => ?_,
    by rw [List.length_set, h.length], fun childIndex' control hcontrol hmet => ?_⟩
  · exact (treeControls_push_perm h.shape hitem added).trans
      ((hperm.cons added).trans (List.perm_append_singleton ..).symm)
  · rw [activeOptions_concat, hfirst, Option.isSome_some, if_pos rfl]
    exact List.rel_append hpublished (.cons ⟨found, childIndex, hfirst, hadded⟩ .nil)
  · have hd : Function.update state.1.defined added.address true address = true := hd
    rw [Function.update_apply] at hd
    split_ifs at hd with heq
    · exact ⟨_, List.mem_append_right _ (List.mem_singleton_self _), found, childIndex, hfirst,
        haddress.symm.trans heq.symm⟩
    · exact h.defined_concat translate _ hd
  · rw [List.getElem?_set]
    by_cases heq : childIndex = childIndex'
    · subst heq
      rw [if_pos rfl, if_pos (by rw [h.length]; exact (List.getElem?_eq_some_iff.mp hget).1)]
    · rw [if_neg heq]
      obtain ⟨other, hother, hid'⟩ := hmet
      rcases List.mem_append.mp hother with hother | hother
      · exact h.marked childIndex' control hcontrol ⟨other, hother, hid'⟩
      · obtain rfl := List.mem_singleton.mp hother
        exact absurd (index_unique hactive.ids hget hcontrol (hid.trans hid')) heq

/-- **One option control**: it is published where it has the id of an active control. -/
theorem Filled.step (hsupported : ∀ control ∈ active, caps.isSupported control.code = true)
    {item : ℕ × ℕ × OptionControl} (hitem : item ∈ options.indexedControls) {validateAll : Bool}
    (hnew : validateAll = false → (activeOf active item.2.2.id).isSome = true →
      ∀ other ∈ done, other.2.2.id ≠ item.2.2.id)
    {state' : Table × List Bool}
    (hstep : addControl translate (generatedControls active).controls ⟨false,
      validateAll⟩ state item = .ok state') :
    Filled translate options active caps (done ++ [item]) state' := by
  obtain ⟨groupIndex, subgroupIndex, option⟩ := item
  rw [addControl_generated translate state groupIndex subgroupIndex
    (hactive.available option (mem_controls hitem))] at hstep
  cases hfirst : activeOf active option.id with
  | none =>
    rw [hfirst] at hstep
    cases hstep
    exact h.skip translate hfirst
  | some found =>
    obtain ⟨found, childIndex⟩ := found
    have htaken := h.takes translate hactive hsupported (fun hmode => hnew hmode (by rw [hfirst]; rfl)) hfirst
    rw [hfirst] at hstep
    simp only [htaken, Bool.false_eq_true, if_false] at hstep
    obtain ⟨added, hadded, hstep⟩ := bind_eq_ok.mp hstep
    cases hstep
    exact h.publish translate hactive hitem hfirst hadded

end Step

section Block

variable {options : OptionsDb} {active : List ActiveControl} (hactive : Compatible options active) {table : Table}
include hactive

/-- **The loop over the vocabulary** publishes what it finds. In the ordinary mode this takes
ids that the vocabulary has once: a second control of an id has its address in use. -/
theorem filled_run (hfresh : Fresh options active table) {validateAll : Bool}
    (hunique : validateAll = false →
      ∀ control ∈ active, options.controls.countP (fun option => option.id = control.option.id) ≤ 1)
    {state : Table × List Bool}
    (h : options.indexedControls.foldlM (addControl translate (generatedControls active).controls ⟨false, validateAll⟩)
      (table, active.map fun _ => false) = .ok state) :
    Filled translate options active table.caps options.indexedControls state := by
  refine foldlM_history (P := fun done state => done <+: options.indexedControls →
    Filled translate options active table.caps done state)
      (fun done item state state' hP hstep hprefix => ?_) (fun _ => ?_) h
    (List.prefix_refl _)
  · have hitem : item ∈ options.indexedControls :=
      hprefix.subset (List.mem_append_right _ (List.mem_singleton_self _))
    refine (hP ((List.prefix_append ..).trans hprefix)).step translate hactive hfresh.supported hitem ?_ hstep
    intro hmode hsome other hother hid
    obtain ⟨⟨found, childIndex⟩, hfirst⟩ := Option.isSome_iff_exists.mp hsome
    obtain ⟨hget, hfound⟩ := first_eq_some hfirst
    have hle := hunique hmode found (List.mem_of_getElem? hget)
    have hsub := hprefix.sublist.countP_le (p := fun item => decide (item.2.2.id = found.option.id))
    have hpos : 0 < done.countP fun item => decide (item.2.2.id = found.option.id) :=
      List.countP_pos_iff.mpr ⟨other, hother, by simp [hid, hfound]⟩
    have hone : [item].countP (fun item => decide (item.2.2.id = found.option.id)) = 1 := by simp [hfound]
    rw [← map_indexedControls, List.countP_map] at hle
    rw [List.countP_append, hone] at hsub
    have hle : options.indexedControls.countP (fun item => decide (item.2.2.id = found.option.id)) ≤ 1 := hle
    omega
  · refine ⟨hfresh.shape, rfl, ⟨[], ?_, .nil⟩, fun address hd => ?_, List.length_map _,
      fun _ _ _ hitem => ?_⟩
    · rw [hfresh.empty]
    · rw [hfresh.free] at hd
      cases hd
    · obtain ⟨_, hnil, -⟩ := hitem
      cases hnil

omit hactive in
/-- The control a match publishes, of a control of a profile. -/
theorem matchedControl_generated {option : OptionControl} (htype : option.controlType ≠ .command)
    (control : ActiveControl) (childIndex : ℕ) {added : DbControl} :
    matchedControl translate option (control.monitorControl childIndex) control.code false = .ok added ↔
      ∃ values, getValueList translate option (control.monitorControl childIndex) false = .ok values ∧
        added = ⟨option.id, translate option.name, control.code, -1, option.controlType,
          option.refresh, values⟩ := by
  have hvalues : controlValues translate option (control.monitorControl childIndex) false =
      getValueList translate option (control.monitorControl childIndex) false := by
    rw [controlValues]
    simp only [htype, false_and, if_false]
    exact bind_pure _
  unfold matchedControl
  rw [hvalues, bind_eq_ok]
  refine exists_congr fun values => and_congr_right fun _ => ?_
  exact ⟨fun h => (Except.ok.inj h).symm, fun h => congrArg Except.ok h.symm⟩

/-- A generated block goes through the loop over the vocabulary alone: nothing is unavailable. -/
theorem addControlsFromOptions_generated (validateAll : Bool) {table' : Table} :
    addControlsFromOptions translate options (generatedControls active) ⟨false, validateAll⟩ table = .ok table' ↔
      ∃ state, options.indexedControls.foldlM
          (addControl translate (generatedControls active).controls ⟨false, validateAll⟩)
          (table, active.map fun _ => false) = .ok state ∧
        (∀ mark ∈ state.2, mark = true) ∧ state.1 = table' := by
  have hblocks : ∀ id, options.blocks id = false := fun id => by
    refine List.any_eq_false.mpr fun option hoption => ?_
    rw [hactive.available option hoption]
    simp
  have hblocked : (generatedControls active).controls.foldlM (blockControl options)
      (table, active.map fun _ => false) =
      .ok (table, active.map fun _ => false) :=
    foldlM_eq_self fun control _ => by rw [blockControl, hblocks, if_neg Bool.false_ne_true]
  have hstart : (generatedControls active).elements.map (·.unavailable) = active.map fun _ => false := by
    rw [generatedControls, List.map_map]
    rfl
  unfold addControlsFromOptions
  rw [hstart]
  dsimp only
  rw [hblocked, bind_eq_ok]
  simp only [Except.ok.injEq, exists_eq_left', bind_eq_ok, reject_eq_ok, Bool.not_false,
    Bool.true_and, List.any_eq_false, Bool.not_eq_true', Bool.not_eq_false, exists_const]
  exact exists_congr fun state => and_congr_right fun _ => and_congr_right fun _ =>
    ⟨Except.ok.inj, congrArg _⟩

/-- An option published is that of the active control it finds, if the vocabulary has its id once. -/
theorem activeOf_option {control : ActiveControl} {childIndex : ℕ} {option : OptionControl}
    (hoption : option ∈ options.controls)
    (hfirst : activeOf active option.id = some (control, childIndex))
    (hone : options.controls.countP (fun option => option.id = control.option.id) = 1) :
    option = control.option := by
  obtain ⟨hget, hid⟩ := first_eq_some hfirst
  exact eq_of_countP_eq_one hone hoption (hactive.known control (List.mem_of_getElem? hget))
    (by simp [← hid]) (by simp)

section Values

variable {advertised : UInt8 → Option (List UInt16)}
  (hvalues : ∀ control ∈ active, control.values = matchingValues control.option (advertised control.code))
include hvalues

/-- What the loader publishes of the vocabulary's own option is the active control. -/
theorem exists_published {control : ActiveControl} (hcontrol : control ∈ active) (childIndex : ℕ) :
    (∃ added, matchedControl translate control.option (control.monitorControl childIndex) control.code false = .ok added ∧
        treeMapping added = control.mapping) ↔ Unambiguous control.option (advertised control.code) := by
  rw [← getValueList_matching (hvalues control hcontrol) translate (hactive.types control hcontrol) childIndex]
  constructor
  · rintro ⟨added, hadded, hmapping⟩
    obtain ⟨values, hlist, rfl⟩ :=
      (matchedControl_generated translate (hactive.types control hcontrol) ..).mp hadded
    exact ⟨values, hlist, congrArg Mapping.values hmapping⟩
  · rintro ⟨values, hlist, heq⟩
    refine ⟨_, (matchedControl_generated translate (hactive.types control hcontrol) ..).mpr ⟨values,
      hlist, rfl⟩, ?_⟩
    rw [treeMapping, ActiveControl.mapping, heq]

section Refused

variable {published : List DbControl}
  (hpublished : List.Forall₂ (Publishes translate active) published (activeOptions active options.controls))
  (hmappings : (published.map treeMapping).Perm (active.map ActiveControl.mapping))
include hpublished hmappings

omit hvalues in
/-- A tree of the active controls has the id of each once, so the vocabulary does. -/
theorem countP_eq_one_of_published {control : ActiveControl} (hcontrol : control ∈ active) :
    options.controls.countP (fun option => option.id = control.option.id) = 1 := by
  have hsame : List.Forall₂ Eq (published.map fun added => added.id)
      ((activeOptions active options.controls).map fun option => option.id) :=
    List.forall₂_map_left_iff.mpr (List.forall₂_map_right_iff.mpr (hpublished.imp fun _ _ h => h.id))
  rw [List.forall₂_eq_eq_eq] at hsame
  have hperm : (published.map fun added => added.id).Perm (active.map fun control => control.option.id) := by
    have := hmappings.map Mapping.id
    rwa [List.map_map, List.map_map] at this
  have hcount : options.controls.countP (fun option => option.id = control.option.id) =
      ((activeOptions active options.controls).map fun option => option.id).count control.option.id := by
    rw [activeOptions, List.count, List.countP_map, List.countP_filter]
    refine List.countP_congr fun option _ => ?_
    rw [Bool.and_eq_true, decide_eq_true_iff, Function.comp_apply, beq_iff_eq]
    exact ⟨fun hid => ⟨hid, hid ▸ activeOf_isSome hcontrol⟩, And.left⟩
  rw [hcount, ← hsame, hperm.count_eq]
  exact List.count_eq_one_of_mem hactive.ids (List.mem_map_of_mem hcontrol)

/-- A tree of the active controls has the values of each, so they are unambiguous. -/
theorem unambiguous_of_published {control : ActiveControl} (hcontrol : control ∈ active) :
    Unambiguous control.option (advertised control.code) := by
  have hoption : control.option ∈ activeOptions active options.controls :=
    List.mem_filter.mpr ⟨hactive.known control hcontrol, activeOf_isSome hcontrol⟩
  obtain ⟨added, hmem, found, childIndex, hfirst, hadded⟩ :=
    exists_of_forall₂ hpublished.flip hoption
  obtain ⟨hget, hid⟩ := first_eq_some hfirst
  obtain rfl := List.inj_on_of_nodup_map hactive.ids (List.mem_of_getElem? hget) hcontrol hid
  obtain ⟨same, hsame, hmapping⟩ := List.mem_map.mp (hmappings.subset (List.mem_map_of_mem hmem))
  have hsameId : same.option.id = found.option.id :=
    (congrArg Mapping.id hmapping).trans (Publishes.id translate ⟨found, childIndex, hfirst, hadded⟩)
  obtain rfl := List.inj_on_of_nodup_map hactive.ids hsame hcontrol hsameId
  exact (exists_published translate hactive hvalues hcontrol childIndex).mp ⟨added, hadded,
    hmapping.symm⟩

end Refused

section Accepted

variable (hunambiguous : ∀ control ∈ active, options.controls.countP (fun option => option.id = control.option.id) = 1 ∧
  Unambiguous control.option (advertised control.code))
include hunambiguous

/-- An option that finds an active control is published as this control. -/
theorem exists_matched {option : OptionControl} (hoption : option ∈ options.controls)
    {control : ActiveControl} {childIndex : ℕ}
    (hfirst : activeOf active option.id = some (control, childIndex)) :
    ∃ added, matchedControl translate option (control.monitorControl childIndex) control.code false = .ok added ∧
      treeMapping added = control.mapping := by
  have hcontrol : control ∈ active := List.mem_of_getElem? (first_eq_some hfirst).1
  obtain ⟨hone, hvalues'⟩ := hunambiguous control hcontrol
  rw [activeOf_option hactive hoption hfirst hone]
  exact (exists_published translate hactive hvalues hcontrol childIndex).mpr hvalues'

/-- The loop over the vocabulary succeeds, in either mode. -/
theorem addControls_succeeds (validateAll : Bool) (state : Table × List Bool) :
    ∃ state', options.indexedControls.foldlM
      (addControl translate (generatedControls active).controls ⟨false, validateAll⟩) state =
        .ok state' := by
  refine foldlM_succeeds (fun item hitem state => ?_) state
  obtain ⟨groupIndex, subgroupIndex, option⟩ := item
  have hoption := mem_controls hitem
  rw [addControl_generated translate state groupIndex subgroupIndex (hactive.available option hoption)]
  cases hfirst : activeOf active option.id with
  | none => exact ⟨_, rfl⟩
  | some found =>
    obtain ⟨control, childIndex⟩ := found
    obtain ⟨added, hadded, -⟩ := exists_matched translate hactive hvalues hunambiguous hoption hfirst
    simp only [hadded]
    split
    · exact ⟨_, rfl⟩
    · exact ⟨_, rfl⟩

/-- What it publishes is the active controls. -/
theorem published_perm {published : List DbControl}
    (hpublished : List.Forall₂ (Publishes translate active) published (activeOptions active options.controls)) :
    (published.map treeMapping).Perm (active.map ActiveControl.mapping) := by
  have hlookups : (options.controls.filterMap fun option =>
      active.find? fun control => control.option.id = option.id).Perm active :=
    perm_lookups hactive.ids fun control hcontrol => (hunambiguous control hcontrol).1
  have hfilter : (options.controls.filter fun option =>
      (active.find? fun control => control.option.id = option.id).isSome) = activeOptions active options.controls :=
    List.filter_congr fun option _ => by rw [← first_map_fst, Option.isSome_map]
  refine List.Perm.trans (.of_eq (map_eq_of_forall₂ ?_)) (hlookups.map _)
  rw [hfilter]
  obtain ⟨hlength, hzip⟩ := List.forall₂_iff_zip.mp hpublished
  refine List.forall₂_iff_zip.mpr ⟨hlength, fun {added option} hmem => ?_⟩
  obtain ⟨control, childIndex, hfirst, hadded⟩ := hzip hmem
  obtain ⟨added', hadded', hmapping⟩ := exists_matched translate hactive hvalues hunambiguous
    (List.mem_filter.mp (List.of_mem_zip hmem).2).1 hfirst
  rw [hadded, Except.ok.injEq] at hadded'
  exact ⟨control, first_map_fst.symm.trans (congrArg (Option.map Prod.fst) hfirst),
    hadded' ▸ hmapping⟩

end Accepted

/-- **The strict loader accepts a generated block** and builds its controls, in both modes,
exactly where the vocabulary has the id of each once and the values of each are unambiguous. -/
theorem addControls_generated_iff (hfresh : Fresh options active table) :
    (∀ validateAll, ∃ table',
        addControlsFromOptions translate options (generatedControls active)
          ⟨false, validateAll⟩ table = .ok table' ∧
          ((treeControls table'.groups).map treeMapping).Perm (active.map ActiveControl.mapping)) ↔
      ∀ control ∈ active, options.controls.countP (fun option => option.id = control.option.id) = 1 ∧
        Unambiguous control.option (advertised control.code) := by
  constructor
  · intro h control hcontrol
    -- a full validation publishes every option of an id, so it shows what is wrong
    obtain ⟨table', hadd, hperm⟩ := h true
    obtain ⟨state, hrun, -, rfl⟩ := (addControlsFromOptions_generated translate hactive true).mp hadd
    have hfilled := filled_run translate hactive hfresh (fun hmode : true = false => nomatch hmode) hrun
    obtain ⟨published, htree, hpublished⟩ := hfilled.published
    rw [map_indexedControls] at hpublished
    have hmappings := (htree.map treeMapping).symm.trans hperm
    exact ⟨countP_eq_one_of_published translate hactive hpublished hmappings hcontrol,
      unambiguous_of_published translate hactive hvalues hpublished hmappings hcontrol⟩
  · intro hunambiguous validateAll
    obtain ⟨state, hrun⟩ := addControls_succeeds translate hactive hvalues hunambiguous validateAll
      (table, active.map fun _ => false)
    have hfilled := filled_run translate hactive hfresh
      (fun _ control hcontrol => (hunambiguous control hcontrol).1.le) hrun
    obtain ⟨published, htree, hpublished⟩ := hfilled.published
    rw [map_indexedControls] at hpublished
    refine ⟨state.1, (addControlsFromOptions_generated translate hactive validateAll).mpr
      ⟨state, hrun, fun mark hmark => ?_, rfl⟩,
      (htree.map treeMapping).trans (published_perm translate hactive hvalues hunambiguous hpublished)⟩
    obtain ⟨childIndex, hindex⟩ := List.mem_iff_getElem?.mp hmark
    have hlt : childIndex < active.length :=
      hfilled.length ▸ (List.getElem?_eq_some_iff.mp hindex).1
    have hcontrol := hactive.known active[childIndex] (List.getElem_mem hlt)
    rw [← map_indexedControls] at hcontrol
    obtain ⟨item, hitem, heq⟩ := List.mem_map.mp hcontrol
    have htrue := hfilled.marked childIndex _ (List.getElem?_eq_getElem hlt)
      ⟨item, hitem, congrArg OptionControl.id heq⟩
    rwa [hindex, Option.some.injEq] at htrue

end Values

end Block

end Translated

end DdcControl.Scanner
