import DdcControl.Database.Published

/-!
# Allocating a tree

`alloc_monitor` makes a C string of every text in a tree, and fails on one with a NUL
byte. Every text of a tree is one of the options vocabulary, as it stands or translated,
the literal `default`, or the name attribute of a root. So a context whose texts have no
NUL character has no tree that cannot be allocated.

## What is proved

* `loadOptionsNode_texts` — the texts of a vocabulary are attributes of its element.
* `assemble_allocates` — whatever a load from such a context assembles, it can allocate.
-/

namespace DdcControl.Database

open Capabilities Fallible

/-! ### The texts of a vocabulary -/

/-- The texts of an option value that a tree may show. -/
def OptionValue.texts (value : OptionValue) : List String := value.id :: value.name.toList

/-- The texts of an options control that a tree may show. -/
def OptionControl.texts (control : OptionControl) : List String :=
  control.id :: control.name :: control.values.flatMap OptionValue.texts

/-- The texts of an options subgroup that a tree may show. -/
def OptionSubgroup.texts (subgroup : OptionSubgroup) : List String :=
  subgroup.name :: subgroup.pattern.toList ++ subgroup.controls.flatMap OptionControl.texts

/-- The texts of an options group that a tree may show. -/
def OptionGroup.texts (group : OptionGroup) : List String := group.name :: group.subgroups.flatMap OptionSubgroup.texts

/-- The texts of a vocabulary that a tree may show. -/
def OptionsDb.texts (options : OptionsDb) : List String := options.groups.flatMap OptionGroup.texts

/-- A text that an element or one of its descendants has as an attribute; or none at all. -/
def AttributeText (node : Node) (s : String) : Prop :=
  s = "" ∨ ∃ n : Node, n.Within node ∧ ∃ name, n.attr name = some s

theorem AttributeText.of_attr {node : Node} {name s : String} (h : node.attr name = some s) :
    AttributeText node s :=
  .inr ⟨node, .self, name, h⟩

theorem AttributeText.of_child {node child : Node} {tag s : String}
    (hc : child ∈ node.childrenTagged tag) (h : AttributeText child s) : AttributeText node s := by
  rcases h with rfl | ⟨n, hn, h⟩
  · exact .inl rfl
  · exact .inr ⟨n, .child (List.mem_filter.mp hc).1 hn, h⟩

/-- The texts of what a loop over the children of an element collects. -/
theorem attributeText_flatMap {α : Type} {f : Node → Except String α} {texts : α → List String}
    {node : Node} {tag : String} {out : List α}
    (hf : ∀ child a, f child = .ok a → ∀ s ∈ texts a, AttributeText child s)
    (h : List.Forall₂ (fun child a => f child = .ok a) (node.childrenTagged tag) out) {s : String}
    (hs : s ∈ out.flatMap texts) : AttributeText node s := by
  obtain ⟨a, ha, hs⟩ := List.mem_flatMap.mp hs
  obtain ⟨child, hc, hchild⟩ := exists_of_forall₂ h.flip ha
  exact .of_child hc (hf child a hchild s hs)

theorem loadOptionValue_texts {value : Node} {optionValue : OptionValue}
    (h : loadOptionValue value = .ok optionValue) :
    ∀ s ∈ optionValue.texts, AttributeText value s := by
  simp only [loadOptionValue, requiredAttr, bind_eq_ok, orError_eq_ok] at h
  obtain ⟨id, hid, h⟩ := h
  cases h
  simp only [OptionValue.texts, List.forall_mem_cons, Option.mem_toList]
  exact ⟨.of_attr hid, fun s hs => .of_attr hs⟩

theorem loadOptionControl_texts {control : Node} {optionControl : OptionControl}
    (h : loadOptionControl control = .ok optionControl) :
    ∀ s ∈ optionControl.texts, AttributeText control s := by
  unfold loadOptionControl at h
  split at h
  · simp only [requiredAttr, bind_eq_ok, orError_eq_ok] at h
    obtain ⟨id, hid, h⟩ := h
    cases h
    simp only [OptionControl.texts, List.forall_mem_cons]
    exact ⟨.of_attr hid, .inl rfl, List.forall_mem_nil _⟩
  · simp only [requiredAttr, bind_eq_ok, orError_eq_ok, mapM_eq_ok] at h
    obtain ⟨refresh, -, controlType, -, id, hid, name, hname, values, hvalues, h⟩ := h
    cases h
    simp only [OptionControl.texts, List.forall_mem_cons]
    exact ⟨.of_attr hid, .of_attr hname, fun s => attributeText_flatMap (fun _ _ => loadOptionValue_texts) hvalues⟩

theorem loadOptionSubgroup_texts {subgroup : Node} {optionSubgroup : OptionSubgroup}
    (h : loadOptionSubgroup subgroup = .ok optionSubgroup) :
    ∀ s ∈ optionSubgroup.texts, AttributeText subgroup s := by
  simp only [loadOptionSubgroup, requiredAttr, bind_eq_ok, orError_eq_ok, mapM_eq_ok] at h
  obtain ⟨_, -, name, hname, controls, hcontrols, h⟩ := h
  cases h
  simp only [OptionSubgroup.texts, List.cons_append, List.forall_mem_cons, List.forall_mem_append,
    Option.mem_toList]
  exact ⟨.of_attr hname, fun s hs => .of_attr hs,
    fun s => attributeText_flatMap (fun _ _ => loadOptionControl_texts) hcontrols⟩

theorem loadOptionGroup_texts {group : Node} {optionGroup : OptionGroup}
    (h : loadOptionGroup group = .ok optionGroup) :
    ∀ s ∈ optionGroup.texts, AttributeText group s := by
  simp only [loadOptionGroup, requiredAttr, bind_eq_ok, orError_eq_ok, mapM_eq_ok] at h
  obtain ⟨_, -, name, hname, subgroups, hsubgroups, h⟩ := h
  cases h
  simp only [OptionGroup.texts, List.forall_mem_cons]
  exact ⟨.of_attr hname, fun s => attributeText_flatMap (fun _ _ => loadOptionSubgroup_texts) hsubgroups⟩

/-- **The texts of a vocabulary are attributes** of the element it was loaded from. -/
theorem loadOptionsNode_texts {root : Node} {options : OptionsDb}
    (h : loadOptionsNode root = .ok options) :
    ∀ s ∈ options.texts, AttributeText root s := by
  simp only [loadOptionsNode, bind_eq_ok, mapM_eq_ok] at h
  obtain ⟨_, -, _, -, _, -, groups, hgroups, h⟩ := h
  cases h
  exact fun s => attributeText_flatMap (fun _ _ => loadOptionGroup_texts) hgroups

theorem AttributeText.nulFree {node : Node} (hnode : NulFreeNode node) {s : String}
    (h : AttributeText node s) :
    NulFree s := by
  rcases h with rfl | ⟨n, hn, name, h⟩
  · exact List.not_mem_nil
  · exact hnode n hn name s h

/-- No text of a context has a NUL character. -/
structure NulFreeContext (context : DbContext) : Prop where
  options : ∀ s ∈ context.options.texts, NulFree s
  profiles : ∀ (id : String) root, context.profiles[id]? = some (.ok root) → NulFreeNode root
  monitorFile : ∀ file, context.monitorFile = some file → NulFreeNode file.root

theorem NulFreeContext.rootOf {context : DbContext} (h : NulFreeContext context)
    {key : Key} {root : Node} (hroot : context.rootOf key = some root) : NulFreeNode root := by
  obtain ⟨found, hfound, hroot⟩ := Option.bind_eq_some_iff.mp hroot
  unfold DbContext.root? at hfound
  split at hfound
  · rename_i file hfile
    cases hfound
    cases hroot
    exact h.monitorFile file (Option.filter_eq_some_iff.mp hfile).1
  · cases found with
    | error e => cases hroot
    | ok root' =>
      cases hroot
      exact h.profiles _ _ hfound

/-- The name of a build is that of a root it has opened. -/
def NamedByRoot (context : DbContext) (build : MonitorBuild) : Prop :=
  ∀ name, build.name = some name →
    ∃ key root s, context.rootOf key = some root ∧ root.attr "name" = some s ∧ name = utf8 s

section Translated

variable (translate : String → List UInt8)

/-! ### The texts of a tree -/

/-- A translation of C strings. -/
def TranslatesCStrings : Prop := ∀ s, NulFree s → (0 : UInt8) ∉ translate s

/-- A text of a tree made from texts of a vocabulary: one of them, as it stands or
translated. -/
def TextFrom (texts : List String) (text : List UInt8) : Prop :=
  ∃ s ∈ "default" :: texts, text = utf8 s ∨ text = translate s

theorem TextFrom.mono {texts texts' : List String} (h : texts ⊆ texts') {text : List UInt8}
    (htext : TextFrom translate texts text) : TextFrom translate texts' text := by
  obtain ⟨s, hs, heq⟩ := htext
  exact ⟨s, List.cons_subset_cons _ h hs, heq⟩

theorem TextFrom.of_utf8 {texts : List String} {s : String} (h : s ∈ texts) :
    TextFrom translate texts (utf8 s) :=
  ⟨s, List.mem_cons_of_mem _ h, .inl rfl⟩

theorem TextFrom.of_translate {texts : List String} {s : String} (h : s ∈ texts) :
    TextFrom translate texts (translate s) := ⟨s, List.mem_cons_of_mem _ h, .inr rfl⟩

theorem TextFrom.nulFree (htranslate : TranslatesCStrings translate) {texts : List String}
    (htexts : ∀ s ∈ texts, NulFree s) {text : List UInt8} (h : TextFrom translate texts text) :
    (0 : UInt8) ∉ text := by
  obtain ⟨s, hs, heq⟩ := h
  have hfree : NulFree s := by
    rcases List.mem_cons.mp hs with rfl | hs
    · exact show '\x00' ∉ "default".toList by decide
    · exact htexts s hs
  rcases heq with rfl | rfl
  · exact nulFree_iff.mp hfree
  · exact htranslate s hfree

/-- The texts of a control are its option's. -/
theorem FromOption.texts {optionControl : OptionControl} {monitorControl : MonitorControl}
    {control : DbControl} (h : FromOption translate optionControl monitorControl control) :
    ∀ text ∈ control.texts, TextFrom translate optionControl.texts text := by
  have hname : optionControl.name ∈ optionControl.texts := by simp [OptionControl.texts]
  have hvalues : ∀ value ∈ optionControl.values, value.texts ⊆ optionControl.texts :=
    fun value hvalue s hs =>
    List.mem_cons_of_mem _ (List.mem_cons_of_mem _ (List.mem_flatMap.mpr ⟨value, hvalue, hs⟩))
  simp only [DbControl.texts, List.forall_mem_cons]
  refine ⟨?_, ?_, fun text htext => ?_⟩
  · rw [h.id]
    exact .of_utf8 translate (by simp [OptionControl.texts])
  · rw [h.name]
    exact .of_translate translate hname
  · obtain ⟨value, hvalue, htext⟩ := List.mem_flatMap.mp htext
    simp only [DbValue.texts, List.mem_cons, List.not_mem_nil, or_false] at htext
    rcases htext with rfl | rfl
    · rcases h.values with ⟨hids, -⟩ | ⟨-, heq, -⟩
      · obtain ⟨optionValue, hmem, hid⟩ :=
          List.mem_map.mp (hids.subset (List.mem_map_of_mem hvalue))
        rw [← hid]
        exact .of_utf8 translate (hvalues optionValue hmem (List.mem_cons_self ..))
      · rw [heq, List.mem_singleton] at hvalue
        subst hvalue
        exact ⟨"default", List.mem_cons_self .., .inl rfl⟩
    · rcases h.names value hvalue with heq | ⟨optionValue, hmem, name, hsome, heq⟩
      · rw [heq]
        exact .of_translate translate hname
      · rw [heq]
        exact .of_translate translate (hvalues optionValue hmem (by simp [OptionValue.texts, hsome]))

/-- The texts of a subgroup are its option's. -/
theorem SubgroupFrom.texts {subgroup : DbSubgroup} {optionSubgroup : OptionSubgroup}
    (h : SubgroupFrom translate subgroup optionSubgroup) :
    ∀ text ∈ subgroup.texts, TextFrom translate optionSubgroup.texts text := by
  obtain ⟨hname, hpattern, hcontrols⟩ := h
  simp only [DbSubgroup.texts, List.cons_append, List.forall_mem_cons, List.forall_mem_append]
  refine ⟨?_, fun text htext => ?_, fun text htext => ?_⟩
  · rw [hname]
    exact .of_translate translate (by simp [OptionSubgroup.texts])
  · obtain ⟨s, hs, rfl⟩ := List.mem_map.mp htext
    exact .of_utf8 translate (by simp [OptionSubgroup.texts, ← hpattern, Option.mem_toList.mp hs])
  · obtain ⟨control, hc, htext⟩ := List.mem_flatMap.mp htext
    obtain ⟨optionControl, hmem, _, hfrom⟩ := hcontrols control hc
    refine (hfrom.texts translate text htext).mono translate fun s hs => ?_
    exact List.mem_append_right _ (List.mem_flatMap.mpr ⟨optionControl, hmem, hs⟩)

/-- The texts of a group are its option's. -/
theorem PrunedGroupFrom.texts {group : DbGroup} {optionGroup : OptionGroup}
    (h : PrunedGroupFrom translate group optionGroup) :
    ∀ text ∈ group.texts, TextFrom translate optionGroup.texts text := by
  obtain ⟨hname, hsubgroups⟩ := h
  simp only [DbGroup.texts, List.forall_mem_cons]
  refine ⟨?_, fun text htext => ?_⟩
  · rw [hname]
    exact .of_translate translate (List.mem_cons_self ..)
  · obtain ⟨subgroup, hsub, htext⟩ := List.mem_flatMap.mp htext
    obtain ⟨kept, hkept, hsublist⟩ := List.sublistForall₂_iff.mp hsubgroups
    obtain ⟨optionSubgroup, hmem, hfrom⟩ := exists_of_forall₂ hkept hsub
    have hmem := hsublist.subset hmem
    refine (hfrom.texts translate text htext).mono translate fun s hs => ?_
    exact List.mem_cons_of_mem _ (List.mem_flatMap.mpr ⟨optionSubgroup, hmem, hs⟩)

/-! ### The name -/

theorem openInit_name {mode : LoadMode} {root : Node} {build build' : MonitorBuild}
    (h : openInit mode root build = .ok build') : build'.name = build.name := by
  unfold openInit at h
  split at h
  · split at h
    · cases h
      rfl
    · obtain ⟨init, -, h⟩ := bind_eq_ok.mp h
      split at h <;> cases h <;> rfl
  · cases h
    rfl

/-- Opening a root names a build after it, if it has no name yet. -/
theorem openRoot_name {context : DbContext} {mode : LoadMode} {pnpname : String}
    {root : Node} {key : Key} (hroot : context.rootOf key = some root) {build build' : MonitorBuild}
    (h : NamedByRoot context build) (hopen : openRoot mode pnpname root build = .ok build') :
    NamedByRoot context build' := by
  simp only [openRoot, bind_eq_ok] at hopen
  obtain ⟨_, -, _, -, named, hnamed, inited, hinited, _, -, _, -, hopen⟩ := hopen
  cases hopen
  intro name hsome
  rw [openInit_name hinited] at hsome
  unfold openName at hnamed
  split at hnamed
  · cases hnamed
    exact h name hsome
  · obtain ⟨s, hs, hnamed⟩ := bind_eq_ok.mp hnamed
    cases hnamed
    cases hsome
    exact ⟨key, root, s, hroot, orError_eq_ok.mp hs, rfl⟩

/-- **A load names a build after a root it opens.** -/
theorem createDbProtected_name {context : DbContext} {mode : LoadMode} {pnpname : String}
    {recursionlevel : ℕ} {assembly assembly' : Assembly}
    (hstart : NamedByRoot context assembly.build)
    (h : createDbProtected translate context mode pnpname recursionlevel assembly = .ok assembly') :
    NamedByRoot context assembly'.build := by
  induction pnpname, recursionlevel, assembly using createDbProtected.induct generalizing assembly' with
  | case1 pnpname recursionlevel assembly ih =>
    obtain ⟨build, root, hlevel, hcount, hroot, h⟩ := createDbProtected_eq_ok translate h
    obtain ⟨build', walk, hopen, hwalk, -, rfl⟩ := interpretRoot_eq_ok translate h
    have hcounted : NamedByRoot context build := by
      obtain ⟨_, -, hcount⟩ := bind_eq_ok.mp hcount
      obtain ⟨_, -, hcount⟩ := bind_eq_ok.mp hcount
      cases hcount
      exact hstart
    refine foldlM_preserves (P := fun walk : Walk => NamedByRoot context walk.assembly.build)
      (fun child _ walk walk' hwalk hchild => ?_) (openRoot_name hroot hcounted hopen) hwalk
    obtain ⟨-, -, hcase⟩ := profileChild_eq_ok translate hchild
    rcases hcase with ⟨-, table, -, rfl⟩ | ⟨-, file, assembly', -, hvisit,
      rfl⟩ | ⟨-, -, table, -, rfl⟩ | ⟨-, -, -, -, rfl⟩
    · exact hwalk
    · exact ih (by omega) file walk.assembly hwalk hvisit
    · exact hwalk
    · exact hwalk

/-! ### Allocation -/

theorem allocMonitor_eq_some {build : MonitorBuild} {groups : List DbGroup}
    (hname : ∀ name, build.name = some name → (0 : UInt8) ∉ name)
    (hgroups : ∀ group ∈ groups, ∀ text ∈ group.texts, (0 : UInt8) ∉ text) :
    allocMonitor build groups = some ⟨build.name.getD [], build.init, groups⟩ := by
  unfold allocMonitor
  rw [if_neg]
  simp only [MonitorDb.texts, List.any_cons, Bool.or_eq_true, List.contains_iff_mem,
    List.any_eq_true, List.mem_flatMap, not_or, not_exists, not_and]
  refine ⟨?_, fun text ⟨group, hgroup, htext⟩ => hgroups group hgroup text htext⟩
  cases hsome : build.name with
  | none => exact List.not_mem_nil
  | some name => exact hname name hsome

/-- **Whatever a load assembles, it can allocate**, from a context whose texts have no
NUL character. -/
theorem assemble_allocates (htranslate : TranslatesCStrings translate) {context : DbContext}
    (hcontext : NulFreeContext context) {pnpname : String} {caps : Caps} {faulttolerance : Bool}
    {assembly : Assembly}
    (h : assemble translate context pnpname caps faulttolerance = .ok assembly)
    {build : MonitorBuild} (hbuild : build.name = assembly.build.name) :
    allocMonitor build (pruneEmptyGroups assembly.table.groups) =
      some ⟨build.name.getD [], build.init, pruneEmptyGroups assembly.table.groups⟩ := by
  refine allocMonitor_eq_some (fun name hname => ?_) fun group hgroup text htext => ?_
  · have hstart : NamedByRoot context (Assembly.start translate context.options caps).build :=
      fun _ h => nomatch h
    rw [hbuild] at hname
    obtain ⟨key, root, s, hroot, hs, rfl⟩ := createDbProtected_name translate hstart h name hname
    exact nulFree_iff.mp ((hcontext.rootOf hroot) root .self "name" s hs)
  · have hinv := assembled_run translate (by rfl) (createDbProtected_run translate h)
    obtain ⟨kept, hkept, hsublist⟩ := List.sublistForall₂_iff.mp (pruneEmptyGroups_shape translate hinv.shape)
    obtain ⟨optionGroup, hmem, hfrom⟩ := exists_of_forall₂ hkept hgroup
    refine (hfrom.texts translate text htext).nulFree translate htranslate fun s hs => ?_
    exact hcontext.options s (List.mem_flatMap.mpr ⟨optionGroup, hsublist.subset hmem, hs⟩)

end Translated

end DdcControl.Database
