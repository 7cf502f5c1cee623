import DdcControl.Database.Memory

/-!
# Owning the tree of a monitor

What a tree owns in C memory: each of its structures, and each of its strings, with a NUL
byte at the end and no other. Every function that frees a level of the tree gives up what
that level owns, and every function that allocates one owns it whole or nothing at all.

## What is proved

* `allocMonitor_obtains`, `freeMonitor_triple` — a tree is allocated whole or not at all,
  and freed whole.
* `allocMonitor_whole` — so a load leaks nothing, and what it returns is the tree of the
  profile in memory of its own, that `ddcci_free_db` gives back.
-/

namespace DdcControl.Database.Memory

open Ownership Ownership.Assertion

variable {A : Type} [DecidableEq A]

/-! ### What a tree owns -/

/-- A C string; a null pointer for none. -/
def textAt : Option (List UInt8) → Option A → Assertion A (Object A)
  | none, p => lift (p = none)
  | some bytes, p => any fun a => lift (p = some a ∧ 0 ∉ bytes) * pointsTo a (.text (bytes ++ [0]))

/-- A value. -/
def valueAt (value : DbValue) (a : A) (next : Option A) : Assertion A (Object A) :=
  any fun id => any fun name =>
    pointsTo a (.value ⟨id, name, (value.value16 &&& 0xff).toUInt8, next, value.value16⟩) *
      (textAt (some (utf8 value.id)) id * textAt (some value.name) name)

/-- A control, with its values. -/
def controlAt (control : DbControl) (a : A) (next : Option A) : Assertion A (Object A) :=
  any fun id => any fun name => any fun valueList =>
    pointsTo a (.control ⟨id, name, control.address, control.delay, control.controlType,
      control.refresh, next, valueList⟩) *
      (textAt (some (utf8 control.id)) id *
        (textAt (some control.name) name * Chain valueAt valueList control.values none))

/-- A subgroup, with its controls. -/
def subgroupAt (subgroup : DbSubgroup) (a : A) (next : Option A) : Assertion A (Object A) :=
  any fun name => any fun pattern => any fun controlList =>
    pointsTo a (.subgroup ⟨name, pattern, next, controlList⟩) *
      (textAt (some subgroup.name) name *
        (textAt (subgroup.pattern.map utf8) pattern * Chain controlAt controlList subgroup.controls none))

/-- A group, with its subgroups. -/
def groupAt (group : DbGroup) (a : A) (next : Option A) : Assertion A (Object A) :=
  any fun name => any fun subgroupList =>
    pointsTo a (.group ⟨name, next, subgroupList⟩) *
      (textAt (some group.name) name * Chain subgroupAt subgroupList group.subgroups none)

/-- A monitor, with its groups. -/
def monitorAt (monitor : MonitorDb) (a : A) : Assertion A (Object A) :=
  any fun name => any fun groupList =>
    pointsTo a (.monitor ⟨name, monitor.init, groupList⟩) *
      (textAt (some monitor.name) name * Chain groupAt groupList monitor.groups none)

/-! ### How long its lists are -/

/-- The longest list in a subgroup. -/
def subgroupBreadth (subgroup : DbSubgroup) : ℕ :=
  (subgroup.controls.map fun control => control.values.length).foldr max subgroup.controls.length

/-- The longest list in a group. -/
def groupBreadth (group : DbGroup) : ℕ := (group.subgroups.map subgroupBreadth).foldr max group.subgroups.length

/-- The longest list in a tree. -/
def breadth (groups : List DbGroup) : ℕ := (groups.map groupBreadth).foldr max groups.length

theorem foldr_max_lt {l : List ℕ} {b n : ℕ} : l.foldr max b < n ↔ b < n ∧ ∀ x ∈ l, x < n := by
  induction l with
  | nil => simp
  | cons x l ih => simp [ih, and_left_comm]

theorem breadth_lt {groups : List DbGroup} {fuel : ℕ} (h : breadth groups < fuel) :
    groups.length < fuel ∧ ∀ group ∈ groups, groupBreadth group < fuel := by
  simpa [breadth, foldr_max_lt] using h

theorem groupBreadth_lt {group : DbGroup} {fuel : ℕ} (h : groupBreadth group < fuel) :
    group.subgroups.length < fuel ∧ ∀ subgroup ∈ group.subgroups, subgroupBreadth subgroup < fuel := by
  simpa [groupBreadth, foldr_max_lt] using h

theorem subgroupBreadth_lt {subgroup : DbSubgroup} {fuel : ℕ} (h : subgroupBreadth subgroup < fuel) :
    subgroup.controls.length < fuel ∧ ∀ control ∈ subgroup.controls, control.values.length < fuel := by
  simpa [subgroupBreadth, foldr_max_lt] using h

/-! ### Freeing -/

theorem freeText_triple (text : Option (List UInt8)) (p : Option A) :
    Triple (textAt text p) (free p) fun _ => 1 := by
  cases text with
  | none =>
    rw [textAt, ← mul_one (lift _)]
    refine Triple.of_lift fun hp => ?_
    rw [hp]
    exact free_null_triple
  | some bytes =>
    refine Triple.of_any fun a => Triple.of_lift fun hp => ?_
    rw [hp.1]
    exact free_triple a _

theorem freeValue_triple (value : DbValue) (a : A) (next : Option A) :
    Triple (valueAt value a next) (freeValue a) fun next' => lift (next' = next) := by
  refine Triple.of_any fun id => Triple.of_any fun name => ?_
  refine readAs_step Object.toValue rfl rfl ?_
  refine (freeText_triple _ id).release (mul_left_comm ..) fun _ => ?_
  refine (freeText_triple _ name).release (mul_comm ..) fun _ => ?_
  refine (free_triple a _).release (mul_one _).symm fun _ => ?_
  exact Triple.result fun _ hh => ⟨rfl, hh⟩

theorem freeValues_triple {values : List DbValue} {fuel : ℕ} (hfuel : values.length < fuel) (p : Option A) :
    Triple (Chain valueAt p values none) (freeValues fuel p) fun _ => 1 :=
  freeList_triple (fun value _ a next => freeValue_triple value a next) hfuel p

theorem freeControl_triple {control : DbControl} {fuel : ℕ} (hfuel : control.values.length < fuel)
    (a : A) (next : Option A) :
    Triple (controlAt control a next) (freeControl fuel a) fun next' => lift (next' = next) := by
  refine Triple.of_any fun id => Triple.of_any fun name => Triple.of_any fun valueList => ?_
  refine readAs_step Object.toControl rfl rfl ?_
  refine (freeText_triple _ id).release (mul_left_comm ..) fun _ => ?_
  refine (freeText_triple _ name).release (mul_left_comm ..) fun _ => ?_
  refine (freeValues_triple hfuel valueList).release (mul_comm ..) fun _ => ?_
  refine (free_triple a _).release (mul_one _).symm fun _ => ?_
  exact Triple.result fun _ hh => ⟨rfl, hh⟩

theorem freeControls_triple {controls : List DbControl} {fuel : ℕ} (hfuel : controls.length < fuel)
    (hcontrols : ∀ control ∈ controls, control.values.length < fuel) (p : Option A) :
    Triple (Chain controlAt p controls none) (freeControls fuel p) fun _ => 1 :=
  freeList_triple (fun control hc a next => freeControl_triple (hcontrols control hc) a next) hfuel p

theorem freeSubgroup_triple {subgroup : DbSubgroup} {fuel : ℕ} (hfuel : subgroupBreadth subgroup < fuel)
    (a : A) (next : Option A) :
    Triple (subgroupAt subgroup a next) (freeSubgroup fuel a) fun next' => lift (next' = next) := by
  obtain ⟨hcontrols, hvalues⟩ := subgroupBreadth_lt hfuel
  refine Triple.of_any fun name => Triple.of_any fun pattern => Triple.of_any fun controlList => ?_
  refine readAs_step Object.toSubgroup rfl rfl ?_
  refine (freeText_triple _ name).release (mul_left_comm ..) fun _ => ?_
  refine (freeText_triple _ pattern).release (mul_left_comm ..) fun _ => ?_
  refine (freeControls_triple hcontrols hvalues controlList).release (mul_comm ..) fun _ => ?_
  refine (free_triple a _).release (mul_one _).symm fun _ => ?_
  exact Triple.result fun _ hh => ⟨rfl, hh⟩

theorem freeSubgroups_triple {subgroups : List DbSubgroup} {fuel : ℕ} (hfuel : subgroups.length < fuel)
    (hsubgroups : ∀ subgroup ∈ subgroups, subgroupBreadth subgroup < fuel) (p : Option A) :
    Triple (Chain subgroupAt p subgroups none) (freeSubgroups fuel p) fun _ => 1 :=
  freeList_triple (fun subgroup hs a next => freeSubgroup_triple (hsubgroups subgroup hs) a next) hfuel p

theorem freeGroup_triple {group : DbGroup} {fuel : ℕ} (hfuel : groupBreadth group < fuel)
    (a : A) (next : Option A) :
    Triple (groupAt group a next) (freeGroup fuel a) fun next' => lift (next' = next) := by
  obtain ⟨hlength, hsubgroups⟩ := groupBreadth_lt hfuel
  refine Triple.of_any fun name => Triple.of_any fun subgroupList => ?_
  refine readAs_step Object.toGroup rfl rfl ?_
  refine (freeText_triple _ name).release (mul_left_comm ..) fun _ => ?_
  refine (freeSubgroups_triple hlength hsubgroups subgroupList).release (mul_comm ..) fun _ => ?_
  refine (free_triple a _).release (mul_one _).symm fun _ => ?_
  exact Triple.result fun _ hh => ⟨rfl, hh⟩

theorem freeGroups_triple {groups : List DbGroup} {fuel : ℕ} (hfuel : groups.length < fuel)
    (hgroups : ∀ group ∈ groups, groupBreadth group < fuel) (p : Option A) :
    Triple (Chain groupAt p groups none) (freeGroups fuel p) fun _ => 1 :=
  freeList_triple (fun group hg a next => freeGroup_triple (hgroups group hg) a next) hfuel p

/-- **A tree is freed whole**: each of its objects once, and no other. -/
theorem freeMonitor_triple {monitor : MonitorDb} {fuel : ℕ} (hfuel : breadth monitor.groups < fuel) (a : A) :
    Triple (monitorAt monitor a) (freeMonitor fuel (some a)) fun _ => 1 := by
  obtain ⟨hlength, hgroups⟩ := breadth_lt hfuel
  refine Triple.of_any fun name => Triple.of_any fun groupList => ?_
  refine readAs_step Object.toMonitor rfl rfl ?_
  refine (freeText_triple _ name).release (mul_left_comm ..) fun _ => ?_
  refine (freeGroups_triple hlength hgroups groupList).release (mul_comm ..) fun _ => ?_
  exact free_triple a _

/-! ### Linking -/

theorem linkValue_triple (value : DbValue) (a b : A) :
    Triple (valueAt value a none) (linkValue a b) fun _ => valueAt value a (some b) := by
  refine Triple.of_any fun id => Triple.of_any fun name => ?_
  refine readAs_step Object.toValue rfl rfl ?_
  exact ((write_triple a _ _).frame _).post fun _ _ hh => ⟨id, name, hh⟩

theorem linkControl_triple (control : DbControl) (a b : A) :
    Triple (controlAt control a none) (linkControl a b) fun _ => controlAt control a (some b) := by
  refine Triple.of_any fun id => Triple.of_any fun name => Triple.of_any fun valueList => ?_
  refine readAs_step Object.toControl rfl rfl ?_
  exact ((write_triple a _ _).frame _).post fun _ _ hh => ⟨id, name, valueList, hh⟩

theorem linkSubgroup_triple (subgroup : DbSubgroup) (a b : A) :
    Triple (subgroupAt subgroup a none) (linkSubgroup a b) fun _ => subgroupAt subgroup a (some b) := by
  refine Triple.of_any fun name => Triple.of_any fun pattern => Triple.of_any fun controlList => ?_
  refine readAs_step Object.toSubgroup rfl rfl ?_
  exact ((write_triple a _ _).frame _).post fun _ _ hh => ⟨name, pattern, controlList, hh⟩

theorem linkGroup_triple (group : DbGroup) (a b : A) :
    Triple (groupAt group a none) (linkGroup a b) fun _ => groupAt group a (some b) := by
  refine Triple.of_any fun name => Triple.of_any fun subgroupList => ?_
  refine readAs_step Object.toGroup rfl rfl ?_
  exact ((write_triple a _ _).frame _).post fun _ _ hh => ⟨name, subgroupList, hh⟩

/-! ### Allocating -/

section Allocating

variable {allocator : Allocator A (Object A)} {unable : Prop}

theorem allocObject_obtains (object : Object A) :
    Obtains unable 1 (allocObject allocator object) fun a => pointsTo a object := by
  refine (malloc_obtains unable allocator _).acquire (fun _ hp => Triple.fail hp) fun a => ?_
  rw [mul_one]
  exact Attempt.after (write_triple a _ object) fun _ => Obtains.result fun _ hh => hh

theorem cBytes_obtains {bytes : List UInt8} (hnul : 0 ∈ bytes → unable) :
    Obtains unable 1 (cBytes allocator bytes) fun a => textAt (some bytes) (some a) := by
  rw [cBytes]
  split
  case isTrue h => exact Obtains.fail (hnul (by simpa using h))
  case isFalse h =>
    refine (allocObject_obtains _).post fun a heap hh => ?_
    exact ⟨a, lift_mul_apply.mpr ⟨⟨rfl, by simpa using h⟩, hh⟩⟩

theorem allocValue_obtains {value : DbValue} (hnul : ∀ text ∈ value.texts, 0 ∈ text → unable) :
    Obtains unable 1 (allocValue allocator value) fun a => valueAt value a none := by
  have hid := hnul (utf8 value.id) (by simp [DbValue.texts])
  have hname := hnul value.name (by simp [DbValue.texts])
  refine (cBytes_obtains hid).acquire (fun _ hp => Triple.fail hp) fun id => ?_
  rw [mul_one]
  refine (cBytes_obtains hname).acquire (fun _ hp => ?_) fun name => ?_
  · exact (freeText_triple _ (some id)).release (mul_one _).symm fun _ => Triple.fail hp
  refine (allocObject_obtains _).acquire (fun _ hp => ?_) fun node => ?_
  · refine (freeText_triple _ (some id)).release (mul_comm ..) fun _ => ?_
    exact (freeText_triple _ (some name)).release (mul_one _).symm fun _ => Triple.fail hp
  · refine Obtains.result fun h hh => ⟨some id, some name, ?_⟩
    rwa [mul_comm (textAt _ (some name))] at hh

/-- The text of a pattern. -/
theorem allocPattern_obtains {pattern : Option String} (hnul : ∀ s ∈ pattern, 0 ∈ utf8 s → unable) :
    Obtains unable 1 (allocPattern allocator pattern) (textAt (pattern.map utf8)) := by
  cases pattern with
  | none => exact Obtains.result fun _ hh => ⟨rfl, hh⟩
  | some s =>
    refine (cBytes_obtains (hnul s rfl)).acquire (fun _ hp => Triple.fail hp) fun a => ?_
    rw [mul_one]
    exact Obtains.result fun _ hh => hh

theorem allocValues_obtains {values : List DbValue} {fuel : ℕ} (hfuel : values.length < fuel)
    (hnul : ∀ text ∈ values.flatMap DbValue.texts, 0 ∈ text → unable) :
    Obtains unable 1 (allocValues allocator fuel values) fun head => Chain valueAt head values none := by
  refine allocList_obtains (fun value hv => allocValue_obtains fun text ht => ?_)
    (fun value _ => linkValue_triple value) fun l l' hl head => freeValues_triple ?_ head
  · exact hnul text (List.mem_flatMap_of_mem hv ht)
  · rw [← hl, List.length_append] at hfuel
    exact Nat.lt_of_le_of_lt (Nat.le_add_right ..) hfuel

theorem allocControl_obtains {control : DbControl} {fuel : ℕ} (hfuel : control.values.length < fuel)
    (hnul : ∀ text ∈ control.texts, 0 ∈ text → unable) :
    Obtains unable 1 (allocControl allocator fuel control) fun a => controlAt control a none := by
  have hid := hnul (utf8 control.id) (by simp [DbControl.texts])
  have hname := hnul control.name (by simp [DbControl.texts])
  have hvalues : ∀ text ∈ control.values.flatMap DbValue.texts, 0 ∈ text → unable :=
    fun text ht => hnul text (List.mem_cons_of_mem _ (List.mem_cons_of_mem _ ht))
  refine (cBytes_obtains hid).acquire (fun _ hp => Triple.fail hp) fun id => ?_
  rw [mul_one]
  refine (cBytes_obtains hname).acquire (fun _ hp => ?_) fun name => ?_
  · exact (freeText_triple _ (some id)).release (mul_one _).symm fun _ => Triple.fail hp
  rw [mul_comm]
  refine (allocValues_obtains hfuel hvalues).acquire (fun _ hp => ?_) fun valueList => ?_
  · refine (freeText_triple _ (some id)).release rfl fun _ => ?_
    exact (freeText_triple _ (some name)).release (mul_one _).symm fun _ => Triple.fail hp
  rw [mul_left_comm, mul_comm (Chain valueAt _ _ _)]
  refine (allocObject_obtains _).acquire (fun _ hp => ?_) fun node => ?_
  · refine (freeText_triple _ (some id)).release rfl fun _ => ?_
    refine (freeText_triple _ (some name)).release rfl fun _ => ?_
    exact (freeValues_triple hfuel valueList).release (mul_one _).symm fun _ => Triple.fail hp
  · exact Obtains.result fun h hh => ⟨some id, some name, valueList, hh⟩

theorem allocControls_obtains {controls : List DbControl} {fuel : ℕ} (hfuel : controls.length < fuel)
    (hvalues : ∀ control ∈ controls, control.values.length < fuel)
    (hnul : ∀ text ∈ controls.flatMap DbControl.texts, 0 ∈ text → unable) :
    Obtains unable 1 (allocControls allocator fuel controls) fun head => Chain controlAt head controls none := by
  refine allocList_obtains (fun control hc => allocControl_obtains (hvalues control hc) fun text ht => ?_)
    (fun control _ => linkControl_triple control) fun l l' hl head => freeControls_triple ?_ ?_ head
  · exact hnul text (List.mem_flatMap_of_mem hc ht)
  · exact Nat.lt_of_le_of_lt (by simp [← hl]) hfuel
  · exact fun control hc => hvalues control (by simp [← hl, hc])

theorem allocSubgroup_obtains {subgroup : DbSubgroup} {fuel : ℕ} (hfuel : subgroupBreadth subgroup < fuel)
    (hnul : ∀ text ∈ subgroup.texts, 0 ∈ text → unable) :
    Obtains unable 1 (allocSubgroup allocator fuel subgroup) fun a => subgroupAt subgroup a none := by
  obtain ⟨hlength, hvalues⟩ := subgroupBreadth_lt hfuel
  have hname := hnul subgroup.name (by simp [DbSubgroup.texts])
  have hpattern : ∀ s ∈ subgroup.pattern, 0 ∈ utf8 s → unable :=
    fun s hs => hnul (utf8 s) (by simp [DbSubgroup.texts, Option.mem_def.mp hs])
  have hcontrols : ∀ text ∈ subgroup.controls.flatMap DbControl.texts, 0 ∈ text → unable :=
    fun text ht => hnul text (List.mem_append_right _ ht)
  refine (cBytes_obtains hname).acquire (fun _ hp => Triple.fail hp) fun name => ?_
  rw [mul_one]
  refine (allocPattern_obtains hpattern).acquire (fun _ hp => ?_) fun pattern => ?_
  · exact (freeText_triple _ (some name)).release (mul_one _).symm fun _ => Triple.fail hp
  rw [mul_comm]
  refine (allocControls_obtains hlength hvalues hcontrols).acquire (fun _ hp => ?_) fun controlList => ?_
  · refine (freeText_triple _ (some name)).release rfl fun _ => ?_
    exact (freeText_triple _ pattern).release (mul_one _).symm fun _ => Triple.fail hp
  rw [mul_left_comm, mul_comm (Chain controlAt _ _ _)]
  refine (allocObject_obtains _).acquire (fun _ hp => ?_) fun node => ?_
  · refine (freeText_triple _ (some name)).release rfl fun _ => ?_
    refine (freeText_triple _ pattern).release rfl fun _ => ?_
    exact (freeControls_triple hlength hvalues controlList).release (mul_one _).symm fun _ => Triple.fail hp
  · exact Obtains.result fun h hh => ⟨some name, pattern, controlList, hh⟩

theorem allocSubgroups_obtains {subgroups : List DbSubgroup} {fuel : ℕ} (hfuel : subgroups.length < fuel)
    (hsubgroups : ∀ subgroup ∈ subgroups, subgroupBreadth subgroup < fuel)
    (hnul : ∀ text ∈ subgroups.flatMap DbSubgroup.texts, 0 ∈ text → unable) :
    Obtains unable 1 (allocSubgroups allocator fuel subgroups) fun head => Chain subgroupAt head subgroups none := by
  refine allocList_obtains
    (fun subgroup hs => allocSubgroup_obtains (hsubgroups subgroup hs) fun text ht => ?_)
    (fun subgroup _ => linkSubgroup_triple subgroup) fun l l' hl head => freeSubgroups_triple ?_ ?_ head
  · exact hnul text (List.mem_flatMap_of_mem hs ht)
  · exact Nat.lt_of_le_of_lt (by simp [← hl]) hfuel
  · exact fun subgroup hs => hsubgroups subgroup (by simp [← hl, hs])

theorem allocGroup_obtains {group : DbGroup} {fuel : ℕ} (hfuel : groupBreadth group < fuel)
    (hnul : ∀ text ∈ group.texts, 0 ∈ text → unable) :
    Obtains unable 1 (allocGroup allocator fuel group) fun a => groupAt group a none := by
  obtain ⟨hlength, hsubgroups⟩ := groupBreadth_lt hfuel
  have hname := hnul group.name (by simp [DbGroup.texts])
  have htexts : ∀ text ∈ group.subgroups.flatMap DbSubgroup.texts, 0 ∈ text → unable :=
    fun text ht => hnul text (List.mem_cons_of_mem _ ht)
  refine (cBytes_obtains hname).acquire (fun _ hp => Triple.fail hp) fun name => ?_
  rw [mul_one]
  refine (allocSubgroups_obtains hlength hsubgroups htexts).acquire (fun _ hp => ?_) fun subgroupList => ?_
  · exact (freeText_triple _ (some name)).release (mul_one _).symm fun _ => Triple.fail hp
  rw [mul_comm]
  refine (allocObject_obtains _).acquire (fun _ hp => ?_) fun node => ?_
  · refine (freeText_triple _ (some name)).release rfl fun _ => ?_
    exact (freeSubgroups_triple hlength hsubgroups subgroupList).release (mul_one _).symm fun _ => Triple.fail hp
  · exact Obtains.result fun h hh => ⟨some name, subgroupList, hh⟩

theorem allocGroups_obtains {groups : List DbGroup} {fuel : ℕ} (hfuel : breadth groups < fuel)
    (hnul : ∀ text ∈ groups.flatMap DbGroup.texts, 0 ∈ text → unable) :
    Obtains unable 1 (allocGroups allocator fuel groups) fun head => Chain groupAt head groups none := by
  obtain ⟨hlength, hgroups⟩ := breadth_lt hfuel
  refine allocList_obtains (fun group hg => allocGroup_obtains (hgroups group hg) fun text ht => ?_)
    (fun group _ => linkGroup_triple group) fun l l' hl head => freeGroups_triple ?_ ?_ head
  · exact hnul text (List.mem_flatMap_of_mem hg ht)
  · exact Nat.lt_of_le_of_lt (by simp [← hl]) hlength
  · exact fun group hg => hgroups group (by simp [← hl, hg])

/-- **A tree is allocated whole or not at all.** -/
theorem allocMonitor_obtains {build : MonitorBuild} {groups : List DbGroup} {fuel : ℕ}
    (hfuel : breadth groups < fuel)
    (hnul : ∀ text ∈ (MonitorDb.mk (build.name.getD []) build.init groups).texts, 0 ∈ text → unable) :
    Obtains unable 1 (allocMonitor allocator fuel build groups) fun a => monitorAt ⟨build.name.getD [], build.init, groups⟩ a := by
  have hname := hnul (build.name.getD []) (by simp [MonitorDb.texts])
  have htexts : ∀ text ∈ groups.flatMap DbGroup.texts, 0 ∈ text → unable :=
    fun text ht => hnul text (List.mem_cons_of_mem _ ht)
  obtain ⟨hlength, hgroups⟩ := breadth_lt hfuel
  refine (cBytes_obtains hname).acquire (fun _ hp => Triple.fail hp) fun name => ?_
  rw [mul_one]
  refine (allocGroups_obtains hfuel htexts).acquire (fun _ hp => ?_) fun groupList => ?_
  · exact (freeText_triple _ (some name)).release (mul_one _).symm fun _ => Triple.fail hp
  rw [mul_comm]
  refine (allocObject_obtains _).acquire (fun _ hp => ?_) fun monitor => ?_
  · refine (freeText_triple _ (some name)).release rfl fun _ => ?_
    exact (freeGroups_triple hlength hgroups groupList).release (mul_one _).symm fun _ => Triple.fail hp
  · exact Obtains.result fun h hh => ⟨some name, groupList, hh⟩

end Allocating

/-! ### The strings of a tree -/

theorem textAt_nul {bytes : List UInt8} {p : Option A} {h : Heap A (Object A)}
    (hh : textAt (some bytes) p h) : 0 ∉ bytes := by
  obtain ⟨a, hh⟩ := hh
  exact (lift_mul_apply.mp hh).1.2

theorem valueAt_nul {value : DbValue} {a : A} {next : Option A} {h : Heap A (Object A)}
    (hh : valueAt value a next h) : ∀ text ∈ value.texts, 0 ∉ text := by
  obtain ⟨id, name, _, _, -, -, -, _, _, -, -, hid, hname⟩ := hh
  simp [DbValue.texts, textAt_nul hid, textAt_nul hname]

theorem controlAt_nul {control : DbControl} {a : A} {next : Option A} {h : Heap A (Object A)}
    (hh : controlAt control a next h) : ∀ text ∈ control.texts, 0 ∉ text := by
  obtain ⟨id, name, values, _, _, -, -, -, _, _, -, -, hid, _, _, -, -, hname, hvalues⟩ := hh
  rw [DbControl.texts, List.forall_mem_cons, List.forall_mem_cons, List.forall_mem_flatMap]
  refine ⟨textAt_nul hid, textAt_nul hname, fun value hv => ?_⟩
  obtain ⟨_, _, _, hvalue⟩ := hvalues.exists_node hv
  exact valueAt_nul hvalue

theorem subgroupAt_nul {subgroup : DbSubgroup} {a : A} {next : Option A} {h : Heap A (Object A)}
    (hh : subgroupAt subgroup a next h) : ∀ text ∈ subgroup.texts, 0 ∉ text := by
  obtain ⟨name, pattern, controls, _, _, -, -, -, _, _, -, -, hname, _, _, -, -, hpattern, hcontrols⟩ := hh
  rw [DbSubgroup.texts, List.forall_mem_append, List.forall_mem_cons, List.forall_mem_flatMap]
  refine ⟨⟨textAt_nul hname, ?_⟩, fun control hc => ?_⟩
  · cases hs : subgroup.pattern with
    | none => simp
    | some s =>
      rw [hs] at hpattern
      simpa using textAt_nul hpattern
  · obtain ⟨_, _, _, hcontrol⟩ := hcontrols.exists_node hc
    exact controlAt_nul hcontrol

theorem groupAt_nul {group : DbGroup} {a : A} {next : Option A} {h : Heap A (Object A)}
    (hh : groupAt group a next h) : ∀ text ∈ group.texts, 0 ∉ text := by
  obtain ⟨name, subgroups, _, _, -, -, -, _, _, -, -, hname, hsubgroups⟩ := hh
  rw [DbGroup.texts, List.forall_mem_cons, List.forall_mem_flatMap]
  refine ⟨textAt_nul hname, fun subgroup hs => ?_⟩
  obtain ⟨_, _, _, hsubgroup⟩ := hsubgroups.exists_node hs
  exact subgroupAt_nul hsubgroup

theorem monitorAt_nul {monitor : MonitorDb} {a : A} {h : Heap A (Object A)}
    (hh : monitorAt monitor a h) : ∀ text ∈ monitor.texts, 0 ∉ text := by
  obtain ⟨name, groups, _, _, -, -, -, _, _, -, -, hname, hgroups⟩ := hh
  rw [MonitorDb.texts, List.forall_mem_cons, List.forall_mem_flatMap]
  refine ⟨textAt_nul hname, fun group hg => ?_⟩
  obtain ⟨_, _, _, hgroup⟩ := hgroups.exists_node hg
  exact groupAt_nul hgroup

/-! ### A load and its release -/

theorem allocMonitor_eq_some {build : MonitorBuild} {groups : List DbGroup}
    (h : ∀ text ∈ (MonitorDb.mk (build.name.getD []) build.init groups).texts, 0 ∉ text) :
    Database.allocMonitor build groups = some ⟨build.name.getD [], build.init, groups⟩ := by
  rw [Database.allocMonitor, if_neg]
  simpa using h

theorem allocMonitor_eq_none {build : MonitorBuild} {groups : List DbGroup} {text : List UInt8}
    (ht : text ∈ (MonitorDb.mk (build.name.getD []) build.init groups).texts) (h : 0 ∈ text) :
    Database.allocMonitor build groups = none := by
  rw [Database.allocMonitor, if_pos]
  simpa using ⟨text, ht, h⟩

/-- **A load leaks nothing.** Whatever requests for memory are refused, the allocation of a
tree ends. With a null pointer the memory is as it was, and one of its own requests was refused
or no tree can be published; with a pointer the memory has the published tree besides what it had, and
freeing the tree gives back exactly the memory from before. -/
theorem allocMonitor_whole (allocator : Allocator A (Object A)) (build : MonitorBuild)
    (groups : List DbGroup) {fuel : ℕ} (hfuel : breadth groups < fuel) (heap : Heap A (Object A))
    (requests refusals : ℕ) :
    ∃ (result : Option A) (heap' : Heap A (Object A)) (requests' refusals' : ℕ),
      allocMonitor allocator fuel build groups ⟨heap, requests, refusals⟩ =
        some (result, ⟨heap', requests', refusals'⟩) ∧
      (result = none →
        heap' = heap ∧ (refusals < refusals' ∨ Database.allocMonitor build groups = none)) ∧
      ∀ a, result = some a → ∃ (monitor : MonitorDb) (owned : Heap A (Object A)),
        Database.allocMonitor build groups = some monitor ∧
        owned.Apart heap ∧ heap' = owned.union heap ∧ monitorAt monitor a owned ∧
        ∀ n k, ∃ n', freeMonitor fuel (some a) ⟨heap', n, k⟩ = some ((), ⟨heap, n', k⟩) := by
  have hnul : ∀ text ∈ (MonitorDb.mk (build.name.getD []) build.init groups).texts, 0 ∈ text →
      Database.allocMonitor build groups = none :=
    fun text ht h => allocMonitor_eq_none ht h
  obtain ⟨result, owned, requests', refusals', hrun, -, hap, hpost⟩ :=
    allocMonitor_obtains hfuel hnul Heap.empty heap requests refusals rfl (Heap.empty_apart heap)
  rw [Heap.empty_union] at hrun
  refine ⟨result, owned.union heap, requests', refusals', hrun, fun hr => ?_, fun a hr => ?_⟩
  · subst hr
    obtain ⟨hwhy, hempty⟩ := hpost
    rw [hempty, Heap.empty_union]
    exact ⟨rfl, hwhy.symm⟩
  · subst hr
    refine ⟨_, owned, allocMonitor_eq_some (monitorAt_nul hpost), hap, rfl, hpost, fun n k => ?_⟩
    obtain ⟨_, empty, n', hfree, -, hempty⟩ := freeMonitor_triple hfuel a owned heap n k hpost hap
    rw [one_apply.mp hempty, Heap.empty_union] at hfree
    exact ⟨n', hfree⟩

/-- The groups of a tree with a value. -/
def onGroups : List DbGroup :=
  [⟨[71], [⟨[83], none, [⟨"id", [67], 0x10, 0, .value, .none, [⟨"on", [79], 1⟩]⟩]⟩]⟩]

/-- Where the fifth request is refused there is no tree, and nothing is left. -/
theorem allocMonitor_whole_bump :
    ∃ requests' refusals', 0 < refusals' ∧
      allocMonitor (.bump fun n => n == 4) 2 ⟨1, some [68], .standard⟩ onGroups ⟨Heap.empty, 0, 0⟩ =
        some (none, (⟨Heap.empty, requests', refusals'⟩ : Store ℕ (Object ℕ))) := by
  obtain ⟨result, heap', requests', refusals', hrun, hnone, -⟩ :=
    allocMonitor_whole (.bump fun n => n == 4) ⟨1, some [68], .standard⟩ onGroups
      (show _ < 2 by decide) Heap.empty 0 0
  have hresult : (allocMonitor (.bump fun n => n == 4) 2 ⟨1, some [68], .standard⟩ onGroups
      (⟨Heap.empty, 0, 0⟩ : Store ℕ (Object ℕ))).map Prod.fst = some none := by decide +kernel
  rw [hrun, Option.map_some, Option.some.injEq] at hresult
  obtain ⟨rfl, hrefused | hunpublished⟩ := hnone hresult
  · exact ⟨requests', refusals', hrefused, by rw [hrun, ← hresult]⟩
  · have hpublished : (Database.allocMonitor ⟨1, some [68], .standard⟩ onGroups).isSome = true := by decide
    rw [hunpublished] at hpublished
    cases hpublished

end DdcControl.Database.Memory
