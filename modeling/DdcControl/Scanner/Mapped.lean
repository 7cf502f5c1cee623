import DdcControl.Database.Steps
import DdcControl.Library.Lookup
import DdcControl.Scanner.Written

/-!
# The values of a generated control

The generator maps the values whose hinted number the monitor advertises. The loader
looks each value of the option up among those of the profile, by its id alone, and wants
a name of every value it finds. So the two agree where a mapped value has a name and an
id of its own.

## What is proved

* `getValueList_matching` — the loader accepts the values that the generator maps, and
  makes of them what the profile says, exactly where they are `Unambiguous`.
-/

namespace DdcControl.Scanner

open Database Fallible Lookup

/-- The number a value has on a monitor: its hint, if the monitor advertises it. -/
def mappedNumber (advertised : Option (List UInt16)) (value : OptionValue) : Option UInt16 :=
  (hintedValue value).filter fun number => advertised.any fun values => values.contains number

/-- Every mapped value has a name, and an id that no other value of the option has. -/
def Unambiguous (option : OptionControl) (advertised : Option (List UInt16)) : Prop :=
  ∀ value ∈ option.values, (mappedNumber advertised value).isSome = true →
    value.name.isSome = true ∧ option.values.countP (fun other => other.id = value.id) = 1

/-- A value of a profile, as the loader reads it. -/
def writtenValue (value : String × UInt16) : MonitorValue :=
  ⟨"value", some value.1, some ("0x" ++ hexText value.2.toNat)⟩

/-- A control of a profile, as the loader reads it. -/
def ActiveControl.monitorControl (control : ActiveControl) (childIndex : ℕ) : MonitorControl :=
  ⟨control.option.id, some ("0x" ++ hexText control.code.toNat), none, control.values.map writtenValue, childIndex, false⟩

/-- What a profile says of an option's value: the first value with its id. -/
def ActiveControl.written (control : ActiveControl) (value : OptionValue) : Option (String × UInt16) :=
  control.values.find? fun entry => entry.1 = value.id

/-- What a tree says of a value: its id and its number. -/
def valueEntry (value : DbValue) : String × UInt16 := (value.id, value.value16)

/-! ### Looking a value up -/

/-- Looking an option value up is looking its id up among those written. -/
theorem findMonitorValue_written (control : ActiveControl) (childIndex : ℕ) (value : OptionValue) :
    findMonitorValue (control.monitorControl childIndex) value =
      (first Prod.fst control.values value.id).map fun (found, index) =>
        (writtenValue found, index) := by
  unfold findMonitorValue first ActiveControl.monitorControl
  simp only [List.zipIdx_map, List.find?_map]
  congr 2
  funext item
  simp [writtenValue]

/-- The loader reads the number that was written. -/
theorem monitorValue16_written (value : String × UInt16) :
    monitorValue16 (writtenValue value) = .ok value.2 := by
  have hlt := value.2.toNat_lt
  have hparse : parseInteger ("0x" ++ hexText value.2.toNat) = .ok value.2.toNat :=
    parseInteger_hexText (by omega)
  refine bind_eq_ok.mpr ⟨_, rfl, ?_⟩
  rw [hparse]
  refine bind_eq_ok.mpr ⟨(), reject_eq_ok.mpr ?_, ?_⟩
  · simp only [Bool.or_eq_false_iff, decide_eq_false_iff_not]
    omega
  · rw [Int.toNat_natCast, UInt16.ofNat_toNat]
    rfl

/-- What the loader has read and marked after some of an option's values. -/
structure Looked (control : ActiveControl) (done : List OptionValue) (found : List DbValue × List Bool) : Prop where
  named : ∀ value ∈ done, (first Prod.fst control.values value.id).isSome = true → value.name.isSome = true
  entries : found.1.map valueEntry = done.filterMap control.written
  length : found.2.length = control.values.length
  marked : ∀ index < control.values.length, found.2[index]? = some true ↔
    ∃ value ∈ done, ∃ entry, first Prod.fst control.values value.id = some (entry, index)

/-- Where every value of the profile was found, their ids differ: an id finds one index. -/
theorem Looked.nodup {control : ActiveControl} {done : List OptionValue}
    {found : List DbValue × List Bool} (h : Looked control done found)
    (hall : ∀ mark ∈ found.2, mark = true) : (control.values.map Prod.fst).Nodup := by
  have hfound (index : ℕ) (hindex : index < control.values.length) :
      ∃ entry, first Prod.fst control.values control.values[index].1 = some (entry, index) := by
    have hmark : found.2[index]? = some true := by
      rw [List.getElem?_eq_getElem (h.length ▸ hindex), hall _ (List.getElem_mem _)]
    obtain ⟨value, -, entry, hentry⟩ := (h.marked index hindex).mp hmark
    obtain ⟨hget, hid⟩ := first_eq_some hentry
    rw [List.getElem?_eq_getElem hindex, Option.some.injEq] at hget
    exact ⟨entry, by rwa [hget, hid]⟩
  refine List.nodup_iff_injective_getElem.mpr fun i j heq => Fin.ext ?_
  have hi := i.isLt
  have hj := j.isLt
  simp only [List.length_map] at hi hj
  simp only [List.getElem_map] at heq
  obtain ⟨entry, hentry⟩ := hfound i hi
  obtain ⟨entry', hentry'⟩ := hfound j hj
  rw [heq, hentry'] at hentry
  exact (congrArg Prod.snd (Option.some.inj hentry)).symm

/-- Where the ids of the profile differ and the option has them all, every value is found. -/
theorem Looked.all_marked {control : ActiveControl} {done : List OptionValue}
    {found : List DbValue × List Bool} (h : Looked control done found)
    (hnodup : (control.values.map Prod.fst).Nodup)
    (hids : ∀ entry ∈ control.values, ∃ value ∈ done, value.id = entry.1) :
    ∀ mark ∈ found.2, mark = true := by
  intro mark hmark
  obtain ⟨index, hindex⟩ := List.mem_iff_getElem?.mp hmark
  have hlt : index < control.values.length := h.length ▸ (List.getElem?_eq_some_iff.mp hindex).1
  obtain ⟨value, hvalue, hid⟩ := hids control.values[index] (List.getElem_mem hlt)
  have hlookup := (first_iff hnodup).mpr ⟨List.getElem?_eq_getElem hlt, hid.symm⟩
  have htrue := (h.marked index hlt).mpr ⟨value, hvalue, _, hlookup⟩
  rwa [hindex, Option.some.injEq] at htrue

section Translated

variable (translate : String → List UInt8)

/-- The loop body of `get_value_list` on a control of a profile. -/
theorem addValue_written {control : ActiveControl} {option : OptionControl}
    (htype : option.controlType ≠ .command) (childIndex : ℕ) (found : List DbValue × List Bool)
    (value : OptionValue) :
    addValue translate option (control.monitorControl childIndex) found value =
      match first Prod.fst control.values value.id with
      | none => .ok found
      | some (entry, index) =>
        orError value.name (.new "Can't find name property.") >>= fun name =>
          .ok (found.1 ++ [⟨value.id, translate name, entry.2⟩], found.2.set index true) := by
  unfold addValue
  rw [findMonitorValue_written]
  cases first Prod.fst control.values value.id with
  | none => rfl
  | some entry =>
    simp only [Option.map_some, monitorValue16_written, optionValueName, if_neg htype]
    rfl

section List

variable {control : ActiveControl} {option : OptionControl} (htype : option.controlType ≠ .command) (childIndex : ℕ)
include htype

/-- A loader that finds names for what it looks up reads the values, and marks what it found. -/
theorem addValues_written
    (hnames : ∀ value ∈ option.values, (first Prod.fst control.values value.id).isSome = true →
      value.name.isSome = true) (found : List DbValue × List Bool) :
    ∃ found', option.values.foldlM (addValue translate option (control.monitorControl childIndex))
      found = .ok found' := by
  refine foldlM_succeeds (fun value hvalue found => ?_) found
  rw [addValue_written translate htype]
  cases hfirst : first Prod.fst control.values value.id with
  | none => exact ⟨_, rfl⟩
  | some entry =>
    obtain ⟨name, hname⟩ := Option.isSome_iff_exists.mp (hnames value hvalue (by rw [hfirst]; rfl))
    exact ⟨_, bind_eq_ok.mpr ⟨name, orError_eq_ok.mpr hname, rfl⟩⟩

/-- One value: it is read, and marked, where the profile has its id. -/
theorem Looked.step {done : List OptionValue} {value : OptionValue}
    {found found' : List DbValue × List Bool} (h : Looked control done found)
    (hstep : addValue translate option (control.monitorControl childIndex) found value = .ok found') :
    Looked control (done ++ [value]) found' := by
  rw [addValue_written translate htype] at hstep
  have hfind : (first Prod.fst control.values value.id).map Prod.fst = control.written value :=
    first_map_fst
  cases hfirst : first Prod.fst control.values value.id with
  | none =>
    rw [hfirst] at hstep hfind
    cases hstep
    refine ⟨?_, ?_, h.length, fun index hindex => ?_⟩
    · exact List.forall_mem_append.mpr ⟨h.named, List.forall_mem_singleton.mpr (by rw [hfirst]; exact nofun)⟩
    · rw [List.filterMap_append, h.entries, List.filterMap_cons_none hfind.symm, List.filterMap_nil,
        List.append_nil]
    · rw [h.marked index hindex]
      simp [or_and_right, exists_or, hfirst]
  | some entry =>
    obtain ⟨entry, position⟩ := entry
    rw [hfirst] at hstep hfind
    obtain ⟨name, hname, hstep⟩ := bind_eq_ok.mp hstep
    cases hstep
    rw [orError_eq_ok] at hname
    refine ⟨?_, ?_, by rw [List.length_set, h.length], fun index hindex => ?_⟩
    · exact List.forall_mem_append.mpr ⟨h.named, List.forall_mem_singleton.mpr fun _ => by rw [hname]; rfl⟩
    · have hid : entry.1 = value.id := (first_eq_some hfirst).2
      rw [List.map_append, h.entries, List.filterMap_append, List.filterMap_cons_some hfind.symm,
        List.filterMap_nil, List.map_singleton, valueEntry, ← hid]
    · rw [List.getElem?_set]
      simp only [List.mem_append, List.mem_singleton, or_and_right, exists_or,
        exists_eq_left, hfirst]
      rw [← h.marked index hindex]
      by_cases heq : position = index
      · rw [if_pos heq, if_pos (by rw [h.length]; omega)]
        simp [heq]
      · rw [if_neg heq]
        simp [heq]

/-- What the loader has read and marked at the end. -/
theorem looked_run {found : List DbValue × List Bool}
    (h : option.values.foldlM (addValue translate option (control.monitorControl childIndex))
      ([], control.values.map fun _ => false) = .ok found) :
    Looked control option.values found := by
  refine foldlM_history (P := Looked control)
    (fun _ _ _ _ hP hstep => hP.step translate htype childIndex hstep) ?_ h
  refine ⟨List.forall_mem_nil _, rfl, List.length_map _, fun index hindex => ?_⟩
  have hfalse : (control.values.map fun _ => false)[index]? = some false := by
    rw [List.getElem?_map, List.getElem?_eq_getElem hindex, Option.map_some]
  rw [hfalse]
  simp

/-- **What the strict loader accepts as values**: those it finds have names, no id is
written twice, and what it makes of them is what it found. -/
theorem getValueList_written (entries : List (String × UInt16))
    (hids : ∀ entry ∈ control.values, ∃ value ∈ option.values, value.id = entry.1) :
    (∃ values, getValueList translate option (control.monitorControl childIndex) false = .ok values ∧
        values.map valueEntry = entries) ↔
      (∀ value ∈ option.values, (control.written value).isSome = true → value.name.isSome = true) ∧
        (control.values.map Prod.fst).Nodup ∧ option.values.filterMap control.written = entries := by
  have hfirst (value : OptionValue) :
      (first Prod.fst control.values value.id).isSome = (control.written value).isSome := by
    rw [← Option.isSome_map (f := Prod.fst), first_map_fst]
    rfl
  have hstart : ((control.monitorControl childIndex).values.map fun _ => false) =
      control.values.map fun _ => false := by
    rw [ActiveControl.monitorControl, List.map_map]
    rfl
  unfold getValueList
  rw [hstart]
  constructor
  · rintro ⟨values, h, rfl⟩
    obtain ⟨found, hfound, h⟩ := bind_eq_ok.mp h
    obtain ⟨_, hreject, h⟩ := bind_eq_ok.mp h
    cases h
    have hlooked := looked_run translate htype childIndex hfound
    refine ⟨fun value hvalue hsome => hlooked.named value hvalue (by rwa [hfirst]), ?_,
      hlooked.entries.symm⟩
    exact hlooked.nodup (by simpa using reject_eq_ok.mp hreject)
  · rintro ⟨hnames, hnodup, rfl⟩
    obtain ⟨found, hfound⟩ := addValues_written translate htype childIndex
      (fun value hvalue hsome => hnames value hvalue (by rwa [← hfirst])) ([], control.values.map fun _ => false)
    have hlooked := looked_run translate htype childIndex hfound
    refine ⟨found.1, bind_eq_ok.mpr ⟨found, hfound, bind_eq_ok.mpr ⟨(), reject_eq_ok.mpr ?_, rfl⟩⟩,
      hlooked.entries⟩
    rw [Bool.not_false, Bool.true_and, List.any_eq_false]
    exact fun mark hmark => by simp [hlooked.all_marked hnodup hids mark hmark]

end List

end Translated

/-! ### Unambiguous values -/

/-- What the generator maps of an option's value. -/
def mappedEntry (advertised : Option (List UInt16)) (value : OptionValue) : Option (String × UInt16) :=
  (mappedNumber advertised value).map fun number => (value.id, number)

theorem mappedEntry_fst {advertised : Option (List UInt16)} {value : OptionValue}
    {entry : String × UInt16} (h : mappedEntry advertised value = some entry) :
    entry.1 = value.id := by
  obtain ⟨number, -, rfl⟩ := Option.map_eq_some_iff.mp h
  rfl

theorem mappedEntry_isSome (advertised : Option (List UInt16)) (value : OptionValue) :
    (mappedEntry advertised value).isSome = (mappedNumber advertised value).isSome :=
  Option.isSome_map

section Generated

variable {control : ActiveControl} {advertised : Option (List UInt16)}
  (hvalues : control.values = matchingValues control.option advertised)
include hvalues

/-- The values written are those of the option that are mapped. -/
theorem mem_values_iff {entry : String × UInt16} :
    entry ∈ control.values ↔ ∃ value ∈ control.option.values, mappedEntry advertised value = some entry := by
  rw [hvalues]
  exact List.mem_filterMap

/-- How often an id is written. -/
theorem count_ids (id : String) :
    (control.values.map Prod.fst).count id =
      control.option.values.countP fun value => value.id = id && (mappedEntry advertised value).isSome := by
  have heq : matchingValues control.option advertised = control.option.values.filterMap
      (mappedEntry advertised) := rfl
  rw [hvalues, heq, List.count, List.countP_map, List.countP_filterMap]
  refine List.countP_congr fun value _ => ?_
  cases hentry : mappedEntry advertised value with
  | none => simp
  | some entry => simp [mappedEntry_fst hentry]

/-- Where what is mapped is unambiguous, the loader finds what was written. -/
theorem written_eq (hunambiguous : Unambiguous control.option advertised) :
    (control.values.map Prod.fst).Nodup ∧
      ∀ value ∈ control.option.values, control.written value = mappedEntry advertised value := by
  have hnodup : (control.values.map Prod.fst).Nodup := by
    refine List.nodup_iff_count_le_one.mpr fun id => ?_
    by_cases hid : id ∈ control.values.map Prod.fst
    · obtain ⟨entry, hentry, rfl⟩ := List.mem_map.mp hid
      obtain ⟨value, hvalue, hmapped⟩ := (mem_values_iff hvalues).mp hentry
      have hone := (hunambiguous value hvalue (by rw [← mappedEntry_isSome, hmapped]; rfl)).2
      rw [count_ids hvalues, mappedEntry_fst hmapped, ← hone]
      exact List.countP_mono_left fun other _ h => (Bool.and_eq_true_iff.mp h).1
    · rw [List.count_eq_zero_of_not_mem hid]
      exact Nat.zero_le _
  refine ⟨hnodup, fun value hvalue => Option.ext fun entry => ?_⟩
  rw [ActiveControl.written, find?_iff hnodup, mem_values_iff hvalues]
  constructor
  · rintro ⟨⟨other, hother, hmapped⟩, hid⟩
    have hone := (hunambiguous other hother (by rw [← mappedEntry_isSome, hmapped]; rfl)).2
    have hsame := eq_of_countP_eq_one hone hvalue hother (by simp [← mappedEntry_fst hmapped, hid]) (by simp)
    rw [hsame, hmapped]
  · exact fun h => ⟨⟨value, hvalue, h⟩, mappedEntry_fst h⟩

/-- **The loader accepts the values that the generator maps**, and makes of them what the
profile says, exactly where they are unambiguous. -/
theorem getValueList_matching (translate : String → List UInt8)
    (htype : control.option.controlType ≠ .command) (childIndex : ℕ) :
    (∃ values, getValueList translate control.option (control.monitorControl childIndex) false = .ok values ∧
        values.map valueEntry = control.values) ↔ Unambiguous control.option advertised := by
  have hids : ∀ entry ∈ control.values, ∃ value ∈ control.option.values, value.id = entry.1 :=
    fun entry hentry => by
    obtain ⟨value, hvalue, hmapped⟩ := (mem_values_iff hvalues).mp hentry
    exact ⟨value, hvalue, (mappedEntry_fst hmapped).symm⟩
  have heq : control.values = control.option.values.filterMap (mappedEntry advertised) := hvalues
  rw [getValueList_written translate htype childIndex control.values hids]
  constructor
  · rintro ⟨hnames, hnodup, hfilter⟩ value hvalue hsome
    rw [← mappedEntry_isSome] at hsome
    have hmapped : ∀ value ∈ control.option.values, control.written value = mappedEntry advertised value := by
      refine eq_of_filterMap_eq (fun value hvalue hsome => ?_) (hfilter.trans heq)
      obtain ⟨entry, hentry⟩ := Option.isSome_iff_exists.mp hsome
      have hfound := (find?_iff hnodup).mpr ⟨(mem_values_iff hvalues).mpr ⟨value, hvalue, hentry⟩,
        mappedEntry_fst hentry⟩
      exact Option.isSome_iff_exists.mpr ⟨entry, hfound⟩
    refine ⟨hnames value hvalue (by rw [hmapped value hvalue]; exact hsome), ?_⟩
    have hmem : value.id ∈ control.values.map Prod.fst := by
      obtain ⟨entry, hentry⟩ := Option.isSome_iff_exists.mp hsome
      exact List.mem_map.mpr ⟨entry, (mem_values_iff hvalues).mpr ⟨value, hvalue, hentry⟩,
        mappedEntry_fst hentry⟩
    rw [← List.count_eq_one_of_mem hnodup hmem, count_ids hvalues]
    refine List.countP_congr fun other hother => ?_
    rw [Bool.and_eq_true, decide_eq_true_iff]
    refine ⟨fun hid => ⟨hid, ?_⟩, And.left⟩
    -- what is found depends on the id alone
    have hwritten : control.written other = control.written value := by
      rw [ActiveControl.written, ActiveControl.written, hid]
    rw [← hmapped other hother, hwritten, hmapped value hvalue]
    exact hsome
  · intro hunambiguous
    obtain ⟨hnodup, hmapped⟩ := written_eq hvalues hunambiguous
    refine ⟨fun value hvalue hsome => ?_, hnodup, ?_⟩
    · rw [hmapped value hvalue, mappedEntry_isSome] at hsome
      exact (hunambiguous value hvalue hsome).1
    · rw [List.filterMap_congr hmapped, heq]

end Generated

end DdcControl.Scanner
