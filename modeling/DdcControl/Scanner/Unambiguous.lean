import DdcControl.Scanner.Loading

/-!
# Active controls are unambiguous

A candidate becomes active only where the vocabulary leaves no choice: nothing else is
hinted at its address, its id is hinted nowhere else, and its values are told apart.

## What is proved

* `matchingValues_mem` — a mapped number is advertised, and hinted for the id it is mapped to.
* `activeControls_unambiguous` — of all the active controls of a profile.
-/

namespace DdcControl.Scanner

open Capabilities Database

/-- Nothing in a vocabulary competes with an active control. -/
structure ActiveControl.Alone (scan : Scan) (database : OptionsDb) (control : ActiveControl) : Prop where
  /-- What else is hinted at the address maps the same. -/
  address : ∀ other ∈ database.controls, hintedAddress other = .ok (some control.code) →
    SameMapping control.option other
  /-- The id is hinted at no other address. -/
  id : ∀ other ∈ database.controls, other.id = control.option.id →
    ∀ address, hintedAddress other = .ok (some address) → address = control.code
  /-- A list has values, with ids and numbers of their own. -/
  values : control.option.controlType = .list → control.values ≠ [] ∧ (control.values.map Prod.fst).Nodup ∧
    (control.values.map Prod.snd).Nodup
  /-- A number is advertised, and hinted for its id. -/
  numbers : ∀ value ∈ control.values, (∃ advertised, scan.advertised control.code = some advertised ∧
    value.2 ∈ advertised) ∧ ∃ mapped ∈ control.option.values, mapped.id = value.1 ∧ hintedValue mapped = some value.2

theorem matchingValues_mem {control : OptionControl} {advertised : Option (List UInt16)}
    {value : String × UInt16} (h : value ∈ matchingValues control advertised) :
    (∃ values, advertised = some values ∧ value.2 ∈ values) ∧
      ∃ mapped ∈ control.values, mapped.id = value.1 ∧ hintedValue mapped = some value.2 := by
  obtain ⟨mapped, hmapped, hvalue⟩ := List.mem_filterMap.mp h
  obtain ⟨number, hnumber, rfl⟩ := Option.map_eq_some_iff.mp hvalue
  obtain ⟨hhint, hadvertised⟩ := Option.filter_eq_some_iff.mp hnumber
  refine ⟨?_, mapped, hmapped, rfl, hhint⟩
  cases advertised with
  | none => cases hadvertised
  | some values => exact ⟨values, rfl, List.contains_iff_mem.mp hadvertised⟩

/-- Values are told apart by their ids and by their numbers. -/
theorem ambiguousValues_eq_false {values : List (String × UInt16)}
    (h : ambiguousValues values = false) :
    (values.map Prod.fst).Nodup ∧ (values.map Prod.snd).Nodup := by
  simp only [ambiguousValues, Bool.or_eq_false_iff, decide_eq_false_iff_not, ne_eq, not_not] at h
  have hnodup : ∀ {α : Type} [DecidableEq α] (l : List α), l.dedup.length = l.length → l.Nodup :=
    fun l hlength => List.dedup_eq_self.mp ((List.dedup_sublist l).eq_of_length hlength)
  exact ⟨hnodup _ (h.1.trans (List.length_map ..).symm),
    hnodup _ (h.2.trans (List.length_map ..).symm)⟩

/-- What no reason against a list means for its values. -/
theorem reasons_list {scan : Scan} {index : Options} {code : UInt8} {candidate : OptionControl}
    (h : reasons scan index code candidate = []) (hlist : candidate.controlType = .list) :
    matchingValues candidate (scan.advertised code) ≠ [] ∧
      ambiguousValues (matchingValues candidate (scan.advertised code)) = false := by
  rw [reasons, List.append_eq_nil_iff, if_pos hlist] at h
  obtain ⟨-, h⟩ := h
  split_ifs at h with hempty hambiguous
  exact ⟨fun hnil => hempty (List.isEmpty_iff.mpr hnil), eq_false_of_ne_true hambiguous⟩

/-- **An active control is alone.** -/
theorem alone_of_active {database : OptionsDb} {index : Options}
    (hindex : indexOptions database = .ok index) {scan : Scan} {control : ActiveControl}
    (h : control ∈ activeControls scan index) : control.Alone scan database := by
  obtain ⟨-, hmem, hreasons, hvalues⟩ := mem_activeControls.mp h
  obtain ⟨hlength, helsewhere, -⟩ := reasons_eq_nil hreasons
  constructor
  case address =>
    intro other hother haddress
    obtain ⟨candidate, hcandidate, hsame⟩ := indexOptions_covers hindex hother control.code haddress
    -- the index has one candidate at the address
    have heq : candidate = control.option := by
      match hcandidates : index control.code, hlength with
      | [], _ => rw [hcandidates] at hmem; cases hmem
      | [sole], _ =>
        rw [hcandidates, List.mem_singleton] at hmem hcandidate
        rw [hmem, hcandidate]
    exact heq ▸ hsame
  case id =>
    intro other hother hid address haddress
    obtain ⟨candidate, hcandidate, hsame⟩ := indexOptions_covers hindex hother address haddress
    by_contra hne
    exact helsewhere address hne candidate hcandidate (hsame.1.trans hid)
  case values =>
    intro hlist
    obtain ⟨hne, hambiguous⟩ := reasons_list hreasons hlist
    rw [← hvalues] at hne hambiguous
    exact ⟨hne, ambiguousValues_eq_false hambiguous⟩
  case numbers =>
    intro value hvalue
    rw [hvalues] at hvalue
    exact matchingValues_mem hvalue

/-- **The active controls of a profile are unambiguous.** They are what a generated text
writes; no two of them have one address or one id, and nothing in the vocabulary competes
with any. -/
theorem activeControls_unambiguous {database : OptionsDb} {index : Options} (hindex : indexOptions database = .ok index)
    (scan : Scan) :
    Markup.Document (generate scan index) (.mk "monitor" [("name", cleaned (monitorName scan)), ("init", "standard")]
        (capsElements scan ++ [.mk "controls" [] ((activeControls scan index).map ActiveControl.element)])) ∧
      ((activeControls scan index).map ActiveControl.code).Nodup ∧
      ((activeControls scan index).map fun control => control.option.id).Nodup ∧
      ∀ control ∈ activeControls scan index, control.Alone scan database := by
  have hids := activeControls_nodup scan index
  refine ⟨generate_document scan index, ?_, hids, fun control hcontrol => alone_of_active hindex hcontrol⟩
  exact List.Nodup.map_on (fun control h control' h' hcode => eq_of_code h h' hcode) (List.Nodup.of_map _ hids)

/-! ### Two controls -/

/-- Two lists: the input source, and the power mode. -/
def sourceControl : OptionControl :=
  ⟨false, "input", "Input source", .list, .none, some "0x60",
    [⟨"dp", some "DisplayPort", some "0x0f"⟩, ⟨"hdmi", some "HDMI", some "0x11"⟩, ⟨"vga", some "VGA", some "0x01"⟩]⟩

def powerControl : OptionControl :=
  ⟨false, "power", "Power mode", .list, .none, some "0xd6", [⟨"on", some "On", some "1"⟩, ⟨"off", some "Off", some "4"⟩]⟩

/-- The vocabulary of the two. -/
def sourceVocabulary : OptionsDb := ⟨[⟨"Input", [⟨"Source", none, [sourceControl]⟩, ⟨"Power", none, [powerControl]⟩]⟩]⟩

/-- A monitor that advertises two values of each, and answers for both. -/
def sourceScan : Scan where
  pnpId := "ABC1234"
  name := "Monitor"
  caps := Caps.default.patched ⟨none, [⟨0x60, some [0x0f, 0x11]⟩, ⟨0xd6, some [1, 4]⟩]⟩ .add
  readings code := if code = 0x60 then some ⟨0x11, 0x11⟩ else if code = 0xd6 then some ⟨1, 4⟩ else none

/-- The vocabulary by its address hints. -/
def sourceIndex : Options := Function.update (Function.update (fun _ => []) 0x60 [sourceControl]) 0xd6 [powerControl]

theorem indexOptions_source : indexOptions sourceVocabulary = .ok sourceIndex := rfl

/-- The two controls as they are active. -/
def sourceActive : List ActiveControl :=
  [⟨sourceControl, 0x60, [("dp", 0x0f), ("hdmi", 0x11)]⟩, ⟨powerControl, 0xd6, [("on", 1), ("off", 4)]⟩]

/-- Both are active, and alone. -/
theorem activeControls_unambiguous_source :
    activeControls sourceScan sourceIndex = sourceActive ∧ (sourceActive.map ActiveControl.code).Nodup ∧
      (sourceActive.map fun control => control.option.id).Nodup ∧
      ∀ control ∈ sourceActive, control.Alone sourceScan sourceVocabulary := by
  have hactive : activeControls sourceScan sourceIndex = sourceActive := by decide +kernel
  obtain ⟨-, hcodes, hids, halone⟩ := activeControls_unambiguous indexOptions_source sourceScan
  rw [hactive] at hcodes hids halone
  exact ⟨hactive, hcodes, hids, halone⟩

end DdcControl.Scanner
