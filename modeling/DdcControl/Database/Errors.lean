import DdcControl.Database.Assembly

/-!
# The texts of the errors

What the operations on a profile's `controls` block, on a `caps` element, and on the name
and the init mode of a root fail with: errors of no particular kind, over a required feature
or a missing profile, whose texts are these few, or name the line of the element.

## What is proved

* `addControl_reports` — a control fails with one of `controlTexts`.
* `capsElement_reports`, `openName_reports`, `openInit_reports` — an element fails with an
  error of its line.
-/

namespace DdcControl.Database

open Fallible

/-- A program that fails with such texts only, and with errors of no particular kind. -/
abbrev Reports {α : Type} (texts : String → Prop) (x : Except DbError α) : Prop :=
  Yields x (fun _ => True) fun e => ∃ message, texts message ∧ e = .new message

/-- The texts that a control of a profile fails with. -/
def controlTexts : List String :=
  ["Can't find address property.", "Can't convert address to int.",
    "Address is outside the supported 0-255 range.", "Can't convert delay to int.",
    "Delay is outside the signed 32-bit range.", "Can't find value property.",
    "Can't convert value to int.", "Value is outside the supported 0-65535 range.",
    "Can't find name property.", "Unmatched value in monitor XML."]

/-- The error of an element: the text names its line. -/
def OfElement (node : Node) (message : String) : Prop := ∃ text, message = nodeError node text

section Rules

variable {α β : Type} {texts : String → Prop}

theorem Reports.bind {x : Except DbError α} {k : α → Except DbError β} (h : Reports texts x)
    (hk : ∀ a, Reports texts (k a)) : Reports texts (x >>= k) :=
  Yields.bind h fun a _ _ => hk a

theorem reports_ok (a : α) : Reports texts (.ok a : Except DbError α) := trivial

theorem reports_new {message : String} (h : texts message) :
    Reports texts (.error (.new message) : Except DbError α) :=
  ⟨message, h, rfl⟩

theorem reports_reject {message : String} (h : texts message) (condition : Bool) :
    Reports texts (reject condition (.new message)) :=
  Yields.reject (fun _ => trivial) fun _ => ⟨message, h, rfl⟩

theorem reports_orError {message : String} (h : texts message) (o : Option α) :
    Reports texts (orError o (.new message)) :=
  Yields.orError (fun _ _ => trivial) fun _ => ⟨message, h, rfl⟩

end Rules

/-! ### Controls -/

theorem monitorControlAddress_reports (monitorControl : MonitorControl) :
    Reports (· ∈ controlTexts) (monitorControlAddress monitorControl) := by
  refine (reports_orError (by decide) _).bind fun rawAddress => ?_
  split
  · exact reports_orError (by decide) _
  · exact reports_new (by decide)

theorem monitorControlDelay_reports (monitorControl : MonitorControl) :
    Reports (· ∈ controlTexts) (monitorControlDelay monitorControl) := by
  unfold monitorControlDelay
  split
  · exact reports_ok _
  · refine (reports_orError (by decide) _).bind fun delay => ?_
    exact (reports_reject (by decide) _).bind fun _ => reports_ok _

theorem monitorValue16_reports (monitorValue : MonitorValue) :
    Reports (· ∈ controlTexts) (monitorValue16 monitorValue) := by
  refine (reports_orError (by decide) _).bind fun rawValue => ?_
  split
  · exact (reports_reject (by decide) _).bind fun _ => reports_ok _
  · exact reports_new (by decide)

theorem optionValueName_reports (optionControl : OptionControl) (optionValue : OptionValue) :
    Reports (· ∈ controlTexts) (optionValueName optionControl optionValue) := by
  unfold optionValueName
  split
  · exact reports_ok _
  · exact reports_orError (by decide) _

section Translated

variable (translate : String → List UInt8)

theorem addValue_reports (optionControl : OptionControl) (monitorControl : MonitorControl)
    (found : List DbValue × List Bool) (optionValue : OptionValue) :
    Reports (· ∈ controlTexts)
      (addValue translate optionControl monitorControl found optionValue) := by
  unfold addValue
  split
  · exact reports_ok _
  · refine (monitorValue16_reports _).bind fun value16 => ?_
    exact (optionValueName_reports _ _).bind fun name => reports_ok _

theorem controlValues_reports (optionControl : OptionControl) (monitorControl : MonitorControl)
    (faulttolerance : Bool) :
    Reports (· ∈ controlTexts)
      (controlValues translate optionControl monitorControl faulttolerance) := by
  refine Reports.bind ?_ fun values => ?_
  · refine Reports.bind ?_ fun found => (reports_reject (by decide) _).bind fun _ => reports_ok _
    exact Yields.foldlM (fun value _ found _ => addValue_reports translate _ _ found value) trivial
  · split <;> exact reports_ok _

theorem matchedControl_reports (optionControl : OptionControl) (monitorControl : MonitorControl)
    (address : UInt8) (faulttolerance : Bool) :
    Reports (· ∈ controlTexts)
      (matchedControl translate optionControl monitorControl address faulttolerance) := by
  refine (controlValues_reports translate _ _ _).bind fun values => ?_
  exact (monitorControlDelay_reports _).bind fun delay => reports_ok _

/-- **A control fails with one of these texts.** -/
theorem addControl_reports (monitorControls : List MonitorControl) (mode : LoadMode)
    (state : Table × List Bool) (option : ℕ × ℕ × OptionControl) :
    Reports (· ∈ controlTexts) (addControl translate monitorControls mode state option) := by
  obtain ⟨groupIndex, subgroupIndex, optionControl⟩ := option
  simp only [addControl]
  split
  · exact reports_ok _
  split
  · exact reports_ok _
  refine (monitorControlAddress_reports _).bind fun address => ?_
  split
  · exact reports_ok _
  · exact (matchedControl_reports translate _ _ _ _).bind fun _ => reports_ok _

end Translated

/-! ### Elements -/

theorem patchCaps_reports (child : Node) (message : String) (edit : Capabilities.Edit)
    (patch : Option String) (table : Table) :
    Reports (OfElement child) (patchCaps child message edit patch table) := by
  unfold patchCaps
  split
  · exact reports_ok _
  · exact (reports_orError ⟨_, rfl⟩ _).bind fun _ => reports_ok _

/-- **A `caps` element fails with an error of its line.** -/
theorem capsElement_reports (child : Node) (table : Table) :
    Reports (OfElement child) (capsElement child table) := by
  refine (reports_reject ⟨_, rfl⟩ _).bind fun _ => ?_
  exact (patchCaps_reports ..).bind fun table => patchCaps_reports ..

theorem openName_reports (root : Node) (build : MonitorBuild) :
    Reports (OfElement root) (openName root build) := by
  unfold openName
  split
  · exact reports_ok _
  · exact (reports_orError ⟨_, rfl⟩ _).bind fun _ => reports_ok _

theorem loadInit_reports (root : Node) (init : String) :
    Reports (OfElement root) (loadInit root init) := by
  unfold loadInit
  split
  · exact reports_ok _
  split
  · exact reports_ok _
  · exact reports_new ⟨_, rfl⟩

theorem openInit_reports (mode : LoadMode) (root : Node) (build : MonitorBuild) :
    Reports (OfElement root) (openInit mode root build) := by
  unfold openInit
  split
  · split
    · exact reports_ok _
    · refine (loadInit_reports _ _).bind fun init => ?_
      split <;> exact reports_ok _
  · exact reports_ok _

end DdcControl.Database
