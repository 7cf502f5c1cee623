import DdcControl.Daemon.Service

/-!
# The delay after a write

`find_write_delay` is written out twice, for the daemon and for the command-line program:
three loops, over the groups of a tree, the subgroups of each and the controls of each,
which stop at the first control whose address equals the number asked for. The address is
an `unsigned char` and the number a `char`, which is signed.

Proved here: what the loops return, and for which trees and numbers that is the delay the
database gives.
-/

namespace DdcControl.Daemon

open Database

/-! ### The loops -/

section Loops

variable (ctrl : ℤ)

/-- The loop through the controls of a subgroup. -/
def delayInControls : List DbControl → Option ℤ
  | [] => none
  | control :: next => if (control.address.toNat : ℤ) = ctrl then some control.delay else delayInControls next

/-- The loop through the subgroups of a group. -/
def delayInSubgroups : List DbSubgroup → Option ℤ
  | [] => none
  | subgroup :: next =>
    match delayInControls ctrl subgroup.controls with
    | some delay => some delay
    | none => delayInSubgroups next

/-- The loop through the groups of a tree. -/
def delayInGroups : List DbGroup → Option ℤ
  | [] => none
  | group :: next =>
    match delayInSubgroups ctrl group.subgroups with
    | some delay => some delay
    | none => delayInGroups next

/-- `find_write_delay` of the command-line program. -/
def findWriteDelayLoops (db : Option MonitorDb) (ctrl : ℤ) : ℤ :=
  match db with
  | none => -1
  | some monitor => (delayInGroups ctrl monitor.groups).getD (-1)

theorem delayInControls_eq (controls : List DbControl) :
    delayInControls ctrl controls = (controls.find? fun control => (control.address.toNat : ℤ) =
      ctrl).map (·.delay) := by
  induction controls with
  | nil => rfl
  | cons control next ih =>
    by_cases h : (control.address.toNat : ℤ) = ctrl
    · simp [delayInControls, h]
    · simp [delayInControls, h, ih]

theorem delayInSubgroups_eq (subgroups : List DbSubgroup) :
    delayInSubgroups ctrl subgroups = delayInControls ctrl (subgroups.flatMap DbSubgroup.controls) := by
  induction subgroups with
  | nil => rfl
  | cons subgroup next ih =>
    simp only [delayInSubgroups, delayInControls_eq, List.flatMap_cons, List.find?_append] at ih ⊢
    rw [ih]
    cases subgroup.controls.find? fun control => (control.address.toNat : ℤ) = ctrl <;> rfl

theorem delayInGroups_eq (groups : List DbGroup) :
    delayInGroups ctrl groups = delayInControls ctrl (treeControls groups) := by
  induction groups with
  | nil => rfl
  | cons group next ih =>
    simp only [delayInGroups, delayInSubgroups_eq, delayInControls_eq, treeControls,
      List.flatMap_cons, List.find?_append] at ih ⊢
    rw [ih]
    cases (group.subgroups.flatMap DbSubgroup.controls).find? fun control =>
      (control.address.toNat : ℤ) = ctrl <;> rfl

end Loops

/-- The daemon's function and the program's are one. -/
theorem findWriteDelay_eq_loops (db : Option MonitorDb) (ctrl : ℤ) :
    findWriteDelay db ctrl = findWriteDelayLoops db ctrl := by
  cases db with
  | none => rfl
  | some monitor =>
    dsimp only [findWriteDelay, findWriteDelayLoops]
    rw [delayInGroups_eq, delayInControls_eq]
    dsimp only [treeControls]
    cases (monitor.groups.flatMap fun group => group.subgroups.flatMap DbSubgroup.controls).find?
      fun control => (control.address.toNat : ℤ) = ctrl <;> rfl

/-! ### The delay of a control -/

/-- The first control of a tree with an address. -/
def controlAt (db : Option MonitorDb) (address : UInt8) : Option DbControl :=
  db.bind fun monitor => (treeControls monitor.groups).find? fun control => control.address = address

/-- A delay is that of the first control with the address, and -1 if there is none. -/
def Honours (db : Option MonitorDb) (address : UInt8) (delay : ℤ) : Prop :=
  match controlAt db address with
  | none => delay = -1
  | some control => delay = control.delay

/-- An address equals a number as a `char` if it is that number and below 128. -/
theorem address_eq_asChar (address c : UInt8) :
    (address.toNat : ℤ) = asChar c.toUInt32 ↔ address = c ∧ c < 128 := by
  have haddress := address.toNat_lt
  have hc := c.toNat_lt
  have hhalf : c < 128 ↔ c.toNat < 128 := UInt8.lt_iff_toNat_lt
  unfold asChar
  rw [UInt8.toNat_toUInt32, Int.bmod_def, ← UInt8.toNat_inj, hhalf]
  split <;> omega

/-- What `find_write_delay` returns for a control number. -/
theorem findWriteDelay_eq (db : Option MonitorDb) (c : UInt8) :
    findWriteDelay db (asChar c.toUInt32) = if c < 128 then ((controlAt db c).map (·.delay)).getD (-1) else -1 := by
  rw [findWriteDelay_eq_loops]
  cases db with
  | none => exact (ite_self _).symm
  | some monitor =>
    simp only [findWriteDelayLoops, delayInGroups_eq, delayInControls_eq, controlAt,
      Option.bind_some, address_eq_asChar]
    by_cases hc : c < 128
    · simp [hc]
    · have hnone : (treeControls monitor.groups).find?
          (fun control => decide (control.address = c ∧ c < 128)) = none :=
        List.find?_eq_none.mpr fun _ _ => by simp [hc]
      rw [hnone, if_neg hc]
      rfl

/-- **For which controls the delay of the database is honoured.** In both programs it is
for those below 128, and for others only where the tree has no control or the control the
delay -1. -/
theorem findWriteDelay_honours_iff (db : Option MonitorDb) (c : UInt8) :
    (Honours db c (findWriteDelay db (asChar c.toUInt32)) ↔ c < 128 ∨ ∀ control, controlAt db c = some control → control.delay = -1) ∧
      (Honours db c (findWriteDelayLoops db (asChar c.toUInt32)) ↔
        c < 128 ∨ ∀ control, controlAt db c = some control → control.delay = -1) := by
  rw [← findWriteDelay_eq_loops, and_self, findWriteDelay_eq]
  unfold Honours
  cases controlAt db c with
  | none => simp
  | some control =>
    by_cases hc : c < 128
    · simp [hc]
    · simp [hc, eq_comm]

/-- A vendor control with a delay of its own. -/
def vendorTree : MonitorDb :=
  ⟨[], .standard, [⟨[], [⟨[], none, [⟨"vendor", [], 0xe1, 200, .value, .none, []⟩]⟩]⟩]⟩

/-- The delay of a vendor control is not found. -/
theorem findWriteDelay_not_honoured :
    controlAt (some vendorTree) 0xe1 = some ⟨"vendor", [], 0xe1, 200, .value, .none, []⟩ ∧
      findWriteDelay (some vendorTree) (asChar (0xe1 : UInt8).toUInt32) = -1 ∧
      ¬ Honours (some vendorTree) 0xe1 (findWriteDelay (some vendorTree) (asChar (0xe1 : UInt8).toUInt32)) ∧
      ¬ Honours (some vendorTree) 0xe1 (findWriteDelayLoops (some vendorTree) (asChar (0xe1 : UInt8).toUInt32)) := by
  have hat : controlAt (some vendorTree) 0xe1 = some ⟨"vendor", [], 0xe1, 200, .value, .none,
      []⟩ := by decide
  have hnone : findWriteDelay (some vendorTree) (asChar (0xe1 : UInt8).toUInt32) = -1 := by decide
  refine ⟨hat, hnone, ?_⟩
  rw [← findWriteDelay_eq_loops, hnone, and_self]
  unfold Honours
  rw [hat]
  decide

end DdcControl.Daemon
