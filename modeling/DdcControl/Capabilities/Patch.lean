import DdcControl.Capabilities.Parser
import Mathlib.Logic.Function.Basic

/-!
# CAPS tables and patches

A monitor's capabilities, and the patches a profile applies to them. The table of
codes is the C structure's: 256 slots, each empty or holding an entry, which is also
what `BTreeMap<u8, VcpEntry>` is to a caller that only looks codes up.

`ddccontrol_caps_parse` converts the C table into a `Caps`, applies the string and
converts it back; the two conversions are inverse, so a patch is `Caps.apply` here.
A patch that does not parse leaves an emptied table behind, which no caller reads:
`applyCaps` reports the failure and the load ends.
-/

namespace DdcControl.Capabilities

/-- `VcpEntry`: the values of a code, `none` standing for all of them. -/
structure VcpEntry where
  values : Option (List UInt16)
  deriving DecidableEq, Repr

/-- `Caps`. -/
structure Caps where
  monitorType : MonitorType
  vcp : UInt8 → Option VcpEntry

/-- `Caps::default()`. -/
def Caps.default : Caps := ⟨.unknown, fun _ => none⟩

/-- `Caps::is_supported`. -/
def Caps.isSupported (caps : Caps) (code : UInt8) : Bool := (caps.vcp code).isSome

/-- `Edit`. -/
inductive Edit where
  | add
  | remove
  deriving DecidableEq, Repr

/-- What removing `remove` leaves of an entry. -/
def VcpEntry.without (entry : VcpEntry) (remove : List UInt16) : Option VcpEntry :=
  match entry.values with
  | none => none
  | some values =>
    let kept := values.filter fun value => !remove.contains value
    if kept.isEmpty then none else some ⟨some kept⟩

/-- The loop body of `Caps::apply`: one parsed code. -/
def Caps.applyItem (edit : Edit) (caps : Caps) (item : ParsedVcp) : Caps :=
  match edit with
  | .add => { caps with vcp := Function.update caps.vcp item.code (some ⟨item.values⟩) }
  | .remove =>
    match item.values with
    | some remove =>
      { caps with vcp := Function.update caps.vcp item.code ((caps.vcp item.code).bind (·.without remove)) }
    | none => { caps with vcp := Function.update caps.vcp item.code none }

/-- `Caps::apply`: the new capabilities, and how many codes the string listed. -/
def Caps.apply (caps : Caps) (input : List UInt8) (edit : Edit) : Except ParseError (Caps × ℕ) := do
  let parsed ← parse input
  let caps :=
    match edit, parsed.monitorType with
    | .add, some monitorType => { caps with monitorType := monitorType }
    | _, _ => caps
  return (parsed.vcp.foldl (Caps.applyItem edit) caps, parsed.vcp.length)

/-- `Caps::parse`. -/
def Caps.parse (input : List UInt8) : Except ParseError Caps := (·.1) <$> Caps.default.apply input .add

/-- `count as c_int`. -/
def asCInt (count : ℕ) : ℤ := (count : ℤ).bmod (2 ^ 32)

/-- A small count is itself as a C integer. -/
theorem asCInt_eq {count : ℕ} (hlt : count < 2 ^ 31) : asCInt count = count := by
  have hlo : -((2 ^ 32 : ℕ) : ℤ) ≤ (count : ℤ) * 2 := by
    push_cast
    omega
  have hhi : (count : ℤ) * 2 < ((2 ^ 32 : ℕ) : ℤ) := by
    push_cast
    omega
  exact Int.bmod_eq_of_le_mul_two hlo hhi

/-- `apply_caps`: a patch must be a C string, parse, and list at least one code. -/
def applyCaps (input : String) (caps : Caps) (edit : Edit) : Option Caps :=
  if input.toList.contains '\x00' then none
  else match caps.apply (utf8 input) edit with
    | .error _ => none
    | .ok (caps, count) => if asCInt count ≤ 0 then none else some caps

/-- Whether a patch applies does not depend on the table it is applied to. -/
theorem applyCaps_isSome (input : String) (caps caps' : Caps) (edit edit' : Edit) :
    (applyCaps input caps edit).isSome = (applyCaps input caps' edit').isSome := by
  unfold applyCaps Caps.apply
  split
  · rfl
  · cases Capabilities.parse (utf8 input) with
    | error e => rfl
    | ok parsed =>
      show (if asCInt parsed.vcp.length ≤ 0 then none else some _ : Option Caps).isSome =
        (if asCInt parsed.vcp.length ≤ 0 then none else some _ : Option Caps).isSome
      split <;> rfl

end DdcControl.Capabilities
