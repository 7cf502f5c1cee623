import DdcControl.Wire.Decode

/-!
# Descriptive data

The typed descriptors an extension may carry. Validation checks their shape and makes
nothing executable. `object` is the check every descriptor is an instance of: fields it
must have, a check for each field it knows, and whether it admits others.
-/

namespace DdcControl.Wire

open Cbor Fallible

/-- `DESCRIPTION`. -/
def functionDescription : String := "https://ddccontrol.sourceforge.net/cbor/ext/function-description/1"

/-- `object`. -/
def object (value : Value) (checks : ℕ → Option (Inner value → Except String Unit)) (required : List ℕ)
    (extensible : Bool) : Except String Unit := do
  required.forM fun id => do let _ ← field value id
  let entries ← innerFields value
  entries.forM fun (key, inner) => do
    let id ← uint key
    match checks id with
    | some check => check inner
    | none => reject (!extensible) "CBOR unassigned field in fixed descriptor"

/-- `list`. -/
def list (value : Value) (check : Inner value → Except String Unit) : Except String Unit := do
  let items ← innerItems value
  items.forM check

/-- `txt`. -/
def txt (value : Value) : Except String Unit := do let _ ← text value

/-- `int`. -/
def int (value : Value) : Except String Unit := do let _ ← integer value

/-- `unsigned`. -/
def unsigned (value : Value) : Except String Unit := do let _ ← uint value

/-- `range`. -/
def range (value : Value) (lo hi : ℕ) : Except String Unit := do
  let n ← uint value
  reject (!(lo ≤ n && n ≤ hi)) "CBOR descriptor integer out of range"

/-- `vcp`. -/
def vcp (value : Value) : Except String Unit := range value 0 255

/-- `identity`. -/
def identity (value : Value) : Except String Unit := do
  let id ← text value
  reject (!validIdentity id) "CBOR invalid descriptor identity"

/-- `binary`. -/
def binary (value : Value) : Except String Unit := do
  let _ ← orError (asBytes value) "CBOR descriptor requires bytes"

/-- `datum`. -/
def datum (value : Value) : Except String Unit :=
  match value with
  | .unsigned _ | .negative _ | .text _ | .bytes _ => .ok ()
  | _ => object value (fun
      | 0 => some fun v => int v.1
      | 1 => some fun v => range v.1 1 (2 ^ 64 - 1)
      | _ => none) [0, 1] false

/-- `quantity`. -/
def quantity (value : Value) : Except String Unit := do
  object value (fun
    | 0 => some fun v => range v.1 1 2
    | 1 => some fun v => datum v.1
    | _ => none) [0] false
  let kind ← field value 0
  let kind ← uint kind
  reject (decide (kind = 1) ≠ (optional value 1).isSome)
    "CBOR declared quantity needs datum; discovered quantity forbids datum"

/-- `choice`. -/
def choice (value : Value) : Except String Unit :=
  object value (fun
    | 0 => some fun v => datum v.1
    | 1 => some fun v => txt v.1
    | _ => none) [0] false

/-- `bitfield`. -/
def bitfield (value : Value) : Except String Unit :=
  object value (fun
    | 0 => some fun v => unsigned v.1
    | 1 => some fun v => range v.1 1 64
    | 2 => some fun v => list v.1 fun w => choice w.1
    | 3 => some fun v => txt v.1
    | _ => none) [0, 1] false

/-- `version`. -/
def version (value : Value) : Except String Unit :=
  object value (fun
    | 0 => some fun v => identity v.1
    | 1 => some fun v => txt v.1
    | _ => none) [0, 1] false

/-- `condition`. -/
def condition (value : Value) : Except String Unit :=
  object value (fun
    | 0 => some fun v => identity v.1
    | 1 => some fun _ => .ok ()
    | _ => none) [0, 1] false

/-- `opaque`. -/
def opaqueData (value : Value) : Except String Unit :=
  object value (fun
    | 0 => some fun v => identity v.1
    | 1 => some fun v => identity v.1
    | 2 => some fun v => binary v.1
    | _ => none) [0, 1, 2] false

/-- `operation`. -/
def operation (value : Value) : Except String Unit :=
  object value (fun
    | 0 => some fun v => unsigned v.1
    | 1 => some fun v => vcp v.1
    | 2 => some fun _ => .ok ()
    | 3 => some fun v => identity v.1
    | 4 => some fun v => list v.1 fun w => condition w.1
    | _ => none) [0] true

mutual
/-- `description`. -/
def description (value : Value) : Except String Unit :=
  object value (fun
    | 0 => some fun v => range v.1 1 6
    | 1 => some fun v => range v.1 0 3
    | 2 => some fun v => list v.1 fun w => operation w.1
    | 3 => some fun v => identity v.1
    | 4 => some fun v => vcp v.1
    | 5 => some fun v => identity v.1
    | 6 => some fun v => quantity v.1
    | 7 => some fun v => quantity v.1
    | 8 => some fun v => quantity v.1
    | 9 => some fun v => quantity v.1
    | 10 => some fun v => list v.1 fun w => choice w.1
    | 11 => some fun v => list v.1 fun w => bitfield w.1
    | 12 => some fun v => list v.1 fun w => version w.1
    | 13 => some fun v => txt v.1
    | 14 => some fun v => list v.1 fun w => vcp w.1
    | 15 => some fun v => list v.1 fun w => condition w.1
    | 16 => some fun v => list v.1 fun w => opaqueData w.1
    | 17 => some fun v => txt v.1
    | 18 => some fun v => describedExtensions v.1
    | 19 => some fun v => list v.1 fun w => condition w.1
    | _ => none) [] true
termination_by value.size
decreasing_by exact v.2
/-- `descriptors::extensions`. -/
def describedExtensions (value : Value) : Except String Unit := do
  let _ ← requiredExtensions (.map [(.unsigned 0, value)]) 0
  let extensions ← innerItems value
  extensions.forM fun extension => do
    let id ← field extension.1 0
    let id ← text id
    if id = functionDescription then
      let payload ← innerField extension.1 2
      description payload.1
    else return
termination_by value.size
decreasing_by exact payload.2.trans extension.2
end

end DdcControl.Wire
