import DdcControl.Library.Fallible
import DdcControl.Wire.Deterministic
import Mathlib.Algebra.Order.BigOperators.Group.List

/-!
# Reading values

The typed views of a CBOR value the decoder, the validator and the encoder share: each
gives what a value holds, or says what was expected. Records are maps with unsigned
keys; `optional` finds a field by its key. A recursion over values goes through
`innerField`, `innerItems` and `innerFields`: the same views, with the proof that what
they give is smaller.
-/

namespace DdcControl.Wire

open Cbor Fallible

/-- `Value::as_text`. -/
def asText : Value → Option String
  | .text s => some s
  | _ => none

/-- `Value::as_bool`. -/
def asBool : Value → Option Bool
  | .bool b => some b
  | _ => none

/-- `Value::as_bytes`. -/
def asBytes : Value → Option (List UInt8)
  | .bytes s => some s
  | _ => none

/-- `Value::as_integer`. -/
def asInteger : Value → Option ℤ
  | .unsigned n => some n.toNat
  | .negative n => some (-1 - n.toNat)
  | _ => none

/-- `Value::as_map`. -/
def asMap : Value → Option (List (Value × Value))
  | .map entries => some entries
  | _ => none

/-- `Value::as_array`. -/
def asArray : Value → Option (List Value)
  | .array items => some items
  | _ => none

/-- `value.as_integer().and_then(|n| u64::try_from(n).ok())`. -/
def asUint : Value → Option ℕ
  | .unsigned n => some n.toNat
  | _ => none

/-- `map`. -/
def map (value : Value) : Except String (List (Value × Value)) := orError (asMap value) "CBOR expected map"

/-- `uint`. -/
def uint (value : Value) : Except String ℕ := orError (asUint value) "CBOR expected unsigned integer"

/-- `fields`. -/
def fields (value : Value) : Except String (List (Value × Value)) := do
  let entries ← map value
  entries.forM fun (key, _) => do let _ ← uint key
  return entries

/-- `optional`. -/
def optional (value : Value) (key : ℕ) : Option Value :=
  (asMap value).bind fun entries => entries.findSome? fun (candidate, value) =>
    if asUint candidate = some key then some value else none

/-- `field`. -/
def field (value : Value) (key : ℕ) : Except String Value :=
  orError (optional value key) ("CBOR missing field " ++ toString key)

/-- `integer`. -/
def integer (value : Value) : Except String ℤ := orError (asInteger value) "CBOR expected integer"

/-- `text`. -/
def text (value : Value) : Except String String := orError (asText value) "CBOR expected text"

/-- `array`. -/
def array (value : Value) : Except String (List Value) := orError (asArray value) "CBOR expected array"

/-- `bytes32`. -/
def bytes32 (value : Value) : Except String (List UInt8) :=
  orError ((asBytes value).filter fun bytes => bytes.length = 32) "CBOR expected 32-byte SHA-256 digest"

/-! ### Views that get smaller -/

/-- An entry's value is smaller than the map. -/
theorem size_entry {entries : List (Value × Value)} {e : Value × Value} (h : e ∈ entries) :
    e.2.size < (Value.map entries).size := by
  have : e.1.size + e.2.size ≤ sizeEntries entries := by
    rw [sizeEntries_eq]
    exact List.single_le_sum (by simp) _ (List.mem_map_of_mem h)
  rw [Value.size]
  omega

/-- What a field holds is the value of an entry. -/
theorem mem_of_optional {value found : Value} {key : ℕ} (h : optional value key = some found) :
    ∃ entries, value = .map entries ∧ ∃ e ∈ entries, asUint e.1 = some key ∧ e.2 = found := by
  cases value with
  | map entries =>
    simp only [optional, asMap, Option.bind_some] at h
    obtain ⟨e, he, hfound⟩ := List.exists_of_findSome?_eq_some h
    split_ifs at hfound with hkey
    cases hfound
    exact ⟨entries, rfl, e, he, hkey, rfl⟩
  | _ => cases h

/-- What a field holds is smaller than its record. -/
theorem size_optional {value found : Value} {key : ℕ} (h : optional value key = some found) :
    found.size < value.size := by
  obtain ⟨entries, rfl, e, he, -, rfl⟩ := mem_of_optional h
  exact size_entry he

/-- What an array holds is smaller than the array. -/
theorem size_item {items : List Value} {v : Value} (h : v ∈ items) :
    v.size < (Value.array items).size := by
  have : v.size ≤ sizeItems items := by
    rw [sizeItems_eq]
    exact List.single_le_sum (by simp) _ (List.mem_map_of_mem h)
  rw [Value.size]
  omega

/-- A smaller value. -/
abbrev Inner (value : Value) := { inner : Value // inner.size < value.size }

/-- `field`. -/
def innerField (value : Value) (key : ℕ) : Except String (Inner value) :=
  match h : optional value key with
  | some found => .ok ⟨found, size_optional h⟩
  | none => .error ("CBOR missing field " ++ toString key)

/-- `array`. -/
def innerItems (value : Value) : Except String (List (Inner value)) :=
  match value with
  | .array items => .ok (items.attach.map fun item => ⟨item.1, size_item item.2⟩)
  | _ => .error "CBOR expected array"

/-- `fields`. -/
def innerFields (value : Value) : Except String (List (Value × Inner value)) :=
  match value with
  | .map entries => do
    let _ ← fields (.map entries)
    return entries.attach.map fun e => (e.1.1, ⟨e.1.2, size_entry e.2⟩)
  | _ => .error "CBOR expected map"

theorem innerField_eq_ok {value : Value} {key : ℕ} {found : Inner value} :
    innerField value key = .ok found ↔ optional value key = some found.1 := by
  obtain ⟨found, hsize⟩ := found
  unfold innerField
  split
  · rename_i w h
    simp [h]
  · rename_i h
    simp [h]

theorem innerItems_eq_ok {value : Value} {items : List (Inner value)} :
    innerItems value = .ok items ↔ asArray value = some (items.map Subtype.val) := by
  cases value with
  | array values =>
    rw [innerItems, asArray, Except.ok.injEq, Option.some.injEq,
      ← List.map_inj_right (f := Subtype.val)]
    · simp
    · exact fun _ _ => Subtype.ext
  | _ => simp [innerItems, asArray]

end DdcControl.Wire
