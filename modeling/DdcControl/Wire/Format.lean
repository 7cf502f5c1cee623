import DdcControl.Library.Cddl
import DdcControl.Wire.Descriptors

/-!
# The published schema of extensions

The rules of `format.cddl` for extensions and what they carry, one definition for each
rule, under its name there. What the schema leaves to its comments and to the format's
text is in `Extensions` and `Description`: the identities in an array are distinct, and an
identity that is assigned fixes the rule of the payload. A description may carry
extensions of its own, which conform in the same way.

These are statements about data, written from the schema and not from the validator.
-/

namespace DdcControl.Wire.Format

open Cbor Cddl

/-- `bounded-text`. -/
def boundedText : Rule := Cddl.text 0 1048576

/-- `bounded-bytes`. -/
def boundedBytes : Rule := bytes 0 16777216

/-- `nonempty-text`. -/
def nonemptyText : Rule := Cddl.text 1 1048576

/-- `data-key`. -/
def dataKey : Rule := either Cddl.uint boundedText

/-- `data`; a map holds a key once. -/
inductive Data : Rule
  | unsigned (n : UInt64) : Data (.unsigned n)
  | negative (n : UInt64) : Data (.negative n)
  | bytes {s : List UInt8} : boundedBytes (.bytes s) → Data (.bytes s)
  | text {s : String} : boundedText (.text s) → Data (.text s)
  | bool (b : Bool) : Data (.bool b)
  | null : Data .null
  | array {items : List Value} : (∀ item ∈ items, Data item) → Data (.array items)
  | map {entries : List (Value × Value)} : (∀ e ∈ entries, dataKey e.1) → (∀ e ∈ entries, Data e.2) →
      (entries.map Prod.fst).Nodup → Data (.map entries)

/-- `identity`, an absolute URI. -/
def identity : Rule := fun v => nonemptyText v ∧ ∃ id, v = .text id ∧ validIdentity id = true

/-- `extension`. -/
def extension : Rule := recordOf [one 0 identity, one 1 Cddl.bool, one 2 Data] (some (3, Data))

/-- `source-metadata`. -/
def metadata : Rule :=
  recordOf [one 0 (tableOf boundedText boundedText), opt 1 boundedText, opt 2 boundedText, opt 3 boundedText] (some (4, Data))

/-- `datum`. -/
def datum : Rule :=
  either Cddl.int <| either boundedText <| either boundedBytes <|
    recordOf [one 0 Cddl.int, one 1 (Cddl.range 1 18446744073709551615)] none

/-- `quantity`. -/
def quantity : Rule := either (recordOf [one 0 (literal 1), one 1 datum] none) (recordOf [one 0 (literal 2)] none)

/-- `choice`. -/
def choice : Rule := recordOf [one 0 datum, opt 1 boundedText] none

/-- `bitfield`. -/
def bitfield : Rule :=
  recordOf [one 0 Cddl.uint, one 1 (Cddl.range 1 64), opt 2 (arrayOf choice), opt 3 boundedText] none

/-- `protocol-version`. -/
def protocolVersion : Rule := recordOf [one 0 identity, one 1 boundedText] none

/-- `condition`. -/
def condition : Rule := recordOf [one 0 identity, one 1 Data] none

/-- `opaque-descriptor`. -/
def opaqueDescriptor : Rule := recordOf [one 0 identity, one 1 identity, one 2 boundedBytes] none

/-- `operation`. -/
def operation : Rule :=
  recordOf [one 0 Cddl.uint, opt 1 (Cddl.range 0 255), opt 2 Data, opt 3 identity, opt 4 (arrayOf condition)]
    (some (5, Data))

/-- `function-description`, given the rule of its quirks. -/
def descriptionOf (quirks : Rule) : Rule :=
  recordOf
    [opt 0 (Cddl.range 1 6), opt 1 (Cddl.range 0 3), opt 2 (arrayOf operation), opt 3 identity, opt 4 (Cddl.range 0 255),
      opt 5 identity, opt 6 quantity, opt 7 quantity, opt 8 quantity, opt 9 quantity, opt 10 (arrayOf choice),
      opt 11 (arrayOf bitfield), opt 12 (arrayOf protocolVersion), opt 13 boundedText, opt 14 (arrayOf (Cddl.range 0 255)),
      opt 15 (arrayOf condition), opt 16 (arrayOf opaqueDescriptor), opt 17 boundedText, opt 18 quirks,
      opt 19 (arrayOf condition)]
    (some (20, Data))

mutual
/-- `[* extension]`, with distinct identities, where the payloads of the assigned identities conform. -/
inductive Extensions : Value → Prop
  | intro {items : List Value} : (∀ e ∈ items, extension e) →
      items.Pairwise (fun e e' => ∀ id, Holds e 0 id → ¬ Holds e' 0 id) →
      (∀ e ∈ items, Holds e 0 (.text sourceMetadata) →
        Holds e 1 (.bool false) ∧ ∀ payload, Holds e 2 payload → metadata payload) →
      (∀ e ∈ items, Holds e 0 (.text functionDescription) → ∀ payload, Holds e 2 payload → Description payload) →
      Extensions (.array items)
/-- `function-description`, where the quirks conform. -/
inductive Description : Value → Prop
  | intro {v : Value} : descriptionOf (arrayOf extension) v → (∀ quirks, Holds v 18 quirks → Extensions quirks) → Description v
end

end DdcControl.Wire.Format
