import DdcControl.Text
import DdcControl.Wire.Fields

/-!
# The vocabulary of a database file

The permanent numbers of node kinds and attributes, the integer ranges of the numeric
attributes, and where an attribute or a node is executable. Producer, validator and
decoder share these tables.
-/

namespace DdcControl.Wire

/-- `SOURCE_METADATA`. -/
def sourceMetadata : String := "https://ddccontrol.sourceforge.net/cbor/ext/source-metadata/1"

/-- `MAX_PROFILES`. -/
def maxProfiles : ℕ := 65536

/-- `ATTRIBUTES`. -/
def attributes : List (ℕ × String) :=
  [(0, "name"), (1, "id"), (2, "type"), (3, "refresh"), (4, "pattern"), (5, "init"), (6, "address"), (7, "delay"),
    (8, "value"), (9, "file"), (10, "add"), (11, "remove"), (12, "dbversion"), (13, "date"), (14, "caps"),
    (15, "include")]

/-- `KINDS`. -/
def kinds : List (ℕ × String) :=
  [(0, "options"), (1, "group"), (2, "subgroup"), (3, "control"), (4, "value"), (5, "monitor"), (6, "caps"),
    (7, "include"), (8, "controls")]

/-- The name a table gives a number. -/
def nameOf (table : List (ℕ × String)) (id : ℕ) : Option String :=
  (table.find? fun entry => entry.1 = id).map Prod.snd

/-- The number a table gives a name. -/
def numberOf (table : List (ℕ × String)) (name : String) : Option ℕ :=
  (table.find? fun entry => entry.2 = name).map Prod.fst

/-- `kind_name`. -/
def kindName (id : ℕ) : Option String := nameOf kinds id

/-- `kind_id`. -/
def kindId (name : String) : Option ℕ := numberOf kinds name

/-- `attribute_id`. -/
def attributeId (name : String) : Option ℕ := numberOf attributes name

/-- `attribute_integer_bounds`. -/
def attributeIntegerBounds (id : ℕ) : Option (ℤ × ℤ) :=
  match id with
  | 6 => some (0, 255)
  | 7 => some (-2 ^ 31, 2 ^ 31 - 1)
  | 8 => some (0, 65535)
  | 12 => some (3, 3)
  | _ => none

/-- `executable_attributes`. -/
def executableAttributes (tag parent : String) (inOptions : Bool) : List ℕ :=
  if inOptions then
    if tag = "options" ∧ parent = "" then [12, 13]
    else if tag = "group" ∧ parent = "options" then [0]
    else if tag = "subgroup" ∧ parent = "group" then [0, 4]
    else if tag = "control" ∧ parent = "subgroup" then [0, 1, 2, 3]
    else if tag = "value" ∧ parent = "control" then [0, 1]
    else []
  else
    if tag = "monitor" ∧ parent = "" then [0, 5, 14, 15]
    else if tag = "control" ∧ parent = "controls" then [1, 6, 7]
    else if tag = "value" ∧ parent = "control" then [1, 8]
    else if tag = "caps" ∧ parent = "monitor" then [10, 11]
    else if tag = "include" ∧ parent = "monitor" then [9]
    else []

/-- `executable_path`. -/
def executablePath (tag parent : String) (inOptions ancestorActive : Bool) : Bool :=
  ancestorActive &&
    (!(executableAttributes tag parent inOptions).isEmpty ||
      (tag = "controls" && parent = "monitor" && !inOptions))

/-- `char::is_whitespace`: Unicode's `White_Space`. -/
def isWhitespace (c : Char) : Bool :=
  let n := c.toNat
  (9 ≤ n && n ≤ 13) || n = 0x20 || n = 0x85 || n = 0xa0 || n = 0x1680 || (0x2000 ≤ n && n ≤ 0x200a) || n = 0x2028 ||
    n = 0x2029 || n = 0x202f || n = 0x205f || n = 0x3000

/-- `char::is_control`: Unicode's `Cc`. -/
def isControl (c : Char) : Bool := c.toNat ≤ 0x1f || (0x7f ≤ c.toNat && c.toNat ≤ 0x9f)

/-- `char::is_ascii_alphabetic`. -/
def isAsciiAlphabetic (c : Char) : Bool := ('a' ≤ c && c ≤ 'z') || ('A' ≤ c && c ≤ 'Z')

/-- `valid_identity`. -/
def validIdentity (id : String) : Bool :=
  let chars := id.toList
  let scheme := if chars.contains ':' then chars.takeWhile (· ≠ ':') else []
  scheme.head?.any isAsciiAlphabetic &&
    scheme.all (fun c => isAsciiAlphanumeric c || c = '+' || c = '.' || c = '-') &&
    !chars.any (fun c => isWhitespace c || isControl c)

/-- `profile_id`. -/
def profileId (id : String) : Bool :=
  !id.isEmpty && (utf8 id).length ≤ 255 && id.toList.all fun c => isAsciiAlphanumeric c || c = '_' || c = '-'

end DdcControl.Wire
