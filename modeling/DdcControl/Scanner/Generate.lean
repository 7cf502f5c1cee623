import DdcControl.Capabilities.Patch
import DdcControl.Scanner.Vocabulary
import Mathlib.Data.List.Dedup

/-!
# Generating a profile

`generate` writes the profile of a scanned monitor: every code that the monitor
advertises or answers is described in a comment, and each candidate of the vocabulary
at that address is written either as an active control or, with the reasons against
it, inside a comment.

## The model

The source pushes onto one string; here every function returns the text it pushes.
A `BTreeMap<u8, _>` is a function from codes and a `BTreeSet<u8>` the list of its
codes in order, as in the CAPS tables.
-/

namespace DdcControl.Scanner

open Capabilities Database

/-- `Reading`. -/
structure Reading where
  current : UInt16
  maximum : UInt16
  deriving DecidableEq, Repr

/-- `Scan`. -/
structure Scan where
  pnpId : String
  name : String
  caps : Caps
  readings : UInt8 → Option Reading

/-- Every code, in order. -/
def allCodes : List UInt8 := (List.range 256).map UInt8.ofNat

theorem mem_allCodes (code : UInt8) : code ∈ allCodes :=
  List.mem_map.mpr ⟨code.toNat, List.mem_range.mpr code.toNat_lt, UInt8.ofNat_toNat⟩

/-- `codes`: what the monitor advertises or answers. -/
def Scan.codes (scan : Scan) : List UInt8 :=
  allCodes.filter fun code => scan.caps.isSupported code || (scan.readings code).isSome

/-- `advertised`: the values that the capabilities list for a code. -/
def Scan.advertised (scan : Scan) (code : UInt8) : Option (List UInt16) := (scan.caps.vcp code).bind VcpEntry.values

/-! ### Text -/

/-- `is_xml_character`. -/
def isXmlCharacter (c : Char) : Bool :=
  c = '\t' || c = '\n' || c = '\r' || (0x20 ≤ c.toNat && c.toNat ≤ 0xd7ff) ||
    (0xe000 ≤ c.toNat && c.toNat ≤ 0xfffd) || (0x10000 ≤ c.toNat && c.toNat ≤ 0x10ffff)

/-- `push_attribute` on one character. -/
def pushCharacter (output : String) (c : Char) : Except Char String :=
  if c = '&' then .ok (output ++ "&amp;")
  else if c = '<' then .ok (output ++ "&lt;")
  else if c = '>' then .ok (output ++ "&gt;")
  else if c = '"' then .ok (output ++ "&quot;")
  else if c = '\'' then .ok (output ++ "&apos;")
  else if c = '\t' then .ok (output ++ "&#x9;")
  else if c = '\n' then .ok (output ++ "&#xA;")
  else if c = '\r' then .ok (output ++ "&#xD;")
  else if isXmlCharacter c then .ok (output.push c)
  else .error c

/-- `push_attribute`. -/
def pushAttribute (output input : String) : Except Char String := input.toList.foldlM pushCharacter output

/-- `xml_char`. -/
def xmlChar (c : Char) : Char := if isXmlCharacter c then c else '\ufffd'

/-- `cleaned`. -/
def cleaned (value : String) : String := .ofList (value.toList.map xmlChar)

/-- `attribute`. -/
def xmlAttribute (value : String) : String :=
  match pushAttribute "" (cleaned value) with
  | .ok output => output
  | .error _ => "" -- not an outcome: the text was cleaned

/-- The loop of `comment`. -/
def spaceDashes : Bool → List Char → List Char
  | _, [] => []
  | previousDash, c :: rest =>
    if c = '-' && previousDash then ' ' :: c :: spaceDashes true rest else c :: spaceDashes (c = '-') rest

/-- `comment`. -/
def comment (indent text : String) : String :=
  indent ++ "<!-- " ++ .ofList (spaceDashes false (text.toList.map xmlChar)) ++ " -->\n"

/-- `char::is_whitespace`. -/
def isWhitespace (c : Char) : Bool :=
  (9 ≤ c.toNat && c.toNat ≤ 13) || c.toNat = 0x20 || c.toNat = 0x85 || c.toNat = 0xa0 || c.toNat = 0x1680 ||
    (0x2000 ≤ c.toNat && c.toNat ≤ 0x200a) || c.toNat = 0x2028 || c.toNat = 0x2029 || c.toNat = 0x202f ||
    c.toNat = 0x205f || c.toNat = 0x3000

/-- `hex_values`. -/
def hexValues (values : List UInt16) : String := " ".intercalate (values.map fun value => "0x" ++ hexText value.toNat)

/-! ### Candidates -/

/-- `matching_values`. -/
def matchingValues (control : OptionControl) (advertised : Option (List UInt16)) : List (String × UInt16) :=
  control.values.filterMap fun value =>
    ((hintedValue value).filter fun number => advertised.any fun values => values.contains number).map fun number =>
      (value.id, number)

/-- `ambiguous_values`. -/
def ambiguousValues (values : List (String × UInt16)) : Bool :=
  (values.map Prod.fst).dedup.length ≠ values.length || (values.map Prod.snd).dedup.length ≠ values.length

/-- `reasons`: why a candidate is not active. -/
def reasons (scan : Scan) (options : Options) (code : UInt8) (candidate : OptionControl) : List String :=
  let reading := scan.readings code
  let values := matchingValues candidate (scan.advertised code)
  (if reading.isNone then ["no successful read"] else []) ++
  (if (options code).length > 1 then
    ["several option IDs share this address; choose the verified one"] else []) ++
  (if allCodes.any fun other => other ≠ code && (options other).any fun control => control.id = candidate.id then
    ["this option ID has several possible addresses; choose the verified one"] else []) ++
  (if code ≥ 0xe0 then ["manufacturer-specific address; verify this mapping on the monitor"] else []) ++
  (if candidate.controlType = .command then ["commands require manual verification before enabling"] else []) ++
  (if candidate.controlType = .value && reading.any fun read => read.maximum = 0 || read.current > read.maximum then
    ["the reported range does not establish an adjustable scalar"] else []) ++
  (if candidate.controlType = .list then
    if values.isEmpty then ["no confirmed enum mappings; add verified value IDs and numbers"]
    else if ambiguousValues values then ["enum IDs or numbers have more than one possible meaning"] else []
  else [])

/-- The loop body of `control_xml` for a value. -/
def valueXml (value : String × UInt16) : String :=
  "\t\t\t<value id=\"" ++ xmlAttribute value.1 ++ "\" value=\"0x" ++ hexText value.2.toNat ++ "\"/>\n"

/-- `control_xml`. -/
def controlXml (control : OptionControl) (code : UInt8) (values : List (String × UInt16)) : String :=
  "\t\t<control id=\"" ++ xmlAttribute control.id ++ "\" address=\"0x" ++ hexText code.toNat ++ "\"" ++
    if values.isEmpty then "/>\n"
    else
      ">\n" ++ .join (values.map valueXml) ++ "\t\t</control>\n"

/-- `enum_notes`. -/
def enumNotes (control : OptionControl) (advertised : Option (List UInt16)) (mapped : List (String × UInt16)) : String :=
  (match advertised with
  | none => ""
  | some advertised =>
    let unknown := advertised.filter fun number => !mapped.any fun (_, mapped) => mapped = number
    if unknown.isEmpty then ""
    else comment "\t\t"
      (control.id ++ ": advertised values without a database mapping: " ++ hexValues unknown ++
        ".\nDo not infer their meanings from the numbers alone.")) ++
  if mapped.isEmpty && !control.values.isEmpty then
    comment "\t\t"
      (control.id ++ ": available value IDs: " ++ ", ".intercalate (control.values.map OptionValue.id) ++
        ".\nAdd <value id=\"VERIFIED_ID\" value=\"VERIFIED_NUMBER\"/> inside\n" ++
        "the candidate control after confirming the mapping.")
  else ""

/-- The loop body of `generate` for a candidate. -/
def candidateXml (scan : Scan) (options : Options) (code : UInt8) (candidate : OptionControl) : String :=
  let advertised := scan.advertised code
  let values := matchingValues candidate advertised
  let reasons := reasons scan options code candidate
  let control := controlXml candidate code values
  (if reasons.isEmpty then comment "\t\t" candidate.name ++ control
  else
    comment "\t\t"
      ("Candidate " ++ candidate.id ++ " (" ++ candidate.name ++ "): " ++ "; ".intercalate reasons ++ ".") ++
    comment "\t\t" ("\n" ++ control ++ "\t\t")) ++
  if candidate.controlType = .list then enumNotes candidate advertised values else ""

/-- `observation`: what was seen of a code. -/
def observation (scan : Scan) (code : UInt8) : String :=
  "VCP 0x" ++ hexText code.toNat ++
  (match scan.readings code with
  | some reading => ": current=" ++ toString reading.current.toNat ++ ", maximum=" ++ toString reading.maximum.toNat
  | none =>
    if code ≥ 0xe0 then ": advertised; vendor address not probed" else ": advertised, but no successful read") ++
  match scan.advertised code with
  | some values => "; advertised values: " ++ hexValues values
  | none => ""

/-- The loop body of `generate` for a code. -/
def codeXml (scan : Scan) (options : Options) (code : UInt8) : String :=
  comment "\t\t" (observation scan code) ++
  if (options code).isEmpty then
    comment "\t\t" ("Unknown control: options.xml has no address mapping.\n" ++
      "Identify its meaning and an existing option ID before adding a control.")
  else .join ((options code).map (candidateXml scan options code))

/-! ### The profile -/

/-- A code of the normalized capabilities, with its values. -/
def capsEntry (scan : Scan) (code : UInt8) : String :=
  hexText code.toNat ++
  match scan.advertised code with
  | some values => "(" ++ " ".intercalate (values.map fun value => hexText value.toNat) ++ ")"
  | none => ""

/-- `normalized_caps`. -/
def normalizedCaps (scan : Scan) (codes : List UInt8) : String :=
  "(" ++
  (match scan.caps.monitorType with
  | .lcd => "type(lcd)"
  | .crt => "type(crt)"
  | .unknown => "") ++
  "vcp(" ++ " ".intercalate (codes.map (capsEntry scan)) ++ "))"

/-- The name in the profile: the monitor's, or the PnP id for want of one. -/
def monitorName (scan : Scan) : String := if scan.name.toList.all isWhitespace then scan.pnpId else scan.name

/-- The comment at the head of a profile. -/
def headComment (scan : Scan) : String :=
  "Generated by ddccontrol-scanmonitor for " ++ scan.pnpId ++ ".\n" ++
  "Save as " ++ scan.pnpId ++ ".xml in the database's monitor directory.\n" ++
  "The scan does not set control values; setting values has not been tested.\n" ++
  "Active controls have readable, unambiguous database mappings.\n" ++
  "Review and test them on the monitor before submitting this file.\n" ++
  "To enable a candidate, verify its meaning and values, then remove\n" ++
  "its surrounding XML comment. Keep only one control per address.\n" ++
  "Change init to samsung only if the monitor requires Samsung initialization."

/-- `generate`. -/
def generate (scan : Scan) (options : Options) : String :=
  "<?xml version=\"1.0\" encoding=\"UTF-8\"?>\n" ++
  comment "" (headComment scan) ++
  "<monitor name=\"" ++ xmlAttribute (monitorName scan) ++ "\" init=\"standard\">\n" ++
  (if scan.codes.isEmpty then "" else "\t<caps add=\"" ++ xmlAttribute (normalizedCaps scan scan.codes) ++ "\"/>\n") ++
  "\t<controls>\n" ++
  .join (scan.codes.map (codeXml scan options)) ++
  "\t</controls>\n</monitor>\n"

end DdcControl.Scanner
