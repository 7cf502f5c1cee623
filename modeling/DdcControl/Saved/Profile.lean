import DdcControl.Library.Utf8
import DdcControl.Saved.Reading

/-!
# User profiles

A user profile is saved as a document with one element for each control, the numbers in
hexadecimal. It is loaded as bytes in any encoding the document declares, after comments
and white space before the declaration, which older versions wrote.

## The model

`debug` is `{:?}` of a text, which escapes by the tables of Unicode; it is only in errors.

## What is proved

* `serialize_isOk` — a profile is written if it has few enough controls and its texts are
  of XML characters.
* `serialize_roundtrip` — and what is written is loaded as the profile.
-/

namespace DdcControl.Saved

open Context Fallible Markup Scanner

/-- `PROFILE_VERSION`. -/
def profileVersion : ℤ := 1

/-- `MAX_CONTROLS`. -/
def maxControls : ℕ := 256

/-- `Control`. -/
structure Control where
  address : UInt8
  value : UInt16
  deriving DecidableEq, Repr

/-- `Profile`. -/
structure Profile where
  name : String
  pnpId : String
  controls : List Control
  deriving DecidableEq, Repr

namespace Profile

/-! ### Writing -/

/-- `push_escaped_attribute`. -/
def pushEscapedAttribute (output input : String) : Except String String :=
  (pushAttribute output input).mapError fun character =>
    "profile contains invalid XML character U+" ++ .ofList ((hexDigits character.toNat).leftpad 4 '0')

/-- `{:#x}`. -/
def hexPrefixed (n : ℕ) : String := "0x" ++ .ofList (Nat.toDigits 16 n)

/-- The loop body of `serialize`. -/
def pushControl (output : String) (control : Control) : String :=
  output ++ ("  <control address=\"" ++ hexPrefixed control.address.toNat ++ "\" value=\"" ++
    hexPrefixed control.value.toNat ++ "\"/>\n")

/-- `serialize`. -/
def serialize (profile : Profile) : Except String String := do
  reject (profile.controls.length > maxControls) ("profile contains more than " ++ toString maxControls ++ " controls")
  let output ← pushEscapedAttribute "<?xml version=\"1.0\" encoding=\"UTF-8\"?>\n<profile name=\"" profile.name
  let output ← pushEscapedAttribute (output ++ "\" pnpid=\"") profile.pnpId
  let output := profile.controls.foldl pushControl (output ++ "\" version=\"1\">\n")
  return output ++ "</profile>\n"

/-! ### The encoding -/

/-- The loop that skips blanks and comments, on bytes and on characters alike; a comment
without an end has no result. -/
def skipComments {α : Type} [BEq α] (blank : α → Bool) (mark : Char → α) (input : List α) : Option (List α) :=
  let rest := input.dropWhile blank
  if (['<', '!', '-', '-'].map mark).isPrefixOf rest then
    match _h : splitAt (['-', '-', '>'].map mark) (rest.drop 4) with
    | some (_, after) => skipComments blank mark after
    | none => none
  else some rest
termination_by input.length
decreasing_by
  obtain ⟨hle, hpos⟩ := splitAt_length _h
  have hdrop := List.length_drop (i := 4) (l := rest)
  have hblank : rest.length ≤ input.length := (List.dropWhile_suffix blank).length_le
  omega

/-- `xml_declaration`. -/
def xmlDeclaration (bytes : List UInt8) : Option (List UInt8) := do
  let bytes := if [0xEF, 0xBB, 0xBF].isPrefixOf bytes then bytes.drop 3 else bytes
  let rest ← skipComments isAsciiSpace Char.toUInt8 bytes
  let declaration ← rest.dropPrefix? (utf8 "<?xml")
  return match splitAt (utf8 "?>") declaration with
    | some (before, _) => before
    | none => declaration

/-- `xml_attribute`: where the name of an attribute stands. -/
def xmlAttributeIndex (input name : List UInt8) : Option ℕ :=
  (List.range (input.length + 1 - name.length)).find? fun index =>
    (input.drop index).take name.length = name &&
      (index > 0 && (input[index - 1]?).any isAsciiSpace &&
        (input[index + name.length]?).any fun byte => byte = 61 || isAsciiSpace byte)

section Encoding

variable (e : EncodingRs) (debug : List UInt8 → String)

/-- `xml_declared_encoding`. -/
def xmlDeclaredEncoding (bytes : List UInt8) : Except String (Option e.Encoding) :=
  match xmlDeclaration bytes with
  | none => .ok none
  | some declaration =>
    match xmlAttributeIndex declaration (utf8 "encoding") with
    | none => .ok none
    | some index => do
      let label ← quotedLabel "XML encoding declaration is missing an equals sign"
        "XML encoding declaration is not quoted" "XML encoding declaration has no closing quote"
        (declaration.drop (index + 8))
      let encoding ← orError (e.forLabel label)
        ("XML declares unsupported encoding " ++ debug (Utf8.lossy label))
      return some encoding

/-- `decode_xml_bytes`. -/
def decodeXmlBytes (bytes : List UInt8) : Except String String := do
  let encoding := (← xmlDeclaredEncoding e debug bytes).getD e.utf8
  let (decoded, actual, hadErrors) := e.decode encoding bytes
  reject hadErrors ("profile contains bytes that are invalid for " ++ e.name actual)
  return decoded

/-- `normalize_xml_document`. -/
def normalizeXmlDocument (xml : String) : String :=
  match skipComments isWhitespace id xml.toList with
  | some rest => if rest.length < xml.length && "<?xml".toList.isPrefixOf rest then .ofList rest else xml
  | none => xml

/-! ### Loading -/

/-- `parse_bounded_integer`. -/
def parseBoundedInteger (input : String) (maximum : ℕ) : Except String ℕ := do
  let value ← (parseInteger input).mapError fun _ => debug (utf8 input) ++ " is not an integer"
  reject (value < 0 || value > maximum) (toString value ++ " is outside 0..=" ++ toString maximum)
  return value.toNat

/-- The loop body of `parse`. -/
def parseControl (controls : List Control) (node : Xml) : Except String (List Control) :=
  if tagName node ≠ "control" then .ok controls
  else do
    reject (controls.length = maxControls) ("profile contains more than " ++ toString maxControls ++ " controls")
    let address ← requiredAttribute node "address"
    let address ← (parseBoundedInteger debug address 255).mapError ("invalid control address: " ++ ·)
    let value ← requiredAttribute node "value"
    let value ← (parseBoundedInteger debug value 65535).mapError ("invalid control value: " ++ ·)
    return controls ++ [⟨.ofNat address, .ofNat value⟩]

/-- `parse`. -/
def parse (r : DocumentReader) (input : String) : Except String Profile := do
  let root ← r.parse input
  reject (tagName root ≠ "profile") ("profile has root element " ++ tagName root ++ ", expected profile")
  let name ← requiredAttribute root "name"
  let pnpId ← requiredAttribute root "pnpid"
  let version ← requiredAttribute root "version"
  let version ← (parseInteger version).mapError fun _ => "profile version is not a valid integer"
  reject (version ≠ profileVersion) ("profile version " ++ toString version ++ " is not supported")
  let controls ← (childElements root).foldlM (parseControl debug) []
  return ⟨name, pnpId, controls⟩

/-- `parse_bytes`. -/
def parseBytes (r : DocumentReader) (input : List UInt8) : Except String Profile := do
  let decoded ← decodeXmlBytes e debug input
  parse debug r (normalizeXmlDocument decoded)

end Encoding

/-! ### What is written -/

/-- The `control` element of a control. -/
def controlElement (control : Control) : Element :=
  .mk "control" [("address", hexPrefixed control.address.toNat), ("value", hexPrefixed control.value.toNat)] []

/-- The element of a profile. -/
def element (profile : Profile) : Element :=
  .mk "profile" [("name", profile.name), ("pnpid", profile.pnpId), ("version", "1")]
    (profile.controls.map controlElement)

theorem hexPrefixed_value (n : ℕ) : AttributeValue (hexPrefixed n) (hexPrefixed n) := by
  have hdigits : ∀ d < 16, isLiteral d.digitChar = true := by decide
  have hlist : (hexPrefixed n).toList = '0' :: 'x' :: Nat.toDigits 16 n := by
    simp [hexPrefixed, String.toList_append]
  refine .literal (List.all_eq_true.mpr ?_)
  rw [hlist]
  refine List.forall_mem_cons.mpr ⟨by decide, List.forall_mem_cons.mpr ⟨by decide, fun c hc => ?_⟩⟩
  obtain ⟨d, hd, rfl⟩ := exists_of_mem_toDigits (by decide) hc
  exact hdigits d hd

theorem foldl_pushControl (controls : List Control) (output : String) :
    controls.foldl pushControl output = output ++ .join (controls.map (pushControl "")) := by
  induction controls generalizing output with
  | nil => simp
  | cons control controls ih =>
    rw [List.foldl_cons, ih, List.map_cons, String.join_cons, ← String.append_assoc]
    simp [pushControl]

theorem pushControl_content (control : Control) :
    Content (pushControl "" control) [controlElement control] := by
  have hattributes := attributes_two (by decide : IsName "address") (by decide : IsName "value") (by decide)
    (hexPrefixed_value control.address.toNat) (hexPrefixed_value control.value.toNat)
  have hindent : ∀ white ∈ [" ", " "], white ∈ [" ", "\t", "\n"] := by simp
  have := Content.blank hindent (.empty (by decide : IsName "control") hattributes (newline .nil))
  have hopen : "  <control address=\"" = .join [" ", " "] ++
      ("<" ++ ("control" ++ (" " ++ ("address" ++ "=\"")))) := rfl
  have hmiddle : "\" value=\"" = "\"" ++ (" " ++ ("value" ++ "=\"")) := rfl
  have hclose : "\"/>\n" = "\"" ++ ("" ++ ("/>" ++ ("\n" ++ ""))) := rfl
  unfold pushControl controlElement
  rw [String.empty_append]
  simp only [hopen, hmiddle, hclose]
  simp only [String.append_assoc] at this ⊢
  exact this

/-- The document of a profile, of what its texts are written as. -/
def documentText (name pnpId : String) (controls : List Control) : String :=
  "<?xml version=\"1.0\" encoding=\"UTF-8\"?>\n<profile name=\"" ++ name ++ "\" pnpid=\"" ++ pnpId ++
    "\" version=\"1\">\n" ++ .join (controls.map (pushControl "")) ++ "</profile>\n"

theorem documentText_document {profile : Profile} {name pnpId : String}
    (hname : AttributeValue name profile.name) (hpnpId : AttributeValue pnpId profile.pnpId) :
    Document (documentText name pnpId profile.controls) profile.element := by
  have hversion : AttributeValue "1" "1" := .literal (by decide)
  have hattributes : Attributes _ [("name", profile.name), ("pnpid", profile.pnpId),
      ("version", "1")] :=
    .cons (by decide) hname (by simp)
      (.cons (by decide) hpnpId (by simp) (.cons (by decide) hversion (by simp) .nil))
  have hcontrols := Content.join fun control (_ : control ∈ profile.controls) =>
    pushControl_content control
  have hcontent := newline (.element (by decide : IsName "profile") hattributes (newline hcontrols) (newline .nil))
  rw [← List.map_eq_flatMap] at hcontent
  refine ⟨_, hcontent, ?_⟩
  have hopen : "<?xml version=\"1.0\" encoding=\"UTF-8\"?>\n<profile name=\"" =
      "<?xml version=\"1.0\" encoding=\"UTF-8\"?>" ++
        ("\n" ++ ("<" ++ ("profile" ++ (" " ++ ("name" ++ "=\""))))) := rfl
  have hmiddle : "\" pnpid=\"" = "\"" ++ (" " ++ ("pnpid" ++ "=\"")) := rfl
  have hversionText : "\" version=\"1\">\n" = "\"" ++
      (" " ++ ("version" ++ ("=\"" ++ ("1" ++ ("\"" ++ ("" ++ (">" ++ "\n"))))))) := rfl
  have hclose : "</profile>\n" = "</" ++ ("profile" ++ (">" ++ ("\n" ++ ""))) := rfl
  unfold documentText
  simp only [hopen, hmiddle, hversionText, hclose]
  simp only [String.append_assoc]

theorem pushEscapedAttribute_eq_ok {output input pushed : String} :
    pushEscapedAttribute output input = .ok pushed ↔ pushAttribute output input = .ok pushed := by
  unfold pushEscapedAttribute
  cases pushAttribute output input <;> simp [Except.mapError]

/-- **A profile with few controls and legal texts is written**, as its document. -/
theorem serialize_ok {profile : Profile} (hcontrols : profile.controls.length ≤ 256)
    (hname : LegalText profile.name) (hpnpId : LegalText profile.pnpId) :
    ∃ name pnpId, AttributeValue name profile.name ∧ AttributeValue pnpId profile.pnpId ∧
      profile.serialize = .ok (documentText name pnpId profile.controls) := by
  obtain ⟨name, hwriteName, hvalueName⟩ := pushAttribute_value (legalText_iff.mp hname)
  obtain ⟨pnpId, hwriteId, hvalueId⟩ := pushAttribute_value (legalText_iff.mp hpnpId)
  refine ⟨name, pnpId, hvalueName, hvalueId, ?_⟩
  have hroom : reject (profile.controls.length > maxControls)
      ("profile contains more than " ++ toString maxControls ++ " controls") = .ok () := by
    rw [reject_eq_ok, decide_eq_false_iff_not, maxControls]
    omega
  have hpushName : ∀ output, pushEscapedAttribute output profile.name = .ok (output ++ name) :=
    fun output => pushEscapedAttribute_eq_ok.mpr (hwriteName output)
  have hpushId : ∀ output, pushEscapedAttribute output profile.pnpId = .ok (output ++ pnpId) :=
    fun output => pushEscapedAttribute_eq_ok.mpr (hwriteId output)
  rw [serialize, hroom]
  simp only [ok_bind, hpushName, hpushId]
  rw [foldl_pushControl]
  refine congrArg Except.ok ?_
  unfold documentText
  with_reducible rfl

/-- **Only such a profile is written.** -/
theorem serialize_isOk {profile : Profile} {text : String} (h : profile.serialize = .ok text) :
    profile.controls.length ≤ 256 ∧ LegalText profile.name ∧ LegalText profile.pnpId := by
  obtain ⟨_, hroom, h⟩ := bind_eq_ok.mp h
  obtain ⟨_, hname, h⟩ := bind_eq_ok.mp h
  obtain ⟨_, hpnpId, -⟩ := bind_eq_ok.mp h
  rw [reject_eq_ok, decide_eq_false_iff_not, maxControls] at hroom
  exact ⟨by omega, legalText_iff.mpr (pushAttribute_isOk (pushEscapedAttribute_eq_ok.mp hname)),
    legalText_iff.mpr (pushAttribute_isOk (pushEscapedAttribute_eq_ok.mp hpnpId))⟩

/-! ### How it is read -/

section Reads

variable {e : EncodingRs} (debug : List UInt8 → String)

theorem xmlDeclaration_header (content : String) :
    xmlDeclaration (utf8 (header ++ content)) = some (utf8 declared) := by
  have hopen : utf8 "<?xml" = [60, 63, 120, 109, 108] := by decide +kernel
  have hskip : ∀ rest : List UInt8, skipComments isAsciiSpace Char.toUInt8 (60 :: 63 :: rest) =
      some (60 :: 63 :: rest) := by
    intro rest
    rw [skipComments]
    rfl
  have hmark : ∀ rest : List UInt8, ([0xEF, 0xBB, 0xBF].isPrefixOf (60 :: rest)) = false :=
    fun _ => rfl
  rw [utf8_header, xmlDeclaration, hopen]
  have hdrop := dropPrefix?_append [60, 63, 120, 109, 108] (utf8 (declared ++ "?>") ++ utf8 content)
  simp only [List.cons_append, List.nil_append] at hdrop ⊢
  simp only [hmark, Bool.false_eq_true, if_false, hskip, hdrop, Option.bind_eq_bind,
    Option.bind_some, splitAt_declared]
  rfl

theorem xmlDeclaredEncoding_header (he : e.Standard) (content : String) :
    xmlDeclaredEncoding e debug (utf8 (header ++ content)) = .ok (some e.utf8) := by
  have hindex : xmlAttributeIndex (utf8 declared) (utf8 "encoding") = some 15 := by decide +kernel
  rw [xmlDeclaredEncoding, xmlDeclaration_header]
  simp only [hindex]
  rw [quotedLabel_declared, ok_bind, he.label]
  rfl

theorem decodeXmlBytes_header (he : e.Standard) (content : String) :
    decodeXmlBytes e debug (utf8 (header ++ content)) = .ok (header ++ content) := by
  rw [decodeXmlBytes, xmlDeclaredEncoding_header debug he, ok_bind]
  simp only [Option.getD_some, he.decode _ (unmarked_header content)]
  rfl

/-- A document that begins with its declaration stays as it is. -/
theorem normalizeXmlDocument_header (content : String) :
    normalizeXmlDocument (header ++ content) = header ++ content := by
  have hlist : (header ++ content).toList = '<' :: '?' :: (header.toList.drop 2 ++ content.toList) := by
    rw [String.toList_append]
    rfl
  have hskip : skipComments isWhitespace id (header ++ content).toList = some (header ++ content).toList := by
    rw [hlist, skipComments]
    rfl
  rw [normalizeXmlDocument, hskip]
  simp

/-! ### Numbers and controls -/

theorem parseBoundedInteger_hexPrefixed {n maximum : ℕ} (h : n ≤ maximum)
    (hmax : maximum < 2 ^ 63) :
    parseBoundedInteger debug (hexPrefixed n) maximum = .ok n := by
  have hrange : (decide ((n : ℤ) < 0) || decide ((n : ℤ) > maximum)) = false := by
    rw [Bool.or_eq_false_iff, decide_eq_false_iff_not, decide_eq_false_iff_not]
    omega
  rw [parseBoundedInteger, hexPrefixed, parseInteger_toDigits (by omega)]
  simp only [Except.mapError, ok_bind, hrange]
  rfl

/-- **A control is loaded as it was written.** -/
theorem parseControl_denotes {tree : Xml} {control : Control} {before : List Control}
    (h : Denotes tree (controlElement control)) (hroom : before.length < maxControls) :
    parseControl debug before tree = .ok (before ++ [control]) := by
  have haddress : requiredAttribute tree "address" = .ok (hexPrefixed control.address.toNat) :=
    requiredAttribute_denotes h rfl
  have hvalue : requiredAttribute tree "value" = .ok (hexPrefixed control.value.toNat) :=
    requiredAttribute_denotes h rfl
  have hlimit : decide (before.length = maxControls) = false := decide_eq_false hroom.ne
  have hbyte := control.address.toNat_lt
  have hword := control.value.toNat_lt
  rw [parseControl, tagName_denotes h, if_neg (by simp), hlimit, haddress, hvalue]
  simp only [reject, Bool.false_eq_true, if_false, ok_bind,
    parseBoundedInteger_hexPrefixed debug (show control.address.toNat ≤ 255 by omega) (by decide),
    parseBoundedInteger_hexPrefixed debug (show control.value.toNat ≤ 65535 by omega) (by decide), Except.mapError,
    UInt8.ofNat_toNat, UInt16.ofNat_toNat]
  rfl

/-- **The controls of a document are loaded in order.** -/
theorem foldlM_parseControl {trees : List Xml} {controls before : List Control}
    (h : DenoteAll trees (controls.map controlElement))
    (hroom : before.length + controls.length ≤ maxControls) :
    trees.foldlM (parseControl debug) before = .ok (before ++ controls) := by
  induction controls generalizing trees before with
  | nil =>
    rw [List.map_nil, DenoteAll] at h
    rw [h, List.append_nil]
    rfl
  | cons control controls ih =>
    obtain ⟨tree, rest, rfl, htree, hrest⟩ := h
    rw [List.length_cons] at hroom
    rw [List.foldlM_cons, parseControl_denotes debug htree (by omega), ok_bind,
      ih hrest (by rw [List.length_append, List.length_singleton]; omega), List.append_assoc]
    rfl

/-- **What is written is loaded as it was.** -/
theorem parse_denotes {r : DocumentReader} {text : String} {profile : Profile} {tree : Xml}
    (hread : r.parse text = .ok tree) (hdenotes : Denotes tree profile.element)
    (hroom : profile.controls.length ≤ maxControls) : parse debug r text = .ok profile := by
  have hname : requiredAttribute tree "name" = .ok profile.name :=
    requiredAttribute_denotes hdenotes rfl
  have hpnpId : requiredAttribute tree "pnpid" = .ok profile.pnpId :=
    requiredAttribute_denotes hdenotes rfl
  have hversion : requiredAttribute tree "version" = .ok "1" :=
    requiredAttribute_denotes hdenotes rfl
  have hone : parseInteger "1" = .ok 1 := by decide
  have hcontrols : (childElements tree).foldlM (parseControl debug) [] = .ok ([] ++ profile.controls) :=
    foldlM_parseControl debug (childElements_denotes hdenotes) (by simpa using hroom)
  rw [parse, hread, ok_bind, tagName_denotes hdenotes]
  simp only [hname, hpnpId, hversion, ok_bind, hone, Except.mapError, profileVersion, hcontrols,
    ne_eq, not_true_eq_false, decide_false, reject, Bool.false_eq_true, if_false, List.nil_append]
  rfl

end Reads

/-- **User profiles survive saving and loading.** A profile is written if and only if it
has at most 256 controls and its texts are of XML characters; and what is written is
loaded as the profile itself. -/
theorem serialize_roundtrip {e : EncodingRs} (he : e.Standard) {r : DocumentReader}
    (debug : List UInt8 → String) (profile : Profile)
    (hr : ∀ text, profile.serialize = .ok text → r.Reads text profile.element) :
    ((∃ text, profile.serialize = .ok text) ↔
        profile.controls.length ≤ 256 ∧ LegalText profile.name ∧ LegalText profile.pnpId) ∧
      ∀ text, profile.serialize = .ok text → parseBytes e debug r (utf8 text) = .ok profile := by
  constructor
  · constructor
    · rintro ⟨text, h⟩
      exact serialize_isOk h
    · rintro ⟨hcontrols, hname, hpnpId⟩
      obtain ⟨_, _, -, -, h⟩ := serialize_ok hcontrols hname hpnpId
      exact ⟨_, h⟩
  · intro text h
    obtain ⟨hcontrols, hname, hpnpId⟩ := serialize_isOk h
    obtain ⟨name, pnpId, hvalueName, hvalueId, hwritten⟩ := serialize_ok hcontrols hname hpnpId
    obtain rfl := Except.ok.inj (hwritten.symm.trans h)
    have hdocument := documentText_document hvalueName hvalueId
    obtain ⟨tree, htree, hdenotes⟩ := hr _ h hdocument
    obtain ⟨content, heq⟩ := document_header hdocument
    rw [parseBytes, heq, decodeXmlBytes_header debug he, ok_bind, normalizeXmlDocument_header]
    rw [heq] at htree
    exact parse_denotes debug htree hdenotes hcontrols

/-- A profile with white space and markup in its name, and a control twice. -/
def markedProfile : Profile := ⟨"a\t<b> & \"c\"\n", "ABC1234", [⟨0x10, 0xffff⟩, ⟨0x10, 0⟩]⟩

/-- It survives. -/
theorem markedProfile_roundtrip : ((∃ text, markedProfile.serialize = .ok text) ↔ markedProfile.controls.length ≤ 256 ∧
      LegalText markedProfile.name ∧ LegalText markedProfile.pnpId) ∧
    ∃ text, markedProfile.serialize = .ok text ∧
      parseBytes utf8Decoder (fun _ => "") writtenReader (utf8 text) = .ok markedProfile := by
  obtain ⟨hiff, hload⟩ := serialize_roundtrip utf8Decoder_standard (fun _ => "") markedProfile
    fun text _ => writtenReader_reads text markedProfile.element
  have hlegal : markedProfile.controls.length ≤ 256 ∧ LegalText markedProfile.name ∧
      LegalText markedProfile.pnpId := by
    decide
  obtain ⟨text, htext⟩ := hiff.mpr hlegal
  exact ⟨hiff, text, htext, hload text htext⟩

end Profile

end DdcControl.Saved
