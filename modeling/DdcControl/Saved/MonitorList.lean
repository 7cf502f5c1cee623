import DdcControl.Saved.Reading

/-!
# The cached monitor list

The result of probing is cached as a document that names the version that wrote it, with
one element for each monitor. Only that version reads it again.

## The model

`debug` is `{:?}` of a text, which escapes by the tables of Unicode; it is only in errors.

## What is proved

* `serialize_isOk` — a list is written if its texts are of XML characters.
* `serialize_sameVersion` — and what is written is read by its version as the list, and by
  no other.
-/

namespace DdcControl.Saved

open Context Fallible Markup Scanner

/-- `Monitor`. -/
structure Monitor where
  filename : String
  supported : UInt8
  name : String
  digital : UInt8
  deriving DecidableEq, Repr

namespace MonitorList

/-! ### Writing -/

/-- `push_attribute`. -/
protected def pushAttribute (output input : String) : Except String String :=
  (Scanner.pushAttribute output input).mapError fun character =>
    "invalid XML character U+" ++ .ofList ((hexDigits character.toNat).leftpad 4 '0')

/-- The loop body of `serialize`. -/
def pushMonitor (output : String) (monitor : Monitor) : Except String String := do
  let output ← MonitorList.pushAttribute (output ++ "  <monitor filename=\"") monitor.filename
  let output := output ++ ("\" supported=\"" ++ toString (monitor.supported.toNat : ℤ) ++ "\" name=\"")
  let output ← MonitorList.pushAttribute output monitor.name
  return output ++ ("\" digital=\"" ++ toString (monitor.digital.toNat : ℤ) ++ "\"/>\n")

/-- `serialize`. -/
def serialize (monitors : List Monitor) (version : String) : Except String String := do
  let output ← MonitorList.pushAttribute
    "<?xml version=\"1.0\" encoding=\"UTF-8\"?>\n<monitorlist ddccontrolversion=\"" version
  let output ← monitors.foldlM pushMonitor (output ++ "\">\n")
  return output ++ "</monitorlist>\n"

/-! ### Reading -/

section Reading

variable (e : EncodingRs) (debug : List UInt8 → String)

/-- `declared_encoding`. -/
def declaredEncoding (input : List UInt8) : Except String (Option e.Encoding) :=
  match (input.dropPrefix? (utf8 "<?xml")).filter fun rest => rest.head?.any isAsciiSpace with
  | none => .ok none
  | some rest => do
    let (declaration, _) ← orError (splitAt (utf8 "?>") rest) "unterminated XML declaration"
    let index := (List.range (declaration.length + 1 - 8)).find? fun index =>
      (declaration.drop index).take 8 = utf8 "encoding" &&
        (index > 0 && (declaration[index - 1]?).any isAsciiSpace)
    match index with
    | none => return none
    | some index =>
      let label ← quotedLabel "invalid XML encoding declaration" "invalid XML encoding declaration"
        "invalid XML encoding declaration" (declaration.drop (index + 8))
      let encoding ← orError (e.forLabel label) "unsupported XML encoding"
      return some encoding

/-- `parse_byte`. -/
def parseByte (input : String) : Except String UInt8 := do
  reject ((input.toList.dropWhile isAsciiWhitespace).head? = some '-') ("invalid monitor flag " ++ debug (utf8 input))
  let value ← (parseInteger input).mapError fun _ => "invalid monitor flag " ++ debug (utf8 input)
  orError (u8TryFrom value) ("monitor flag " ++ debug (utf8 input) ++ " is outside 0..=255")

/-- The monitor of an element. -/
def parseMonitor (node : Xml) : Except String Monitor := do
  let filename ← requiredAttribute node "filename"
  let supported ← parseByte debug (← requiredAttribute node "supported")
  let name ← requiredAttribute node "name"
  let digital ← parseByte debug (← requiredAttribute node "digital")
  return { filename, supported, name, digital }

/-- `parse`. -/
def parse (r : DocumentReader) (input version : String) : Except String (List Monitor) := do
  let root ← r.parse input
  reject (tagName root ≠ "monitorlist") "expected monitorlist root element"
  let savedVersion ← requiredAttribute root "ddccontrolversion"
  reject (savedVersion ≠ version)
    ("monitor-list version " ++ debug (utf8 savedVersion) ++ " does not match " ++ debug (utf8 version))
  ((childElements root).filter fun node => tagName node = "monitor").mapM (parseMonitor debug)

/-- The encoding that `parse_bytes` chooses. -/
def chooseEncoding (input : List UInt8) : Except String e.Encoding :=
  match e.forBom input with
  | some (encoding, _) => .ok encoding
  | none =>
    if [0, 60, 0, 63].isPrefixOf input then .ok e.utf16be
    else if [60, 0, 63, 0].isPrefixOf input then .ok e.utf16le
    else (declaredEncoding e input).map fun encoding => encoding.getD e.utf8

/-- `parse_bytes`. -/
def parseBytes (r : DocumentReader) (input : List UInt8) (version : String) : Except String (List Monitor) := do
  let encoding ← chooseEncoding e input
  let (decoded, _, hadErrors) := e.decode encoding input
  reject hadErrors ("invalid " ++ e.name encoding ++ " monitor-list XML")
  -- A byte order mark decides the decoding, but hides no unsupported declaration.
  let _ ← declaredEncoding e (utf8 decoded)
  parse debug r decoded version

end Reading

/-! ### What is written -/

/-- The `monitor` element of a monitor. -/
def monitorElement (monitor : Monitor) : Element :=
  .mk "monitor" [("filename", monitor.filename), ("supported", toString (monitor.supported.toNat : ℤ)),
    ("name", monitor.name), ("digital", toString (monitor.digital.toNat : ℤ))] []

/-- The element of a list. -/
def element (monitors : List Monitor) (version : String) : Element :=
  .mk "monitorlist" [("ddccontrolversion", version)] (monitors.map monitorElement)

/-- A monitor with texts of XML characters. -/
def Legal (monitor : Monitor) : Prop := LegalText monitor.filename ∧ LegalText monitor.name

instance (monitor : Monitor) : Decidable (Legal monitor) := inferInstanceAs (Decidable (_ ∧ _))

theorem decimal_value (n : ℕ) : AttributeValue (toString (n : ℤ)) (toString (n : ℤ)) := by
  have hdigits : ∀ d < 10, isLiteral d.digitChar = true := by decide
  refine .literal (List.all_eq_true.mpr fun c hc => ?_)
  rw [toList_repr_ofNat] at hc
  obtain ⟨d, hd, rfl⟩ := exists_of_mem_toDigits (by decide) hc
  exact hdigits d hd

theorem pushAttribute_eq_ok {output input pushed : String} :
    MonitorList.pushAttribute output input = .ok pushed ↔
      Scanner.pushAttribute output input = .ok pushed := by
  unfold MonitorList.pushAttribute
  cases Scanner.pushAttribute output input <;> simp [Except.mapError]

/-- **A monitor with legal texts is written**, as its element. -/
theorem pushMonitor_ok {monitor : Monitor} (h : Legal monitor) :
    ∃ text, (∀ output, pushMonitor output monitor = .ok (output ++ text)) ∧
      Content text [monitorElement monitor] := by
  obtain ⟨filename, hwriteFilename, hfilename⟩ := pushAttribute_value (legalText_iff.mp h.1)
  obtain ⟨name, hwriteName, hname⟩ := pushAttribute_value (legalText_iff.mp h.2)
  have hpushFilename : ∀ output, MonitorList.pushAttribute output monitor.filename = .ok (output ++ filename) :=
    fun output => pushAttribute_eq_ok.mpr (hwriteFilename output)
  have hpushName : ∀ output, MonitorList.pushAttribute output monitor.name = .ok (output ++ name) :=
    fun output => pushAttribute_eq_ok.mpr (hwriteName output)
  have hattributes : Attributes _ [("filename", monitor.filename),
      ("supported", toString (monitor.supported.toNat : ℤ)), ("name", monitor.name),
      ("digital", toString (monitor.digital.toNat : ℤ))] :=
    .cons (by decide) hfilename (by simp) (.cons (by decide) (decimal_value _) (by simp)
      (.cons (by decide) hname (by simp) (.cons (by decide) (decimal_value _) (by simp) .nil)))
  have hindent : ∀ white ∈ [" ", " "], white ∈ [" ", "\t", "\n"] := by simp
  have hcontent := Content.blank hindent (.empty (by decide : IsName "monitor") hattributes (newline .nil))
  refine ⟨_, fun output => ?_, hcontent⟩
  have hopen : "  <monitor filename=\"" =
      .join [" ", " "] ++ ("<" ++ ("monitor" ++ (" " ++ ("filename" ++ "=\"")))) := rfl
  have hsupported : "\" supported=\"" = "\"" ++ (" " ++ ("supported" ++ "=\"")) := rfl
  have hnameText : "\" name=\"" = "\"" ++ (" " ++ ("name" ++ "=\"")) := rfl
  have hdigital : "\" digital=\"" = "\"" ++ (" " ++ ("digital" ++ "=\"")) := rfl
  have hclose : "\"/>\n" = "\"" ++ ("" ++ ("/>" ++ ("\n" ++ ""))) := rfl
  simp only [pushMonitor, hpushFilename, hpushName, ok_bind]
  refine congrArg Except.ok ?_
  simp only [hopen, hsupported, hnameText, hdigital, hclose]
  simp only [String.append_assoc]

/-- **The monitors of a list are written in order.** -/
theorem foldlM_pushMonitor {monitors : List Monitor} (h : ∀ monitor ∈ monitors, Legal monitor) :
    ∃ text, (∀ output, monitors.foldlM pushMonitor output = .ok (output ++ text)) ∧
      Content text (monitors.map monitorElement) := by
  induction monitors with
  | nil => exact ⟨"", fun output => congrArg Except.ok String.append_empty.symm, .nil⟩
  | cons monitor monitors ih =>
    rw [List.forall_mem_cons] at h
    obtain ⟨first, hpush, hfirst⟩ := pushMonitor_ok h.1
    obtain ⟨rest, hpushRest, hrest⟩ := ih h.2
    refine ⟨first ++ rest, fun output => ?_, hfirst.append hrest⟩
    rw [List.foldlM_cons, hpush, ok_bind, hpushRest, String.append_assoc]

/-- Only monitors with legal texts are written. -/
theorem pushMonitor_isOk {monitor : Monitor} {output pushed : String}
    (h : pushMonitor output monitor = .ok pushed) :
    Legal monitor := by
  obtain ⟨_, hfilename, h⟩ := bind_eq_ok.mp h
  obtain ⟨_, hname, -⟩ := bind_eq_ok.mp h
  exact ⟨legalText_iff.mpr (pushAttribute_isOk (pushAttribute_eq_ok.mp hfilename)),
    legalText_iff.mpr (pushAttribute_isOk (pushAttribute_eq_ok.mp hname))⟩

theorem foldlM_pushMonitor_isOk {monitors : List Monitor} {output pushed : String}
    (h : monitors.foldlM pushMonitor output = .ok pushed) :
    ∀ monitor ∈ monitors, Legal monitor := by
  induction monitors generalizing output with
  | nil => exact List.forall_mem_nil _
  | cons monitor monitors ih =>
    obtain ⟨_, hmonitor, hrest⟩ := bind_eq_ok.mp h
    exact List.forall_mem_cons.mpr ⟨pushMonitor_isOk hmonitor, ih hrest⟩

/-- **A list with legal texts is written**, as a document. -/
theorem serialize_ok {monitors : List Monitor} {version : String} (hversion : LegalText version)
    (hmonitors : ∀ monitor ∈ monitors, Legal monitor) :
    ∃ text, serialize monitors version = .ok text ∧ Document text (element monitors version) := by
  obtain ⟨written, hwrite, hvalue⟩ := pushAttribute_value (legalText_iff.mp hversion)
  have hpush : ∀ output, MonitorList.pushAttribute output version = .ok (output ++ written) :=
    fun output => pushAttribute_eq_ok.mpr (hwrite output)
  obtain ⟨inside, hpushInside, hinside⟩ := foldlM_pushMonitor hmonitors
  have hattributes : Attributes _ [("ddccontrolversion", version)] :=
    .cons (by decide) hvalue (by simp) .nil
  have hcontent :=
    newline (.element (by decide : IsName "monitorlist") hattributes (newline hinside) (newline .nil))
  refine ⟨_, ?_, _, hcontent, rfl⟩
  have hopen : "<?xml version=\"1.0\" encoding=\"UTF-8\"?>\n<monitorlist ddccontrolversion=\"" =
      "<?xml version=\"1.0\" encoding=\"UTF-8\"?>" ++
        ("\n" ++ ("<" ++ ("monitorlist" ++ (" " ++ ("ddccontrolversion" ++ "=\""))))) := rfl
  have hend : "\">\n" = "\"" ++ ("" ++ (">" ++ "\n")) := rfl
  have hclose : "</monitorlist>\n" = "</" ++ ("monitorlist" ++ (">" ++ ("\n" ++ ""))) := rfl
  rw [serialize, hpush, ok_bind, hpushInside, ok_bind]
  refine congrArg Except.ok ?_
  simp only [hopen, hend, hclose]
  simp only [String.append_assoc]

/-- **Only such a list is written.** -/
theorem serialize_isOk {monitors : List Monitor} {version text : String}
    (h : serialize monitors version = .ok text) :
    LegalText version ∧ ∀ monitor ∈ monitors, Legal monitor := by
  obtain ⟨_, hversion, h⟩ := bind_eq_ok.mp h
  obtain ⟨_, hmonitors, -⟩ := bind_eq_ok.mp h
  exact ⟨legalText_iff.mpr (pushAttribute_isOk (pushAttribute_eq_ok.mp hversion)),
    foldlM_pushMonitor_isOk hmonitors⟩

/-! ### How it is read -/

section Reads

variable {e : EncodingRs} (debug : List UInt8 → String)

theorem declaredEncoding_header (he : e.Standard) (content : String) :
    declaredEncoding e (utf8 (header ++ content)) = .ok (some e.utf8) := by
  have hhead : ((utf8 (declared ++ "?>") ++ utf8 content).head?).any isAsciiSpace = true := by
    have hdeclared : utf8 (declared ++ "?>") = 32 :: (utf8 (declared ++ "?>")).drop 1 := by decide +kernel
    rw [hdeclared]
    rfl
  have hindex : ((List.range ((utf8 declared).length + 1 - 8)).find? fun index =>
      ((utf8 declared).drop index).take 8 = utf8 "encoding" &&
        (index > 0 && ((utf8 declared)[index - 1]?).any isAsciiSpace)) = some 15 := by decide +kernel
  rw [utf8_header, declaredEncoding, dropPrefix?_append, Option.filter_some, if_pos hhead]
  simp only [splitAt_declared, orError, ok_bind, hindex]
  rw [quotedLabel_declared, ok_bind, he.label]
  rfl

/-- A written document is decoded as UTF-8. -/
theorem chooseEncoding_header (he : e.Standard) (content : String) :
    chooseEncoding e (utf8 (header ++ content)) = .ok e.utf8 := by
  have hopen : utf8 "<?xml" = [60, 63, 120, 109, 108] := by decide +kernel
  have hbig : [0, 60, 0, 63].isPrefixOf (utf8 (header ++ content)) = false := by
    rw [utf8_header, hopen]
    rfl
  have hlittle : [60, 0, 63, 0].isPrefixOf (utf8 (header ++ content)) = false := by
    rw [utf8_header, hopen]
    rfl
  rw [chooseEncoding, he.bom _ (unmarked_header content), hbig, hlittle, declaredEncoding_header he]
  rfl

theorem parseByte_decimal (b : UInt8) : parseByte debug (toString (b.toNat : ℤ)) = .ok b := by
  have hlt := b.toNat_lt
  have hsign : (((toString (b.toNat : ℤ)).toList.dropWhile isAsciiWhitespace).head? = some '-') = False := by
    rw [toList_repr_ofNat, dropWhile_toDigits, eq_iff_iff, iff_false]
    intro h
    exact absurd (isDigit_of_mem_toDigits (List.mem_of_mem_head? h)) (by decide)
  rw [parseByte, parseInteger_repr (by omega)]
  simp only [hsign, decide_false, reject, Bool.false_eq_true, if_false, ok_bind, Except.mapError]
  exact orError_eq_ok.mpr (u8TryFrom_toNat b)

/-- **A monitor is read as it was written.** -/
theorem parseMonitor_denotes {tree : Xml} {monitor : Monitor}
    (h : Denotes tree (monitorElement monitor)) :
    parseMonitor debug tree = .ok monitor := by
  have hfilename : requiredAttribute tree "filename" = .ok monitor.filename :=
    requiredAttribute_denotes h rfl
  have hsupported : requiredAttribute tree "supported" = .ok (toString (monitor.supported.toNat : ℤ)) :=
    requiredAttribute_denotes h rfl
  have hname : requiredAttribute tree "name" = .ok monitor.name := requiredAttribute_denotes h rfl
  have hdigital : requiredAttribute tree "digital" = .ok (toString (monitor.digital.toNat : ℤ)) :=
    requiredAttribute_denotes h rfl
  rw [parseMonitor, hfilename, hsupported, hname, hdigital]
  simp only [ok_bind, parseByte_decimal]
  rfl

/-- **The monitors of a document are read in order.** -/
theorem mapM_parseMonitor {trees : List Xml} {monitors : List Monitor}
    (h : DenoteAll trees (monitors.map monitorElement)) :
    (trees.filter fun node => tagName node = "monitor").mapM (parseMonitor debug) = .ok monitors := by
  induction monitors generalizing trees with
  | nil =>
    rw [List.map_nil, DenoteAll] at h
    rw [h]
    rfl
  | cons monitor monitors ih =>
    obtain ⟨tree, rest, rfl, htree, hrest⟩ := h
    rw [List.filter_cons, if_pos (decide_eq_true (tagName_denotes htree)), List.mapM_cons,
      parseMonitor_denotes debug htree, ok_bind, ih hrest]
    rfl

/-- **A saved list is read by the version that wrote it, and by no other.** -/
theorem parse_denotes {r : DocumentReader} {text : String} {monitors : List Monitor}
    {saved : String} {tree : Xml} (hread : r.parse text = .ok tree)
    (hdenotes : Denotes tree (element monitors saved)) :
    parse debug r text saved = .ok monitors ∧
      ∀ version, version ≠ saved → ∃ error, parse debug r text version = .error error := by
  have hversion : requiredAttribute tree "ddccontrolversion" = .ok saved :=
    requiredAttribute_denotes hdenotes rfl
  constructor
  · rw [parse, hread, ok_bind, tagName_denotes hdenotes]
    simp only [hversion, ok_bind, ne_eq, not_true_eq_false, decide_false, reject,
      Bool.false_eq_true, if_false]
    exact mapM_parseMonitor debug (childElements_denotes hdenotes)
  · intro version hne
    rw [parse, hread, ok_bind, tagName_denotes hdenotes]
    simp only [hversion, ok_bind, ne_eq, not_true_eq_false, decide_false, reject,
      Bool.false_eq_true, if_false, hne.symm, not_false_eq_true, decide_true, if_true]
    exact ⟨_, rfl⟩

end Reads

/-- **The cached monitor list survives, for the same version only.** What is written is
read by the same version as the list itself, and refused by every other; and writing fails
if and only if some text has a character that is no XML character. -/
theorem serialize_sameVersion {e : EncodingRs} (he : e.Standard) {r : DocumentReader}
    (debug : List UInt8 → String) (monitors : List Monitor) (version : String)
    (hr : ∀ text, serialize monitors version = .ok text → r.Reads text (element monitors version)) :
    (∀ text, serialize monitors version = .ok text →
        parseBytes e debug r (utf8 text) version = .ok monitors ∧
          ∀ other, other ≠ version → ∃ error, parseBytes e debug r (utf8 text) other = .error error) ∧
      ((∃ error, serialize monitors version = .error error) ↔
        ¬LegalText version ∨ ∃ monitor ∈ monitors, ¬LegalText monitor.filename ∨ ¬LegalText monitor.name) := by
  constructor
  · intro text h
    obtain ⟨hversion, hmonitors⟩ := serialize_isOk h
    obtain ⟨written, hwritten, hdocument⟩ := serialize_ok hversion hmonitors
    obtain rfl := Except.ok.inj (hwritten.symm.trans h)
    obtain ⟨tree, htree, hdenotes⟩ := hr _ h hdocument
    obtain ⟨content, rfl⟩ := document_header hdocument
    have hread : ∀ version, parseBytes e debug r (utf8 (header ++ content)) version =
        parse debug r (header ++ content) version := by
      intro version
      rw [parseBytes, chooseEncoding_header he, ok_bind]
      simp only [he.decode _ (unmarked_header content), reject, Bool.false_eq_true,
        if_false, ok_bind, declaredEncoding_header he]
    simp only [hread]
    exact parse_denotes debug htree hdenotes
  · constructor
    · rintro ⟨error, h⟩
      by_contra hlegal
      simp only [not_or, not_exists, not_and, not_not] at hlegal
      obtain ⟨text, htext, -⟩ := serialize_ok hlegal.1 hlegal.2
      cases htext.symm.trans h
    · intro hillegal
      cases h : serialize monitors version with
      | error error => exact ⟨error, rfl⟩
      | ok text =>
        obtain ⟨hversion, hmonitors⟩ := serialize_isOk h
        rcases hillegal with hnot | ⟨monitor, hmonitor, hnot | hnot⟩
        · exact absurd hversion hnot
        · exact absurd (hmonitors monitor hmonitor).1 hnot
        · exact absurd (hmonitors monitor hmonitor).2 hnot

/-- Two monitors of one name, and the flags at their ends. -/
def twoMonitors : List Monitor := [⟨"dev:/dev/i2c-1", 0, "A & \"B\"", 255⟩, ⟨"dev:/dev/i2c-2", 255, "A & \"B\"", 0⟩]

/-- They survive. -/
theorem twoMonitors_sameVersion : ∃ text, serialize twoMonitors "1.0.0" = .ok text ∧
    parseBytes utf8Decoder (fun _ => "") writtenReader (utf8 text) "1.0.0" = .ok twoMonitors ∧
      ∃ error, parseBytes utf8Decoder (fun _ => "") writtenReader (utf8 text) "1.0.1" = .error error := by
  obtain ⟨hload, hfails⟩ :=
    serialize_sameVersion utf8Decoder_standard (fun _ => "") twoMonitors "1.0.0"
      fun text _ => writtenReader_reads text (element twoMonitors "1.0.0")
  have hlegal : LegalText "1.0.0" ∧ ∀ monitor ∈ twoMonitors, Legal monitor := by decide
  obtain ⟨text, htext, -⟩ := serialize_ok hlegal.1 hlegal.2
  exact ⟨text, htext, (hload text htext).1, (hload text htext).2 "1.0.1" (by decide)⟩

end MonitorList

end DdcControl.Saved
