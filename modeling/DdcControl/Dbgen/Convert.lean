import DdcControl.Context.Load

/-!
# Converting the XML sources

`convert` makes the database of a directory of XML sources. An attribute that the loader
executes where it stands becomes a numbered attribute of the record, numbers as integers;
every other attribute, an unknown tag and the text around elements become source
metadata, which no consumer interprets. The result is encoded and validated.

## The model

`SourceReader` is `decode_source` and `Document::parse`, with the error texts of the
producer: where it accepts the bytes of a document, the loader reads the same tree from
them. `SourceDir` is what
reading the directory returns. The sources are read twice, and a conversion fails where
the two reads differ; here they agree.
-/

namespace DdcControl.Dbgen

open Cbor Fallible Database Wire Context

/-- What the producer reads a document with. -/
structure SourceReader (x : XmlReader) where
  document : List UInt8 → Except String Xml
  faithful : ∀ bytes tree, document bytes = .ok tree → x.document bytes = .ok tree

/-! ### Elements -/

/-- `object`. -/
def object (entries : List (UInt64 × Value)) : Value := .map (entries.map fun (key, value) => (.unsigned key, value))

/-- `Value::from` on an `i64`. -/
def ofInteger : ℤ → Value
  | .ofNat n => .unsigned (.ofNat n)
  | .negSucc n => .negative (.ofNat n)

/-- The number of a numeric attribute: a delay is decimal even with leading zeroes. -/
def sourceNumber (attr : String) (input : List Char) : Except String ℤ :=
  if attr = "delay" then orError (parseI64 input) "invalid integer or outside normative range"
  else parseInteger (String.ofList input)

/-- `source_integer`. -/
def sourceInteger (raw attr : String) : Except String Value := do
  let (low, high) ← orError ((attributeId attr).bind attributeIntegerBounds) "not a numeric source attribute"
  let number ← (sourceNumber attr (raw.toList.dropWhile isAsciiWhitespace)).mapError fun error =>
    attr ++ " outside normative range or invalid integer: " ++ error
  reject (!(low ≤ number && number ≤ high)) (attr ++ " outside normative range")
  return ofInteger number

/-- The number of an executable attribute; any other attribute has none. -/
def executableId (allowed : List ℕ) (attr : XmlAttribute) : Option ℕ :=
  (attributeId attr.name).filter fun id => attr.ns.isNone && allowed.contains id

/-- The value of an executable attribute. -/
def sourceValue (id : ℕ) (attr : XmlAttribute) : Except String Value :=
  if id = 6 ∨ id = 7 ∨ id = 8 ∨ id = 12 then sourceInteger attr.value attr.name else .ok (.text attr.value)

/-- An inert attribute's name, with its namespace. -/
def inertName (attr : XmlAttribute) : String :=
  match attr.ns with
  | some ns => "\x7b" ++ ns ++ "\x7d" ++ attr.name
  | none => attr.name

/-- The loop body of `node` for an attribute, on the executable and the inert ones. -/
def sourceAttribute (allowed : List ℕ) (found : List (Value × Value) × List (Value × Value)) (attr : XmlAttribute) :
    Except String (List (Value × Value) × List (Value × Value)) :=
  match executableId allowed attr with
  | some id => do
    let value ← sourceValue id attr
    return (found.1 ++ [(.unsigned (.ofNat id), value)], found.2)
  | none => .ok (found.1, found.2 ++ [(.text (inertName attr), .text attr.value)])

/-- `Node::text`, of a text node. -/
def textOf : Xml → Option String
  | .text s => some s
  | _ => none

/-- The text before the first element. -/
def sourceText (nodes : List Xml) : String :=
  String.join ((nodes.takeWhile fun node => !node.isElement).filterMap textOf)

/-- `!value.trim().is_empty()`. -/
def hasText (s : String) : Bool := !s.toList.all isWhitespace

/-- The source metadata of an element: inert attributes, an unknown tag, the texts at its
head and its tail. -/
def metadata (tag : String) (kind : ℕ) (inert : List (Value × Value)) (head tail : String) : List (UInt64 × Value) :=
  let found : List (UInt64 × Value) :=
    (if inert.isEmpty then [] else [(0, .map inert)]) ++ (if kind = 255 then [(1, .text tag)] else []) ++
      (if hasText head then [(2, .text head)] else []) ++ (if hasText tail then [(3, .text tail)] else [])
  if found.isEmpty || found.any fun entry => entry.1 = 0 then found else found ++ [(0, .map [])]

/-- The record of an element. -/
def sourceRecord (kind : ℕ) (attrs : List (Value × Value)) (children : List Value)
    (metadata : List (UInt64 × Value)) : Value :=
  object ([(0, .unsigned (.ofNat kind)), (1, .map attrs), (2, .array children)] ++
    if metadata.isEmpty then []
    else [(3, .array [object [(0, .text sourceMetadata), (1, .bool false), (2, object metadata)]])])

mutual
/-- `node` of `parse_xml`; `after` are the siblings that follow. -/
def sourceNode (tree : Xml) (after : List Xml) (parent : String) (options ancestor : Bool) (depth : ℕ) :
    Except String Value :=
  match tree with
  | .element tag attributes children _ => do
    reject (depth > maxDepth) "XML element nesting exceeds conversion resource bound"
    let active := executablePath tag parent options ancestor
    let allowed := if active then executableAttributes tag parent options else []
    let (attrs, inert) ← attributes.foldlM (sourceAttribute allowed) ([], [])
    let kind := (kindId tag).getD 255
    let records ← sourceChildren children tag options active (depth + 1)
    return sourceRecord kind attrs records (metadata tag kind inert (sourceText children) (sourceText after))
  | _ => .error "not an element"
/-- `node` on the elements among the children of an element. -/
def sourceChildren (children : List Xml) (parent : String) (options ancestor : Bool) (depth : ℕ) :
    Except String (List Value) :=
  match children with
  | [] => .ok []
  | child :: after =>
    if child.isElement then do
      let record ← sourceNode child after parent options ancestor depth
      let records ← sourceChildren after parent options ancestor depth
      return record :: records
    else sourceChildren after parent options ancestor depth
end

/-- `Node::tag_name`. -/
def tagOf : Xml → Option String
  | .element tag .. => some tag
  | _ => none

/-- `parse_xml` of the producer. -/
def parseSource {x : XmlReader} (s : SourceReader x) (bytes : List UInt8) (expected : String) : Except String Value := do
  let tree ← s.document bytes
  reject (tagOf tree ≠ some expected) ("expected XML root " ++ expected)
  sourceNode tree [] "" (expected = "options") true 0

/-! ### Directories -/

/-- A profile of a source directory: the stem of its file name, if that is text, and what
reading it returns. -/
structure SourceFile where
  stem : Option String
  contents : Except String (List UInt8)

/-- What reading a source directory returns: `options.xml`, and its profiles. -/
structure SourceDir where
  options : Except String (List UInt8)
  profiles : Except String (List SourceFile)

/-- A set of source files by their manifest paths. -/
abbrev SourceFiles := Std.TreeMap String (List UInt8)

/-- The manifest path of a profile. -/
def manifestPath (id : String) : String := "monitor/" ++ id ++ ".xml"

/-- The loop body of `sources` for a profile, on the bytes read and the files so far. -/
def addSource (state : ℕ × SourceFiles) (file : SourceFile) : Except String (ℕ × SourceFiles) := do
  let id ← orError file.stem "source filename is not UTF-8"
  reject (!profileId id) ("unsafe profile identifier: " ++ id)
  let bytes ← file.contents
  let total := state.1 + bytes.length
  reject (total > maxFile) "XML source snapshot exceeds 256 MiB conversion resource limit"
  return (total, state.2.insert (manifestPath id) bytes)

/-- `sources`. -/
def sources (dir : SourceDir) : Except String SourceFiles := do
  let profiles ← dir.profiles
  reject (profiles.length + 1 < 2 || profiles.length + 1 > maxProfiles + 1) "profile count outside bounds"
  let options ← dir.options
  reject (options.length > maxFile) "XML source snapshot exceeds 256 MiB conversion resource limit"
  let (_, files) ← profiles.foldlM addSource (options.length, .ofList [("options.xml", options)])
  return files

/-- The loop body of `convert` for a source. -/
def convertProfile {x : XmlReader} (s : SourceReader x) (profiles : List (Value × Value))
    (source : String × List UInt8) : Except String (List (Value × Value)) :=
  if source.1 = "options.xml" then .ok profiles
  else do
    let id ← orError (stripEnds "monitor/" ".xml" source.1) "called `Option::unwrap()` on a `None` value"
    let record ← (parseSource s source.2 "monitor").mapError fun error => source.1 ++ ": " ++ error
    return profiles ++ [(.text id, record)]

/-- The source manifest. -/
def sourceManifest (sha : Sha256) (files : SourceFiles) : Value :=
  .map (files.toList.map fun (path, bytes) => (.text path, .bytes (sha.digest bytes)))

/-- The database revision: the one asked for, else the date of the options. -/
def databaseRevision (revision : Option String) (options : Value) : Option String :=
  (revision.or ((optional options 1).bind fun attrs => (optional attrs 13).bind asText)).filter fun r => !r.isEmpty

/-- The database of a revision, its options, profiles and sources. -/
def database (revision : String) (options : Value) (profiles : List (Value × Value)) (manifest : Value)
    (snapshot : List UInt8) : Value :=
  object [(0, .bytes (utf8 "DDCDB")), (1, .unsigned 1), (2, .text revision), (3, .unsigned 3), (4, .text "ddccontrol-db"),
    (5, options), (6, .map profiles), (8, manifest), (9, .bytes snapshot)]

/-- `convert`. -/
def convert (c : Ciborium) (sha : Sha256) {x : XmlReader} (s : SourceReader x) (dir : SourceDir)
    (revision : Option String) : Except String Value := do
  let files ← sources dir
  let source ← orError files["options.xml"]? "no entry found for key"
  let options ← (parseSource s source "options").mapError fun error => "options.xml: " ++ error
  let revision ← orError (databaseRevision revision options) "database revision is required"
  let profiles ← files.toList.foldlM (convertProfile s) []
  let manifest := sourceManifest sha files
  let snapshot ← manifestDigest c sha manifest
  let wire ← encode c (database revision options profiles manifest snapshot)
  validate c sha wire

end DdcControl.Dbgen
