import DdcControl.Context.Elements
import DdcControl.Library.MarkupReader
import DdcControl.Scanner.Written

/-!
# Reading saved files

What user profiles and the cached monitor list share: the decoder and the parser they
are read with, and how an encoding is declared.

## The model

`EncodingRs` and `DocumentReader` are what the crates link: `encoding_rs`, and
`Document::parse`. `EncodingRs.Standard` and `DocumentReader.Reads` are what is relied on:
UTF-8 is decoded as such, and the document that was written is read as its element. The
second is asked of that one text, for the grammar of `Document` has names that are reserved.
-/

namespace DdcControl.Saved

open Context Markup Scanner

/-- `encoding_rs`. -/
structure EncodingRs where
  Encoding : Type
  utf8 : Encoding
  utf16le : Encoding
  utf16be : Encoding
  name : Encoding → String
  /-- `Encoding::for_label`. -/
  forLabel : List UInt8 → Option Encoding
  /-- `Encoding::for_bom`, with the length of the mark. -/
  forBom : List UInt8 → Option (Encoding × ℕ)
  /-- `Encoding::decode`: the text, the encoding in fact used, and whether there were errors. -/
  decode : Encoding → List UInt8 → String × Encoding × Bool

/-- A text that does not begin with a byte order mark. -/
def Unmarked (text : String) : Prop := text.toList.head? ≠ some '\ufeff'

/-- UTF-8 is known by its label, and decoded exactly. -/
structure EncodingRs.Standard (e : EncodingRs) : Prop where
  label : e.forLabel (DdcControl.utf8 "UTF-8") = some e.utf8
  bom : ∀ text, Unmarked text → e.forBom (DdcControl.utf8 text) = none
  decode : ∀ text, Unmarked text → e.decode e.utf8 (DdcControl.utf8 text) = (text, e.utf8, false)

/-- `Document::parse`: the root element. -/
structure DocumentReader where
  parse : String → Except String Xml

/-- The reader finds the element of this document, if it is one. -/
def DocumentReader.Reads (r : DocumentReader) (text : String) (root : Element) : Prop :=
  Document text root → ∃ tree, r.parse text = .ok tree ∧ Denotes tree root

/-! ### Elements -/

/-- `Node::tag_name`, without the namespace. -/
def tagName : Xml → String
  | .element tag .. => tag
  | _ => ""

/-- `Node::attribute`. -/
def nodeAttribute (tree : Xml) (name : String) : Option String :=
  match tree with
  | .element _ attributes _ _ => (attributes.find? fun attr => attr.ns.isNone && attr.name = name).map (·.value)
  | _ => none

/-- `Node::children`, the elements of them. -/
def childElements : Xml → List Xml
  | .element _ _ children _ => children.filter Xml.isElement
  | _ => []

/-- `required_attribute`. -/
def requiredAttribute (tree : Xml) (name : String) : Except String String :=
  Fallible.orError (nodeAttribute tree name) ("missing " ++ name ++ " attribute")

/-- A text of XML characters. -/
def LegalText (s : String) : Prop := ∀ c ∈ s.toList, isXmlCharacter c = true

instance (s : String) : Decidable (LegalText s) :=
  decidable_of_iff (s.toList.all isXmlCharacter = true) List.all_eq_true

theorem legalText_iff {s : String} : LegalText s ↔ ∀ c ∈ s.toList, isChar c = true := by
  simp only [LegalText, isXmlCharacter_eq]

/-! ### Bytes -/

/-- `u8::is_ascii_whitespace`. -/
def isAsciiSpace (b : UInt8) : Bool := b = 9 || b = 10 || b = 12 || b = 13 || b = 32

/-- `trim_ascii_start`. -/
def trimAsciiStart (input : List UInt8) : List UInt8 := input.dropWhile isAsciiSpace

/-- What stands before the first `mark`, and what follows it. -/
def splitAt {α : Type} [BEq α] (mark : List α) : List α → Option (List α × List α)
  | [] => none
  | x :: xs =>
    if mark.isPrefixOf (x :: xs) then some ([], (x :: xs).drop mark.length)
    else (splitAt mark xs).map fun (before, after) => (x :: before, after)

theorem splitAt_length {α : Type} [BEq α] {mark xs before after : List α}
    (h : splitAt mark xs = some (before, after)) :
    after.length ≤ xs.length ∧ 0 < xs.length := by
  induction xs generalizing before with
  | nil => cases h
  | cons x xs ih =>
    refine ⟨?_, Nat.succ_pos _⟩
    rw [splitAt] at h
    split_ifs at h
    · cases h
      simp
    · obtain ⟨⟨before', after'⟩, hrest, heq⟩ := Option.map_eq_some_iff.mp h
      cases heq
      exact (ih hrest).1.trans (Nat.le_succ _)

/-- The quoted label after the name `encoding`: what is wrong, or the label. -/
def quotedLabel (missing unquoted unclosed : String) (afterName : List UInt8) : Except String (List UInt8) :=
  match trimAsciiStart afterName with
  | 61 :: afterEquals =>
    match trimAsciiStart afterEquals with
    | quote :: rest =>
      if quote = 39 || quote = 34 then
        if rest.contains quote then .ok (rest.takeWhile (· ≠ quote)) else .error unclosed
      else .error unquoted
    | [] => .error unquoted
  | _ => .error missing

/-! ### The declaration of written documents -/

/-- The declaration of a written document. -/
def header : String := "<?xml version=\"1.0\" encoding=\"UTF-8\"?>"

/-- What stands in it. -/
def declared : String := " version=\"1.0\" encoding=\"UTF-8\""

theorem utf8_header (content : String) :
    utf8 (header ++ content) = utf8 "<?xml" ++ (utf8 (declared ++ "?>") ++ utf8 content) := by
  rw [utf8_append, ← List.append_assoc, ← utf8_append]
  rfl

theorem unmarked_header (content : String) : Unmarked (header ++ content) := by
  rw [Unmarked, String.toList_append]
  exact fun h => absurd (Option.some.inj h) (by decide)

theorem splitAt_declared (rest : List UInt8) :
    splitAt (utf8 "?>") (utf8 (declared ++ "?>") ++ rest) = some (utf8 declared, rest) := by
  have hall : utf8 (declared ++ "?>") = (declared ++ "?>").toList.map Char.toUInt8 := by decide +kernel
  have hbefore : utf8 declared = declared.toList.map Char.toUInt8 := by decide +kernel
  have hmark : utf8 "?>" = [63, 62] := by decide +kernel
  rw [hall, hbefore, hmark]
  rfl

/-- The label of the encoding is quoted behind its name, which stands at byte 15. -/
theorem quotedLabel_declared (missing unquoted unclosed : String) :
    quotedLabel missing unquoted unclosed ((utf8 declared).drop (15 + 8)) = .ok (utf8 "UTF-8") := by
  have hlabel : (utf8 declared).drop (15 + 8) = 61 :: 34 :: (utf8 "UTF-8" ++ [34]) := by decide +kernel
  have htext : utf8 "UTF-8" = [85, 84, 70, 45, 56] := by decide +kernel
  rw [hlabel, htext]
  rfl

theorem document_header {text : String} {root : Element} (h : Document text root) :
    ∃ content, text = header ++ content := by
  obtain ⟨content, -, rfl⟩ := h
  exact ⟨content, rfl⟩

/-! ### Written documents -/

section Denotes

variable {tree : Xml} {tag : String} {attributes : List (String × String)} {children : List Element}

theorem tagName_denotes (h : Denotes tree (.mk tag attributes children)) : tagName tree = tag := by
  obtain ⟨nodes, row, rfl, -⟩ := h
  rfl

theorem childElements_denotes (h : Denotes tree (.mk tag attributes children)) :
    DenoteAll (childElements tree) children := by
  obtain ⟨nodes, row, rfl, hchildren⟩ := h
  exact hchildren

/-- An attribute of a written element is the first of its name. -/
theorem requiredAttribute_denotes (h : Denotes tree (.mk tag attributes children))
    {name value : String}
    (hvalue : (attributes.find? fun attr => attr.1 = name).map Prod.snd = some value) :
    requiredAttribute tree name = .ok value := by
  obtain ⟨nodes, row, rfl, -⟩ := h
  have hfound : nodeAttribute (.element tag (attributes.map plainAttribute) nodes row) name =
      some value := by
    rw [nodeAttribute, List.find?_map, Option.map_map]
    exact hvalue
  rw [requiredAttribute, hfound]
  rfl

end Denotes

/-! ### A decoder and a reader -/

/-- A decoder of UTF-8 alone. -/
def utf8Decoder : EncodingRs where
  Encoding := Unit
  utf8 := ()
  utf16le := ()
  utf16be := ()
  name _ := "UTF-8"
  forLabel label := if label = DdcControl.utf8 "UTF-8" then some () else none
  forBom _ := none
  decode _ bytes :=
    match String.fromUTF8? ⟨bytes.toArray⟩ with
    | some text => (text, (), false)
    | none => ("", (), true)

theorem utf8Decoder_standard : utf8Decoder.Standard where
  label := by simp only [utf8Decoder, if_true]
  bom _ _ := rfl
  decode text _ := by
    have hbytes : (⟨(utf8 text).toArray⟩ : ByteArray) = text.toByteArray := by simp [utf8]
    have hvalid : text.toByteArray.IsValidUTF8 := text.isValidUTF8
    have hread : String.fromUTF8? text.toByteArray = some text := by
      rw [String.fromUTF8?, dif_pos hvalid]
      rfl
    simp only [utf8Decoder, hbytes, hread]

mutual
/-- A tree of an element. -/
def treeOf : Element → Xml
  | .mk tag attributes children => .element tag (attributes.map plainAttribute) (treesOf children) 1
/-- Trees of elements. -/
def treesOf : List Element → List Xml
  | [] => []
  | child :: children => treeOf child :: treesOf children
end

mutual
theorem denotes_treeOf : ∀ e : Element, Denotes (treeOf e) e
  | .mk _ _ children => ⟨_, 1, rfl, denoteAll_treesOf children⟩
theorem denoteAll_treesOf : ∀ children : List Element, DenoteAll ((treesOf children).filter Xml.isElement) children
  | [] => rfl
  | .mk tag attributes inside :: children =>
    ⟨_, _, rfl, denotes_treeOf (.mk tag attributes inside), denoteAll_treesOf children⟩
end

/-- A reader of written documents alone. -/
def writtenReader : DocumentReader where
  parse text := Fallible.orError ((Markup.read text).map treeOf) "not a written document"

theorem writtenReader_reads (text : String) (root : Element) : writtenReader.Reads text root := by
  intro h
  refine ⟨treeOf root, ?_, denotes_treeOf root⟩
  simp only [writtenReader, h.read]
  rfl

end DdcControl.Saved
