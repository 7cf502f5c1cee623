import DdcControl.Database.Node

/-!
# Reading XML

The element tree of an XML document, and `parse_xml`, which makes a `Node` of it.

## The model

`XmlReader` is what the program links to read a document: `decode_xml_bytes` and
`normalize_xml_document` make text of its bytes, and `Document::parse` a tree. A
document has an element at its root, and no NUL character, which XML excludes.
-/

namespace DdcControl.Context

open Fallible Database

/-- An attribute, with the namespace it is in, if any. -/
structure XmlAttribute where
  ns : Option String
  name : String
  value : String
  deriving DecidableEq, Repr

/-- A node of a document. -/
inductive Xml where
  /-- An element, by its local name and the row it starts at. -/
  | element (tag : String) (attributes : List XmlAttribute) (children : List Xml) (row : ℕ)
  | text (s : String)
  /-- A comment or a processing instruction. -/
  | other

/-- `Node::is_element`. -/
def Xml.isElement : Xml → Bool
  | .element .. => true
  | _ => false

/-- Every attribute of the tree satisfies `P`. -/
inductive Xml.All (P : XmlAttribute → Prop) : Xml → Prop
  | element {tag : String} {attributes : List XmlAttribute} {children : List Xml} {row : ℕ} :
      (∀ attr ∈ attributes, P attr) → (∀ child ∈ children, All P child) → All P (.element tag attributes children row)
  | text {s : String} : All P (.text s)
  | other : All P .other

theorem Xml.All.mono {P Q : XmlAttribute → Prop} (hPQ : ∀ attr, P attr → Q attr) {tree : Xml} (h : tree.All P) :
    tree.All Q := by
  induction h with
  | element hattrs _ ih => exact .element (fun attr hattr => hPQ attr (hattrs attr hattr)) ih
  | text => exact .text
  | other => exact .other

/-- No attribute of the tree has a NUL character. -/
abbrev Xml.NoNul : Xml → Prop := Xml.All fun attr => NulFree attr.value

/-- What reads a document. -/
structure XmlReader where
  document : List UInt8 → Except String Xml
  root_isElement : ∀ bytes tree, document bytes = .ok tree → tree.isElement = true
  noNul : ∀ bytes tree, document bytes = .ok tree → tree.NoNul

/-- The limit on an attribute's name and on its value. -/
def maxAttribute : ℕ := 1024 * 1024

/-- The loop body of `owned` for an attribute. -/
def ownedAttribute (attrs : Std.TreeMap String String) (attr : XmlAttribute) :
    Except String (Std.TreeMap String String) :=
  if attr.ns.isSome then .ok attrs
  else do
    reject ((utf8 attr.name).length > maxAttribute || (utf8 attr.value).length > maxAttribute)
      "XML database attribute length limit exceeded."
    return attrs.insert attr.name attr.value

mutual
/-- `owned`, with the elements counted so far. -/
def owned (depth : ℕ) (tree : Xml) (count : ℕ) : Except String (Node × ℕ) :=
  match tree with
  | .element tag attributes children row => do
    reject (depth > 64 || count ≥ 4000000) "XML database nesting/item limit exceeded."
    let attrs ← attributes.foldlM ownedAttribute ∅
    let (children, count) ← ownedChildren (depth + 1) children (count + 1)
    return (⟨tag, attrs, children, row, false⟩, count)
  | _ => .error "not an element"
/-- `owned` on the elements among the children of an element. -/
def ownedChildren (depth : ℕ) (children : List Xml) (count : ℕ) : Except String (List Node × ℕ) :=
  match children with
  | [] => .ok ([], count)
  | child :: children =>
    if child.isElement then do
      let (node, count) ← owned depth child count
      let (nodes, count) ← ownedChildren depth children count
      return (node :: nodes, count)
    else ownedChildren depth children count
end

/-- `parse_xml`. -/
def parseXml (x : XmlReader) (bytes : List UInt8) : Except String Node := do
  let tree ← (x.document bytes).mapError fun error => "Document not parsed successfully: " ++ error
  let (node, _) ← owned 0 tree 0
  return node

/-! ### What a document holds -/

/-- The attributes kept are attributes of the element. -/
theorem ownedAttributes_nulFree {attributes : List XmlAttribute} {attrs : Std.TreeMap String String}
    (h : attributes.foldlM ownedAttribute ∅ = .ok attrs)
    (hnul : ∀ attr ∈ attributes, NulFree attr.value) (name : String) (value : String)
    (hvalue : attrs[name]? = some value) : NulFree value := by
  refine foldlM_preserves (P := fun attrs : Std.TreeMap String String =>
    ∀ (name value : String), attrs[name]? = some value → NulFree value) ?_ (b := ∅) (by simp) h name value hvalue
  · intro attr hmem attrs attrs' hattrs hstep name value hvalue
    unfold ownedAttribute at hstep
    split_ifs at hstep
    · cases hstep
      exact hattrs name value hvalue
    · obtain ⟨-, -, hstep⟩ := bind_eq_ok.mp hstep
      cases hstep
      rw [Std.TreeMap.getElem?_insert] at hvalue
      split_ifs at hvalue
      · cases hvalue
        exact hnul attr hmem
      · exact hattrs name value hvalue

theorem ownedChildren_forall {P : Node → Prop} {children : List Xml}
    (h : ∀ child ∈ children, ∀ depth count node count', owned depth child count = .ok (node, count') → P node)
    {depth count count' : ℕ} {nodes : List Node}
    (hok : ownedChildren depth children count = .ok (nodes, count')) :
    ∀ node ∈ nodes, P node := by
  induction children generalizing count nodes with
  | nil =>
    cases hok
    exact fun _ h => nomatch h
  | cons child children ih =>
    rw [List.forall_mem_cons] at h
    rw [ownedChildren] at hok
    split_ifs at hok with helement
    · obtain ⟨⟨node, middle⟩, hnode, hok⟩ := bind_eq_ok.mp hok
      obtain ⟨⟨rest, last⟩, hrest, hok⟩ := bind_eq_ok.mp hok
      cases hok
      exact List.forall_mem_cons.mpr ⟨h.1 _ _ _ _ hnode, ih h.2 hrest⟩
    · exact ih h.2 hok

/-- A tree read from a document has no NUL character in its attributes. -/
theorem owned_nulFree {tree : Xml} (hnul : tree.NoNul) {depth count count' : ℕ} {node : Node}
    (h : owned depth tree count = .ok (node, count')) : NulFreeNode node := by
  induction hnul generalizing depth count count' node with
  | element hattributes _ ih =>
    rw [owned] at h
    obtain ⟨-, -, h⟩ := bind_eq_ok.mp h
    obtain ⟨attrs, hattrs, h⟩ := bind_eq_ok.mp h
    obtain ⟨⟨nodes, count⟩, hnodes, h⟩ := bind_eq_ok.mp h
    cases h
    exact nulFreeNode_iff.mpr ⟨ownedAttributes_nulFree hattrs hattributes,
      ownedChildren_forall (fun child hc _ _ _ _ hok => ih child hc hok) hnodes⟩
  | text => simp [owned] at h
  | other => simp [owned] at h

theorem parseXml_nulFree {x : XmlReader} {bytes : List UInt8} {node : Node}
    (h : parseXml x bytes = .ok node) :
    NulFreeNode node := by
  obtain ⟨tree, htree, h⟩ := bind_eq_ok.mp h
  obtain ⟨⟨node', count⟩, hnode, h⟩ := bind_eq_ok.mp h
  cases h
  cases hdoc : x.document bytes with
  | error e => rw [hdoc] at htree; cases htree
  | ok tree' =>
    rw [hdoc] at htree
    cases htree
    exact owned_nulFree (x.noNul bytes _ hdoc) hnode

end DdcControl.Context
