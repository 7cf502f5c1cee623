import Mathlib.Algebra.GroupWithZero.Nat
import Mathlib.Data.List.Basic

/-!
# Written markup

The part of XML 1.0 that programs write when they write a document piece by piece:
elements with quoted attributes, comments, and white space between them. `Content`
is its grammar. It relates a text to the elements written in it, each with the values
that its attributes denote; comments and white space leave no element.

Every text the grammar derives is well-formed XML, with the production of the
standard that each constructor instantiates named beside it. The converse is not
intended: the grammar has no character data, no processing instructions, and only
the references a writer needs.
-/

namespace DdcControl.Markup

/-- An element: its tag, its attributes in order, and the elements inside it. -/
inductive Element where
  | mk (tag : String) (attributes : List (String × String)) (children : List Element)

/-- Induction over elements. -/
@[elab_as_elim]
theorem Element.induction {motive : Element → Prop}
    (mk : ∀ tag attributes children, (∀ child ∈ children, motive child) → motive (.mk tag attributes children))
    (e : Element) : motive e :=
  Element.rec (motive_2 := fun children => ∀ child ∈ children, motive child) mk
    (fun _ h => nomatch h) (fun _ _ h hs => List.forall_mem_cons.mpr ⟨h, hs⟩) e

mutual
/-- How many elements there are in an element, itself included. -/
def Element.size : Element → ℕ
  | .mk _ _ children => 1 + sizeAll children
/-- How many elements there are in elements. -/
def sizeAll : List Element → ℕ
  | [] => 0
  | child :: children => child.size + sizeAll children
end

mutual
/-- How deep an element goes. -/
def Element.height : Element → ℕ
  | .mk _ _ children => 1 + heightAll children
/-- How deep the deepest of some elements goes. -/
def heightAll : List Element → ℕ
  | [] => 0
  | child :: children => max child.height (heightAll children)
end

/-- Every attribute in the element satisfies `P`. -/
inductive Element.All (P : String × String → Prop) : Element → Prop
  | mk {tag : String} {attributes : List (String × String)} {children : List Element} :
      (∀ attr ∈ attributes, P attr) → (∀ child ∈ children, All P child) → All P (.mk tag attributes children)

theorem Element.all_mk {P : String × String → Prop} {tag : String}
    {attributes : List (String × String)} {children : List Element} :
    Element.All P (.mk tag attributes children) ↔ (∀ attr ∈ attributes, P attr) ∧
    ∀ child ∈ children, child.All P :=
  ⟨fun h => by cases h with | mk hattributes hchildren => exact ⟨hattributes, hchildren⟩,
    fun h => .mk h.1 h.2⟩

theorem sizeAll_eq (elements : List Element) :
    sizeAll elements = (elements.map Element.size).sum := by
  induction elements with
  | nil => rfl
  | cons e elements ih => rw [sizeAll, List.map_cons, List.sum_cons, ih]

theorem heightAll_le {elements : List Element} {n : ℕ} (h : ∀ e ∈ elements, e.height ≤ n) :
    heightAll elements ≤ n := by
  induction elements with
  | nil => exact Nat.zero_le n
  | cons e elements ih =>
    rw [List.forall_mem_cons] at h
    exact Nat.max_le.mpr ⟨h.1, ih h.2⟩

/-! ### The grammar -/

/-- `Char` of XML 1.0. -/
def isChar (c : Char) : Bool :=
  c = '\t' || c = '\n' || c = '\r' || (0x20 ≤ c.toNat && c.toNat ≤ 0xd7ff) ||
    (0xe000 ≤ c.toNat && c.toNat ≤ 0xfffd) || 0x10000 ≤ c.toNat

/-- A `Name` of ASCII letters. -/
def IsName (name : String) : Prop := name ≠ "" ∧ name.toList.all Char.isAlpha = true

instance (name : String) : Decidable (IsName name) := inferInstanceAs (Decidable (_ ∧ _))

/-- The predefined entities, and the references to the characters that attribute
normalization would turn into spaces. -/
def references : List (String × Char) :=
  [("&amp;", '&'), ("&lt;", '<'), ("&gt;", '>'), ("&quot;", '"'), ("&apos;", '\''),
    ("&#x9;", '\t'), ("&#xA;", '\n'), ("&#xD;", '\r')]

/-- A character that stands for itself in an attribute value. -/
def isLiteral (c : Char) : Bool := isChar c && !(['&', '<', '"', '\t', '\n', '\r'].contains c)

/-- `AttValue` between double quotes: a text, and the value it denotes. -/
inductive AttributeValue : String → String → Prop
  | nil : AttributeValue "" ""
  /-- A character that stands for itself. -/
  | char {c : Char} {text value : String} : isLiteral c = true → AttributeValue text value →
      AttributeValue (String.singleton c ++ text) (String.singleton c ++ value)
  /-- A reference. -/
  | reference {name : String} {c : Char} {text value : String} : (name, c) ∈ references →
      AttributeValue text value → AttributeValue (name ++ text) (String.singleton c ++ value)

/-- The inside of a `Comment`: no two dashes in a row, and none at the end. -/
inductive CommentText : String → Prop
  | nil : CommentText ""
  | char {c : Char} {text : String} : isChar c = true → c ≠ '-' → CommentText text → CommentText (String.singleton c ++ text)
  | dash {c : Char} {text : String} : isChar c = true → c ≠ '-' → CommentText text →
      CommentText ("-" ++ String.singleton c ++ text)

/-- The attributes of a tag, each after a space. -/
inductive Attributes : String → List (String × String) → Prop
  | nil : Attributes "" []
  | cons {name raw value text : String} {attributes : List (String × String)} : IsName name →
      AttributeValue raw value → name ∉ attributes.map Prod.fst → Attributes text attributes →
      Attributes (" " ++ name ++ "=\"" ++ raw ++ "\"" ++ text) ((name, value) :: attributes)

/-- `content`, without character data but white space. -/
inductive Content : String → List Element → Prop
  | nil : Content "" []
  /-- White space. -/
  | space {white text : String} {elements : List Element} : white ∈ [" ", "\t", "\n"] →
      Content text elements → Content (white ++ text) elements
  /-- `Comment`. -/
  | comment {inside text : String} {elements : List Element} : CommentText inside →
      Content text elements → Content ("<!--" ++ inside ++ "-->" ++ text) elements
  /-- `EmptyElemTag`. -/
  | empty {tag inside text : String} {attributes : List (String × String)} {elements : List Element} : IsName tag →
      Attributes inside attributes → Content text elements →
      Content ("<" ++ tag ++ inside ++ "/>" ++ text) (.mk tag attributes [] :: elements)
  /-- `STag content ETag`. -/
  | element {tag inside content text : String} {attributes : List (String × String)}
      {children elements : List Element} : IsName tag → Attributes inside attributes → Content content children →
      Content text elements →
      Content ("<" ++ tag ++ inside ++ ">" ++ content ++ "</" ++ tag ++ ">" ++ text)
        (.mk tag attributes children :: elements)

/-- `document`: an `XMLDecl`, then one element among comments and white space. -/
def Document (text : String) (root : Element) : Prop :=
  ∃ content, Content content [root] ∧ text = "<?xml version=\"1.0\" encoding=\"UTF-8\"?>" ++ content

/-! ### Putting texts together -/

theorem Content.append {text text' : String} {elements elements' : List Element}
    (h : Content text elements) (h' : Content text' elements') :
    Content (text ++ text') (elements ++ elements') := by
  induction h with
  | nil => rwa [String.empty_append, List.nil_append]
  | space hwhite _ ih =>
    rw [String.append_assoc]
    exact .space hwhite ih
  | comment hinside _ ih =>
    rw [String.append_assoc]
    exact .comment hinside ih
  | empty htag hattributes _ ih =>
    rw [String.append_assoc, List.cons_append]
    exact .empty htag hattributes ih
  | element htag hattributes hcontent _ _ ih =>
    rw [String.append_assoc, List.cons_append]
    exact .element htag hattributes hcontent ih

/-- White space before some content. -/
theorem Content.blank {whites : List String} {text : String} {elements : List Element}
    (hwhites : ∀ white ∈ whites, white ∈ [" ", "\t", "\n"]) (h : Content text elements) :
    Content (String.join whites ++ text) elements := by
  induction whites with
  | nil => rwa [String.join_nil, String.empty_append]
  | cons white whites ih =>
    rw [List.forall_mem_cons] at hwhites
    rw [String.join_cons, String.append_assoc]
    exact .space hwhites.1 (ih hwhites.2)

/-- The contents that a list of pieces writes one after the other. -/
theorem Content.join {α : Type*} {write : α → String} {elements : α → List Element}
    {pieces : List α} (h : ∀ piece ∈ pieces, Content (write piece) (elements piece)) :
    Content (String.join (pieces.map write)) (pieces.flatMap elements) := by
  induction pieces with
  | nil => exact .nil
  | cons piece pieces ih =>
    rw [List.forall_mem_cons] at h
    rw [List.map_cons, String.join_cons, List.flatMap_cons]
    exact h.1.append (ih h.2)

/-- A text of characters that stand for themselves. -/
theorem AttributeValue.literal {text : String} (h : text.toList.all isLiteral = true) :
    AttributeValue text text := by
  have hlist : ∀ chars : List Char, chars.all isLiteral = true →
      AttributeValue (.ofList chars) (.ofList chars) := by
    intro chars hchars
    induction chars with
    | nil => exact .nil
    | cons c chars ih =>
      rw [List.all_cons, Bool.and_eq_true] at hchars
      have := AttributeValue.char hchars.1 (ih hchars.2)
      rwa [← String.ofList_cons] at this
  have := hlist text.toList h
  rwa [String.ofList_toList] at this

/-! ### Characters -/

/-- Every character of a text is an XML character. -/
def Characters (text : String) : Prop := ∀ c ∈ text.toList, isChar c = true

instance (text : String) : Decidable (Characters text) :=
  decidable_of_iff (text.toList.all isChar = true) List.all_eq_true

theorem Characters.append {text text' : String} (h : Characters text) (h' : Characters text') :
    Characters (text ++ text') := by
  intro c hc
  rw [String.toList_append] at hc
  exact (List.mem_append.mp hc).elim (h c) (h' c)

theorem Characters.singleton {c : Char} (h : isChar c = true) :
    Characters (String.singleton c) := by
  intro d hd
  rw [String.toList_singleton, List.mem_singleton] at hd
  exact hd ▸ h

theorem characters_empty : Characters "" := List.forall_mem_nil _

theorem IsName.characters {name : String} (h : IsName name) : Characters name := by
  intro c hc
  have hcase : c.isUpper = true ∨ c.isLower = true :=
    (Bool.or_eq_true ..).mp (List.all_eq_true.mp h.2 c hc)
  have hupper : c.isUpper = true → 65 ≤ c.toNat ∧ c.toNat ≤ 90 := fun h =>
    (of_decide_eq_true h : c.val ≥ 'A'.val ∧ c.val ≤ 'Z'.val)
  have hlower : c.isLower = true → 97 ≤ c.toNat ∧ c.toNat ≤ 122 := fun h =>
    ((Bool.and_eq_true ..).mp h).imp of_decide_eq_true of_decide_eq_true
  have hletter := hcase.imp hupper hlower
  simp only [isChar, Bool.or_eq_true, Bool.and_eq_true, decide_eq_true_eq]
  omega

theorem AttributeValue.characters {raw value : String} (h : AttributeValue raw value) :
    Characters raw := by
  have hreferences : ∀ reference ∈ references, Characters reference.1 := by decide
  induction h with
  | nil => exact characters_empty
  | char hc _ ih => exact (Characters.singleton ((Bool.and_eq_true ..).mp hc).1).append ih
  | reference hname _ ih => exact (hreferences _ hname).append ih

theorem CommentText.characters {text : String} (h : CommentText text) : Characters text := by
  induction h with
  | nil => exact characters_empty
  | char hc _ _ ih => exact (Characters.singleton hc).append ih
  | dash hc _ _ ih => exact (Characters.append (by decide) (Characters.singleton hc)).append ih

theorem Attributes.characters {text : String} {attributes : List (String × String)}
    (h : Attributes text attributes) :
    Characters text := by
  have hspace : Characters " " := by decide
  have hequals : Characters "=\"" := by decide
  have hquote : Characters "\"" := by decide
  induction h with
  | nil => exact characters_empty
  | cons hname hvalue _ _ ih =>
    exact ((((hspace.append hname.characters).append hequals).append hvalue.characters).append hquote).append ih

/-- **Some content is made of XML characters.** -/
theorem Content.characters {text : String} {elements : List Element} (h : Content text elements) :
    Characters text := by
  have hmarkup : ∀ markup ∈ [" ", "\t", "\n", "<!--", "-->", "<", "/>", ">", "</"],
      Characters markup := by decide
  induction h with
  | nil => exact characters_empty
  | space hwhite _ ih => exact (hmarkup _ (List.mem_append_left _ hwhite)).append ih
  | comment hinside _ ih =>
    exact (((hmarkup "<!--" (by simp)).append hinside.characters).append (hmarkup "-->" (by simp))).append ih
  | empty htag hattributes _ ih =>
    exact ((((hmarkup "<" (by simp)).append htag.characters).append hattributes.characters).append
      (hmarkup "/>" (by simp))).append ih
  | element htag hattributes _ _ ihc ih =>
    have hopen := ((hmarkup "<" (by simp)).append htag.characters).append hattributes.characters
    have hclose := ((hmarkup "</" (by simp)).append htag.characters).append (hmarkup ">" (by simp))
    have := (((hopen.append (hmarkup ">" (by simp))).append ihc).append hclose).append ih
    simpa only [String.append_assoc] using this

end DdcControl.Markup
