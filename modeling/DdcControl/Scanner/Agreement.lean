import DdcControl.Context.Load
import DdcControl.Dbgen.Records
import DdcControl.Scanner.Loading

/-!
# One vocabulary, two readers

`options.xml` is read twice: the loader makes nodes of the document, within its limits, and
`load_options_node` reads these, with a check for required semantics that no XML can have;
the scanner's `options::parse` reads the document as it is.

## The model

`Xml.UniqueAttributes` is what XML asks of the attributes of an element. `OwnedBy` relates a
node of the loader to the element it was made of.

## What is proved

* `readers_agree` — where the loader gets its nodes, the two read the same vocabulary, or
  fail alike; so the loader's context has the vocabulary that the scanner goes by.
-/

namespace DdcControl.Context

open Database Fallible

/-- No element has two attributes of one name, outside namespaces. -/
inductive Xml.UniqueAttributes : Xml → Prop
  | element {tag : String} {attributes : List XmlAttribute} {children : List Xml} {row : ℕ} :
      ((attributes.filter fun attr => attr.ns.isNone).map XmlAttribute.name).Nodup →
        (∀ child ∈ children, UniqueAttributes child) → UniqueAttributes (.element tag attributes children row)
  | text {s : String} : UniqueAttributes (.text s)
  | other : UniqueAttributes .other

/-- A node is made of an element. -/
structure OwnedBy (tree : Xml) (node : Node) : Prop where
  unique : tree.UniqueAttributes
  made : ∃ depth count count', owned depth tree count = .ok (node, count')

/-- What the loader makes of an element has no required semantics. -/
theorem owned_unmarked {tree : Xml} (hnul : tree.NoNul) {depth count count' : ℕ} {node : Node}
    (h : owned depth tree count = .ok (node, count')) : node.hasRequired = false := by
  induction hnul generalizing depth count count' node with
  | element _ _ ih =>
    rw [owned] at h
    obtain ⟨-, -, h⟩ := bind_eq_ok.mp h
    obtain ⟨attrs, -, h⟩ := bind_eq_ok.mp h
    obtain ⟨⟨nodes, count⟩, hnodes, h⟩ := bind_eq_ok.mp h
    cases h
    have hall : ∀ node ∈ nodes, node.hasRequired = false :=
      ownedChildren_forall (fun child hc _ _ _ _ hok => ih child hc hok) hnodes
    rw [Node.hasRequired_eq, Bool.false_or]
    exact List.any_eq_false.mpr fun node hmem => by simp [hall node hmem]
  | text => cases h
  | other => cases h

/-- The first attribute of a name is the only one. -/
theorem find?_unique {attributes : List XmlAttribute} {attr : XmlAttribute}
    (hunique : ((attributes.filter fun attr => attr.ns.isNone).map XmlAttribute.name).Nodup)
    (hmem : attr ∈ attributes) (hns : attr.ns = none) :
    (attributes.find? fun other => other.ns.isNone && other.name = attr.name) = some attr := by
  cases hfind : attributes.find? fun other => other.ns.isNone && other.name = attr.name with
  | none =>
    have hnot := List.find?_eq_none.mp hfind attr hmem
    simp [hns] at hnot
  | some other =>
    have hother := List.find?_some hfind
    simp only [Bool.and_eq_true, decide_eq_true_eq] at hother
    refine congrArg some (List.inj_on_of_nodup_map hunique ?_ ?_ hother.2)
    · exact List.mem_filter.mpr ⟨List.mem_of_find?_eq_some hfind, hother.1⟩
    · exact List.mem_filter.mpr ⟨hmem, by rw [hns]; rfl⟩

/-- The loader keeps the attributes outside namespaces. -/
theorem ownedAttributes_attribute {tag : String} {attributes : List XmlAttribute}
    {children : List Xml} {row : ℕ} {attrs : Std.TreeMap String String}
    (h : attributes.foldlM ownedAttribute ∅ = .ok attrs)
    (hunique : ((attributes.filter fun attr => attr.ns.isNone).map XmlAttribute.name).Nodup)
    (name : String) :
    attrs[name]? = (Xml.element tag attributes children row).attribute name := by
  obtain ⟨hfrom, hto⟩ := Dbgen.ownedAttributes_ok h
  rw [Xml.attribute]
  cases hvalue : attrs[name]? with
  | some value =>
    obtain ⟨attr, hmem, hns, rfl, rfl⟩ := hfrom name value hvalue
    rw [find?_unique hunique hmem hns]
    rfl
  | none =>
    have hnone : (attributes.find? fun attr => attr.ns.isNone && attr.name = name) = none := by
      refine List.find?_eq_none.mpr fun attr hmem hattr => ?_
      simp only [Bool.and_eq_true, Option.isNone_iff_eq_none, decide_eq_true_eq] at hattr
      obtain ⟨value, hfound⟩ := hto attr hmem hattr.1
      rw [hattr.2, hvalue] at hfound
      cases hfound
    rw [hnone]
    rfl

/-- A node has the tag of its element. -/
theorem OwnedBy.tag {tree : Xml} {node : Node} (h : OwnedBy tree node) :
    node.tag = tree.tagName := by
  obtain ⟨-, depth, count, count', hmade⟩ := h
  cases tree with
  | text => cases hmade
  | other => cases hmade
  | element tag attributes children row =>
    rw [owned] at hmade
    obtain ⟨-, -, hmade⟩ := bind_eq_ok.mp hmade
    obtain ⟨attrs, -, hmade⟩ := bind_eq_ok.mp hmade
    obtain ⟨⟨nodes, last⟩, -, hmade⟩ := bind_eq_ok.mp hmade
    cases hmade
    rfl

section OwnedBy

variable {tree : Xml} {node : Node} (h : OwnedBy tree node)
include h

/-- The attributes and the row of a node are its element's, and its children are made of the
elements among the element's. -/
theorem OwnedBy.parts : (∀ name, node.attr name = tree.attribute name) ∧
    (∀ message, nodeError node message = tree.error message) ∧
    ∀ tag, List.Forall₂ OwnedBy (tree.childrenTagged tag) (node.childrenTagged tag) := by
  obtain ⟨hunique, depth, count, count', hmade⟩ := h
  cases hunique with
  | text => cases hmade
  | other => cases hmade
  | @element tag attributes children row hattributes hchildren =>
    rw [owned] at hmade
    obtain ⟨-, -, hmade⟩ := bind_eq_ok.mp hmade
    obtain ⟨attrs, hattrs, hmade⟩ := bind_eq_ok.mp hmade
    obtain ⟨⟨nodes, last⟩, hnodes, hmade⟩ := bind_eq_ok.mp hmade
    cases hmade
    refine ⟨ownedAttributes_attribute hattrs hattributes, fun _ => rfl, fun name => ?_⟩
    have hrows := Dbgen.ownedChildren_forall₂ hnodes
    have hmade : List.Forall₂ OwnedBy (children.filter Xml.isElement) nodes := by
      rw [List.forall₂_iff_zip] at hrows ⊢
      refine ⟨hrows.1, fun {child node} hmem => ⟨hchildren child ?_, _, hrows.2 hmem⟩⟩
      exact List.mem_of_mem_filter (List.of_mem_zip hmem).1
    have hsplit : (Xml.element tag attributes children row).childrenTagged name =
        (children.filter Xml.isElement).filter fun child => child.tagName = name := by
      rw [List.filter_filter, Xml.childrenTagged]
      exact List.filter_congr fun child _ => Bool.and_comm ..
    rw [hsplit]
    exact List.rel_filter (fun child node hchild => by simp only [hchild.tag]) hmade

theorem OwnedBy.requiredAttr (name : String) :
    Database.requiredAttr node name = tree.requiredAttr name := by
  rw [Database.requiredAttr, Xml.requiredAttr, h.parts.1, h.parts.2.1]

end OwnedBy

end DdcControl.Context

namespace DdcControl.Scanner

open Context Database Fallible

/-- The same loop over related items. -/
theorem mapM_congr {α β γ ε : Type} {f : α → Except ε γ} {g : β → Except ε γ}
    {l : List α} {l' : List β} (h : List.Forall₂ (fun a b => g b = f a) l l') :
    l'.mapM g = l.mapM f := by
  induction h with
  | nil => rfl
  | cons hab _ ih => rw [List.mapM_cons, List.mapM_cons, hab, ih]

section Readers

variable {tree : Xml} {node : Node} (h : OwnedBy tree node) (hunmarked : node.hasRequired = false)

include h in
theorem loadOptionValue_eq : loadOptionValue node = parseValue tree := by
  simp only [loadOptionValue, parseValue, h.requiredAttr, h.parts.1]

include h in
theorem loadRefresh_eq : loadRefresh node = parseRefresh tree := by
  rw [loadRefresh, parseRefresh, h.parts.1]
  cases tree.attribute "refresh" with
  | none => rfl
  | some refresh => simp only [h.parts.2.1]

include h in
theorem loadControlType_eq : loadControlType node = parseControlType tree := by
  simp only [loadControlType, parseControlType, h.requiredAttr, h.parts.2.1]

include hunmarked

/-- Nothing below a node without required semantics is marked. -/
theorem children_unmarked (tag : String) :
    ∀ child ∈ node.childrenTagged tag, child.hasRequired = false := by
  intro child hchild
  rw [← Bool.not_eq_true]
  intro hmarked
  exact Bool.false_ne_true (hunmarked.symm.trans (Node.hasRequired_of_mem (List.mem_of_mem_filter hchild) hmarked))

include h

/-- A loop over the children, which are made of elements and not marked. -/
theorem children_eq {γ : Type} {load : Node → Except String γ} {read : Xml → Except String γ}
    (hread : ∀ {tree node}, OwnedBy tree node → node.hasRequired = false → load node = read tree)
    (tag : String) :
    (node.childrenTagged tag).mapM load = (tree.childrenTagged tag).mapM read := by
  have hchildren := h.parts.2.2 tag
  have hall := children_unmarked hunmarked tag
  refine mapM_congr ?_
  rw [List.forall₂_iff_zip] at hchildren ⊢
  exact ⟨hchildren.1, fun hmem => hread (hchildren.2 hmem) (hall _ (List.of_mem_zip hmem).2)⟩

theorem loadOptionControl_eq : loadOptionControl node = parseControl tree := by
  have hvalues := children_eq h hunmarked (fun h _ => loadOptionValue_eq h) "value"
  simp only [loadOptionControl, hunmarked, Bool.false_eq_true, if_false, parseControl,
    loadRefresh_eq h, loadControlType_eq h, h.requiredAttr, h.parts.1, hvalues]

theorem loadOptionSubgroup_eq : loadOptionSubgroup node = parseSubgroup tree := by
  have hcontrols := children_eq h hunmarked loadOptionControl_eq "control"
  have houtside : node.requiredOutside "control" = false :=
    Dbgen.requiredOutside_eq_false hunmarked _
  simp only [loadOptionSubgroup, parseSubgroup, houtside, h.requiredAttr, h.parts.1, hcontrols]
  rfl

theorem loadOptionGroup_eq : loadOptionGroup node = parseGroup tree := by
  have hsubgroups := children_eq h hunmarked loadOptionSubgroup_eq "subgroup"
  have houtside : node.requiredOutside "subgroup" = false :=
    Dbgen.requiredOutside_eq_false hunmarked _
  simp only [loadOptionGroup, parseGroup, houtside, h.requiredAttr, hsubgroups]
  rfl

/-- **The readers of a vocabulary agree on an element and its node.** -/
theorem loadOptionsNode_eq : loadOptionsNode node = parseRoot tree := by
  have hgroups := children_eq h hunmarked loadOptionGroup_eq "group"
  have houtside : node.requiredOutside "group" = false := Dbgen.requiredOutside_eq_false hunmarked _
  have hversion : checkDbVersion node = parseVersion tree := by
    simp only [checkDbVersion, parseVersion, h.parts.1]
  simp only [loadOptionsNode, parseRoot, houtside, h.tag, hversion, hgroups]
  rfl

end Readers

/-- **The two readers of `options.xml` agree.** Where the loader makes a node of the document,
it reads from the node what the scanner reads from the document, a vocabulary or an error. So
every context that was loaded from XML sources has the vocabulary that the scanner has. -/
theorem readers_agree {x : XmlReader} {file : List UInt8}
    (hunique : ∀ tree, x.document file = .ok tree → tree.UniqueAttributes) :
    (∀ node, parseXml x file = .ok node → loadOptionsNode node = parse x file) ∧
      ∀ (files : Std.TreeMap String (List UInt8)) (context : DbContext), files["options.xml"]? = some file →
        xmlContext x files = .ok context → parse x file = .ok context.options := by
  have hread : ∀ node, parseXml x file = .ok node → loadOptionsNode node = parse x file := by
    intro node hnode
    obtain ⟨tree, htree, hnode⟩ := bind_eq_ok.mp hnode
    obtain ⟨⟨made, count⟩, hmade, hnode⟩ := bind_eq_ok.mp hnode
    cases hnode
    cases hdocument : x.document file with
    | error e => rw [hdocument] at htree; cases htree
    | ok root =>
      rw [hdocument] at htree
      cases htree
      rw [parse, hdocument]
      exact loadOptionsNode_eq ⟨hunique _ hdocument, 0, 0, count,
        hmade⟩ (owned_unmarked (x.noNul _ _ hdocument) hmade)
  refine ⟨hread, fun files context hfile hcontext => ?_⟩
  obtain ⟨source, hsource, hcontext⟩ := bind_eq_ok.mp hcontext
  obtain ⟨root, hroot, hcontext⟩ := bind_eq_ok.mp hcontext
  obtain ⟨options, hoptions, hcontext⟩ := bind_eq_ok.mp hcontext
  cases hcontext
  obtain rfl : file = source := Option.some.inj (hfile.symm.trans (orError_eq_ok.mp hsource))
  rw [← hread root hroot]
  exact hoptions

/-- The vocabulary of one input, as the loader reads it. -/
theorem inputVocabulary_agrees :
    ∃ node, parseXml (inputReader true) (utf8 (inputText true)) = .ok node ∧
      loadOptionsNode node = .ok (inputVocabulary true) := by
  have hunique : ∀ tree, (inputReader true).document (utf8 (inputText true)) = .ok tree →
      tree.UniqueAttributes := by
    intro tree htree
    rw [inputReader_document, inputDocument_options] at htree
    cases htree
    refine .element (by decide +kernel) (List.forall_mem_singleton.mpr (.element (by decide +kernel) ?_))
    refine List.forall_mem_singleton.mpr (.element (by decide +kernel) (List.forall_mem_singleton.mpr ?_))
    refine .element (by decide +kernel) ?_
    exact List.forall_mem_singleton.mpr (.element (by decide +kernel) (List.forall_mem_nil _))
  obtain ⟨node, hnode⟩ : ∃ node, parseXml (inputReader true) (utf8 (inputText true)) = .ok node := by
    rw [parseXml, inputReader_document, inputDocument_options]
    exact exists_of_isOk (by decide +kernel)
  exact ⟨node, hnode, ((readers_agree hunique).1 node hnode).trans (parse_input true)⟩

end DdcControl.Scanner
