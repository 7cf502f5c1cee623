import DdcControl.Context.Xml
import DdcControl.Library.Markup

/-!
# Loading written documents

What `parse_xml` makes of a document that a program wrote. `XmlReader.Reads` is what
it relies on: the reader finds the element that the document's grammar gives it, among
comments and white space of no interest.

## What is proved

* `parseXml_ok` — the node made of a written document is that of its element.
* `parseXml_isOk` — there is one within the loader's limits, and only there.
-/

namespace DdcControl.Context

open Database Fallible Markup

/-- An attribute outside namespaces. -/
def plainAttribute (attr : String × String) : XmlAttribute := ⟨none, attr.1, attr.2⟩

mutual
/-- The tree is of an element: its tag, its attributes, and the elements among its children. -/
def Denotes (tree : Xml) : Element → Prop
  | .mk tag attributes children =>
    ∃ nodes row, tree = .element tag (attributes.map plainAttribute) nodes row ∧
      DenoteAll (nodes.filter Xml.isElement) children
/-- The trees are of the elements, in order. -/
def DenoteAll (trees : List Xml) : List Element → Prop
  | [] => trees = []
  | child :: children => ∃ tree rest, trees = tree :: rest ∧ Denotes tree child ∧ DenoteAll rest children
end

/-- The reader finds the element of this document, if it is one. -/
def XmlReader.Reads (x : XmlReader) (text : String) (root : Element) : Prop :=
  Document text root → ∃ tree, x.document (utf8 text) = .ok tree ∧ Denotes tree root

/-- The attributes of an element, as a node keeps them. -/
def keptAttributes (attributes : List (String × String)) (attrs : Std.TreeMap String String) :
    Std.TreeMap String String :=
  attributes.foldl (fun attrs attr => attrs.insert attr.1 attr.2) attrs

mutual
/-- The node is of an element. -/
def IsNodeOf (node : Node) : Element → Prop
  | .mk tag attributes children =>
    node.tag = tag ∧ node.attrs = keptAttributes attributes ∅ ∧ node.required = false ∧ AreNodesOf node.children children
/-- The nodes are of the elements, in order. -/
def AreNodesOf (nodes : List Node) : List Element → Prop
  | [] => nodes = []
  | child :: children => ∃ node rest, nodes = node :: rest ∧ IsNodeOf node child ∧ AreNodesOf rest children
end

/-- An attribute within the loader's limit. -/
def ShortAttribute (attr : String × String) : Prop :=
  (utf8 attr.1).length ≤ maxAttribute ∧ (utf8 attr.2).length ≤ maxAttribute

/-- An element within the loader's limits. -/
def Loadable (e : Element) : Prop := e.All ShortAttribute ∧ e.size ≤ 4000000

/-! ### Nodes -/

theorem areNodesOf_iff {nodes : List Node} {elements : List Element} :
    AreNodesOf nodes elements ↔ List.Forall₂ IsNodeOf nodes elements := by
  induction elements generalizing nodes with
  | nil => rw [AreNodesOf, List.forall₂_nil_right_iff]
  | cons e elements ih =>
    rw [AreNodesOf, List.forall₂_cons_right_iff]
    constructor
    · rintro ⟨node, rest, rfl, hnode, hrest⟩
      exact ⟨node, rest, hnode, ih.mp hrest, rfl⟩
    · rintro ⟨node, rest, hnode, hrest, rfl⟩
      exact ⟨node, rest, rfl, hnode, ih.mpr hrest⟩

/-- The nodes of a written document carry no required semantics. -/
theorem IsNodeOf.hasRequired {node : Node} {e : Element} (h : IsNodeOf node e) :
    node.hasRequired = false := by
  induction e using Element.induction generalizing node with
  | mk tag attributes children ih =>
    obtain ⟨-, -, hrequired, hchildren⟩ := h
    rw [node.hasRequired_eq, hrequired, Bool.false_or, List.any_eq_false]
    intro child hchild
    obtain ⟨e, he, hnode⟩ := exists_of_forall₂ (areNodesOf_iff.mp hchildren) hchild
    rw [ih e he hnode]
    exact Bool.false_ne_true

/-! ### Attributes -/

theorem keptAttributes_getElem? (attributes : List (String × String))
    (attrs : Std.TreeMap String String) (name : String) :
    (keptAttributes attributes attrs)[name]? =
      attributes.foldl (fun found attr => if attr.1 = name then some attr.2 else found) attrs[name]? := by
  induction attributes generalizing attrs with
  | nil => rfl
  | cons attr attributes ih =>
    have hcons : keptAttributes (attr :: attributes) attrs =
        keptAttributes attributes (attrs.insert attr.1 attr.2) := rfl
    have hcompare : compare attr.1 name = .eq ↔ attr.1 = name :=
      ⟨Std.LawfulEqCmp.eq_of_compare, fun h => h ▸ Std.ReflCmp.compare_self⟩
    rw [hcons, ih, Std.TreeMap.getElem?_insert, List.foldl_cons]
    congr 1
    exact if_congr hcompare rfl rfl

/-- What an attribute of a node is: the last of its name. -/
theorem IsNodeOf.attr {node : Node} {tag : String} {attributes : List (String × String)}
    {children : List Element} (h : IsNodeOf node (.mk tag attributes children)) (name : String) :
    node.attr name = attributes.foldl (fun found attr => if attr.1 = name then some attr.2 else found) none := by
  rw [Node.attr, h.2.1, keptAttributes_getElem?, Std.TreeMap.getElem?_emptyc]

/-- The loader keeps the attributes of an element if they are short, and fails otherwise. -/
theorem ownedAttributes_written (attributes : List (String × String))
    (attrs attrs' : Std.TreeMap String String) :
    (attributes.map plainAttribute).foldlM ownedAttribute attrs = .ok attrs' ↔
      (∀ attr ∈ attributes, ShortAttribute attr) ∧ attrs' = keptAttributes attributes attrs := by
  induction attributes generalizing attrs with
  | nil =>
    rw [List.map_nil, List.foldlM_nil, keptAttributes, List.foldl_nil]
    exact ⟨fun h => ⟨List.forall_mem_nil _, (Except.ok.inj h).symm⟩,
      fun h => congrArg Except.ok h.2.symm⟩
  | cons attr attributes ih =>
    have hstep (next : Std.TreeMap String String) : ownedAttribute attrs (plainAttribute attr) = .ok next ↔
        ShortAttribute attr ∧ next = attrs.insert attr.1 attr.2 := by
      rw [ownedAttribute, if_neg (by simp [plainAttribute]), bind_eq_ok]
      simp only [reject_eq_ok, Bool.or_eq_false_iff, decide_eq_false_iff_not, Nat.not_lt, gt_iff_lt,
        plainAttribute, exists_const, ShortAttribute]
      exact and_congr_right fun _ => ⟨fun h => (Except.ok.inj h).symm,
        fun h => congrArg Except.ok h.symm⟩
    rw [List.map_cons, List.foldlM_cons, bind_eq_ok, List.forall_mem_cons]
    constructor
    · rintro ⟨next, hnext, h⟩
      obtain ⟨hshort, rfl⟩ := (hstep next).mp hnext
      obtain ⟨hrest, rfl⟩ := (ih _).mp h
      exact ⟨⟨hshort, hrest⟩, rfl⟩
    · rintro ⟨⟨hshort, hrest⟩, rfl⟩
      exact ⟨_, (hstep _).mpr ⟨hshort, rfl⟩, (ih _).mpr ⟨hrest, rfl⟩⟩

/-! ### Elements -/

theorem ownedChildren_filter (depth : ℕ) (children : List Xml) (count : ℕ) :
    ownedChildren depth children count = ownedChildren depth (children.filter Xml.isElement) count := by
  induction children generalizing count with
  | nil => rfl
  | cons child children ih =>
    rw [ownedChildren, List.filter_cons]
    split_ifs with helement
    · rw [ownedChildren, if_pos helement]
      simp only [ih]
    · exact ih count

/-- What the loader makes of the trees of an element. -/
def Owns (e : Element) : Prop :=
  ∀ (tree : Xml) (depth count : ℕ), Denotes tree e → depth + e.height ≤ 65 →
    (∀ node count', owned depth tree count = .ok (node, count') → IsNodeOf node e ∧ count' = count + e.size) ∧
      ((∃ result, owned depth tree count = .ok result) ↔ e.All ShortAttribute ∧ count + e.size ≤ 4000000)

theorem ownedChildren_owns {children : List Element} (howns : ∀ child ∈ children, Owns child)
    {trees : List Xml} {depth count : ℕ} (h : DenoteAll trees children)
    (hdepth : depth + heightAll children ≤ 65) (hcount : count ≤ 4000000)
    (helements : ∀ tree ∈ trees, tree.isElement = true) :
    (∀ nodes count', ownedChildren depth trees count = .ok (nodes, count') →
        AreNodesOf nodes children ∧ count' = count + sizeAll children) ∧
      ((∃ result, ownedChildren depth trees count = .ok result) ↔
        (∀ child ∈ children, child.All ShortAttribute) ∧ count + sizeAll children ≤ 4000000) := by
  induction children generalizing trees count with
  | nil =>
    rw [DenoteAll] at h
    subst h
    refine ⟨fun nodes count' hok => ?_, ?_⟩
    · cases hok
      exact ⟨rfl, rfl⟩
    · exact iff_of_true ⟨_, rfl⟩ ⟨List.forall_mem_nil _, hcount⟩
  | cons child children ih =>
    rw [List.forall_mem_cons] at howns
    obtain ⟨tree, rest, rfl, htree, hrest⟩ := h
    rw [List.forall_mem_cons] at helements
    rw [heightAll] at hdepth
    obtain ⟨hnode, hok⟩ := howns.1 tree depth count htree (by omega)
    rw [ownedChildren, if_pos helements.1, sizeAll, List.forall_mem_cons]
    have hnext (node : Node) (count' : ℕ) (h : owned depth tree count = .ok (node, count')) :=
      @ih howns.2 _ count' hrest (by omega)
        (by rw [(hnode node count' h).2]; exact (hok.mp ⟨_, h⟩).2) helements.2
    constructor
    · intro nodes count' h
      obtain ⟨⟨node, middle⟩, hfirst, h⟩ := bind_eq_ok.mp h
      obtain ⟨⟨after, last⟩, hlast, h⟩ := bind_eq_ok.mp h
      cases h
      obtain ⟨hafter, rfl⟩ := (hnext node middle hfirst).1 after count' hlast
      obtain ⟨hnode, rfl⟩ := hnode node middle hfirst
      exact ⟨⟨node, after, rfl, hnode, hafter⟩, Nat.add_assoc ..⟩
    · constructor
      · rintro ⟨result, h⟩
        obtain ⟨⟨node, middle⟩, hfirst, h⟩ := bind_eq_ok.mp h
        obtain ⟨last, hlast, -⟩ := bind_eq_ok.mp h
        obtain ⟨hshort, hsize⟩ := (hnext node middle hfirst).2.mp ⟨last, hlast⟩
        rw [(hnode node middle hfirst).2] at hsize
        exact ⟨⟨(hok.mp ⟨_, hfirst⟩).1, hshort⟩, by omega⟩
      · rintro ⟨⟨hfirst, hshort⟩, hsize⟩
        obtain ⟨⟨node, middle⟩, howned⟩ := hok.mpr ⟨hfirst, by omega⟩
        obtain ⟨result, hresult⟩ := (hnext node middle howned).2.mpr
          ⟨hshort, by rw [(hnode node middle howned).2]; omega⟩
        exact ⟨_, bind_eq_ok.mpr ⟨_, howned, bind_eq_ok.mpr ⟨result, hresult, rfl⟩⟩⟩

/-- **The loader makes of a tree the node of its element**, within its limits. -/
theorem owned_owns (e : Element) : Owns e := by
  induction e using Element.induction with
  | mk tag attributes children ih =>
    intro tree depth count h hdepth
    obtain ⟨nodes, row, rfl, hchildren⟩ := h
    rw [Element.height] at hdepth
    rw [owned, ownedChildren_filter]
    have helements : ∀ tree ∈ nodes.filter Xml.isElement, tree.isElement = true :=
      fun tree h => (List.mem_filter.mp h).2
    have hlimit : reject (depth > 64 || count ≥ 4000000) "XML database nesting/item limit exceeded." = .ok () ↔
        count + 1 ≤ 4000000 := by
      rw [reject_eq_ok, Bool.or_eq_false_iff, decide_eq_false_iff_not, decide_eq_false_iff_not]
      omega
    have hinside (hcount : count + 1 ≤ 4000000) :=
      @ownedChildren_owns _ ih _ (depth + 1) (count + 1) hchildren (by omega) hcount helements
    rw [Element.size, Element.all_mk]
    constructor
    · intro node count' h
      obtain ⟨_, hcount, h⟩ := bind_eq_ok.mp h
      obtain ⟨attrs, hattrs, h⟩ := bind_eq_ok.mp h
      obtain ⟨⟨kept, last⟩, hkept, h⟩ := bind_eq_ok.mp h
      cases h
      obtain ⟨hnodes, rfl⟩ := (hinside (hlimit.mp hcount)).1 kept count' hkept
      exact ⟨⟨rfl, ((ownedAttributes_written ..).mp hattrs).2, rfl, hnodes⟩, by omega⟩
    · constructor
      · rintro ⟨result, h⟩
        obtain ⟨_, hcount, h⟩ := bind_eq_ok.mp h
        obtain ⟨attrs, hattrs, h⟩ := bind_eq_ok.mp h
        obtain ⟨last, hlast, -⟩ := bind_eq_ok.mp h
        obtain ⟨hshort, hsize⟩ := (hinside (hlimit.mp hcount)).2.mp ⟨last, hlast⟩
        exact ⟨⟨((ownedAttributes_written ..).mp hattrs).1, hshort⟩, by omega⟩
      · rintro ⟨⟨hattributes, hshort⟩, hsize⟩
        have hcount : count + 1 ≤ 4000000 := by omega
        obtain ⟨result, hresult⟩ := (hinside hcount).2.mpr ⟨hshort, by omega⟩
        exact ⟨_, bind_eq_ok.mpr ⟨(), hlimit.mpr hcount, bind_eq_ok.mpr
          ⟨_, (ownedAttributes_written ..).mpr ⟨hattributes, rfl⟩,
            bind_eq_ok.mpr ⟨result, hresult, rfl⟩⟩⟩⟩

/-! ### Documents -/

section Reads

variable {x : XmlReader} {text : String} {root : Element}

/-- The reader gives the loader a tree of the element. -/
theorem parseXml_eq (hreads : x.Reads text root) (hdocument : Document text root) :
    ∃ tree, Denotes tree root ∧ parseXml x (utf8 text) = (fun result => result.1) <$> owned 0 tree 0 := by
  obtain ⟨tree, htree, hdenotes⟩ := hreads hdocument
  refine ⟨tree, hdenotes, ?_⟩
  rw [parseXml, htree]
  show (owned 0 tree 0 >>= fun result => pure result.1) = _
  cases owned 0 tree 0 <;> rfl

/-- **The node made of a written document is that of its element.** -/
theorem parseXml_ok (hreads : x.Reads text root) (hdocument : Document text root)
    (hheight : root.height ≤ 65) {node : Node} (h : parseXml x (utf8 text) = .ok node) :
    IsNodeOf node root := by
  obtain ⟨tree, hdenotes, heq⟩ := parseXml_eq hreads hdocument
  rw [heq] at h
  cases howned : owned 0 tree 0 with
  | error e => rw [howned] at h; cases h
  | ok result =>
    rw [howned] at h
    cases h
    exact ((owned_owns root tree 0 0 hdenotes (by omega)).1 _ _ howned).1

/-- **A written document is loaded within the limits**, and not beyond them. -/
theorem parseXml_isOk (hreads : x.Reads text root) (hdocument : Document text root)
    (hheight : root.height ≤ 65) :
    (∃ node, parseXml x (utf8 text) = .ok node) ↔ Loadable root := by
  obtain ⟨tree, hdenotes, heq⟩ := parseXml_eq hreads hdocument
  have howns := (owned_owns root tree 0 0 hdenotes (by omega)).2
  rw [Nat.zero_add] at howns
  rw [heq, Loadable, ← howns]
  cases owned 0 tree 0 with
  | error e => exact iff_of_false (fun ⟨_, h⟩ => nomatch h) (fun ⟨_, h⟩ => nomatch h)
  | ok result => exact ⟨fun _ => ⟨result, rfl⟩, fun _ => ⟨result.1, rfl⟩⟩

end Reads

end DdcControl.Context
