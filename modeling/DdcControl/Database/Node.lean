import DdcControl.Text
import DdcControl.Library.Fallible

/-!
# Database nodes

`Node` is the element of a decoded database, whether it came from XML or from CBOR:
a tag, the attributes an interpreter may read, the children in document order, the
source line for diagnostics, and the mark `required` of semantics this program does
not know. `hasRequired` looks for that mark in a whole subtree.
-/

namespace DdcControl.Database

/-- `Node`. -/
structure Node where
  tag : String
  attrs : Std.TreeMap String String
  children : List Node
  line : ℕ
  required : Bool

/-- A node by its tag, attributes and children, on no line and without a mark. -/
def Node.element (tag : String) (attrs : List (String × String)) (children : List Node) : Node :=
  ⟨tag, .ofList attrs, children, 0, false⟩

/-- `Node::attr`. -/
def Node.attr (node : Node) (name : String) : Option String := node.attrs[name]?

mutual
/-- `has_required`. -/
def Node.hasRequired : Node → Bool
  | ⟨_, _, children, _, required⟩ => required || anyRequired children
/-- `node.children.iter().any(has_required)`. -/
def anyRequired : List Node → Bool
  | [] => false
  | child :: children => child.hasRequired || anyRequired children
end

theorem anyRequired_eq (children : List Node) :
    anyRequired children = children.any Node.hasRequired := by
  induction children with
  | nil => rfl
  | cons child children ih => rw [anyRequired, List.any_cons, ih]

theorem Node.hasRequired_eq (node : Node) :
    node.hasRequired = (node.required || node.children.any Node.hasRequired) := by
  cases node
  rw [Node.hasRequired, anyRequired_eq]

/-- A child's required semantics are its parent's. -/
theorem Node.hasRequired_of_mem {node child : Node} (hc : child ∈ node.children)
    (h : child.hasRequired = true) :
    node.hasRequired = true := by
  rw [node.hasRequired_eq, Bool.or_eq_true, List.any_eq_true]
  exact .inr ⟨child, hc, h⟩

/-- `n.Within node`: `n` is `node` or one of its descendants. -/
inductive Node.Within (n : Node) : Node → Prop
  /-- The node itself. -/
  | self : Within n n
  /-- A node of a child's subtree. -/
  | child {child node : Node} : child ∈ node.children → Within n child → Within n node

/-- The node at a position, which is the way to it from child to child. -/
def Node.nodeAt : Node → List ℕ → Option Node
  | node, [] => some node
  | node, i :: position => node.children[i]?.bind (·.nodeAt position)

theorem Node.within_of_nodeAt {node n : Node} {position : List ℕ} (h : node.nodeAt position = some n) :
    n.Within node := by
  induction position generalizing node with
  | nil =>
    cases h
    exact .self
  | cons i position ih =>
    obtain ⟨child, hchild, hn⟩ := Option.bind_eq_some_iff.mp h
    exact .child (List.mem_of_getElem? hchild) (ih hn)

mutual
/-- A marked subtree has a marked node. -/
theorem Node.exists_required (node : Node) (h : node.hasRequired = true) :
    ∃ n : Node, n.Within node ∧ n.required = true :=
  match node, h with
  | ⟨tag, attrs, children, line, required⟩, h => by
    rw [Node.hasRequired, Bool.or_eq_true] at h
    rcases h with h | h
    · exact ⟨⟨tag, attrs, children, line, required⟩, .self, h⟩
    · obtain ⟨child, hc, n, hn, hreq⟩ := anyRequired_exists children h
      exact ⟨n, .child hc hn, hreq⟩
theorem anyRequired_exists (children : List Node) (h : anyRequired children = true) :
    ∃ child ∈ children, ∃ n : Node, n.Within child ∧ n.required = true :=
  match children, h with
  | child :: children, h => by
    rw [anyRequired, Bool.or_eq_true] at h
    rcases h with h | h
    · exact ⟨child, List.mem_cons_self .., Node.exists_required child h⟩
    · obtain ⟨child', hc, hn⟩ := anyRequired_exists children h
      exact ⟨child', List.mem_cons_of_mem _ hc, hn⟩
end

/-- **`has_required` finds the mark anywhere in the subtree**, and only there. -/
theorem Node.hasRequired_iff {node : Node} :
    node.hasRequired = true ↔ ∃ n : Node, n.Within node ∧ n.required = true := by
  refine ⟨node.exists_required, ?_⟩
  rintro ⟨n, hn, hreq⟩
  induction hn with
  | self => rw [n.hasRequired_eq, hreq, Bool.true_or]
  | child hc _ ih => exact Node.hasRequired_of_mem hc ih

/-- No attribute in the subtree has a NUL character. -/
def NulFreeNode (node : Node) : Prop :=
  ∀ n : Node, n.Within node → ∀ name value, n.attr name = some value → NulFree value

theorem nulFreeNode_iff {node : Node} :
    NulFreeNode node ↔ (∀ name value, node.attr name = some value → NulFree value) ∧
      ∀ child ∈ node.children, NulFreeNode child := by
  constructor
  · exact fun h => ⟨h node .self, fun child hc n hn => h n (.child hc hn)⟩
  · rintro ⟨hself, hchildren⟩ n hn
    cases hn with
    | self => exact hself
    | child hc hn => exact hchildren _ hc n hn

/-- The mark is no attribute. -/
theorem NulFreeNode.mark {node : Node} {required : Bool} (h : NulFreeNode node) :
    NulFreeNode { node with required := required } :=
  nulFreeNode_iff.mpr ⟨(nulFreeNode_iff.mp h).1, (nulFreeNode_iff.mp h).2⟩

/-- `node_error`. -/
def nodeError (node : Node) (message : String) : String :=
  "Error: " ++ message ++ " @line " ++ toString node.line

/-- `required_attr`. -/
def requiredAttr (node : Node) (name : String) : Except String String :=
  Fallible.orError (node.attr name) (nodeError node ("Can't find " ++ name ++ " property."))

/-- `is_valid_monitor_profile_name`. -/
def isValidMonitorProfileName (name : String) : Bool :=
  !name.isEmpty && name.toList.all fun c => isAsciiAlphanumeric c || c = '_' || c = '-'

end DdcControl.Database
