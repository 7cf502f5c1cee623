import DdcControl.Library.Ownership

/-!
# Lists of owned nodes

A list in memory whose nodes own further objects. What the node of an element owns is a
parameter, `node x a next`, with the address of the node and its link to the next one;
`Chain node p l q` owns the nodes of `l` from the pointer `p` up to the pointer `q`.

`freeList` frees a list node by node. `allocList` builds one: it keeps the head and the
last node, links each new node after the last, and frees the nodes it has where a node
cannot be allocated. Their rules ask for triples of the operations on one node, and are
used at every level of a tree of lists.
-/

namespace Ownership

open Assertion

variable {A O α : Type}

/-- The nodes of a list. -/
def Chain (node : α → A → Option A → Assertion A O) : Option A → List α → Option A → Assertion A O
  | p, [], q => lift (p = q)
  | p, x :: l, q => any fun a => any fun next => lift (p = some a) * (node x a next * Chain node next l q)

variable {node : α → A → Option A → Assertion A O}

/-- The empty list. -/
theorem chain_nil (node : α → A → Option A → Assertion A O) {h : Heap A O} (hh : (1 : Assertion A O) h) : Chain node none [] none h := ⟨rfl, hh⟩

/-- The last node of a list. -/
theorem chain_concat_of {p : Option A} {l : List α} {x : α} {a : A} {q : Option A} {h : Heap A O}
    (hchain : (Chain node p l (some a) * node x a q) h) : Chain node p (l ++ [x]) q h := by
  induction l generalizing p h with
  | nil =>
    obtain ⟨rfl, hnode⟩ := lift_mul_apply.mp hchain
    refine ⟨a, q, lift_mul_apply.mpr ⟨rfl, ?_⟩⟩
    rw [Chain, eq_self, lift_true, mul_one]
    exact hnode
  | cons y l ih =>
    rw [Chain, any_mul] at hchain
    obtain ⟨b, hchain⟩ := hchain
    rw [any_mul] at hchain
    obtain ⟨next, hchain⟩ := hchain
    rw [mul_assoc, mul_assoc] at hchain
    obtain ⟨rfl, h₁, h₂, hap, rfl, hfirst, hrest⟩ := lift_mul_apply.mp hchain
    exact ⟨b, next, lift_mul_apply.mpr ⟨rfl, h₁, h₂, hap, rfl, hfirst, ih hrest⟩⟩

/-- Each element of a list has a node. -/
theorem Chain.exists_node {p q : Option A} {l : List α} {h : Heap A O} (hchain : Chain node p l q h)
    {x : α} (hx : x ∈ l) : ∃ (a : A) (next : Option A) (h' : Heap A O), node x a next h' := by
  induction l generalizing p h with
  | nil => cases hx
  | cons y l ih =>
    obtain ⟨a, next, hchain⟩ := hchain
    obtain ⟨-, h₁, h₂, -, -, hnode, hrest⟩ := lift_mul_apply.mp hchain
    rcases List.mem_cons.mp hx with rfl | hx
    · exact ⟨a, next, h₁, hnode⟩
    · exact ih hrest hx

/-! ### Freeing -/

/-- `while (p) { next = p->next; ...; free(p); p = next; }`. -/
def freeList (freeNode : A → Program A O (Option A)) : ℕ → Option A → Program A O Unit
  | 0, _ => stuck
  | _ + 1, none => pure ()
  | fuel + 1, some a => do
    let next ← freeNode a
    freeList freeNode fuel next

/-- **A list is freed where its nodes are.** -/
theorem freeList_triple {freeNode : A → Program A O (Option A)} {l : List α}
    (hnode : ∀ x ∈ l, ∀ a next, Triple (node x a next) (freeNode a) fun next' => lift (next' = next))
    {fuel : ℕ} (hfuel : l.length < fuel) (p : Option A) :
    Triple (Chain node p l none) (freeList freeNode fuel p) fun _ => 1 := by
  obtain ⟨fuel, rfl⟩ := Nat.exists_eq_succ_of_ne_zero (Nat.ne_zero_of_lt hfuel)
  induction l generalizing p fuel with
  | nil =>
    rw [Chain, ← mul_one (lift _)]
    refine Triple.of_lift fun hp => ?_
    subst hp
    exact Triple.pure () fun _ => 1
  | cons x l ih =>
    obtain ⟨fuel, rfl⟩ := Nat.exists_eq_succ_of_ne_zero (Nat.ne_zero_of_lt (Nat.lt_of_succ_lt_succ hfuel))
    refine Triple.of_any fun a => Triple.of_any fun next => Triple.of_lift fun hp => ?_
    subst hp
    refine (hnode x List.mem_cons_self a next).step (Chain node next l none) rfl fun next' => ?_
    refine Triple.of_lift fun hnext => ?_
    subst hnext
    exact ih (fun y hy => hnode y (List.mem_cons_of_mem x hy)) next' fuel (Nat.lt_of_succ_lt_succ hfuel)

/-! ### Allocating -/

/-- The loop that appends a node for each element, at the `head` of the list or after the
`last` node. -/
def allocList (allocNode : α → Program A O (Option A)) (link : A → A → Program A O Unit)
    (freeNodes : Option A → Program A O Unit) :
    Option A → Option A → List α → Program A O (Option (Option A))
  | head, _, [] => pure (some head)
  | head, last, x :: l => do
    match ← allocNode x with
    | none =>
      freeNodes head
      return none
    | some a =>
      match last with
      | none => allocList allocNode link freeNodes (some a) (some a) l
      | some last =>
        link last a
        allocList allocNode link freeNodes head (some a) l

section Alloc

variable {allocNode : α → Program A O (Option A)} {link : A → A → Program A O Unit}
  {freeNodes : Option A → Program A O Unit} {whole : List α} {p : Prop}
  (halloc : ∀ x ∈ whole, Obtains p 1 (allocNode x) fun a => node x a none)
  (hlink : ∀ x ∈ whole, ∀ a b, Triple (node x a none) (link a b) fun _ => node x a (some b))
  (hfree : ∀ l l', l ++ l' = whole → ∀ head, Triple (Chain node head l none) (freeNodes head) fun _ => 1)

include halloc hlink hfree

/-- The loop, after the first node. -/
theorem allocList_after {l : List α} (done : List α) (x : α) (hwhole : (done ++ [x]) ++ l = whole)
    (head : Option A) (last : A) :
    Obtains p (Chain node head done (some last) * node x last none)
      (allocList allocNode link freeNodes head (some last) l) fun head => Chain node head whole none := by
  induction l generalizing done x last with
  | nil =>
    rw [List.append_nil] at hwhole
    exact Obtains.result fun h hh => hwhole ▸ chain_concat_of hh
  | cons y l ih =>
    refine (halloc y (by simp [← hwhole])).acquire (fun refused hp => ?_) fun a => ?_
    · exact ((hfree (done ++ [x]) _ hwhole head).pre fun h hh => chain_concat_of hh).bind fun _ =>
        Triple.fail hp
    · refine Attempt.step (hlink x (by simp [← hwhole]) last a)
        (node y a none * Chain node head done (some last)) ?_ fun _ => ?_
      · rw [← mul_assoc, mul_comm]
      · refine (ih (done ++ [x]) y (by simpa using hwhole) a).pre fun h hh => ?_
        rw [mul_left_comm, mul_comm, mul_comm (node x last _)] at hh
        obtain ⟨h₁, h₂, hap, rfl, hchain, hnode⟩ := hh
        exact ⟨h₁, h₂, hap, rfl, chain_concat_of hchain, hnode⟩

/-- **A list is allocated whole or not at all.** -/
theorem allocList_obtains :
    Obtains p 1 (allocList allocNode link freeNodes none none whole) fun head => Chain node head whole none := by
  cases hwhole : whole with
  | nil => exact Obtains.result fun _ => chain_nil node
  | cons x l =>
    subst hwhole
    refine (halloc x List.mem_cons_self).acquire (fun refused hp => ?_) fun a => ?_
    · exact ((hfree [] _ rfl none).pre fun _ => chain_nil node).bind fun _ => Triple.fail hp
    · rw [mul_one]
      exact (allocList_after halloc hlink hfree [] x rfl (some a) a).pre
        fun h hh => lift_mul_apply.mpr ⟨rfl, hh⟩

end Alloc

end Ownership
