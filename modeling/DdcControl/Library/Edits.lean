import Mathlib.Logic.Function.Basic
import Mathlib.Data.List.Basic

/-!
# Edits of a table

A table gives every key a value. An item edits the value of its own key; a list of items
edits the table one after another. Several items may have one key, so what matters of a
list for a key is the run of the items that have it.

Two kinds of operations make a list of edits idempotent: one that does not look at the
value it replaces, and one that settles a value, which no other operation unsettles.
-/

namespace DdcControl.Edits

variable {K V I : Type*} [DecidableEq K] (key : I → K) (op : I → V → V)

/-- The edit of an item. -/
def edit (table : K → V) (item : I) : K → V := Function.update table (key item) (op item (table (key item)))

/-- The edits of a list. -/
def edits (table : K → V) (items : List I) : K → V := items.foldl (edit key op) table

/-- The run of a list of operations on one value. -/
def run (value : V) (items : List I) : V := items.foldl (fun value item => op item value) value

@[simp] theorem edits_cons (table : K → V) (item : I) (items : List I) :
    edits key op table (item :: items) = edits key op (edit key op table item) items := rfl

theorem edits_append (table : K → V) (items items' : List I) :
    edits key op table (items ++ items') = edits key op (edits key op table items) items' :=
      List.foldl_append

@[simp] theorem run_nil (value : V) : run op value [] = value := rfl

@[simp] theorem run_cons (value : V) (item : I) (items : List I) :
    run op value (item :: items) = run op (op item value) items := rfl

/-- What a list does to the value of a key is the run of its items with the key. -/
theorem edits_apply (table : K → V) (items : List I) (k : K) :
    edits key op table items k = run op (table k) (items.filter fun item => key item = k) := by
  induction items generalizing table with
  | nil => rfl
  | cons item items ih =>
    rw [edits_cons, ih]
    by_cases h : key item = k
    · subst h
      rw [List.filter_cons_of_pos (by simp), run_cons, edit, Function.update_self]
    · rw [List.filter_cons_of_neg (by simpa using h), edit, Function.update_of_ne (Ne.symm h)]

/-- A key that no item has keeps its value. -/
theorem edits_of_forall_ne {items : List I} {k : K} (h : ∀ item ∈ items, key item ≠ k)
    (table : K → V) :
    edits key op table items k = table k := by
  rw [edits_apply, List.filter_eq_nil_iff.mpr fun item hitem => by simpa using h item hitem,
    run_nil]

/-- What every operation keeps of a value, a list of edits keeps. -/
theorem edits_rel {R : V → V → Prop} (hrefl : ∀ value, R value value)
    (htrans : ∀ {a b c}, R a b → R b c → R a c) (h : ∀ item value, R value (op item value))
    (table : K → V) (items : List I) (k : K) :
    R (table k) (edits key op table items k) := by
  rw [edits_apply]
  generalize items.filter (fun item => key item = k) = items
  generalize table k = value
  induction items generalizing value with
  | nil => exact hrefl value
  | cons item items ih => exact htrans (h item value) (ih (op item value))

/-! ### Operations that overwrite -/

/-- An operation does not look at the value it replaces. -/
def Overwrites : Prop := ∀ item value value', op item value = op item value'

/-- The last item of a key gives it its value. -/
theorem Overwrites.edits_apply {key : I → K} {op : I → V → V} (h : Overwrites op) (table : K → V)
    (items : List I) (k : K) :
    edits key op table items k = ((items.filter fun item => key item = k).getLast?).elim
      (table k) fun item => op item (table k) := by
  rw [Edits.edits_apply]
  generalize items.filter (fun item => key item = k) = items
  generalize table k = value
  induction items generalizing value with
  | nil => rfl
  | cons item items ih =>
    rw [run_cons, ih]
    cases items with
    | nil => rfl
    | cons item' items =>
      rw [List.getLast?_cons_cons, List.getLast?_eq_some_getLast (List.cons_ne_nil _ _)]
      exact h _ _ _

theorem Overwrites.edits_idem {key : I → K} {op : I → V → V} (h : Overwrites op) (table : K → V)
    (items : List I) :
    edits key op (edits key op table items) items = edits key op table items := by
  funext k
  rw [Edits.edits_apply, Edits.edits_apply]
  cases items.filter fun item => key item = k with
  | nil => rfl
  | cons item items => rw [run_cons, run_cons, h item _ (table k)]

/-! ### Operations that settle -/

/-- A value that an operation has been applied to is one that it keeps, and no other
operation changes that. -/
structure Settles : Prop where
  again : ∀ item value, op item (op item value) = op item value
  keeps : ∀ item item' value, op item value = value → op item (op item' value) = op item' value

namespace Settles

variable {key : I → K} {op : I → V → V}

theorem run_settled (h : Settles op) {item : I} {value : V} (hvalue : op item value = value)
    (items : List I) :
    op item (run op value items) = run op value items := by
  induction items generalizing value with
  | nil => exact hvalue
  | cons item' items ih => exact ih (h.keeps item item' value hvalue)

theorem run_settled_of_mem (h : Settles op) {item : I} {items : List I}
    (hitem : item ∈ items) (value : V) :
    op item (run op value items) = run op value items := by
  induction items generalizing value with
  | nil => cases hitem
  | cons item' items ih =>
    rcases List.mem_cons.mp hitem with rfl | hitem
    · exact h.run_settled (h.again item value) items
    · exact ih hitem _

/-- An item of a list keeps what the list makes of its key. -/
theorem edits_settled (h : Settles op) {item : I} {items : List I} (hitem : item ∈ items)
    (table : K → V) :
    op item (edits key op table items (key item)) = edits key op table items (key item) := by
  rw [edits_apply]
  exact h.run_settled_of_mem (List.mem_filter.mpr ⟨hitem, by simp⟩) _

theorem edits_idem (h : Settles op) (table : K → V) (items : List I) :
    edits key op (edits key op table items) items = edits key op table items := by
  have hall : ∀ items' ⊆ items, edits key op (edits key op table items) items' = edits key op table items := by
    intro items' hsub
    induction items' with
    | nil => rfl
    | cons item items' ih =>
      have hkeep : edit key op (edits key op table items) item = edits key op table items := by
        rw [edit, h.edits_settled (hsub List.mem_cons_self), Function.update_eq_self]
      rw [edits_cons, hkeep]
      exact ih fun item' hitem' => hsub (List.mem_cons_of_mem item hitem')
  exact hall items fun _ => id

end Settles

end DdcControl.Edits
