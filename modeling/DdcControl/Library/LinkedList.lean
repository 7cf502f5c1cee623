import Mathlib.Data.List.Basic
import Mathlib.Logic.Function.Basic

/-!
# Linked lists in memory

A memory of cells, each with a value and the address of the next, over arbitrary types
of addresses and values. `Segment heap a l b` says that the cells reached from the pointer
`a` are those at the addresses `l`, where the pointer `b` is; a list ends in `none`.

A pointer to a pointer is a `Slot`: the head of a list, or the `next` of a cell.
Programs read and write through one (`read`, `write`), and `free` cells; each fails on a
cell that is not allocated.

## What is proved

* `Segment.frame` — a segment is unchanged where its cells are.
* `IsList.nodup` — a list has no cell twice.
* `Segment.write_last` — a write through the last slot of a segment moves its end.
-/

namespace LinkedList

/-- A value, and the address of the next cell. -/
structure Cell (A α : Type) where
  value : α
  next : Option A

/-- The cells that are allocated. -/
abbrev Heap (A α : Type) := A → Option (Cell A α)

variable {A α : Type}

/-! ### Segments -/

/-- From the pointer `a` the cells at `l` lead to the pointer `b`. -/
inductive Segment (heap : Heap A α) : Option A → List A → Option A → Prop
  | nil (a : Option A) : Segment heap a [] a
  | cons {a : A} {cell : Cell A α} {l : List A} {b : Option A} :
    heap a = some cell → Segment heap cell.next l b → Segment heap (some a) (a :: l) b

/-- A list ends where there is no next cell. -/
abbrev IsList (heap : Heap A α) (a : Option A) (l : List A) : Prop := Segment heap a l none

theorem segment_nil {heap : Heap A α} {a b : Option A} : Segment heap a [] b ↔ a = b := by
  constructor
  · intro h
    cases h
    rfl
  · rintro rfl
    exact .nil a

theorem segment_cons {heap : Heap A α} {a b : Option A} {x : A} {l : List A} :
    Segment heap a (x :: l) b ↔ a = some x ∧ ∃ cell, heap x = some cell ∧ Segment heap cell.next l b := by
  constructor
  · intro h
    cases h with
    | cons hx h => exact ⟨rfl, _, hx, h⟩
  · rintro ⟨rfl, cell, hx, h⟩
    exact .cons hx h

theorem segment_append {heap : Heap A α} {a c : Option A} {l₁ l₂ : List A} :
    Segment heap a (l₁ ++ l₂) c ↔ ∃ b, Segment heap a l₁ b ∧ Segment heap b l₂ c := by
  constructor
  · intro h
    induction l₁ generalizing a with
    | nil => exact ⟨a, .nil a, h⟩
    | cons x l₁ ih =>
      cases h with
      | cons hx h =>
        obtain ⟨b, h₁, h₂⟩ := ih h
        exact ⟨b, .cons hx h₁, h₂⟩
  · rintro ⟨b, h₁, h₂⟩
    induction h₁ with
    | nil a => exact h₂
    | cons hx _ ih => exact .cons hx (ih h₂)

/-- A segment has one end. -/
theorem Segment.end_unique {heap : Heap A α} {a b c : Option A} {l : List A}
    (h : Segment heap a l b) (h' : Segment heap a l c) : b = c := by
  induction h with
  | nil a => cases h'; rfl
  | cons hx _ ih =>
    cases h' with
    | cons hx' h' =>
      cases hx.symm.trans hx'
      exact ih h'

/-- The cells of a segment are allocated. -/
theorem Segment.allocated {heap : Heap A α} {a b : Option A} {l : List A} (h : Segment heap a l b)
    {x : A} (hx : x ∈ l) :
    ∃ cell, heap x = some cell := by
  induction h with
  | nil a => cases hx
  | cons ha _ ih =>
    rcases List.mem_cons.mp hx with rfl | hx
    · exact ⟨_, ha⟩
    · exact ih hx

/-- **A segment reads its own cells only.** -/
theorem Segment.frame {heap heap' : Heap A α} {a b : Option A} {l : List A} (h : Segment heap a l b)
    (heq : ∀ x ∈ l, heap' x = heap x) : Segment heap' a l b := by
  induction h with
  | nil a => exact .nil a
  | cons hx _ ih =>
    exact .cons ((heq _ List.mem_cons_self).trans hx) (ih fun x hx => heq x (List.mem_cons_of_mem _ hx))

/-- A list is determined by its first pointer. -/
theorem Segment.list_unique {heap : Heap A α} {a : Option A} {l l' : List A} (h : IsList heap a l)
    (h' : IsList heap a l') : l = l' := by
  induction l generalizing a l' with
  | nil =>
    cases h
    cases h'
    rfl
  | cons x l ih =>
    obtain ⟨rfl, cell, hx, h⟩ := segment_cons.mp h
    cases h' with
    | cons hx' h' =>
      cases hx.symm.trans hx'
      rw [ih h h']

/-- A list has no cell twice: it would not end. -/
theorem Segment.nodup {heap : Heap A α} {a : Option A} {l : List A}
    (h : IsList heap a l) : l.Nodup := by
  induction l generalizing a with
  | nil => exact List.nodup_nil
  | cons x l ih =>
    obtain ⟨rfl, cell, hx, h⟩ := segment_cons.mp h
    refine List.nodup_cons.mpr ⟨fun hmem => ?_, ih h⟩
    obtain ⟨before, after, rfl⟩ := List.append_of_mem hmem
    obtain ⟨b, _, htail⟩ := segment_append.mp h
    obtain rfl := (segment_cons.mp htail).1
    have hcycle := congrArg List.length (Segment.list_unique htail (.cons hx h))
    simp at hcycle
    omega

/-! ### Slots -/

/-- Where a pointer of a list is kept. -/
inductive Slot (A : Type) where
  | head
  | next (a : A)

/-- The slot after the cells of a segment. -/
def lastSlot (l : List A) : Slot A :=
  match l.getLast? with
  | none => .head
  | some a => .next a

theorem lastSlot_concat (l : List A) (a : A) : lastSlot (l ++ [a]) = .next a := by
  rw [lastSlot, List.getLast?_concat]

/-- A memory, with the head of a list in it. -/
structure Memory (A α : Type) where
  head : Option A
  heap : Heap A α

/-- Reading through a pointer to a pointer. -/
def Memory.read (m : Memory A α) : Slot A → Option (Option A)
  | .head => some m.head
  | .next a => (m.heap a).map Cell.next

/-- The last slot of a segment has its end. -/
theorem Segment.read_last {m : Memory A α} {l : List A} {b : Option A}
    (h : Segment m.heap m.head l b) :
    m.read (lastSlot l) = some b := by
  rcases List.eq_nil_or_concat l with rfl | ⟨l, x, rfl⟩
  · exact congrArg some (segment_nil.mp h)
  · rw [List.concat_eq_append] at h ⊢
    obtain ⟨_, _, hlast⟩ := segment_append.mp h
    obtain ⟨_, cell, hx, hend⟩ := segment_cons.mp hlast
    rw [lastSlot_concat, Memory.read, hx, ← segment_nil.mp hend]
    rfl

variable [DecidableEq A]

/-- Writing through a pointer to a pointer. -/
def Memory.write (m : Memory A α) (slot : Slot A) (b : Option A) : Option (Memory A α) :=
  match slot with
  | .head => some { m with head := b }
  | .next a =>
    match m.heap a with
    | none => none
    | some cell => some { m with heap := Function.update m.heap a (some { cell with next := b }) }

/-- Freeing a cell. -/
def Heap.free (heap : Heap A α) (a : A) : Option (Heap A α) :=
  match heap a with
  | none => none
  | some _ => some (Function.update heap a none)

/-- **A write through the last slot of a segment moves its end**, and nothing else: the values
and the cells off the segment stay. -/
theorem Segment.write_last {m : Memory A α} {l : List A} {b : Option A}
    (h : Segment m.heap m.head l b) (hnodup : l.Nodup) (c : Option A) :
    ∃ m', m.write (lastSlot l) c = some m' ∧ Segment m'.heap m'.head l c ∧
      (∀ x, (m'.heap x).map Cell.value = (m.heap x).map Cell.value) ∧
      ∀ x ∉ l, m'.heap x = m.heap x := by
  rcases List.eq_nil_or_concat l with rfl | ⟨l, x, rfl⟩
  · exact ⟨{ m with head := c }, rfl, .nil c, fun _ => rfl, fun _ _ => rfl⟩
  rw [List.concat_eq_append] at h hnodup ⊢
  obtain ⟨_, hinit, hlast⟩ := segment_append.mp h
  obtain ⟨rfl, cell, hx, _⟩ := segment_cons.mp hlast
  have hfresh : x ∉ l := fun hmem => (List.nodup_append.mp hnodup).2.2 x hmem x List.mem_cons_self rfl
  refine ⟨{ m with heap := Function.update m.heap x (some { cell with next := c }) },
    ?_, ?_, ?_, ?_⟩
  · rw [lastSlot_concat, Memory.write, hx]
  · refine segment_append.mpr ⟨some x, hinit.frame fun y hy => ?_,
      .cons (Function.update_self ..) (.nil c)⟩
    exact Function.update_of_ne (ne_of_mem_of_not_mem hy hfresh) _ _
  · intro y
    by_cases hy : y = x
    · subst hy
      simp [hx]
    · simp [Function.update_of_ne hy]
  · intro y hy
    exact Function.update_of_ne (fun heq => hy (by simp [heq])) _ _

/-- The heap with the cells of a list freed. -/
def Heap.without (heap : Heap A α) (l : List A) : Heap A α := fun x => if x ∈ l then none else heap x

theorem Heap.without_apply (heap : Heap A α) (l : List A) (x : A) :
    heap.without l x = if x ∈ l then none else heap x := rfl

theorem Heap.without_cons (x : A) (heap : Heap A α) (l : List A) :
    heap.without (x :: l) = Function.update (heap.without l) x none := by
  funext y
  by_cases hy : y = x
  · subst hy
    simp [Heap.without]
  · simp [Heap.without, hy]

@[simp] theorem Heap.without_nil (heap : Heap A α) : heap.without [] = heap := by
  funext y
  simp [Heap.without]

theorem Heap.free_eq {heap : Heap A α} {x : A} {cell : Cell A α} (h : heap x = some cell) :
    heap.free x = some (Function.update heap x none) := by
  rw [Heap.free, h]

end LinkedList
