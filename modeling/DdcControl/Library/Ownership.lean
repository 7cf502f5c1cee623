import Mathlib.Algebra.BigOperators.Group.List.Basic
import Mathlib.Logic.Function.Basic

/-!
# Owned memory

Programs that allocate, read, write and free objects, over arbitrary types of addresses and
objects, and the rules of separation logic for them.

A `Program` runs on a `Store`: the objects that are allocated, how often `malloc` was called,
and how often it refused. It has no result where it reads, writes or frees an address that is
not allocated. An `Allocator` may refuse any request; an address it returns is not in use.

An `Assertion` says which objects are owned. Assertions are a commutative monoid: `P * Q`
owns what `P` owns and, apart from it, what `Q` owns, and `1` owns nothing.

`Triple P program Q` says that the program, run where `P` is owned and anything else
besides, has a result, is refused no request, owns `Q` of its result then and leaves the rest
as it was. So a triple from `1` to `1` leaks nothing and frees nothing that is not its own.

`Attempt P program Q` says the same of a program that may be refused requests: what it owns
then is `Q` of its result and of whether a request of this very run was refused. `Obtains` is
an attempt that ends with all of its result, or with nothing.
-/

namespace Ownership

/-! ### Heaps -/

/-- The objects that are allocated. -/
abbrev Heap (A O : Type) := A → Option O

variable {A O α β : Type}

/-- No objects. -/
def Heap.empty : Heap A O := fun _ => none

/-- The objects of both heaps. -/
def Heap.union (h k : Heap A O) : Heap A O := fun a => (h a).or (k a)

/-- No address is in both heaps. -/
def Heap.Apart (h k : Heap A O) : Prop := ∀ a, h a = none ∨ k a = none

theorem Heap.Apart.symm {h k : Heap A O} (hap : h.Apart k) : k.Apart h := fun a => (hap a).symm

theorem Heap.union_comm {h k : Heap A O} (hap : h.Apart k) : h.union k = k.union h := by
  funext a
  rcases hap a with ha | ha <;> simp [union, ha]

theorem Heap.union_assoc (h k l : Heap A O) : (h.union k).union l = h.union (k.union l) := by
  funext a
  exact Option.or_assoc

@[simp] theorem Heap.empty_union (h : Heap A O) : Heap.empty.union h = h := by
  funext a
  simp [union, empty]

@[simp] theorem Heap.union_empty (h : Heap A O) : h.union Heap.empty = h := by
  funext a
  simp [union, empty]

theorem Heap.empty_apart (h : Heap A O) : Heap.empty.Apart h := fun _ => .inl rfl

theorem Heap.union_eq_none {h k : Heap A O} {a : A} :
    h.union k a = none ↔ h a = none ∧ k a = none := by
  simp [union]

theorem Heap.union_apart {h k l : Heap A O} : (h.union k).Apart l ↔ h.Apart l ∧ k.Apart l := by
  constructor
  · intro hap
    exact ⟨fun a => (hap a).imp_left fun h => (union_eq_none.mp h).1,
      fun a => (hap a).imp_left fun h => (union_eq_none.mp h).2⟩
  · rintro ⟨hh, hk⟩ a
    rcases hh a with ha | ha
    · exact (hk a).imp_left fun hka => union_eq_none.mpr ⟨ha, hka⟩
    · exact .inr ha

section Single

variable [DecidableEq A]

/-- One object. -/
def Heap.single (a : A) (o : O) : Heap A O := Function.update Heap.empty a (some o)

@[simp] theorem Heap.single_self (a : A) (o : O) : Heap.single a o a = some o := Function.update_self ..

theorem Heap.single_of_ne {a b : A} (h : b ≠ a) (o : O) : Heap.single a o b = none :=
  Function.update_of_ne h ..

theorem Heap.single_apart {h : Heap A O} {a : A} {o : O} : (Heap.single a o).Apart h ↔ h a = none := by
  constructor
  · intro hap
    simpa using hap a
  · intro ha b
    by_cases hb : b = a
    · exact .inr (hb ▸ ha)
    · exact .inl (single_of_ne hb o)

/-- A change of the object at `a` leaves the rest. -/
theorem Heap.update_single_union (h : Heap A O) (a : A) (o o' : O) :
    Function.update ((Heap.single a o).union h) a (some o') = (Heap.single a o').union h := by
  funext b
  by_cases hb : b = a
  · subst hb
    simp [union]
  · simp [union, Function.update_of_ne hb, single_of_ne hb]

theorem Heap.update_none_single_union {h : Heap A O} {a : A} (ha : h a = none) (o : O) :
    Function.update ((Heap.single a o).union h) a none = h := by
  funext b
  by_cases hb : b = a
  · subst hb
    simp [ha]
  · simp [union, Function.update_of_ne hb, single_of_ne hb]

theorem Heap.update_eq_single_union (h : Heap A O) (a : A) (o : O) :
    Function.update h a (some o) = (Heap.single a o).union h := by
  funext b
  by_cases hb : b = a
  · subst hb
    simp [union]
  · simp [union, Function.update_of_ne hb, single_of_ne hb]

end Single

/-! ### Assertions -/

/-- What is owned. -/
def Assertion (A O : Type) : Type := Heap A O → Prop

namespace Assertion

/-- Both assertions, of heaps apart. -/
def sep (P Q : Assertion A O) : Assertion A O :=
  fun h => ∃ h₁ h₂ : Heap A O, h₁.Apart h₂ ∧ h = h₁.union h₂ ∧ P h₁ ∧ Q h₂

/-- Nothing is owned. -/
def emp : Assertion A O := fun h => h = Heap.empty

theorem sep_comm (P Q : Assertion A O) : P.sep Q = Q.sep P := by
  have hle : ∀ {P Q : Assertion A O} {h}, P.sep Q h → Q.sep P h := by
    rintro P Q h ⟨h₁, h₂, hap, rfl, hP, hQ⟩
    exact ⟨h₂, h₁, hap.symm, Heap.union_comm hap, hQ, hP⟩
  funext h
  exact propext ⟨hle, hle⟩

theorem emp_sep (P : Assertion A O) : emp.sep P = P := by
  funext h
  refine propext ⟨?_, fun hP => ⟨Heap.empty, h, Heap.empty_apart h, (Heap.empty_union h).symm, rfl, hP⟩⟩
  rintro ⟨h₁, h₂, -, rfl, rfl, hP⟩
  rwa [Heap.empty_union]

theorem sep_assoc (P Q R : Assertion A O) : (P.sep Q).sep R = P.sep (Q.sep R) := by
  funext h
  apply propext
  constructor
  · rintro ⟨_, h₃, hap, rfl, ⟨h₁, h₂, hap', rfl, hP, hQ⟩, hR⟩
    obtain ⟨h₁₃, h₂₃⟩ := Heap.union_apart.mp hap
    exact ⟨h₁, h₂.union h₃, (Heap.union_apart.mpr ⟨hap'.symm, h₁₃.symm⟩).symm, Heap.union_assoc ..,
      hP, h₂, h₃, h₂₃, rfl, hQ, hR⟩
  · rintro ⟨h₁, _, hap, rfl, hP, h₂, h₃, hap', rfl, hQ, hR⟩
    obtain ⟨h₂₁, h₃₁⟩ := Heap.union_apart.mp hap.symm
    exact ⟨h₁.union h₂, h₃, Heap.union_apart.mpr ⟨h₃₁.symm, hap'⟩, (Heap.union_assoc ..).symm,
      ⟨h₁, h₂, h₂₁.symm, rfl, hP, hQ⟩, hR⟩

instance instCommMonoid : CommMonoid (Assertion A O) where
  mul := sep
  one := emp
  mul_assoc := sep_assoc
  one_mul := emp_sep
  mul_one P := (sep_comm P emp).trans (emp_sep P)
  mul_comm := sep_comm

/-- Nothing is owned, and `p` holds. -/
def lift (p : Prop) : Assertion A O := fun h => p ∧ h = Heap.empty

/-- These objects are owned. -/
def exactly (owned : Heap A O) : Assertion A O := fun h => h = owned

/-- Some one of the assertions. -/
def any {ι : Type} (P : ι → Assertion A O) : Assertion A O := fun h => ∃ i, P i h

theorem one_apply {h : Heap A O} : (1 : Assertion A O) h ↔ h = Heap.empty := Iff.rfl

theorem lift_mul_apply {p : Prop} {P : Assertion A O} {h : Heap A O} :
    (lift p * P : Assertion A O) h ↔ p ∧ P h := by
  constructor
  · rintro ⟨h₁, h₂, -, rfl, ⟨hp, rfl⟩, hP⟩
    rw [Heap.empty_union]
    exact ⟨hp, hP⟩
  · rintro ⟨hp, hP⟩
    exact ⟨Heap.empty, h, Heap.empty_apart h, (Heap.empty_union h).symm, ⟨hp, rfl⟩, hP⟩

theorem lift_true : (lift True : Assertion A O) = 1 := by
  funext h
  exact propext ⟨fun hp => hp.2, fun h => ⟨trivial, h⟩⟩

theorem any_mul {ι : Type} (P : ι → Assertion A O) (Q : Assertion A O) :
    any P * Q = any fun i => P i * Q := by
  funext h
  apply propext
  constructor
  · rintro ⟨h₁, h₂, hap, rfl, ⟨i, hP⟩, hQ⟩
    exact ⟨i, h₁, h₂, hap, rfl, hP, hQ⟩
  · rintro ⟨i, h₁, h₂, hap, rfl, hP, hQ⟩
    exact ⟨h₁, h₂, hap, rfl, ⟨i, hP⟩, hQ⟩

/-- `P` of a result; without one nothing is owned, and `p` holds. -/
def orElse {ι : Type} (p : Prop) (P : ι → Assertion A O) : Option ι → Assertion A O
  | none => lift p
  | some i => P i

/-- The object at `a` is owned. -/
def pointsTo [DecidableEq A] (a : A) (o : O) : Assertion A O := fun h => h = Heap.single a o

end Assertion

/-! ### Programs -/

/-- A memory: the objects, how many were requested, and how many of these requests were
refused. -/
structure Store (A O : Type) where
  heap : Heap A O
  requests : ℕ
  refusals : ℕ

/-- What `malloc` answers to a request, which may be no. -/
structure Allocator (A O : Type) where
  choose : ℕ → Heap A O → Option A
  fresh : ∀ {n : ℕ} {heap : Heap A O} {a : A}, choose n heap = some a → heap a = none

/-- The allocator that hands out the numbers in order, but refuses some requests. -/
def Allocator.bump {O : Type} (refuses : ℕ → Bool) : Allocator ℕ O where
  choose n heap := if refuses n || (heap n).isSome then none else some n
  fresh := by
    intro n heap a h
    split at h
    · cases h
    · cases h
      simp_all

/-- A program. It has no result where it uses what is not allocated. -/
abbrev Program (A O α : Type) := StateT (Store A O) Option α

/-- No result. -/
def stuck : Program A O α := fun _ => none

/-- Reading an object. -/
def read (a : A) : Program A O O := fun store =>
  match store.heap a with
  | none => none
  | some o => some (o, store)

/-- Reading an object of one of the kinds there are. -/
def readAs (kind : O → Option α) (a : A) : Program A O α := do
  match kind (← read a) with
  | some content => return content
  | none => stuck

section Commands

variable [DecidableEq A]

/-- `malloc`, of an object with the given content. -/
def malloc (allocator : Allocator A O) (o : O) : Program A O (Option A) := fun store =>
  match allocator.choose store.requests store.heap with
  | none => some (none, ⟨store.heap, store.requests + 1, store.refusals + 1⟩)
  | some a => some (some a, ⟨Function.update store.heap a (some o), store.requests + 1, store.refusals⟩)

/-- Writing an object. -/
def write (a : A) (o : O) : Program A O Unit := fun store =>
  match store.heap a with
  | none => none
  | some _ => some ((), { store with heap := Function.update store.heap a (some o) })

/-- `free`; of a null pointer it does nothing. -/
def free : Option A → Program A O Unit
  | none => pure ()
  | some a => fun store =>
    match store.heap a with
    | none => none
    | some _ => some ((), { store with heap := Function.update store.heap a none })

end Commands

/-! ### Triples -/

open Assertion

/-- The program owns `P`, has a result, owns `Q` of it then, and leaves the rest; it is refused
no request. -/
def Triple (P : Assertion A O) (program : Program A O α) (Q : α → Assertion A O) : Prop :=
  ∀ (owned rest : Heap A O) (requests refusals : ℕ), P owned → owned.Apart rest →
    ∃ (a : α) (owned' : Heap A O) (requests' : ℕ),
      program ⟨owned.union rest, requests, refusals⟩ = some (a, ⟨owned'.union rest, requests', refusals⟩) ∧
        owned'.Apart rest ∧ Q a owned'

/-- The program owns `P`, has a result, owns `Q` of whether it was refused a request and of the
result then, and leaves the rest. -/
def Attempt (P : Assertion A O) (program : Program A O α) (Q : Prop → α → Assertion A O) : Prop :=
  ∀ (owned rest : Heap A O) (requests refusals : ℕ), P owned → owned.Apart rest →
    ∃ (a : α) (owned' : Heap A O) (requests' refusals' : ℕ),
      program ⟨owned.union rest, requests, refusals⟩ = some (a, ⟨owned'.union rest, requests', refusals'⟩) ∧
        refusals ≤ refusals' ∧ owned'.Apart rest ∧ Q (refusals < refusals') a owned'

/-- The program owns `P`, and `Q` of its result then; or it has none, owns nothing, and was
refused a request, or could not succeed. -/
def Obtains {ι : Type} (unable : Prop) (P : Assertion A O) (program : Program A O (Option ι)) (Q : ι → Assertion A O) :
    Prop :=
  Attempt P program fun refused => orElse (unable ∨ refused) Q

namespace Triple

variable {P P' R F : Assertion A O} {Q Q' : α → Assertion A O} {S : β → Assertion A O}
  {program : Program A O α} {next : α → Program A O β}

theorem pure (a : α) (Q : α → Assertion A O) : Triple (Q a) (Pure.pure a) Q :=
  fun owned _ requests _ hQ hap => ⟨a, owned, requests, rfl, hap, hQ⟩

/-- The rule of sequencing. -/
theorem bind (h : Triple P program Q) (hnext : ∀ a, Triple (Q a) (next a) S) :
    Triple P (program >>= next) S := by
  intro owned rest requests refusals hP hap
  obtain ⟨a, owned', requests', hrun, hap', hQ⟩ := h owned rest requests refusals hP hap
  obtain ⟨b, owned'', requests'', hrun', hap'', hS⟩ := hnext a owned' rest requests' refusals hQ hap'
  refine ⟨b, owned'', requests'', ?_, hap'', hS⟩
  change (program _).bind _ = _
  rw [hrun]
  exact hrun'

/-- The rule of consequence. -/
theorem consequence (h : Triple P program Q) (hP : ∀ heap, P' heap → P heap)
    (hQ : ∀ a heap, Q a heap → Q' a heap) : Triple P' program Q' := by
  intro owned rest requests refusals hP' hap
  obtain ⟨a, owned', requests', hrun, hap', hQa⟩ := h owned rest requests refusals (hP owned hP') hap
  exact ⟨a, owned', requests', hrun, hap', hQ a owned' hQa⟩

theorem pre (h : Triple P program Q) (hP : ∀ heap, P' heap → P heap) : Triple P' program Q :=
  h.consequence hP fun _ _ => id

theorem post (h : Triple P program Q) (hQ : ∀ a heap, Q a heap → Q' a heap) : Triple P program Q' :=
  h.consequence (fun _ => id) hQ

theorem result {a : α} (hQ : ∀ heap, P heap → Q a heap) : Triple P (Pure.pure a) Q :=
  (Triple.pure a Q).pre hQ

/-- The frame rule. -/
theorem frame (h : Triple P program Q) (F : Assertion A O) :
    Triple (P * F) program fun a => Q a * F := by
  rintro _ rest requests refusals ⟨owned, framed, hap, rfl, hP, hF⟩ hrest
  obtain ⟨howned, hframed⟩ := Heap.union_apart.mp hrest
  have hap' : owned.Apart (framed.union rest) := (Heap.union_apart.mpr ⟨hap.symm, howned.symm⟩).symm
  obtain ⟨a, owned', requests', hrun, hap'', hQ⟩ := h owned (framed.union rest) requests refusals hP hap'
  obtain ⟨hf, hr⟩ := Heap.union_apart.mp hap''.symm
  refine ⟨a, owned'.union framed, requests', ?_, Heap.union_apart.mpr ⟨hr.symm, hframed⟩,
    owned', framed, hf.symm, rfl, hQ, hF⟩
  rw [Heap.union_assoc, hrun, Heap.union_assoc]

/-- One step of a program: it owns `P`, and `F` is framed. -/
theorem step (h : Triple P program Q) (F : Assertion A O) (hR : R = P * F)
    (hnext : ∀ a, Triple (Q a * F) (next a) S) : Triple R (program >>= next) S :=
  hR ▸ (h.frame F).bind hnext

/-- A step that gives up what it owns. -/
theorem release {next : α → Program A O β} (h : Triple P program fun _ => 1) (hR : R = P * F)
    (hnext : ∀ a, Triple F (next a) S) : Triple R (program >>= next) S :=
  h.step F hR fun a => (one_mul F).symm ▸ hnext a

/-- Without a result nothing is owned. -/
theorem fail {ι : Type} {p : Prop} {P : ι → Assertion A O} (hp : p) :
    Triple 1 (Pure.pure none) (orElse p P) :=
  result fun _ hh => ⟨hp, hh⟩

theorem of_any {ι : Type} {P : ι → Assertion A O} (h : ∀ i, Triple (P i) program Q) :
    Triple (any P) program Q := by
  rintro owned rest requests refusals ⟨i, hP⟩ hap
  exact h i owned rest requests refusals hP hap

theorem of_lift {p : Prop} (h : p → Triple P program Q) : Triple (lift p * P) program Q := by
  intro owned rest requests refusals hP hap
  obtain ⟨hp, hP⟩ := lift_mul_apply.mp hP
  exact h hp owned rest requests refusals hP hap

/-- A triple is an attempt that was not refused anything. -/
theorem attempt {Q : Prop → α → Assertion A O} (h : Triple P program (Q False)) : Attempt P program Q := by
  intro owned rest requests refusals hP hap
  obtain ⟨a, owned', requests', hrun, hap', hQ⟩ := h owned rest requests refusals hP hap
  refine ⟨a, owned', requests', refusals, hrun, Nat.le_refl _, hap', ?_⟩
  rwa [eq_false (Nat.lt_irrefl refusals)]

end Triple

/-! ### Attempts -/

/-- What is owned where nothing was refused is owned where something was. -/
def Upward (Q : Prop → α → Assertion A O) : Prop :=
  ∀ ⦃p p' : Prop⦄, (p → p') → ∀ a heap, Q p a heap → Q p' a heap

theorem upward_orElse {ι : Type} (unable : Prop) (Q : ι → Assertion A O) :
    Upward fun refused => orElse (unable ∨ refused) Q := by
  intro p p' hp a heap hQ
  cases a with
  | none => exact ⟨hQ.1.imp_right hp, hQ.2⟩
  | some a => exact hQ

namespace Attempt

variable {P P' R : Assertion A O} {Q Q' : Prop → α → Assertion A O} {S : Prop → β → Assertion A O}
  {program : Program A O α} {next : α → Program A O β}

/-- The rule of sequencing: a request of the whole was refused by the first part or by the
second. -/
theorem bind (h : Attempt P program Q)
    (hnext : ∀ refused a, Attempt (Q refused a) (next a) fun refused' => S (refused ∨ refused')) :
    Attempt P (program >>= next) S := by
  intro owned rest requests refusals hP hap
  obtain ⟨a, owned', requests', refusals', hrun, hle, hap', hQ⟩ := h owned rest requests refusals hP hap
  obtain ⟨b, owned'', requests'', refusals'', hrun', hle', hap'', hS⟩ :=
    hnext _ a owned' rest requests' refusals' hQ hap'
  have hrefused : (refusals < refusals' ∨ refusals' < refusals'') = (refusals < refusals'') :=
    propext (by omega)
  refine ⟨b, owned'', requests'', refusals'', ?_, Nat.le_trans hle hle', hap'', hrefused ▸ hS⟩
  change (program _).bind _ = _
  rw [hrun]
  exact hrun'

theorem consequence (h : Attempt P program Q) (hP : ∀ heap, P' heap → P heap)
    (hQ : ∀ refused a heap, Q refused a heap → Q' refused a heap) : Attempt P' program Q' := by
  intro owned rest requests refusals hP' hap
  obtain ⟨a, owned', requests', refusals', hrun, hle, hap', hQa⟩ :=
    h owned rest requests refusals (hP owned hP') hap
  exact ⟨a, owned', requests', refusals', hrun, hle, hap', hQ _ a owned' hQa⟩

theorem pre (h : Attempt P program Q) (hP : ∀ heap, P' heap → P heap) : Attempt P' program Q :=
  h.consequence hP fun _ _ _ => id

theorem post (h : Attempt P program Q) (hQ : ∀ refused a heap, Q refused a heap → Q' refused a heap) :
    Attempt P program Q' :=
  h.consequence (fun _ => id) hQ

/-- After a refusal. -/
theorem upward (h : Attempt P program Q) (hQ : Upward Q) (refused : Prop) :
    Attempt P program fun refused' => Q (refused ∨ refused') :=
  h.post fun _ => hQ .inr

theorem frame (h : Attempt P program Q) (F : Assertion A O) :
    Attempt (P * F) program fun refused a => Q refused a * F := by
  rintro _ rest requests refusals ⟨owned, framed, hap, rfl, hP, hF⟩ hrest
  obtain ⟨howned, hframed⟩ := Heap.union_apart.mp hrest
  have hap' : owned.Apart (framed.union rest) := (Heap.union_apart.mpr ⟨hap.symm, howned.symm⟩).symm
  obtain ⟨a, owned', requests', refusals', hrun, hle, hap'', hQ⟩ :=
    h owned (framed.union rest) requests refusals hP hap'
  obtain ⟨hf, hr⟩ := Heap.union_apart.mp hap''.symm
  refine ⟨a, owned'.union framed, requests', refusals', ?_, hle, Heap.union_apart.mpr ⟨hr.symm, hframed⟩,
    owned', framed, hf.symm, rfl, hQ, hF⟩
  rw [Heap.union_assoc, hrun, Heap.union_assoc]

theorem of_any {ι : Type} {P : ι → Assertion A O} (h : ∀ i, Attempt (P i) program Q) :
    Attempt (any P) program Q := by
  rintro owned rest requests refusals ⟨i, hP⟩ hap
  exact h i owned rest requests refusals hP hap

theorem of_lift {p : Prop} (h : p → Attempt P program Q) : Attempt (lift p * P) program Q := by
  intro owned rest requests refusals hP hap
  obtain ⟨hp, hP⟩ := lift_mul_apply.mp hP
  exact h hp owned rest requests refusals hP hap

/-- An attempt after a step that is refused nothing. -/
theorem after {Q : α → Assertion A O} (h : Triple P program Q) (hnext : ∀ a, Attempt (Q a) (next a) S) :
    Attempt P (program >>= next) S := by
  intro owned rest requests refusals hP hap
  obtain ⟨a, owned', requests', hrun, hap', hQ⟩ := h owned rest requests refusals hP hap
  obtain ⟨b, owned'', requests'', refusals'', hrun', hattempt⟩ := hnext a owned' rest requests' refusals hQ hap'
  refine ⟨b, owned'', requests'', refusals'', ?_, hattempt⟩
  change (program _).bind _ = _
  rw [hrun]
  exact hrun'

/-- And one that frames `F`. -/
theorem step {Q : α → Assertion A O} (h : Triple P program Q) (F : Assertion A O) (hR : R = P * F)
    (hnext : ∀ a, Attempt (Q a * F) (next a) S) : Attempt R (program >>= next) S :=
  hR ▸ after (h.frame F) hnext

/-- An attempt, and one after it, with `F` framed. -/
theorem framed (h : Attempt P program Q) (F : Assertion A O) (hR : R = P * F)
    (hnext : ∀ refused a, Attempt (Q refused a * F) (next a) fun refused' => S (refused ∨ refused')) :
    Attempt R (program >>= next) S :=
  hR ▸ (h.frame F).bind hnext

/-- A step that may fail to get what it is to own. -/
theorem acquire {unable : Prop} {P : α → Assertion A O} {program : Program A O (Option α)}
    {next : Option α → Program A O β} (hS : Upward S) (h : Obtains unable 1 program P)
    (hnone : ∀ refused, unable ∨ refused → Triple R (next none) (S refused))
    (hsome : ∀ a, Attempt (P a * R) (next (some a)) S) : Attempt R (program >>= next) S := by
  refine h.framed R (one_mul R).symm fun refused a => ?_
  cases a with
  | none =>
    refine of_lift fun hp => Triple.attempt ?_
    rw [or_false]
    exact hnone refused hp
  | some a => exact (hsome a).upward hS refused

end Attempt

namespace Obtains

variable {ι κ : Type} {unable : Prop} {P R : Assertion A O} {Q : ι → Assertion A O} {S : κ → Assertion A O}

theorem result {i : ι} (hQ : ∀ heap, P heap → Q i heap) : Obtains unable P (Pure.pure (some i)) Q :=
  Triple.attempt (Triple.result hQ)

theorem fail (h : unable) : Obtains unable 1 (Pure.pure none) Q :=
  Triple.attempt (Triple.fail (.inl h))

theorem post {program : Program A O (Option ι)} {Q' : ι → Assertion A O} (h : Obtains unable P program Q)
    (hQ : ∀ i heap, Q i heap → Q' i heap) : Obtains unable P program Q' :=
  Attempt.post h fun _ i heap hh =>
    match i with
    | none => hh
    | some i => hQ i heap hh

/-- A step that obtains something, in a program that does. -/
theorem acquire {program : Program A O (Option ι)} {next : Option ι → Program A O (Option κ)}
    (h : Obtains unable 1 program Q)
    (hnone : ∀ refused, unable ∨ refused → Triple R (next none) (orElse (unable ∨ refused) S))
    (hsome : ∀ i, Obtains unable (Q i * R) (next (some i)) S) : Obtains unable R (program >>= next) S :=
  Attempt.acquire (upward_orElse unable S) h hnone hsome

end Obtains

/-! ### Programs that only read -/

/-- The program leaves the memory as it is. -/
def ReadOnly (program : Program A O α) : Prop :=
  ∀ (store : Store A O) (a : α) (store' : Store A O), program store = some (a, store') → store' = store

namespace ReadOnly

theorem pure (a : α) : ReadOnly (Pure.pure a : Program A O α) := by
  intro store a' store' h
  cases h
  rfl

theorem stuck : ReadOnly (stuck : Program A O α) := by
  intro store a store' h
  cases h

theorem bind {program : Program A O α} {next : α → Program A O β} (h : ReadOnly program)
    (hnext : ∀ a, ReadOnly (next a)) : ReadOnly (program >>= next) := by
  intro store b store' hrun
  obtain ⟨⟨a, store₁⟩, hfirst, hrun⟩ := Option.bind_eq_some_iff.mp hrun
  rw [← h store a store₁ hfirst]
  exact hnext a store₁ b store' hrun

theorem read (a : A) : ReadOnly (read a : Program A O O) := by
  intro store o store' hrun
  unfold Ownership.read at hrun
  split at hrun
  · cases hrun
  · cases hrun
    rfl

theorem readAs (kind : O → Option α) (a : A) : ReadOnly (readAs kind a) := by
  refine (read a).bind fun o => ?_
  cases kind o with
  | none => exact stuck
  | some content => exact pure content

end ReadOnly

/-- What is owned apart from the rest is determined. -/
theorem Heap.union_right_cancel {h k rest : Heap A O} (hh : h.Apart rest) (hk : k.Apart rest)
    (heq : h.union rest = k.union rest) : h = k := by
  funext a
  have ha := congrFun heq a
  rcases hh a with hn | hn <;> rcases hk a with kn | kn <;> simp_all [union]

/-- A program that only reads leaves what it owns. -/
theorem Triple.exactly {P : Assertion A O} {program : Program A O α} {Q : α → Assertion A O}
    (h : Triple P program Q) (hread : ReadOnly program) {owned : Heap A O} (hP : P owned) :
    Triple (Assertion.exactly owned) program fun a => lift (Q a owned) * Assertion.exactly owned := by
  rintro _ rest requests refusals rfl hap
  obtain ⟨a, owned', requests', hrun, hap', hQ⟩ := h _ rest requests refusals hP hap
  have hstore := hread _ _ _ hrun
  rw [Store.mk.injEq] at hstore
  rw [Heap.union_right_cancel hap' hap hstore.1] at hQ hrun
  exact ⟨a, _, requests', hrun, hap, lift_mul_apply.mpr ⟨hQ, rfl⟩⟩

/-! ### The rules of the commands -/

variable [DecidableEq A]

theorem malloc_obtains (unable : Prop) (allocator : Allocator A O) (o : O) :
    Obtains unable 1 (malloc allocator o) fun a => pointsTo a o := by
  rintro owned rest requests refusals rfl -
  rw [Heap.empty_union, malloc]
  cases hchoose : allocator.choose requests rest with
  | none =>
    exact ⟨none, Heap.empty, requests + 1, refusals + 1, by rw [Heap.empty_union], Nat.le_succ _,
      Heap.empty_apart rest, .inr (Nat.lt_succ_self _), rfl⟩
  | some a =>
    refine ⟨some a, Heap.single a o, requests + 1, refusals, ?_, Nat.le_refl _,
      Heap.single_apart.mpr (allocator.fresh hchoose), rfl⟩
    rw [← Heap.update_eq_single_union]

theorem read_triple (a : A) (o : O) :
    Triple (pointsTo a o) (read a) fun o' => lift (o' = o) * pointsTo a o := by
  rintro owned rest requests refusals rfl hap
  refine ⟨o, Heap.single a o, requests, ?_, hap, lift_mul_apply.mpr ⟨rfl, rfl⟩⟩
  simp [read, Heap.union]

theorem readAs_triple {kind : O → Option α} {o : O} {content : α} (h : kind o = some content) (a : A) :
    Triple (pointsTo a o) (readAs kind a) fun content' => lift (content' = content) * pointsTo a o := by
  refine (read_triple a o).bind fun o' => Triple.of_lift fun ho => ?_
  subst ho
  rw [h]
  exact Triple.result fun _ hh => lift_mul_apply.mpr ⟨rfl, hh⟩

/-- A read, and the program after it. -/
theorem readAs_step (kind : O → Option α) {o : O} {content : α} (h : kind o = some content) {a : A}
    {R F : Assertion A O} {S : β → Assertion A O} {next : α → Program A O β}
    (hR : R = pointsTo a o * F) (hnext : Triple (pointsTo a o * F) (next content) S) :
    Triple R (readAs kind a >>= next) S := by
  refine (readAs_triple h a).step F hR fun content' => ?_
  rw [mul_assoc]
  refine Triple.of_lift fun hc => ?_
  rw [hc]
  exact hnext

theorem write_triple (a : A) (o o' : O) :
    Triple (pointsTo a o) (write a o') fun _ => pointsTo a o' := by
  rintro owned rest requests refusals rfl hap
  refine ⟨(), Heap.single a o', requests, ?_, Heap.single_apart.mpr (Heap.single_apart.mp hap), rfl⟩
  rw [← Heap.update_single_union rest a o o']
  simp [write, Heap.union]

theorem free_triple (a : A) (o : O) : Triple (pointsTo a o) (free (some a)) fun _ => 1 := by
  rintro owned rest requests refusals rfl hap
  refine ⟨(), Heap.empty, requests, ?_, Heap.empty_apart rest, rfl⟩
  rw [Heap.empty_union, ← Heap.update_none_single_union (Heap.single_apart.mp hap) o]
  simp [free, Heap.union, Heap.update_none_single_union (Heap.single_apart.mp hap) o]

theorem free_null_triple : Triple (1 : Assertion A O) (free none) fun _ => 1 := Triple.pure () fun _ => 1

end Ownership
