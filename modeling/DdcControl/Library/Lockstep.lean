import Mathlib.Init

/-!
# Lockstep refinement

A program that may go wrong, `StateT S Option`, next to one that cannot, `StateM T`. From
states related by `P`, `Refines P Q x y` says that `x` does not go wrong, that it has
`y`'s result, and that the states they end in are related by `Q` of the result.
`Ensures P Q y` says of the second alone that from states satisfying `P` it ends in one
satisfying `Q` of the result. The rules follow the programs.
-/

namespace Lockstep

variable {S T α β : Type} {P K : S → T → Prop} {Q : α → S → T → Prop} {R : β → S → T → Prop}

/-- From states related by `P`, `x` does not go wrong, and ends like `y`, in states
related by `Q`. -/
def Refines (P : S → T → Prop) (Q : α → S → T → Prop) (x : StateT S Option α) (y : StateM T α) : Prop :=
  ∀ s t, P s t → ∃ s', x.run s = some ((y.run t).1, s') ∧ Q (y.run t).1 s' (y.run t).2

theorem Refines.pure {a : α} (h : ∀ s t, P s t → Q a s t) : Refines P Q (pure a) (pure a) :=
  fun s t hs => ⟨s, rfl, h s t hs⟩

theorem Refines.bind {x : StateT S Option α} {y : StateM T α} {f : α → StateT S Option β}
    {g : α → StateM T β} (h : Refines P Q x y) (hk : ∀ a, Refines (Q a) R (f a) (g a)) :
    Refines P R (x >>= f) (y >>= g) := by
  intro s t hs
  obtain ⟨s', hx, hs'⟩ := h s t hs
  obtain ⟨s'', hf, hs''⟩ := hk _ s' _ hs'
  exact ⟨s'', by rw [StateT.run_bind, hx]; exact hf, hs''⟩

theorem Refines.ite {condition : Prop} [Decidable condition] {x x' : StateT S Option α}
    {y y' : StateM T α} (h : Refines P Q x y) (h' : Refines P Q x' y') :
    Refines P Q (if condition then x else x') (if condition then y else y') := by
  split
  · exact h
  · exact h'

/-- Less may be asked of the states. -/
theorem Refines.mono {Q' : α → S → T → Prop} {x : StateT S Option α} {y : StateM T α}
    (h : Refines P Q x y) (hQ : ∀ a s t, Q a s t → Q' a s t) : Refines P Q' x y := by
  intro s t hs
  obtain ⟨s', hx, hs'⟩ := h s t hs
  exact ⟨s', hx, hQ _ _ _ hs'⟩

/-- A step that both make. -/
theorem Refines.step {f : S → α × S} {g : T → α × T}
    (h : ∀ s t, P s t → (f s).1 = (g t).1 ∧ Q (g t).1 (f s).2 (g t).2) :
    Refines P Q (modifyGet f) (modifyGet g) := by
  intro s t hs
  obtain ⟨heq, hs'⟩ := h s t hs
  exact ⟨(f s).2, congrArg some (Prod.ext heq rfl), hs'⟩

/-- A step that only the first makes. -/
theorem Refines.left {x : StateT S Option α} {f : α → StateT S Option β} {y : StateM T β} {a : α}
    (h : ∀ s t, P s t → ∃ s', x.run s = some (a, s') ∧ K s' t) (hk : Refines K R (f a) y) :
    Refines P R (x >>= f) y := by
  intro s t hs
  obtain ⟨s', hx, hs'⟩ := h s t hs
  obtain ⟨s'', hf, hs''⟩ := hk s' t hs'
  exact ⟨s'', by rw [StateT.run_bind, hx]; exact hf, hs''⟩

/-- A step whose result is known. -/
theorem Refines.bind_pure {x : StateT S Option α} {f : α → StateT S Option β}
    {y : StateM T β} {a : α} (h : Refines P (fun _ => K) x (Pure.pure a))
    (hk : Refines K R (f a) y) : Refines P R (x >>= f) y := .left h hk

/-- A step that only the second makes. -/
theorem Refines.right {x : StateT S Option β} {y : StateM T α} {g : α → StateM T β} {a : α}
    (h : ∀ s t, P s t → (y.run t).1 = a ∧ K s (y.run t).2) (hk : Refines K R x (g a)) :
    Refines P R x (y >>= g) := by
  intro s t hs
  obtain ⟨rfl, hs'⟩ := h s t hs
  exact hk s _ hs'

/-- A relation that is one of a family. -/
theorem Refines.of_exists {ι : Type} {F : ι → S → T → Prop} {x : StateT S Option α} {y : StateM T α}
    (hP : ∀ s t, P s t → ∃ i, F i s t) (h : ∀ i, Refines (F i) Q x y) : Refines P Q x y := by
  intro s t hs
  obtain ⟨i, hi⟩ := hP s t hs
  exact h i s t hi

/-! ### One program -/

section Ensures

variable {P : T → Prop} {Q : α → T → Prop} {R : β → T → Prop}

/-- From states satisfying `P`, `y` ends in one satisfying `Q`. -/
def Ensures (P : T → Prop) (Q : α → T → Prop) (y : StateM T α) : Prop :=
  ∀ t, P t → Q (y.run t).1 (y.run t).2

theorem Ensures.pure {a : α} (h : ∀ t, P t → Q a t) : Ensures P Q (pure a) := h

theorem Ensures.bind {y : StateM T α} {g : α → StateM T β} (h : Ensures P Q y)
    (hk : ∀ a, Ensures (Q a) R (g a)) :
    Ensures P R (y >>= g) := fun t ht => hk _ _ (h t ht)

theorem Ensures.ite {condition : Prop} [Decidable condition] {y y' : StateM T α}
    (h : condition → Ensures P Q y) (h' : ¬condition → Ensures P Q y') :
    Ensures P Q (if condition then y else y') := by
  split
  · exact h ‹_›
  · exact h' ‹_›

theorem Ensures.step {g : T → α × T} (h : ∀ t, P t → Q (g t).1 (g t).2) :
    Ensures P Q (modifyGet g) := h

/-- A condition that is one of a family. -/
theorem Ensures.of_exists {ι : Sort*} {F : ι → T → Prop} {y : StateM T α}
    (hP : ∀ t, P t → ∃ i, F i t) (h : ∀ i, Ensures (F i) Q y) : Ensures P Q y := by
  intro t ht
  obtain ⟨i, hi⟩ := hP t ht
  exact h i t hi

end Ensures

end Lockstep
