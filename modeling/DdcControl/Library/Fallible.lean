import Mathlib.Data.List.Forall2

/-!
# Rules for fallible programs

A fallible program is an `Except ε α`, a loop of one is `List.foldlM`. This module
has the pre- and postconditions of such programs and their rules, over arbitrary
types of states and errors:

* `Yields x Q E` — `x` ends in a state satisfying `Q`, or fails with an error
  satisfying `E`;
* `Simulates x y R` — where `x` succeeds so does `y`, with results related by `R`;
* `Matches x y R` — `x` and `y` both fail, or both succeed with results related by
  `R`.

Each has a rule for sequencing and a rule for loops, which asks what one pass
preserves (`Yields.foldlM`, `Simulates.foldlM`, `Matches.foldlM`). The two checks
programs are made of, `reject` and `orError`, come with their rules.
-/

namespace Fallible

universe u v w

variable {ε δ : Type u} {α β γ ζ : Type v}

/-- Fail with `e` where the condition holds. -/
def reject (condition : Bool) (e : ε) : Except ε Unit := if condition then .error e else .ok ()

/-- `Option::ok_or`. -/
def orError (o : Option α) (e : ε) : Except ε α :=
  match o with
  | some a => .ok a
  | none => .error e

@[simp] theorem reject_eq_ok {condition : Bool} {e : ε} {u : Unit} :
    reject condition e = .ok u ↔ condition = false := by
  cases condition <;> simp [reject]

@[simp] theorem reject_eq_error {condition : Bool} {e e' : ε} :
    reject condition e = .error e' ↔ condition = true ∧ e = e' := by
  cases condition <;> simp [reject]

@[simp] theorem orError_eq_ok {o : Option α} {e : ε} {a : α} :
    orError o e = .ok a ↔ o = some a := by
  cases o <;> simp [orError]

@[simp] theorem orError_eq_error {o : Option α} {e e' : ε} :
    orError o e = .error e' ↔ o = none ∧ e = e' := by
  cases o <;> simp [orError]

theorem mapError_orError (f : ε → δ) (o : Option α) (e : ε) :
    (orError o e).mapError f = orError o (f e) := by
  cases o <;> rfl

theorem mapError_eq_ok {x : Except ε α} {f : ε → δ} {a : α} : x.mapError f = .ok a ↔ x = .ok a := by
  cases x <;> simp [Except.mapError]

@[simp] theorem toOption_eq_some {x : Except ε α} {a : α} : x.toOption = some a ↔ x = .ok a := by
  cases x <;> simp [Except.toOption]

theorem exists_of_isOk {x : Except ε α} (h : x.isOk = true) : ∃ a, x = .ok a := by
  cases x with
  | error => cases h
  | ok a => exact ⟨a, rfl⟩

/-! ### One program -/

/-- `x` ends in a state satisfying `Q`, or fails with an error satisfying `E`. -/
def Yields (x : Except ε α) (Q : α → Prop) (E : ε → Prop) : Prop :=
  match x with
  | .ok a => Q a
  | .error e => E e

theorem Yields.ok {x : Except ε α} {Q : α → Prop} {E : ε → Prop} (h : Yields x Q E) {a : α}
    (hx : x = .ok a) :
    Q a := by
  subst hx; exact h

theorem Yields.error {x : Except ε α} {Q : α → Prop} {E : ε → Prop} (h : Yields x Q E) {e : ε}
    (hx : x = .error e) : E e := by
  subst hx; exact h

theorem Yields.mono {x : Except ε α} {Q Q' : α → Prop} {E E' : ε → Prop} (h : Yields x Q E)
    (hQ : ∀ a, Q a → Q' a) (hE : ∀ e, E e → E' e) : Yields x Q' E' := by
  cases x with
  | ok a => exact hQ a h
  | error e => exact hE e h

/-- The rule of sequencing. -/
theorem Yields.bind {x : Except ε α} {k : α → Except ε β} {P : α → Prop} {Q : β → Prop}
    {E : ε → Prop} (h : Yields x P E) (hk : ∀ a, x = .ok a → P a → Yields (k a) Q E) :
    Yields (x >>= k) Q E := by
  cases x with
  | ok a => exact hk a rfl h
  | error e => exact h

theorem Yields.reject {condition : Bool} {e : ε} {Q : Unit → Prop} {E : ε → Prop}
    (hok : condition = false → Q ()) (herror : condition = true → E e) :
    Yields (reject condition e) Q E := by
  cases condition with
  | false => exact hok rfl
  | true => exact herror rfl

theorem Yields.orError {o : Option α} {e : ε} {Q : α → Prop} {E : ε → Prop}
    (hok : ∀ a, o = some a → Q a) (herror : o = none → E e) : Yields (orError o e) Q E := by
  cases o with
  | some a => exact hok a rfl
  | none => exact herror rfl

/-- The rule of loops: what every pass preserves, the loop preserves. -/
theorem Yields.foldlM {f : β → α → Except ε β} {P : β → Prop} {E : ε → Prop} {l : List α}
    (hstep : ∀ a ∈ l, ∀ b, P b → Yields (f b a) P E) {b : β} (hb : P b) :
    Yields (l.foldlM f b) P E := by
  induction l generalizing b with
  | nil => exact hb
  | cons a l ih =>
    rw [List.foldlM_cons]
    refine (hstep a (List.mem_cons_self ..) b hb).bind fun b' _ hb' => ?_
    exact ih (fun a' ha' => hstep a' (List.mem_cons_of_mem _ ha')) hb'

/-- A loop all of whose passes succeed, succeeds. -/
theorem foldlM_succeeds {f : β → α → Except ε β} {l : List α}
    (h : ∀ a ∈ l, ∀ b, ∃ b', f b a = .ok b') (b : β) :
    ∃ b', l.foldlM f b = .ok b' := by
  induction l generalizing b with
  | nil => exact ⟨b, rfl⟩
  | cons a l ih =>
    rw [List.forall_mem_cons] at h
    obtain ⟨b', hb'⟩ := h.1 b
    rw [List.foldlM_cons, hb']
    exact ih h.2 b'

/-- A loop all of whose passes leave the state leaves it. -/
theorem foldlM_eq_self {f : β → α → Except ε β} {l : List α} {b : β} (h : ∀ a ∈ l, f b a = .ok b) :
    l.foldlM f b = .ok b := by
  induction l with
  | nil => rfl
  | cons a l ih =>
    rw [List.forall_mem_cons] at h
    rw [List.foldlM_cons, h.1]
    exact ih h.2

theorem ok_bind (a : α) (k : α → Except ε β) : (Except.ok a >>= k) = k a := rfl

theorem bind_eq_ok {x : Except ε α} {k : α → Except ε β} {b : β} :
    (x >>= k) = .ok b ↔ ∃ a, x = .ok a ∧ k a = .ok b := by
  cases x with
  | ok a => exact ⟨fun h => ⟨a, rfl, h⟩, fun ⟨_, h, h'⟩ => by cases h; exact h'⟩
  | error e => exact ⟨fun h => (nomatch h), fun ⟨_, h, _⟩ => (nomatch h)⟩

/-- A loop that succeeds passes through a state before each of its items. -/
theorem foldlM_split {f : β → α → Except ε β} {l₁ l₂ : List α} {a : α} {b b' : β}
    (h : (l₁ ++ a :: l₂).foldlM f b = .ok b') :
    ∃ c d, l₁.foldlM f b = .ok c ∧ f c a = .ok d ∧ l₂.foldlM f d = .ok b' := by
  rw [List.foldlM_append, bind_eq_ok] at h
  obtain ⟨c, hc, h⟩ := h
  rw [List.foldlM_cons, bind_eq_ok] at h
  obtain ⟨d, hd, h⟩ := h
  exact ⟨c, d, hc, hd, h⟩

/-- **The rule of loops with history**: what holds at the start and is preserved by each
item, given the items before it, holds of the whole list at the end. -/
theorem foldlM_history {f : β → α → Except ε β} {P : List α → β → Prop} {l : List α} {b b' : β}
    (hstep : ∀ done a b b', P done b → f b a = .ok b' → P (done ++ [a]) b') (h0 : P [] b)
    (h : l.foldlM f b = .ok b') : P l b' := by
  have hrest : ∀ (rest done : List α) (b : β), P done b → rest.foldlM f b = .ok b' → P (done ++ rest) b' := by
    intro rest
    induction rest with
    | nil =>
      intro done b hb h
      cases h
      rwa [List.append_nil]
    | cons a rest ih =>
      intro done b hb h
      rw [List.foldlM_cons, bind_eq_ok] at h
      obtain ⟨c, hc, h⟩ := h
      have := ih (done ++ [a]) c (hstep done a b c hb hc) h
      rwa [List.append_assoc, List.singleton_append] at this
  exact hrest l [] b h0 h

/-- A property every item preserves, the loop preserves where it succeeds. -/
theorem foldlM_preserves {f : β → α → Except ε β} {P : β → Prop} {l : List α} {b b' : β}
    (hstep : ∀ a ∈ l, ∀ b b', P b → f b a = .ok b' → P b') (h0 : P b)
    (h : l.foldlM f b = .ok b') : P b' :=
  (Yields.foldlM (E := fun _ => True) (fun a ha b hb => by
    cases hf : f b a with
    | ok b' => exact hstep a ha b b' hb hf
    | error e => trivial) h0).ok h

/-- A loop that collects results succeeds where every item does. -/
theorem mapM_eq_ok {f : α → Except ε β} {l : List α} {out : List β} :
    l.mapM f = .ok out ↔ List.Forall₂ (fun a b => f a = .ok b) l out := by
  induction l generalizing out with
  | nil =>
    rw [List.mapM_nil, List.forall₂_nil_left_iff]
    exact ⟨fun h => (Except.ok.inj h).symm, fun h => congrArg Except.ok h.symm⟩
  | cons a l ih =>
    rw [List.mapM_cons, bind_eq_ok]
    constructor
    · rintro ⟨b, hb, h⟩
      obtain ⟨bs, hbs, h⟩ := bind_eq_ok.mp h
      cases h
      exact .cons hb (ih.mp hbs)
    · rintro (_ | ⟨hb, hbs⟩)
      exact ⟨_, hb, bind_eq_ok.mpr ⟨_, ih.mpr hbs, rfl⟩⟩

/-- An item of a list is related to one of the other. -/
theorem exists_of_forall₂ {α β : Type*} {R : α → β → Prop} {l : List α} {l' : List β}
    (h : List.Forall₂ R l l') {a : α} (ha : a ∈ l) : ∃ b ∈ l', R a b := by
  induction h with
  | nil => cases ha
  | @cons a' b l l' hab _ ih =>
    rcases List.mem_cons.mp ha with rfl | ha
    · exact ⟨b, List.mem_cons_self .., hab⟩
    · obtain ⟨b', hb, hR⟩ := ih ha
      exact ⟨b', List.mem_cons_of_mem _ hb, hR⟩

/-- A loop that does nothing but check succeeds where every check does. -/
theorem forM_eq_ok {f : α → Except ε PUnit} {l : List α} :
    l.forM f = .ok ⟨⟩ ↔ ∀ a ∈ l, f a = .ok ⟨⟩ := by
  induction l with
  | nil => exact ⟨fun _ _ h => (nomatch h), fun _ => rfl⟩
  | cons a l ih =>
    show (f a >>= fun _ => l.forM f) = _ ↔ _
    rw [bind_eq_ok, List.forall_mem_cons, ← ih]
    exact ⟨fun ⟨_, h⟩ => h, fun h => ⟨_, h⟩⟩

/-- A search that stops at the first hit ends where no test fails, and says whether
some item is a hit. -/
theorem anyM_eq_ok {f : α → Except ε Bool} {l : List α} (h : ∀ a ∈ l, ∃ b, f a = .ok b) :
    ∃ b, l.anyM f = .ok b ∧ (b = true ↔ ∃ a ∈ l, f a = .ok true) := by
  induction l with
  | nil => exact ⟨false, rfl, by simp⟩
  | cons a l ih =>
    rw [List.forall_mem_cons] at h
    obtain ⟨⟨b, hb⟩, hl⟩ := h
    obtain ⟨rest, hrest, hiff⟩ := ih hl
    cases b with
    | true =>
      refine ⟨true, ?_, by simp [hb]⟩
      rw [List.anyM, hb]
      rfl
    | false =>
      refine ⟨rest, ?_, by simp [hb, hiff]⟩
      rw [List.anyM, hb]
      exact hrest

/-- A loop whose passes each run a script of smaller steps on a view of its state runs
the scripts one after the other. -/
theorem foldlM_flatMap {step : β → α → Except ε β} {ω : Type w} {run : γ → ω → Except ε γ}
    (view : β → γ) (script : α → List ω) {l : List α}
    (hstep : ∀ a ∈ l, ∀ b b', step b a = .ok b' → (script a).foldlM run (view b) = .ok (view b'))
    {b b' : β}
    (h : l.foldlM step b = .ok b') : (l.flatMap script).foldlM run (view b) = .ok (view b') := by
  induction l generalizing b with
  | nil => cases h; rfl
  | cons a l ih =>
    rw [List.foldlM_cons, bind_eq_ok] at h
    obtain ⟨c, hc, h⟩ := h
    rw [List.flatMap_cons, List.foldlM_append, bind_eq_ok]
    exact ⟨view c, hstep a (List.mem_cons_self ..) b c hc,
      ih (fun a' ha' => hstep a' (List.mem_cons_of_mem _ ha')) h⟩

/-! ### Two programs, the first leading -/

/-- Where `x` succeeds, so does `y`, with a related result. -/
def Simulates (x : Except ε α) (y : Except δ β) (R : α → β → Prop) : Prop :=
  ∀ a, x = .ok a → ∃ b, y = .ok b ∧ R a b

theorem Simulates.error {e : ε} {y : Except δ β} {R : α → β → Prop} :
    Simulates (.error e : Except ε α) y R := fun _ h => nomatch h

theorem Simulates.pure {a : α} {b : β} {R : α → β → Prop} (h : R a b) :
    Simulates (.ok a : Except ε α) (.ok b : Except δ β) R :=
      fun _ ha => ⟨b, rfl, by cases ha; exact h⟩

theorem Simulates.refl {x : Except ε α} {R : α → α → Prop} (h : ∀ a, R a a) : Simulates x x R :=
  fun a ha => ⟨a, ha, h a⟩

theorem Simulates.mono {x : Except ε α} {y : Except δ β} {R S : α → β → Prop} (h : Simulates x y R)
    (hRS : ∀ a b, R a b → S a b) : Simulates x y S := fun a ha => by
  obtain ⟨b, hb, hR⟩ := h a ha
  exact ⟨b, hb, hRS a b hR⟩

/-- A check that `y` makes is one that `x` makes. -/
theorem Simulates.reject {condition condition' : Bool} {e : ε} {d : δ} {R : Unit → Unit → Prop}
    (h : condition' = true → condition = true) (hR : R () ()) :
    Simulates (reject condition e) (reject condition' d) R := fun _ hok => by
  rw [reject_eq_ok] at hok
  refine ⟨(), reject_eq_ok.mpr ?_, hR⟩
  rw [← Bool.not_eq_true] at hok ⊢
  exact fun h' => hok (h h')

/-- The rule of sequencing. -/
theorem Simulates.bind {x : Except ε α} {y : Except δ β} {k : α → Except ε γ} {m : β → Except δ ζ}
    {R : α → β → Prop} {S : γ → ζ → Prop} (h : Simulates x y R)
    (hk : ∀ a b, R a b → Simulates (k a) (m b) S) : Simulates (x >>= k) (y >>= m) S := by
  intro c hc
  obtain ⟨a, ha, hc⟩ := bind_eq_ok.mp hc
  obtain ⟨b, hb, hR⟩ := h a ha
  obtain ⟨d, hd, hS⟩ := hk a b hR c hc
  exact ⟨d, bind_eq_ok.mpr ⟨b, hb, hd⟩, hS⟩

/-- The rule of a first step that both take. -/
theorem Simulates.common {x : Except ε α} {k : α → Except ε β} {m : α → Except ε γ}
    {R : β → γ → Prop} (hk : ∀ a, Simulates (k a) (m a) R) : Simulates (x >>= k) (x >>= m) R :=
  (Simulates.refl (R := Eq) fun _ => rfl).bind fun a _ h => h ▸ hk a

/-- The rule of loops over one list. -/
theorem Simulates.foldlM {f : β → α → Except ε β} {g : γ → α → Except δ γ}
    {R : β → γ → Prop} {l : List α} (hstep : ∀ a ∈ l, ∀ b c, R b c → Simulates (f b a) (g c a) R)
    {b : β} {c : γ} (h : R b c) :
    Simulates (l.foldlM f b) (l.foldlM g c) R := by
  induction l generalizing b c with
  | nil => exact Simulates.pure h
  | cons a l ih =>
    rw [List.foldlM_cons, List.foldlM_cons]
    exact (hstep a (List.mem_cons_self ..) b c h).bind fun b' c' h' =>
      ih (fun a' ha' => hstep a' (List.mem_cons_of_mem _ ha')) h'

/-! ### Two programs side by side -/

/-- Both fail, or both succeed with related results. -/
def Matches (x : Except ε α) (y : Except δ β) (R : α → β → Prop) : Prop :=
  match x, y with
  | .ok a, .ok b => R a b
  | .error _, .error _ => True
  | _, _ => False

theorem Matches.error {e : ε} {d : δ} {R : α → β → Prop} :
    Matches (.error e : Except ε α) (.error d : Except δ β) R := trivial

theorem Matches.refl {x : Except ε α} {R : α → α → Prop} (h : ∀ a, R a a) : Matches x x R := by
  cases x with
  | ok a => exact h a
  | error e => trivial

theorem Matches.reject {condition condition' : Bool} {e : ε} {d : δ} {R : Unit → Unit → Prop}
    (h : condition = condition') (hR : R () ()) : Matches (reject condition e)
      (reject condition' d) R := by
  subst h
  cases condition with
  | false => exact hR
  | true => trivial

theorem Matches.orError {o : Option α} {o' : Option β} {e : ε} {d : δ} {R : α → β → Prop}
    (h : Option.Rel R o o') :
    Matches (orError o e) (orError o' d) R := by
  cases h with
  | some hR => exact hR
  | none => trivial

/-- The rule of sequencing. -/
theorem Matches.bind {x : Except ε α} {y : Except δ β} {k : α → Except ε γ} {m : β → Except δ ζ}
    {R : α → β → Prop} {S : γ → ζ → Prop} (h : Matches x y R)
    (hk : ∀ a b, R a b → Matches (k a) (m b) S) : Matches (x >>= k) (y >>= m) S := by
  cases x with
  | ok a => cases y with
    | ok b => exact hk a b h
    | error d => exact h.elim
  | error e => cases y with
    | ok b => exact h.elim
    | error d => trivial

/-- The rule of loops over two lists of related items. -/
theorem Matches.foldlM {α' : Type v} {f : β → α → Except ε β} {g : γ → α' → Except δ γ}
    {R : β → γ → Prop} {S : α → α' → Prop} {l : List α} {l' : List α'} (hl : List.Forall₂ S l l')
    (hstep : ∀ a a', S a a' → ∀ b c, R b c → Matches (f b a) (g c a') R) {b : β}
    {c : γ} (h : R b c) :
    Matches (l.foldlM f b) (l'.foldlM g c) R := by
  induction hl generalizing b c with
  | nil => exact h
  | cons ha _ ih =>
    rw [List.foldlM_cons, List.foldlM_cons]
    exact (hstep _ _ ha b c h).bind fun _ _ h' => ih h'

/-- The rule of loops that collect results. -/
theorem Matches.mapM {α' : Type v} {f : α → Except ε β} {g : α' → Except δ γ} {R : β → γ → Prop}
    {S : α → α' → Prop} {l : List α} {l' : List α'} (hl : List.Forall₂ S l l')
    (h : ∀ a a', S a a' → Matches (f a) (g a') R) :
    Matches (l.mapM f) (l'.mapM g) (List.Forall₂ R) := by
  induction hl with
  | nil => exact .nil
  | cons ha _ ih =>
    rw [List.mapM_cons, List.mapM_cons]
    exact (h _ _ ha).bind fun _ _ hb => ih.bind fun _ _ hbs => .cons hb hbs

/-- Loops over related items whose passes are equal are equal. -/
theorem foldlM_congr₂ {α' : Type v} {f : β → α → Except ε β} {g : β → α' → Except ε β}
    {S : α → α' → Prop} {l : List α} {l' : List α'} (hl : List.Forall₂ S l l')
    (h : ∀ a a', S a a' → ∀ b, f b a = g b a') (b : β) :
    l.foldlM f b = l'.foldlM g b := by
  induction hl generalizing b with
  | nil => rfl
  | cons ha _ ih =>
    rw [List.foldlM_cons, List.foldlM_cons, h _ _ ha]
    exact congrArg _ (funext ih)

end Fallible
