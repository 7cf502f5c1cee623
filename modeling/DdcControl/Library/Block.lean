import Mathlib.Data.List.Basic
import Mathlib.Data.List.TakeWhile

/-!
# Arrays of a C program

A `Block` is a pointer to allocated elements: null, or the elements, of which some may
not have been written. Loading outside the block, or an element that was not written, has
no result; neither has storing outside it.

`Block.Holds` says what is known of the first elements, and has a rule for each of the
operations.
-/

universe u

/-- A null pointer, or allocated elements, written or not. -/
abbrev Block (α : Type u) : Type u := Option (List (Option α))

namespace Block

variable {α : Type u}

/-- `block[i]`, read. -/
def load (block : Block α) (i : ℕ) : Option α := block.bind fun elements : List (Option α) => elements[i]?.join

/-- `block[i] = a`. -/
def store (block : Block α) (i : ℕ) (a : α) : Option (Block α) :=
  block.bind fun elements : List (Option α) => if i < elements.length then some (some (elements.set i (some a))) else none

/-- `malloc`, with room for `n` elements, and whether it succeeds. -/
def malloc (succeeds : Bool) (n : ℕ) : Block α := if succeeds then some (List.replicate n none) else none

/-- The first `n` elements. -/
def take (block : Block α) (n : ℕ) : Option (List α) :=
  block.bind fun elements : List (Option α) => go n elements
where
  go : ℕ → List (Option α) → Option (List α)
    | 0, _ => some []
    | n + 1, some a :: rest => (a :: ·) <$> go n rest
    | _ + 1, _ => none

/-- The elements up to a null one. -/
def untilNull (block : Block (Option α)) : Option (List α) :=
  block.bind fun elements : List (Option (Option α)) => go elements
where
  go : List (Option (Option α)) → Option (List α)
    | some (some a) :: rest => (a :: ·) <$> go rest
    | some none :: _ => some []
    | none :: _ | [] => none

/-- The `n` elements from `i` on. -/
def slice (block : Block α) : ℕ → ℕ → Option (List α)
  | _, 0 => some []
  | i, n + 1 => do
    let a ← block.load i
    let rest ← slice block (i + 1) n
    return a :: rest

/-- The elements from `i` on, up to one at which to `stop`. -/
def upTo (block : Block α) (stop : α → Bool) (i : ℕ) : Option (List α) :=
  block.bind fun elements : List (Option α) => go (elements.drop i)
where
  go : List (Option α) → Option (List α)
    | some a :: rest => if stop a then some [] else (a :: ·) <$> go rest
    | none :: _ | [] => none

/-- `a`, stored `n` times from `i` on. -/
def fill (a : α) : ℕ → ℕ → Block α → Option (Block α)
  | _, 0, block => some block
  | i, n + 1, block => do
    let block ← block.store i a
    fill a (i + 1) n block

/-- `l`, stored from `i` on. -/
def stores : ℕ → List α → Block α → Option (Block α)
  | _, [], block => some block
  | i, a :: l, block => do
    let block ← block.store i a
    stores (i + 1) l block

/-- The block with its first elements replaced. -/
def replaced (block : Block α) (l : List α) : Block α :=
  block.map fun elements : List (Option α) => l.map some ++ elements.drop l.length

/-- `l`, stored from the first element on. -/
def overwrite (block : Block α) (l : List α) : Option (Block α) :=
  block.bind fun elements : List (Option α) => if l.length ≤ elements.length then some (block.replaced l) else none

/-- The block has at least `n` elements. -/
def Covers (block : Block α) (n : ℕ) : Prop := ∃ elements : List (Option α), block = some elements ∧ n ≤ elements.length

/-- The block covers `known`, and its elements are those that are known. -/
def Holds (block : Block α) (known : List (Option α)) : Prop :=
  ∃ elements : List (Option α), block = some elements ∧ known.length ≤ elements.length ∧
    ∀ (i : ℕ) (a : α), known[i]? = some (some a) → elements[i]? = some (some a)

theorem Holds.covers {block : Block α} {known : List (Option α)} (h : block.Holds known) {n : ℕ}
    (hn : n ≤ known.length) :
    block.Covers n := by
  obtain ⟨elements, hblock, hlength, -⟩ := h
  exact ⟨elements, hblock, Nat.le_trans hn hlength⟩

theorem Holds.load {block : Block α} {known : List (Option α)} (h : block.Holds known)
    {i : ℕ} {a : α} (hi : known[i]? = some (some a)) : block.load i = some a := by
  obtain ⟨elements, rfl, -, hknown⟩ := h
  simp [Block.load, hknown i a hi]

/-- A store makes one more element known. -/
theorem Holds.store {block : Block α} {known : List (Option α)} (h : block.Holds known) {i : ℕ}
    (hi : i < known.length)
    (a : α) : ∃ block', block.store i a = some block' ∧ block'.Holds (known.set i (some a)) := by
  obtain ⟨elements, rfl, hlength, hknown⟩ := h
  refine ⟨some (elements.set i (some a)), by simp [Block.store, Nat.lt_of_lt_of_le hi hlength], _,
    rfl, by simpa using hlength, ?_⟩
  intro j b hj
  rw [List.getElem?_set] at hj ⊢
  split
  case isTrue heq =>
    rw [if_pos heq, if_pos hi] at hj
    rw [if_pos (Nat.lt_of_lt_of_le hi hlength), hj]
  case isFalse hne =>
    rw [if_neg hne] at hj
    exact hknown j b hj

theorem Holds.malloc (α : Type u) {n m : ℕ} (h : n ≤ m) :
    (malloc true m : Block α).Holds (List.replicate n none) := by
  refine ⟨_, rfl, by simpa using h, fun i a hi => ?_⟩
  exact nomatch (List.mem_replicate.mp (List.mem_of_getElem? hi)).2

/-- A store at the end of what is known. -/
theorem Holds.push {block : Block α} {known more : List (Option α)} {b : Option α}
    (h : block.Holds (known ++ b :: more)) (a : α) :
    ∃ block', block.store known.length a = some block' ∧ block'.Holds (known ++ some a :: more) := by
  have hset : (known ++ b :: more).set known.length (some a) = known ++ some a :: more := by
    rw [List.set_append_right _ _ (Nat.le_refl _), Nat.sub_self, List.set_cons_zero]
  rw [← hset]
  exact h.store (by simp) a

/-- Where all is known, the block starts with it. -/
theorem Holds.eq_append {block : Block α} {l : List α} (h : block.Holds (l.map some)) :
    ∃ rest, block = some (l.map some ++ rest) := by
  obtain ⟨elements, rfl, hlength, hknown⟩ := h
  rw [List.length_map] at hlength
  have htake : elements.take l.length = l.map some := by
    refine List.ext_getElem? fun i => ?_
    by_cases hi : i < l.length
    · have hsome : (l.map some)[i]? = some (some l[i]) := by simp
      rw [List.getElem?_take_of_lt hi, hsome, hknown i _ hsome]
    · rw [List.getElem?_eq_none (by simp; omega), List.getElem?_eq_none (by simp; omega)]
  exact ⟨elements.drop l.length, by rw [← htake, List.take_append_drop]⟩

theorem take_go (l : List α) (rest : List (Option α)) :
    take.go l.length (l.map some ++ rest) = some l := by
  induction l with
  | nil => rfl
  | cons a l ih => simp [take.go, ih]

theorem Holds.take {block : Block α} {l : List α} (h : block.Holds (l.map some)) :
    block.take l.length = some l := by
  obtain ⟨rest, rfl⟩ := h.eq_append
  exact take_go l rest

theorem untilNull_go (l : List α) (rest : List (Option (Option α))) :
    untilNull.go ((l.map some ++ [none]).map some ++ rest) = some l := by
  induction l with
  | nil => rfl
  | cons a l ih => simpa [untilNull.go] using ih

theorem Holds.untilNull {block : Block (Option α)} {l : List α}
    (h : block.Holds ((l.map some ++ [none]).map some)) :
    block.untilNull = some l := by
  obtain ⟨rest, rfl⟩ := h.eq_append
  exact untilNull_go l rest

theorem Covers.overwrite {block : Block α} {n : ℕ} (h : block.Covers n) {l : List α}
    (hl : l.length ≤ n) :
    block.overwrite l = some (block.replaced l) := by
  obtain ⟨elements, rfl, hn⟩ := h
  exact if_pos (Nat.le_trans hl hn)

theorem replaced_nil (block : Block α) : block.replaced [] = block := by
  cases block <;> rfl

theorem take_isSome {block : Block α} {n : ℕ} {l : List α} (h : block.take n = some l) :
    block.isNone = false := by
  cases block with
  | none => cases h
  | some elements => rfl

theorem store_append (front rest : List (Option α)) (b : Option α) (a : α) :
    store (some (front ++ b :: rest)) front.length a = some (some (front ++ some a :: rest)) := by
  simp [store, List.set_append_right]

/-- A text stored over as many elements. -/
theorem stores_append (front rest : List (Option α)) {old : List (Option α)} {l : List α}
    (h : old.length = l.length) :
    stores front.length l (some (front ++ (old ++ rest))) = some (some (front ++ (l.map some ++ rest))) := by
  induction l generalizing front old with
  | nil => rw [List.length_eq_zero_iff.mp h]; rfl
  | cons a l ih =>
    obtain ⟨b, old, rfl⟩ := List.exists_cons_of_length_eq_add_one h
    have hstep := ih (front ++ [some a]) (Nat.succ.inj h)
    rw [List.length_append, List.length_singleton, List.append_assoc, List.append_assoc] at hstep
    rw [stores, List.cons_append, store_append, Option.bind_eq_bind, Option.bind_some]
    exact hstep

/-! ### Blocks of which every element is written -/

/-- The block that holds `l`, and nothing more. -/
def written (l : List α) : Block α := some (l.map some)

theorem load_written (l : List α) (i : ℕ) : (written l).load i = l[i]? := by
  show (l.map some)[i]?.join = l[i]?
  rw [List.getElem?_map]
  cases l[i]? <;> rfl

theorem slice_written {l : List α} {i n : ℕ} (h : i + n ≤ l.length) :
    (written l).slice i n = some ((l.drop i).take n) := by
  induction n generalizing i with
  | zero => rfl
  | succ n ih =>
    have hi : i < l.length := by omega
    rw [slice, load_written, List.getElem?_eq_getElem hi, Option.bind_eq_bind, Option.bind_some,
      ih (by omega), List.drop_eq_getElem_cons hi]
    rfl

theorem upTo_go {stop : α → Bool} {front : List α} (h : ∀ a ∈ front, stop a = false) {a : α}
    (ha : stop a = true) (rest : List (Option α)) :
    upTo.go stop (front.map some ++ some a :: rest) = some front := by
  induction front with
  | nil => simp [upTo.go, ha]
  | cons b front ih =>
    rw [List.map_cons, List.cons_append, upTo.go, h b (List.mem_cons_self ..),
      if_neg Bool.false_ne_true, ih fun c hc => h c (List.mem_cons_of_mem _ hc)]
    rfl

theorem upTo_written {stop : α → Bool} {l : List α} {i : ℕ} (h : ∃ a ∈ l.drop i, stop a = true) :
    (written l).upTo stop i = some ((l.drop i).takeWhile fun a => !stop a) := by
  have hrest := List.takeWhile_append_dropWhile (p := fun a => !stop a) (l := l.drop i)
  cases hdrop : (l.drop i).dropWhile fun a => !stop a with
  | nil =>
    obtain ⟨a, ha, hstop⟩ := h
    have hall := List.dropWhile_eq_nil_iff.mp hdrop a ha
    simp [hstop] at hall
  | cons a rest =>
    have ha : stop a = true := by
      have hhead := List.head?_dropWhile_not (fun a => !stop a) (l.drop i)
      simpa [hdrop] using hhead
    rw [hdrop] at hrest
    show upTo.go stop ((l.map some).drop i) = _
    rw [← List.map_drop, ← hrest, List.map_append, List.map_cons]
    refine (upTo_go (fun b hb => ?_) ha _).trans ?_
    · simpa using List.mem_takeWhile_imp hb
    · rw [hrest]

theorem fill_written (a : α) (front old rest : List α) :
    (written (front ++ old ++ rest)).fill a front.length old.length =
      some (written (front ++ List.replicate old.length a ++ rest)) := by
  induction old generalizing front with
  | nil => rfl
  | cons b old ih =>
    have hstore : (written (front ++ (b :: old) ++ rest)).store front.length a =
        some (written (front ++ [a] ++ old ++ rest)) := by
      simp [written, store, List.set_append_right]
    have hfill := ih (front ++ [a])
    rw [List.length_append, List.length_singleton] at hfill
    rw [List.length_cons, fill, hstore, Option.bind_eq_bind, Option.bind_some, hfill,
      List.replicate_succ]
    simp

end Block
