import Mathlib.Data.List.Count
import Mathlib.Data.List.Nodup
import Mathlib.Data.List.Perm.Basic

/-!
# Lookups by key

Two lists that are joined by a key: each item of one looks for the first item of the
other with its key. Where the keys of a list are distinct, looking for a key finds the
one item that has it, and a list that has each of these keys once finds each item once.
-/

namespace DdcControl.Lookup

variable {α : Type*} {β : Type*} {κ : Type*} [DecidableEq κ]

/-- The first item with a key, and its index. -/
def first (key : α → κ) (l : List α) (k : κ) : Option (α × ℕ) := l.zipIdx.find? fun item => key item.1 = k

variable {key : α → κ} {l : List α} {k : κ} {a : α} {i : ℕ}

/-- What is found stands at its index, and has the key. -/
theorem first_eq_some (h : first key l k = some (a, i)) : l[i]? = some a ∧ key a = k := by
  unfold first at h
  have hkey := List.find?_some h
  exact ⟨List.mk_mem_zipIdx_iff_getElem?.mp (List.mem_of_find?_eq_some h), of_decide_eq_true hkey⟩

/-- Nothing is found where no item has the key. -/
theorem first_eq_none : first key l k = none ↔ ∀ a ∈ l, key a ≠ k := by
  simp only [first, List.find?_eq_none, decide_eq_true_eq]
  constructor
  · intro h a ha
    obtain ⟨i, hi⟩ := List.mem_iff_getElem?.mp ha
    exact h (a, i) (List.mk_mem_zipIdx_iff_getElem?.mpr hi)
  · exact fun h item hitem => h item.1 (List.fst_mem_of_mem_zipIdx hitem)

/-- The index apart, looking for a key finds the first item that has it. -/
theorem first_map_fst : (first key l k).map Prod.fst = l.find? fun a => key a = k := by
  have hfind : l.find? (fun a => key a = k) = (l.zipIdx.map Prod.fst).find? fun a => key a = k := by
    rw [List.zipIdx_map_fst]
  rw [hfind, List.find?_map]
  rfl

/-- Items with the same key are at the same index, where the keys are distinct. -/
theorem index_unique {κ : Type*} {key : α → κ} (hl : (l.map key).Nodup) {b : α} {j : ℕ}
    (ha : l[i]? = some a) (hb : l[j]? = some b) (hkey : key a = key b) : i = j := by
  have hi : (l.map key)[i]? = some (key a) := by rw [List.getElem?_map, ha]; rfl
  have hj : (l.map key)[j]? = some (key a) := by rw [List.getElem?_map, hb, hkey]; rfl
  exact (List.getElem?_inj (List.getElem?_eq_some_iff.mp hi).1 hl).mp (hi.trans hj.symm)

section Distinct

variable (hl : (l.map key).Nodup)
include hl

/-- **A key finds its item.** -/
theorem first_iff : first key l k = some (a, i) ↔ l[i]? = some a ∧ key a = k := by
  refine ⟨first_eq_some, fun ⟨hi, hk⟩ => ?_⟩
  cases hfirst : first key l k with
  | none => exact absurd hk (first_eq_none.mp hfirst a (List.mem_of_getElem? hi))
  | some found =>
    obtain ⟨hj, hkey⟩ := first_eq_some hfirst
    obtain rfl := index_unique hl hi hj (hk.trans hkey.symm)
    rw [hi] at hj
    rw [Option.some.inj hj]

theorem find?_iff : l.find? (fun a => key a = k) = some a ↔ a ∈ l ∧ key a = k := by
  rw [← first_map_fst, Option.map_eq_some_iff, List.mem_iff_getElem?]
  constructor
  · rintro ⟨⟨b, i⟩, h, rfl⟩
    exact ⟨⟨i, (first_eq_some h).1⟩, (first_eq_some h).2⟩
  · rintro ⟨⟨i, hi⟩, hk⟩
    exact ⟨(a, i), (first_iff hl).mpr ⟨hi, hk⟩, rfl⟩

/-- **A list that has each key once finds each item once.** -/
theorem perm_lookups {key' : β → κ} {q : List β}
    (hq : ∀ a ∈ l, q.countP (fun b => key' b = key a) = 1) :
    (q.filterMap fun b => l.find? fun a => key a = key' b).Perm l := by
  classical
  refine List.perm_iff_count.mpr fun a => ?_
  rw [List.count_filterMap]
  by_cases ha : a ∈ l
  · rw [List.count_eq_one_of_mem hl.of_map ha, ← hq a ha]
    refine List.countP_congr fun b _ => ?_
    rw [beq_iff_eq, find?_iff hl, decide_eq_true_iff]
    exact ⟨fun h => h.2.symm, fun h => ⟨ha, h.symm⟩⟩
  · rw [List.count_eq_zero_of_not_mem ha, List.countP_eq_zero]
    intro b _ hb
    exact ha ((find?_iff hl).mp (beq_iff_eq.mp hb)).1

end Distinct

/-- What is once in a list is one item. -/
theorem eq_of_countP_eq_one {p : α → Bool} {b : α} (h : l.countP p = 1) (ha : a ∈ l) (hb : b ∈ l)
    (hpa : p a = true) (hpb : p b = true) : a = b := by
  rw [List.countP_eq_length_filter, List.length_eq_one_iff] at h
  obtain ⟨c, hc⟩ := h
  have hmem : ∀ a ∈ l, p a = true → a = c := fun a ha hpa =>
    List.mem_singleton.mp (hc ▸ List.mem_filter.mpr ⟨ha, hpa⟩)
  rw [hmem a ha hpa, hmem b hb hpb]

/-- Two choices from a list that pick the same items, one of them wherever the other does, agree. -/
theorem eq_of_filterMap_eq {f g : α → Option β} {l : List α}
    (hfg : ∀ a ∈ l, (g a).isSome = true → (f a).isSome = true) (h : l.filterMap f = l.filterMap g) :
    ∀ a ∈ l, f a = g a := by
  induction l with
  | nil => exact List.forall_mem_nil _
  | cons a l ih =>
    rw [List.forall_mem_cons] at hfg ⊢
    rw [List.filterMap_cons, List.filterMap_cons] at h
    cases hg : g a with
    | some b =>
      obtain ⟨b', hf⟩ := Option.isSome_iff_exists.mp (hfg.1 (by rw [hg]; rfl))
      rw [hf, hg] at h
      obtain ⟨rfl, hrest⟩ := List.cons.inj h
      exact ⟨hf, ih hfg.2 hrest⟩
    | none =>
      rw [hg] at h
      cases hf : f a with
      | none =>
        rw [hf] at h
        exact ⟨rfl, ih hfg.2 h⟩
      | some b =>
        -- then the first picks more items than the second
        have hle : (l.filterMap g).length ≤ (l.filterMap f).length := by
          rw [List.length_filterMap_eq_countP, List.length_filterMap_eq_countP]
          exact List.countP_mono_left fun a ha => hfg.2 a ha
        rw [hf] at h
        have hlength := congrArg List.length h
        simp only [List.length_cons] at hlength
        omega

/-- A list that goes along with the items of another that are found, item by item. -/
theorem map_eq_of_forall₂ {γ : Type*} {δ : Type*} {f : β → Option γ} {g : α → δ} {g' : γ → δ}
    {l : List β} {l' : List α}
    (h : List.Forall₂ (fun a b => ∃ c, f b = some c ∧ g a = g' c) l' (l.filter fun b => (f b).isSome)) :
    l'.map g = (l.filterMap f).map g' := by
  induction l generalizing l' with
  | nil =>
    cases h
    rfl
  | cons b l ih =>
    cases hf : f b with
    | none =>
      rw [List.filter_cons_of_neg (by simp [hf])] at h
      rw [List.filterMap_cons_none hf]
      exact ih h
    | some c =>
      rw [List.filter_cons_of_pos (by simp [hf])] at h
      obtain ⟨a, rest, ⟨c', hc', hg⟩, hrest, rfl⟩ := List.forall₂_cons_right_iff.mp h
      rw [hf, Option.some.injEq] at hc'
      rw [List.filterMap_cons_some hf, List.map_cons, List.map_cons, ih hrest, hg, hc']

end DdcControl.Lookup
