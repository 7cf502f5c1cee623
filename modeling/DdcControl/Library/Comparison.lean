import Mathlib.Algebra.Order.Ring.Int
import Mathlib.Data.List.Lex

/-!
# Comparison functions

A comparison function in the manner of C has an integer for a result, of which the sign
matters. Here it may also have no result.

* `Consistent` — on some elements, the comparison is that of a total order.
* `Sorts` — what a sorting function promises: to permute, and to sort by a consistent
  comparison. `Sorts.eq_of_perm`: then the order in which the elements came is lost.
* `KeyLt` — a total order made another by comparing keys first, where both elements have
  one. `keyLt_trans_iff`: it is transitive where no element without a key comes between two
  with keys in the opposite order.
* `Agrees` — a comparison has results that mean some relation. `Agrees.consistent_iff`: it
  is consistent where the relation is transitive.
-/

namespace DdcControl.Comparison

variable {α : Type*}

/-- The first element is less. -/
def Less (cmp : α → α → Option ℤ) (a b : α) : Prop := ∃ n < 0, cmp a b = some n

/-- The first element is less, or the elements compare equal. -/
def AtMost (cmp : α → α → Option ℤ) (a b : α) : Prop := ∃ n ≤ 0, cmp a b = some n

instance (cmp : α → α → Option ℤ) (a b : α) : Decidable (AtMost cmp a b) :=
  match h : cmp a b with
  | none => isFalse (by rintro ⟨n, -, hn⟩; cases h.symm.trans hn)
  | some n =>
    if hle : n ≤ 0 then isTrue ⟨n, hle, h⟩
    else isFalse (by rintro ⟨m, hm, heq⟩; cases h.symm.trans heq; exact hle hm)

/-- A comparison by which the elements can be sorted: either order has the opposite result,
it is transitive, and only equal elements compare equal. -/
structure Consistent (cmp : α → α → Option ℤ) (l : List α) : Prop where
  swap : ∀ a ∈ l, ∀ b ∈ l, ∃ m n, cmp a b = some m ∧ cmp b a = some n ∧ m.sign = -n.sign
  trans : ∀ a ∈ l, ∀ b ∈ l, ∀ c ∈ l, Less cmp a b → Less cmp b c → Less cmp a c
  eq_of_zero : ∀ a ∈ l, ∀ b ∈ l, cmp a b = some 0 → a = b

/-- What `qsort` promises: it permutes, and it sorts where the comparison is consistent. -/
structure Sorts (qsort : (α → α → Option ℤ) → List α → List α) : Prop where
  perm : ∀ cmp l, (qsort cmp l).Perm l
  sorted : ∀ cmp l, Consistent cmp l → (qsort cmp l).Pairwise (AtMost cmp)

section Sorting

variable {cmp : α → α → Option ℤ} {l l' : List α}

theorem Consistent.mono (h : Consistent cmp l) (hsub : ∀ a ∈ l', a ∈ l) : Consistent cmp l' where
  swap a ha b hb := h.swap a (hsub a ha) b (hsub b hb)
  trans a ha b hb c hc := h.trans a (hsub a ha) b (hsub b hb) c (hsub c hc)
  eq_of_zero a ha b hb := h.eq_of_zero a (hsub a ha) b (hsub b hb)

theorem Consistent.antisymm (h : Consistent cmp l) {a b : α} (ha : a ∈ l) (hb : b ∈ l)
    (hab : AtMost cmp a b) (hba : AtMost cmp b a) : a = b := by
  obtain ⟨m, n, hm, hn, hsign⟩ := h.swap a ha b hb
  obtain ⟨m', hm', heqm⟩ := hab
  obtain ⟨n', hn', heqn⟩ := hba
  cases hm.symm.trans heqm
  cases hn.symm.trans heqn
  have hzero : m = 0 := by
    rcases Int.lt_trichotomy m 0 with hneg | hzero | hpos
    · rw [Int.sign_eq_neg_one_of_neg hneg] at hsign
      have hn1 : n.sign = 1 := by omega
      exact absurd (Int.sign_eq_one_iff_pos.mp hn1) (not_lt.mpr hn')
    · exact hzero
    · exact absurd hpos (not_lt.mpr hm')
  exact h.eq_of_zero a ha b hb (by rw [hm, hzero])

theorem Consistent.total (h : Consistent cmp l) {a b : α} (ha : a ∈ l) (hb : b ∈ l) :
    AtMost cmp a b ∨ AtMost cmp b a := by
  obtain ⟨m, n, hm, hn, hsign⟩ := h.swap a ha b hb
  by_cases hle : m ≤ 0
  · exact .inl ⟨m, hle, hm⟩
  · rw [Int.sign_eq_one_of_pos (not_le.mp hle)] at hsign
    have hn1 : n.sign = -1 := by omega
    exact .inr ⟨n, (Int.sign_eq_neg_one_iff_neg.mp hn1).le, hn⟩

theorem Consistent.atMost_trans (h : Consistent cmp l) {a b c : α} (ha : a ∈ l) (hb : b ∈ l)
    (hc : c ∈ l) (hab : AtMost cmp a b) (hbc : AtMost cmp b c) : AtMost cmp a c := by
  obtain ⟨m, hm, heqm⟩ := hab
  obtain ⟨n, hn, heqn⟩ := hbc
  rcases hm.lt_or_eq with hm | rfl
  · rcases hn.lt_or_eq with hn | rfl
    · obtain ⟨k, hk, heqk⟩ := h.trans a ha b hb c hc ⟨m, hm, heqm⟩ ⟨n, hn, heqn⟩
      exact ⟨k, hk.le, heqk⟩
    · obtain rfl := h.eq_of_zero b hb c hc heqn
      exact ⟨m, hm.le, heqm⟩
  · obtain rfl := h.eq_of_zero a ha b hb heqm
    exact ⟨n, hn, heqn⟩

/-- **The order in which the elements came is lost.** -/
theorem Sorts.eq_of_perm {qsort : (α → α → Option ℤ) → List α → List α} (hsorts : Sorts qsort)
    (h : Consistent cmp l) (hperm : l'.Perm l) : qsort cmp l' = qsort cmp l := by
  have hl' : Consistent cmp l' := h.mono fun a ha => hperm.subset ha
  refine List.Perm.eq_of_pairwise (fun a b ha hb hab hba => ?_) (hsorts.sorted cmp l' hl')
    (hsorts.sorted cmp l h) ((hsorts.perm cmp l').trans (hperm.trans (hsorts.perm cmp l).symm))
  exact h.antisymm (hperm.subset ((hsorts.perm cmp l').subset ha)) ((hsorts.perm cmp l).subset hb) hab hba

/-- Merge sort keeps the promise. -/
theorem mergeSort_sorts : Sorts fun (cmp : α → α → Option ℤ) l => l.mergeSort fun a b =>
    AtMost cmp a b where
  perm cmp l := List.mergeSort_perm l _
  sorted cmp l h := by
    -- Among the elements of the list, the comparison is transitive and total.
    let le (a b : {a // a ∈ l}) : Bool := AtMost cmp a.1 b.1
    have hmap := List.map_mergeSort (r := le) (s := fun a b => AtMost cmp a b) (f := Subtype.val)
      fun a (_ : a ∈ l.attach) b _ => rfl
    rw [List.attach_map_subtype_val] at hmap
    have hpairwise : (l.attach.mergeSort le).Pairwise (le · ·) := by
      refine List.pairwise_mergeSort (fun a b c hab hbc => ?_) (fun a b => ?_) l.attach
      · exact decide_eq_true (h.atMost_trans a.2 b.2 c.2 (of_decide_eq_true hab) (of_decide_eq_true hbc))
      · rw [Bool.or_eq_true, decide_eq_true_eq, decide_eq_true_eq]
        exact h.total a.2 b.2
    rw [← hmap, List.pairwise_map]
    exact hpairwise.imp of_decide_eq_true

/-- Merge sort of three elements. -/
theorem mergeSort_three (le : α → α → Bool) (a b c : α) :
    [a, b, c].mergeSort le = List.merge (if le a b then [a, b] else [b, a]) [c] le := by
  have htwo : [a, b].mergeSort le = if le a b then [a, b] else [b, a] := by
    rw [List.mergeSort]
    simp [List.MergeSort.Internal.splitInTwo_fst, List.MergeSort.Internal.splitInTwo_snd,
      List.merge]
  rw [List.mergeSort]
  simp [List.MergeSort.Internal.splitInTwo_fst, List.MergeSort.Internal.splitInTwo_snd, htwo]

/-- Merge sort of three elements of a cycle, in either order. -/
theorem mergeSort_cycle (le : α → α → Bool) {a b c : α} (hab : le a b = true) (hba : le b a = false)
    (hcb : le c b = false) (hac : le a c = false) :
    [a, b, c].mergeSort le = [c, a, b] ∧ [c, b, a].mergeSort le = [a, b, c] := by
  constructor
  · rw [mergeSort_three, if_pos hab, List.cons_merge_cons, hac]
    simp
  · rw [mergeSort_three, hcb, if_neg Bool.false_ne_true, List.cons_merge_cons, hba]
    simp

end Sorting

section Keys

variable {κ : Type*} [LinearOrder κ] (lt : α → α → Prop) [IsStrictTotalOrder α lt] (key : α → Option κ)

/-- Keys come first where both elements have one. -/
def KeyLt (a b : α) : Prop :=
  match key a, key b with
  | some m, some n => m < n ∨ (m = n ∧ lt a b)
  | _, _ => lt a b

/-- No element without a key comes between two with keys in the opposite order. -/
def Unmixed (l : List α) : Prop :=
  ∀ a ∈ l, ∀ b ∈ l, ∀ c ∈ l, ∀ m n, key a = some m → key b = some n → m < n → key c = none →
    ¬(lt b c ∧ lt c a)

variable {lt key} {l : List α}

omit [IsStrictTotalOrder α lt] in
theorem keyLt_keys {a b : α} {m n : κ} (ha : key a = some m) (hb : key b = some n) :
    KeyLt lt key a b ↔ m < n ∨ (m = n ∧ lt a b) := by
  rw [KeyLt, ha, hb]

omit [IsStrictTotalOrder α lt] in
theorem keyLt_left {a b : α} (ha : key a = none) : KeyLt lt key a b ↔ lt a b := by
  rw [KeyLt, ha]

omit [IsStrictTotalOrder α lt] in
theorem keyLt_right {a b : α} (hb : key b = none) : KeyLt lt key a b ↔ lt a b := by
  cases ha : key a <;> rw [KeyLt, ha, hb]

theorem keyLt_asymm {a b : α} (hab : KeyLt lt key a b) : ¬KeyLt lt key b a := by
  intro hba
  cases ha : key a with
  | none => exact asymm ((keyLt_left ha).mp hab) ((keyLt_right ha).mp hba)
  | some m =>
    cases hb : key b with
    | none => exact asymm ((keyLt_right hb).mp hab) ((keyLt_left hb).mp hba)
    | some n =>
      rcases (keyLt_keys ha hb).mp hab with hmn | ⟨heq, hlt⟩
      · rcases (keyLt_keys hb ha).mp hba with hnm | ⟨heq, -⟩
        · exact lt_asymm hmn hnm
        · exact hmn.ne' heq
      · rcases (keyLt_keys hb ha).mp hba with hnm | ⟨-, hgt⟩
        · exact hnm.ne' heq
        · exact asymm hlt hgt

theorem keyLt_trichotomous {a b : α} (h : a ≠ b) : KeyLt lt key a b ∨ KeyLt lt key b a := by
  have hlt : lt a b ∨ lt b a := by
    rcases trichotomous_of lt a b with hab | heq | hba
    · exact .inl hab
    · exact absurd heq h
    · exact .inr hba
  cases ha : key a with
  | none => rwa [keyLt_left ha, keyLt_right ha]
  | some m =>
    cases hb : key b with
    | none => rwa [keyLt_right hb, keyLt_left hb]
    | some n =>
      rw [keyLt_keys ha hb, keyLt_keys hb ha]
      rcases lt_trichotomy m n with hmn | rfl | hnm
      · exact .inl (.inl hmn)
      · exact hlt.imp (fun hab => .inr ⟨rfl, hab⟩) fun hba => .inr ⟨rfl, hba⟩
      · exact .inr (.inl hnm)

/-- Three elements, of which two have a key. -/
theorem not_lt_of_keyLt (h : Unmixed lt key l) {a b c : α} (ha : a ∈ l) (hb : b ∈ l) (hc : c ∈ l)
    {m n : κ} (hm : key a = some m) (hn : key b = some n) (hnone : key c = none)
    (hab : KeyLt lt key a b) (hbc : lt b c) : ¬lt c a := by
  intro hca
  rcases (keyLt_keys hm hn).mp hab with hmn | ⟨-, hlt⟩
  · exact h a ha b hb c hc m n hm hn hmn hnone ⟨hbc, hca⟩
  · exact asymm (trans_of lt hbc hca) hlt

/-- **Comparing keys first is transitive where nothing without a key comes between two with
keys in the opposite order.** -/
theorem keyLt_trans_iff : (∀ a ∈ l, ∀ b ∈ l, ∀ c ∈ l,
    KeyLt lt key a b → KeyLt lt key b c → KeyLt lt key a c) ↔ Unmixed lt key l := by
  constructor
  · intro h a ha b hb c hc m n hm hn hmn hnone ⟨hbc, hca⟩
    have hac := h a ha b hb c hc ((keyLt_keys hm hn).mpr (.inl hmn)) ((keyLt_right hnone).mpr hbc)
    exact asymm ((keyLt_right hnone).mp hac) hca
  · intro h a ha b hb c hc hab hbc
    -- The elements with a key decide which comparisons are of keys.
    cases hka : key a with
    | none =>
      rw [keyLt_left hka] at hab ⊢
      cases hkb : key b with
      | none => exact trans_of lt hab ((keyLt_left hkb).mp hbc)
      | some n =>
        cases hkc : key c with
        | none => exact trans_of lt hab ((keyLt_right hkc).mp hbc)
        | some k =>
          rcases trichotomous_of lt a c with hac | rfl | hca
          · exact hac
          · cases hka.symm.trans hkc
          · exact absurd hab (not_lt_of_keyLt h hb hc ha hkb hkc hka hbc hca)
    | some m =>
      cases hkb : key b with
      | none =>
        rw [keyLt_right hkb] at hab
        rw [keyLt_left hkb] at hbc
        by_cases heq : a = c
        · subst heq
          exact absurd hbc (asymm hab)
        · have htri : KeyLt lt key a c ∨ KeyLt lt key c a := keyLt_trichotomous heq
          rcases htri with hac | hca
          · exact hac
          · cases hkc : key c with
            | none => exact (keyLt_right hkc).mpr (trans_of lt hab hbc)
            | some k => exact absurd hbc (not_lt_of_keyLt h hc ha hb hkc hka hkb hca hab)
      | some n =>
        cases hkc : key c with
        | none =>
          rw [keyLt_right hkc] at hbc ⊢
          rcases trichotomous_of lt a c with hac | rfl | hca
          · exact hac
          · cases hka.symm.trans hkc
          · exact absurd hca (not_lt_of_keyLt h ha hb hc hka hkb hkc hab hbc)
        | some k =>
          rw [keyLt_keys hka hkb] at hab
          rw [keyLt_keys hkb hkc] at hbc
          rw [keyLt_keys hka hkc]
          rcases hab with hmn | ⟨rfl, hab⟩
          · rcases hbc with hnk | ⟨rfl, -⟩
            · exact .inl (hmn.trans hnk)
            · exact .inl hmn
          · rcases hbc with hnk | ⟨rfl, hbc⟩
            · exact .inl hnk
            · exact .inr ⟨rfl, trans_of lt hab hbc⟩

end Keys

section Agreement

variable {cmp : α → α → Option ℤ} {r : α → α → Prop} {l : List α}

/-- The comparison always has a result, and what it means. -/
def Agrees (cmp : α → α → Option ℤ) (r : α → α → Prop) (l : List α) : Prop :=
  ∀ a ∈ l, ∀ b ∈ l, ∃ n, cmp a b = some n ∧ (n < 0 ↔ r a b) ∧ (n = 0 ↔ a = b)

theorem Agrees.less_iff (h : Agrees cmp r l) {a b : α} (ha : a ∈ l) (hb : b ∈ l) :
    Less cmp a b ↔ r a b := by
  obtain ⟨n, hn, hneg, -⟩ := h a ha b hb
  constructor
  · rintro ⟨m, hm, heq⟩
    cases hn.symm.trans heq
    exact hneg.mp hm
  · exact fun hab => ⟨n, hneg.mpr hab, hn⟩

/-- **A comparison is consistent where what it means is transitive.** -/
theorem Agrees.consistent_iff (h : Agrees cmp r l) (hasymm : ∀ {a b}, r a b → ¬r b a)
    (htri : ∀ {a b}, a ≠ b → r a b ∨ r b a) :
    Consistent cmp l ↔ ∀ a ∈ l, ∀ b ∈ l, ∀ c ∈ l, r a b → r b c → r a c := by
  constructor
  · intro hc a ha b hb c hc' hab hbc
    rw [← h.less_iff ha hb] at hab
    rw [← h.less_iff hb hc'] at hbc
    exact (h.less_iff ha hc').mp (hc.trans a ha b hb c hc' hab hbc)
  · intro htrans
    refine ⟨fun a ha b hb => ?_, fun a ha b hb c hc hab hbc => ?_, fun a ha b hb heq => ?_⟩
    · obtain ⟨m, hm, hmneg, hmzero⟩ := h a ha b hb
      obtain ⟨n, hn, hnneg, hnzero⟩ := h b hb a ha
      refine ⟨m, n, hm, hn, ?_⟩
      by_cases heq : a = b
      · rw [hmzero.mpr heq, hnzero.mpr heq.symm]
        rfl
      · have hm0 : m ≠ 0 := fun hz => heq (hmzero.mp hz)
        have hn0 : n ≠ 0 := fun hz => heq (hnzero.mp hz).symm
        rcases htri heq with hab | hba
        · have hnpos : ¬n < 0 := fun hneg => hasymm hab (hnneg.mp hneg)
          rw [Int.sign_eq_neg_one_of_neg (hmneg.mpr hab), Int.sign_eq_one_of_pos (by omega)]
        · have hmpos : ¬m < 0 := fun hneg => hasymm hba (hmneg.mp hneg)
          rw [Int.sign_eq_neg_one_of_neg (hnneg.mpr hba), Int.sign_eq_one_of_pos (by omega)]
          rfl
    · rw [h.less_iff ha hb] at hab
      rw [h.less_iff hb hc] at hbc
      exact (h.less_iff ha hc).mpr (htrans a ha b hb c hc hab hbc)
    · obtain ⟨n, hn, -, hzero⟩ := h a ha b hb
      cases hn.symm.trans heq
      exact hzero.mp rfl

end Agreement

end DdcControl.Comparison
