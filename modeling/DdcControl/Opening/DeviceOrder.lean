import DdcControl.Command.Numbers
import DdcControl.Library.Comparison

/-!
# The order of the devices

`ddcci_probe` collects the names of the I2C devices under `/dev`, and sorts them, by the
numbers they end in where both names end in digits, and as texts otherwise.

## The model

The comparison has no result where the `int` difference overflows. `atoi` is the C
library's, which stores the `long` of `strtol` in an `int`. `qsort` is a parameter, of which
nothing is known where the comparison is not consistent. The prefix of the names is another:
it depends on the operating system. Memory does not run out.

## What is proved

* `consistent_iff` — the comparison is that of a total order exactly for `Sortable` names.
* `deviceOrder_iff` — and exactly for these does the order in which `/dev` is read not
  matter.
* `deviceOrder_cycle` — for three names it does.
-/

namespace DdcControl.Opening

open Capabilities Command Comparison

/-! ### Comparing -/

/-- `p[-1] >= '0' && p[-1] <= '9'`. -/
def isDecimal (byte : UInt8) : Bool := '0'.toUInt8 ≤ byte && byte ≤ '9'.toUInt8

/-- `ddcci_find_trailing_digits`. -/
def ddcciFindTrailingDigits (s : List UInt8) : Option (List UInt8) :=
  let digits := (s.reverse.takeWhile isDecimal).reverse
  if digits.isEmpty then none else some digits

/-- `atoi`. -/
def atoi (s : List UInt8) : ℤ :=
  let s := s.dropWhile isCSpace
  let sign := (s.take 1).filter isSign
  let digits := (s.drop sign.length).takeWhile isDecimal
  let value : ℕ := digits.foldl (fun value byte => 10 * value + (byte - '0'.toUInt8).toNat) 0
  asInt (if sign = ['-'.toUInt8] then -value else value)

/-- `strcmp`. -/
def strcmp : List UInt8 → List UInt8 → ℤ
  | [], [] => 0
  | [], _ :: _ => -1
  | _ :: _, [] => 1
  | a :: as, b :: bs => if a = b then strcmp as bs else if a < b then -1 else 1

/-- `a - b`, of `int`. -/
def subInt (a b : ℤ) : Option ℤ := if -2 ^ 31 ≤ a - b ∧ a - b < 2 ^ 31 then some (a - b) else none

/-- `ddcci_cmp_dev_filenames`. -/
def ddcciCmpDevFilenames (sa sb : List UInt8) : Option ℤ :=
  match ddcciFindTrailingDigits sa, ddcciFindTrailingDigits sb with
  | some na, some nb =>
    let ia := atoi na
    let ib := atoi nb
    if ia ≠ ib then subInt ia ib else some (strcmp sa sb)
  | _, _ => some (strcmp sa sb)

/-! ### Probing -/

/-- The names that `ddcci_probe` collects. -/
def devFilenames (devPrefix : List UInt8) (entries : List (List UInt8)) : List (List UInt8) :=
  (entries.filter devPrefix.isPrefixOf).map (utf8 "dev:/dev/" ++ ·)

/-- The sorting function that is called. -/
abbrev Qsort : Type := (List UInt8 → List UInt8 → Option ℤ) → List (List UInt8) → List (List UInt8)

/-- The names in the order in which they are probed. -/
def sortedFilenames (qsort : Qsort) (devPrefix : List UInt8) (entries : List (List UInt8)) :
    List (List UInt8) :=
  let names := devFilenames devPrefix entries
  if names.length > 1 then qsort ddcciCmpDevFilenames names else names

example : ddcciCmpDevFilenames (utf8 "dev:/dev/i2c-2") (utf8 "dev:/dev/i2c-10") = some (-8) := by decide

/-! ### When the names can be sorted -/

/-- The number that a name ends in. -/
def number (s : List UInt8) : Option ℤ := (ddcciFindTrailingDigits s).map atoi

/-- The numbers are close enough to be subtracted, and no name without one comes, as a text,
between two whose numbers are in the opposite order. -/
structure Sortable (names : List (List UInt8)) : Prop where
  close : ∀ a ∈ names, ∀ b ∈ names, ∀ m n, number a = some m → number b = some n → |m - n| < 2 ^ 31
  unmixed : Unmixed (· < ·) number names

/-- Every enumeration of `/dev` gives the same order, whatever `qsort` does. -/
def OrderLost (devPrefix : List UInt8) (entries : List (List UInt8)) : Prop :=
  ∀ qsort : Qsort, Sorts qsort → ∀ entries', entries'.Perm entries →
    sortedFilenames qsort devPrefix entries' = sortedFilenames qsort devPrefix entries

instance isStrictTotalOrder_names : IsStrictTotalOrder (List UInt8) (· < ·) where
  trichotomous := Std.Trichotomous.trichotomous
  irrefl := Std.Irrefl.irrefl
  trans := IsTrans.trans

theorem strcmp_spec (a b : List UInt8) : (strcmp a b < 0 ↔ a < b) ∧ (strcmp a b = 0 ↔ a = b) := by
  induction a, b using strcmp.induct with
  | case1 => simp [strcmp]
  | case2 => simp [strcmp]
  | case3 => simp [strcmp]
  | case4 a as bs ih => simpa [strcmp, List.cons_lt_cons_iff] using ih
  | case5 a as b bs hne hlt => simp [strcmp, List.cons_lt_cons_iff, hne, hlt]
  | case6 a as b bs hne hlt => simp [strcmp, List.cons_lt_cons_iff, hne, hlt]

/-- By the numbers, where both names have one. -/
theorem cmp_numbers {a b : List UInt8} {m n : ℤ} (ha : number a = some m) (hb : number b = some n) :
    ddcciCmpDevFilenames a b = if m ≠ n then subInt m n else some (strcmp a b) := by
  obtain ⟨na, hna, rfl⟩ := Option.map_eq_some_iff.mp ha
  obtain ⟨nb, hnb, rfl⟩ := Option.map_eq_some_iff.mp hb
  rw [ddcciCmpDevFilenames, hna, hnb]

/-- As texts, otherwise. -/
theorem cmp_texts {a b : List UInt8} (h : number a = none ∨ number b = none) :
    ddcciCmpDevFilenames a b = some (strcmp a b) := by
  simp only [number, Option.map_eq_none_iff] at h
  rcases h with h | h
  · rw [ddcciCmpDevFilenames, h]
  · cases ha : ddcciFindTrailingDigits a <;> rw [ddcciCmpDevFilenames, ha, h]

/-- The comparison means the order by numbers, then as texts. -/
theorem cmp_spec {a b : List UInt8}
    (hclose : ∀ m n, number a = some m → number b = some n → |m - n| < 2 ^ 31) :
    ∃ n, ddcciCmpDevFilenames a b = some n ∧ (n < 0 ↔ KeyLt (· < ·) number a b) ∧ (n = 0 ↔ a = b) := by
  obtain ⟨hneg, hzero⟩ := strcmp_spec a b
  cases ha : number a with
  | none => exact ⟨_, cmp_texts (.inl ha), hneg.trans (keyLt_left ha).symm, hzero⟩
  | some m =>
    cases hb : number b with
    | none => exact ⟨_, cmp_texts (.inr hb), hneg.trans (keyLt_right hb).symm, hzero⟩
    | some n =>
      rw [cmp_numbers ha hb, keyLt_keys ha hb]
      by_cases hmn : m = n
      · refine ⟨_, if_neg (not_not.mpr hmn), hneg.trans ?_, hzero⟩
        simp [hmn]
      · have habs := abs_lt.mp (hclose m n ha hb)
        have hab : a ≠ b := by
          rintro rfl
          exact hmn (Option.some.inj (ha.symm.trans hb))
        refine ⟨m - n, ?_, ?_, ?_⟩
        · rw [if_pos hmn, subInt, if_pos ⟨by omega, by omega⟩]
        · simp only [hmn, false_and, or_false]
          omega
        · simp only [hab, iff_false]
          omega

/-- Numbers that can be subtracted both ways are close. -/
theorem close_of_consistent {names : List (List UInt8)}
    (h : Consistent ddcciCmpDevFilenames names) :
    ∀ a ∈ names, ∀ b ∈ names, ∀ m n, number a = some m → number b = some n → |m - n| < 2 ^ 31 := by
  intro a ha b hb m n hm hn
  by_cases hmn : m = n
  · simp [hmn]
  · obtain ⟨v, w, hv, hw, -⟩ := h.swap a ha b hb
    rw [cmp_numbers hm hn, if_pos hmn, subInt, Option.ite_none_right_eq_some] at hv
    rw [cmp_numbers hn hm, if_pos (Ne.symm hmn), subInt, Option.ite_none_right_eq_some] at hw
    exact abs_lt.mpr ⟨by omega, by omega⟩

/-- **The comparison is that of a total order exactly for sortable names.** -/
theorem consistent_iff (names : List (List UInt8)) :
    Consistent ddcciCmpDevFilenames names ↔ Sortable names := by
  have hconsistent (hclose : ∀ a ∈ names, ∀ b ∈ names, ∀ m n, number a = some m →
      number b = some n → |m - n| < 2 ^ 31) :
      Consistent ddcciCmpDevFilenames names ↔ Unmixed (· < ·) number names := by
    have hagrees : Agrees ddcciCmpDevFilenames (KeyLt (· < ·) number) names :=
      fun a ha b hb => cmp_spec (hclose a ha b hb)
    exact (hagrees.consistent_iff keyLt_asymm keyLt_trichotomous).trans keyLt_trans_iff
  constructor
  · intro h
    have hclose := close_of_consistent h
    exact ⟨hclose, (hconsistent hclose).mp h⟩
  · intro h
    exact (hconsistent h.close).mpr h.unmixed

/-! ### The order of `/dev` -/

theorem devFilenames_perm {devPrefix : List UInt8} {entries entries' : List (List UInt8)}
    (h : entries'.Perm entries) :
    (devFilenames devPrefix entries').Perm (devFilenames devPrefix entries) :=
  (h.filter _).map _

theorem sortedFilenames_perm {qsort : Qsort} (hsorts : Sorts qsort) (devPrefix : List UInt8)
    (entries : List (List UInt8)) :
    (sortedFilenames qsort devPrefix entries).Perm (devFilenames devPrefix entries) := by
  rw [sortedFilenames]
  split_ifs
  · exact hsorts.perm _ _
  · exact .refl _

/-- Sortable names come in one order. -/
theorem orderLost_of_consistent {devPrefix : List UInt8} {entries : List (List UInt8)}
    (h : Consistent ddcciCmpDevFilenames (devFilenames devPrefix entries)) :
    OrderLost devPrefix entries := by
  intro qsort hsorts entries' hperm
  have hnames : (devFilenames devPrefix entries').Perm (devFilenames devPrefix entries) :=
    devFilenames_perm hperm
  simp only [sortedFilenames, hnames.length_eq]
  by_cases hcount : (devFilenames devPrefix entries).length > 1
  · rw [if_pos hcount, if_pos hcount, hsorts.eq_of_perm h hnames]
  · rw [if_neg hcount, if_neg hcount]
    cases hlist : devFilenames devPrefix entries with
    | nil => rw [hlist] at hnames; exact hnames.eq_nil
    | cons name rest =>
      rw [hlist, List.length_cons] at hcount
      have hrest : rest = [] := List.length_eq_zero_iff.mp (by omega)
      rw [hlist, hrest] at hnames
      rw [hrest]
      exact hnames.eq_singleton

/-- Names that are all equal can be sorted. -/
theorem sortable_of_forall_eq {names : List (List UInt8)} (h : ∀ a ∈ names, ∀ b ∈ names, a = b) :
    Sortable names where
  close a ha b hb m n hm hn := by
    cases h a ha b hb
    cases hm.symm.trans hn
    simp
  unmixed a ha b hb c hc m n hm hn hmn := by
    cases h a ha b hb
    cases hm.symm.trans hn
    exact absurd hmn (lt_irrefl m)

open Classical in
/-- A sorting function that leaves alone what cannot be sorted. -/
noncomputable def sortOrKeep : Qsort := fun cmp l =>
  if Consistent cmp l then l.mergeSort fun a b => AtMost cmp a b else l

theorem sortOrKeep_sorts : Sorts sortOrKeep where
  perm cmp l := by
    unfold sortOrKeep
    split_ifs
    · exact mergeSort_sorts.perm cmp l
    · exact .refl l
  sorted cmp l h := by
    rw [sortOrKeep, if_pos h]
    exact mergeSort_sorts.sorted cmp l h

/-- **Other names come in the order of `/dev`.** -/
theorem consistent_of_orderLost {devPrefix : List UInt8} {entries : List (List UInt8)}
    (h : OrderLost devPrefix entries) :
    Consistent ddcciCmpDevFilenames (devFilenames devPrefix entries) := by
  by_contra hnot
  -- Some name is not the first one; an enumeration may begin with it.
  obtain ⟨a, ha, b, hb, hab⟩ : ∃ a ∈ devFilenames devPrefix entries,
      ∃ b ∈ devFilenames devPrefix entries, a ≠ b := by
    by_contra hall
    push Not at hall
    exact hnot ((consistent_iff _).mpr (sortable_of_forall_eq hall))
  have hkept {entries'} (hperm : entries'.Perm entries) :
      sortedFilenames sortOrKeep devPrefix entries' = devFilenames devPrefix entries' := by
    have hnot' : ¬Consistent ddcciCmpDevFilenames (devFilenames devPrefix entries') := fun hc =>
      hnot (hc.mono fun name hname => (devFilenames_perm hperm).symm.subset hname)
    simp [sortedFilenames, sortOrKeep, hnot']
  have hfirst {name} (hname : name ∈ devFilenames devPrefix entries) :
      (devFilenames devPrefix entries).head? = some name := by
    obtain ⟨entry, hentry, rfl⟩ := List.mem_map.mp hname
    obtain ⟨hmem, hbegins⟩ := List.mem_filter.mp hentry
    have hperm : (entry :: entries.erase entry).Perm entries := (List.perm_cons_erase hmem).symm
    have hsame := h sortOrKeep sortOrKeep_sorts _ hperm
    rw [hkept hperm, hkept (.refl entries)] at hsame
    rw [← hsame, devFilenames, List.filter_cons_of_pos hbegins]
    rfl
  exact hab (Option.some.inj ((hfirst ha).symm.trans (hfirst hb)))

/-- **The devices are sorted exactly where their names can be**: the comparison is that of
a total order, and the order in which `/dev` is read does not matter, if and only if the
names are sortable. -/
theorem deviceOrder_iff (devPrefix : List UInt8) (entries : List (List UInt8)) :
    (Consistent ddcciCmpDevFilenames (devFilenames devPrefix entries) ↔
        Sortable (devFilenames devPrefix entries)) ∧
      (OrderLost devPrefix entries ↔ Sortable (devFilenames devPrefix entries)) := by
  refine ⟨consistent_iff _, ?_⟩
  rw [← consistent_iff]
  exact ⟨consistent_of_orderLost, orderLost_of_consistent⟩

/-- Two buses, and a link to one of them. -/
def linkedBuses : List (List UInt8) := [utf8 "i2c-2", utf8 "i2c-10", utf8 "i2c-1_hdmi"]

/-- **Each of the three comes before the next, and the last before the first**; so how they
are sorted depends on how they are read. -/
theorem deviceOrder_cycle :
    devFilenames (utf8 "i2c-") linkedBuses =
        [utf8 "dev:/dev/i2c-2", utf8 "dev:/dev/i2c-10", utf8 "dev:/dev/i2c-1_hdmi"] ∧
      Less ddcciCmpDevFilenames (utf8 "dev:/dev/i2c-2") (utf8 "dev:/dev/i2c-10") ∧
      Less ddcciCmpDevFilenames (utf8 "dev:/dev/i2c-10") (utf8 "dev:/dev/i2c-1_hdmi") ∧
      Less ddcciCmpDevFilenames (utf8 "dev:/dev/i2c-1_hdmi") (utf8 "dev:/dev/i2c-2") ∧
      ¬Consistent ddcciCmpDevFilenames (devFilenames (utf8 "i2c-") linkedBuses) ∧
      sortedFilenames (fun cmp l => l.mergeSort fun a b => AtMost cmp a b) (utf8 "i2c-") linkedBuses ≠
        sortedFilenames (fun cmp l => l.mergeSort fun a b => AtMost cmp a b) (utf8 "i2c-") linkedBuses.reverse := by
  have hnames : devFilenames (utf8 "i2c-") linkedBuses =
      [utf8 "dev:/dev/i2c-2", utf8 "dev:/dev/i2c-10", utf8 "dev:/dev/i2c-1_hdmi"] := by decide
  have hfirst : Less ddcciCmpDevFilenames (utf8 "dev:/dev/i2c-2") (utf8 "dev:/dev/i2c-10") :=
    ⟨-8, by decide, by decide⟩
  have hsecond : Less ddcciCmpDevFilenames (utf8 "dev:/dev/i2c-10") (utf8 "dev:/dev/i2c-1_hdmi") :=
    ⟨-1, by decide, by decide⟩
  have hthird : Less ddcciCmpDevFilenames (utf8 "dev:/dev/i2c-1_hdmi") (utf8 "dev:/dev/i2c-2") :=
    ⟨-1, by decide, by decide⟩
  refine ⟨hnames, hfirst, hsecond, hthird, fun h => ?_, ?_⟩
  · rw [hnames] at h
    obtain ⟨n, hn, heq⟩ := h.trans _ (by simp) _ (by simp) _ (by simp) hfirst hsecond
    have hback : ddcciCmpDevFilenames (utf8 "dev:/dev/i2c-2") (utf8 "dev:/dev/i2c-1_hdmi") =
        some 1 := by decide
    cases hback.symm.trans heq
    exact absurd hn (by decide)
  · have hreversed : devFilenames (utf8 "i2c-") linkedBuses.reverse =
        [utf8 "dev:/dev/i2c-1_hdmi", utf8 "dev:/dev/i2c-10", utf8 "dev:/dev/i2c-2"] := by decide
    obtain ⟨hsorted, hsorted'⟩ := mergeSort_cycle (fun a b => AtMost ddcciCmpDevFilenames a b)
      (a := utf8 "dev:/dev/i2c-2") (b := utf8 "dev:/dev/i2c-10") (c := utf8 "dev:/dev/i2c-1_hdmi")
      (by decide) (by decide) (by decide) (by decide)
    rw [sortedFilenames, sortedFilenames, hnames, hreversed, if_pos (by simp), if_pos (by simp),
      hsorted, hsorted']
    decide

end DdcControl.Opening
