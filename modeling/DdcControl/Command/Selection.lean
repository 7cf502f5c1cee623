import DdcControl.Daemon.Device

/-!
# Choosing the monitors

A target of `ddccontrol` that is not a device is a selector: the name of a monitor, its Plug
and Play ID or the name of its profile, and after a slash the index of one of the monitors it
selects. The program probes for monitors, opens each that supports DDC/CI, and closes it
again; with an index it stops at the one it wants.

## The model

The program uses the library of this computer, of which `Ddcci` is any. Memory does not run
out.

## What is proved

* `parseSelectorIndex_index` — which targets have an index, and which it is.
* `selectMonitors_exact` — the monitors selected are those that match if all that support
  DDC/CI are opened, or the one at the index, though the program stops there.
-/

namespace DdcControl.Command

open Daemon Fallible

/-! ### Selectors -/

/-- `isdigit`. -/
def isdigit (c : UInt8) : Bool := '0'.toUInt8 ≤ c && c ≤ '9'.toUInt8

/-- `strtol`, base 10, of digits. -/
def decimalValue (digits : List UInt8) : ℕ := digits.foldl (fun n c => 10 * n + (c - '0'.toUInt8).toNat) 0

/-- What is before and after the last slash, which `strrchr` finds. -/
def splitLast : List UInt8 → Option (List UInt8 × List UInt8)
  | [] => none
  | c :: rest =>
    match splitLast rest with
    | some (before, suffix) => some (c :: before, suffix)
    | none => if c = '/'.toUInt8 then some ([], rest) else none

/-- `parse_selector_index`: the selector without its index, and the index. -/
def parseSelectorIndex (selector : List UInt8) : Option (List UInt8 × Option ℕ) :=
  match splitLast selector with
  | none => some (selector, none)
  | some (base, suffix) =>
    if base = [] || suffix = [] then none
    -- a selector with a slash in it
    else if !suffix.all isdigit then some (selector, none)
    -- `ERANGE`, or more than `INT_MAX`
    else if decimalValue suffix > 2 ^ 31 - 1 then none
    else some (base, some (decimalValue suffix))

theorem splitLast_eq_none {selector : List UInt8} :
    splitLast selector = none ↔ '/'.toUInt8 ∉ selector := by
  induction selector with
  | nil => simp [splitLast]
  | cons c rest ih =>
    rw [splitLast, List.mem_cons, not_or, ← ih]
    cases splitLast rest with
    | none =>
      by_cases hc : c = '/'.toUInt8
      · simp [hc]
      · simp [hc, Ne.symm hc]
    | some split => simp

theorem splitLast_append (base : List UInt8) {suffix : List UInt8} (h : '/'.toUInt8 ∉ suffix) :
    splitLast (base ++ '/'.toUInt8 :: suffix) = some (base, suffix) := by
  induction base with
  | nil => rw [List.nil_append, splitLast, splitLast_eq_none.mpr h]; exact if_pos rfl
  | cons c base ih => rw [List.cons_append, splitLast, ih]

theorem splitLast_eq_some {selector base suffix : List UInt8} :
    splitLast selector = some (base, suffix) ↔
      selector = base ++ '/'.toUInt8 :: suffix ∧ '/'.toUInt8 ∉ suffix := by
  constructor
  · intro h
    induction selector generalizing base with
    | nil => cases h
    | cons c rest ih =>
      rw [splitLast] at h
      cases hrest : splitLast rest with
      | none =>
        rw [hrest] at h
        dsimp only at h
        split_ifs at h with hc
        cases h
        exact ⟨by rw [hc, List.nil_append], splitLast_eq_none.mp hrest⟩
      | some split =>
        rw [hrest] at h
        cases h
        obtain ⟨hsplit, hsuffix⟩ := ih hrest
        exact ⟨congrArg (List.cons c) hsplit, hsuffix⟩
  · rintro ⟨rfl, hsuffix⟩
    exact splitLast_append base hsuffix

/-- **The index of a selector** is what follows the last slash, if that is digits and not too
large; a selector without its index is not empty. -/
theorem parseSelectorIndex_index {selector base : List UInt8} {n : ℕ} :
    parseSelectorIndex selector = some (base, some n) ↔
      ∃ suffix, selector = base ++ '/'.toUInt8 :: suffix ∧ base ≠ [] ∧ suffix ≠ [] ∧ suffix.all isdigit = true ∧
        decimalValue suffix = n ∧ n < 2 ^ 31 := by
  unfold parseSelectorIndex
  constructor
  · intro h
    cases hsplit : splitLast selector with
    | none => rw [hsplit] at h; cases h
    | some split =>
      obtain ⟨before, suffix⟩ := split
      rw [hsplit] at h
      dsimp only at h
      split_ifs at h with hempty hdigits hlarge
      · cases h
      simp only [Option.some.injEq, Prod.mk.injEq] at h
      obtain ⟨rfl, rfl⟩ := h
      simp only [Bool.or_eq_true, decide_eq_true_eq, not_or] at hempty
      simp only [Bool.not_eq_true', Bool.not_eq_false] at hdigits
      exact ⟨suffix, (splitLast_eq_some.mp hsplit).1, hempty.1, hempty.2, hdigits, rfl, by omega⟩
  · rintro ⟨suffix, rfl, hbase, hsuffix, hdigits, rfl, hlarge⟩
    have hslash : '/'.toUInt8 ∉ suffix := fun hmem =>
      absurd (List.all_eq_true.mp hdigits _ hmem) (by decide)
    rw [splitLast_append base hslash]
    simp only [hbase, hsuffix, hdigits, decide_false, Bool.or_self, Bool.false_eq_true,
      Bool.not_true, if_false]
    exact if_neg (by omega)

/-! ### Matching -/

section Selecting

variable {D M : Type} (lib : Ddcci D M)

/-- `monitor_matches_selector`. -/
def monitorMatchesSelector (selector : List UInt8) (entry : Detected) (mon : M) : Bool :=
  selector = entry.name || selector = lib.pnpid mon || (lib.db mon).any fun db => selector = db.name

/-- `monitor_matches_file`; the file is known by its Plug and Play ID. -/
def monitorMatchesFile (file : Option (List UInt8)) (mon : M) : Bool := file.all fun pnpid => lib.pnpid mon = pnpid

/-- Why no monitor is selected. -/
inductive Refusal where
  | target
  | wrongMonitor
  | outOfRange (matched index : ℕ)
  | noMatch
  deriving DecidableEq, Repr

/-- The loop of `main` through the monitors that were found: those that are selected, and
`matched_count`. -/
def selectEach (selector : List UInt8) (index : Option ℕ) (file : Option (List UInt8)) :
    List Detected → (matched : ℕ) → (selected : List Detected) → D → Except Refusal (List Detected × ℕ) × D
  | [], matched, selected, d => (.ok (selected, matched), d)
  | current :: next, matched, selected, d =>
    if !current.supported then selectEach selector index file next matched selected d
    else
      match lib.openMonitor current.filename d with
      | ((candidate, openRet), d) =>
        if openRet ≥ 0 && monitorMatchesSelector lib selector current candidate then
          if index.isNone || index = some matched then
            if !monitorMatchesFile lib file candidate then (.error .wrongMonitor, lib.close candidate d)
            else if index.isSome then (.ok (selected ++ [current], matched), lib.close candidate d)
            else selectEach selector index file next (matched + 1) (selected ++ [current]) (lib.close candidate d)
          else selectEach selector index file next (matched + 1) selected (lib.close candidate d)
        else selectEach selector index file next matched selected (if openRet = -3 then d else lib.close candidate d)

/-- The part of `main` for a selector. -/
def selectMonitors (requestedTarget : List UInt8) (file : Option (List UInt8)) (d : D) :
    Except Refusal (List Detected) × D :=
  match parseSelectorIndex requestedTarget with
  | none => (.error .target, d)
  | some (selector, index) =>
    match lib.probe d with
    | (monlist, d) =>
      match selectEach lib selector index file monlist 0 [] d with
      | (.error refusal, d) => (.error refusal, d)
      | (.ok ([], matched), d) =>
        (.error (match index with
          | some i => if matched > 0 then .outOfRange matched i else .noMatch
          | none => .noMatch), d)
      | (.ok (selected, _), d) => (.ok selected, d)

/-! ### What is selected -/

/-- A monitor that was opened, as it was listed. -/
structure Trial (M : Type) where
  entry : Detected
  mon : M
  ret : ℤ

/-- Each monitor that supports DDC/CI is opened, and closed again. -/
def trials : List Detected → D → List (Trial M)
  | [], _ => []
  | current :: next, d =>
    if !current.supported then trials next d
    else
      match lib.openMonitor current.filename d with
      | ((mon, ret), d) => ⟨current, mon, ret⟩ :: trials next (if ret = -3 then d else lib.close mon d)

/-- The monitors that could be opened and match, in order. -/
def matching (selector : List UInt8) (monlist : List Detected) (d : D) : List (Trial M) :=
  (trials lib monlist d).filter fun trial => trial.ret ≥ 0 && monitorMatchesSelector lib selector trial.entry trial.mon

/-- All of them, or the one at the index; each has to be the one that the file is for. -/
def chosen (file : Option (List UInt8)) (index : Option ℕ) (ms : List (Trial M)) : Except Refusal (List Detected) :=
  match index with
  | none =>
    if !ms.all fun trial => monitorMatchesFile lib file trial.mon then .error .wrongMonitor
    else if ms = [] then .error .noMatch
    else .ok (ms.map Trial.entry)
  | some i =>
    match ms[i]? with
    | some trial => if monitorMatchesFile lib file trial.mon then .ok [trial.entry] else .error .wrongMonitor
    | none => .error (if ms = [] then .noMatch else .outOfRange ms.length i)

/-- What is opened next: a monitor that matches is the first of those that do. -/
theorem matching_cons (selector : List UInt8) (current : Detected) (next : List Detected) (d : D) :
    matching lib selector (current :: next) d =
      if !current.supported then matching lib selector next d
      else
        match lib.openMonitor current.filename d with
        | ((mon, ret), d) =>
          if ret ≥ 0 && monitorMatchesSelector lib selector current mon then
            ⟨current, mon, ret⟩ :: matching lib selector next (lib.close mon d)
          else matching lib selector next (if ret = -3 then d else lib.close mon d) := by
  unfold matching
  rw [trials]
  cases current.supported with
  | false => rfl
  | true =>
    generalize lib.openMonitor current.filename d = opened
    obtain ⟨⟨mon, ret⟩, d'⟩ := opened
    simp only [Bool.not_true, Bool.false_eq_true, if_false]
    rw [List.filter_cons]
    by_cases hret : ret ≥ 0
    · have hclosed : ret ≠ -3 := by omega
      rw [if_neg hclosed]
    · simp [hret]

/-- Without an index, all that match are selected. -/
theorem selectEach_all (selector : List UInt8) (file : Option (List UInt8))
    (monlist : List Detected) (matched : ℕ) (selected : List Detected) (d : D) :
    (selectEach lib selector none file monlist matched selected d).1 =
      if !(matching lib selector monlist d).all fun trial =>
        monitorMatchesFile lib file trial.mon then
        .error .wrongMonitor
      else .ok (selected ++ (matching lib selector monlist d).map Trial.entry,
        matched + (matching lib selector monlist d).length) := by
  induction monlist generalizing matched selected d with
  | nil => simp [selectEach, matching, trials]
  | cons current next ih =>
    rw [selectEach, matching_cons]
    cases current.supported with
    | false => simpa using ih matched selected d
    | true =>
      generalize lib.openMonitor current.filename d = opened
      obtain ⟨⟨mon, ret⟩, d'⟩ := opened
      simp only [Bool.not_true, Bool.false_eq_true, if_false, Option.isNone_none,
        Bool.true_or, if_true, Option.isSome_none]
      cases decide (ret ≥ 0) && monitorMatchesSelector lib selector current mon with
      | false => exact ih matched selected _
      | true =>
        simp only [if_true, List.all_cons]
        cases monitorMatchesFile lib file mon with
        | false => rfl
        | true =>
          simp only [Bool.not_true, Bool.false_eq_true, if_false, Bool.true_and, ih, List.map_cons,
            List.length_cons, List.append_assoc, List.singleton_append]
          rw [Nat.add_assoc, Nat.add_comm 1]

/-- With an index, the loop stops at that one of them. -/
theorem selectEach_index (selector : List UInt8) (i : ℕ) (file : Option (List UInt8))
    (monlist : List Detected) (matched : ℕ) (selected : List Detected) (d : D) :
    (selectEach lib selector (some (matched + i)) file monlist matched selected d).1 =
      match (matching lib selector monlist d)[i]? with
      | some trial =>
        if monitorMatchesFile lib file trial.mon then .ok
          (selected ++ [trial.entry], matched + i) else .error .wrongMonitor
      | none => .ok (selected, matched + (matching lib selector monlist d).length) := by
  induction monlist generalizing i matched selected d with
  | nil => simp [selectEach, matching, trials]
  | cons current next ih =>
    rw [selectEach, matching_cons]
    cases current.supported with
    | false => simpa using ih i matched selected d
    | true =>
      generalize lib.openMonitor current.filename d = opened
      obtain ⟨⟨mon, ret⟩, d'⟩ := opened
      simp only [Bool.not_true, Bool.false_eq_true, if_false, Option.isNone_some, Bool.false_or,
        Option.isSome_some, if_true]
      cases decide (ret ≥ 0) && monitorMatchesSelector lib selector current mon with
      | false => exact ih i matched selected _
      | true =>
        rcases i with _ | i
        · simp only [if_true, Nat.add_zero, decide_true, List.getElem?_cons_zero]
          cases monitorMatchesFile lib file mon <;> rfl
        · have hlater : ¬ (some (matched + (i + 1)) = some matched) := by simp
          simp only [if_true, decide_eq_false hlater, Bool.false_eq_true, if_false,
            List.getElem?_cons_succ, List.length_cons]
          simpa only [Nat.add_assoc, Nat.add_comm 1] using ih i (matched + 1) selected (lib.close mon d')

/-- **The monitors that are selected** are those that match the selector, of all that support
DDC/CI and can be opened, in the order they were found; or, with an index, the one that it
is the index of, though no monitor is opened after that. -/
theorem selectMonitors_exact (requestedTarget : List UInt8) (file : Option (List UInt8)) (d : D) :
    (selectMonitors lib requestedTarget file d).1 =
      match parseSelectorIndex requestedTarget with
      | none => .error .target
      | some (selector, index) =>
        chosen lib file index (matching lib selector (lib.probe d).1 (lib.probe d).2) := by
  unfold selectMonitors
  rcases parseSelectorIndex requestedTarget with _ | ⟨selector, index⟩
  · rfl
  rcases lib.probe d with ⟨monlist, d'⟩
  dsimp only
  generalize hms : matching lib selector monlist d' = ms
  cases index with
  | none =>
    have hall := selectEach_all lib selector file monlist 0 [] d'
    rw [hms] at hall
    generalize selectEach lib selector none file monlist 0 [] d' = result at hall ⊢
    obtain ⟨answer, d''⟩ := result
    dsimp only at hall
    subst hall
    unfold chosen
    cases ms.all fun trial => monitorMatchesFile lib file trial.mon with
    | false => rfl
    | true => cases ms <;> rfl
  | some i =>
    have hindex := selectEach_index lib selector i file monlist 0 [] d'
    rw [hms, Nat.zero_add] at hindex
    generalize selectEach lib selector (some i) file monlist 0 [] d' = result at hindex ⊢
    obtain ⟨answer, d''⟩ := result
    dsimp only at hindex
    subst hindex
    unfold chosen
    dsimp only
    cases ms[i]? with
    | none => cases ms <;> simp
    | some trial => dsimp only; cases monitorMatchesFile lib file trial.mon <;> rfl

/-! ### What selecting does -/

/-- A monitor that is opened for its name is closed again, if there is one. -/
def tried (filename : List UInt8) (d : D) : D :=
  match lib.openMonitor filename d with
  | ((mon, ret), d) => if ret = -3 then d else lib.close mon d

/-- **Selecting is a number of such trials**: what holds before and after each holds before and
after all. -/
theorem selectEach_related {R : D → D → Prop} (hrefl : ∀ d, R d d)
    (htrans : ∀ {d₁ d₂ d₃}, R d₁ d₂ → R d₂ d₃ → R d₁ d₃)
    (htried : ∀ filename d, R d (tried lib filename d)) (selector : List UInt8) (index : Option ℕ)
    (file : Option (List UInt8)) (monlist : List Detected) (matched : ℕ)
    (selected : List Detected) (d : D) :
    R d (selectEach lib selector index file monlist matched selected d).2 := by
  induction monlist generalizing matched selected d with
  | nil => exact hrefl d
  | cons current next ih =>
    have hfirst := htried current.filename d
    have hnext : ∀ matched selected d', R d d' →
        R d (selectEach lib selector index file next matched selected d').2 :=
          fun matched selected d' hd' =>
      htrans hd' (ih matched selected d')
    rw [selectEach]
    unfold tried at hfirst
    generalize lib.openMonitor current.filename d = opened at hfirst ⊢
    obtain ⟨⟨mon, ret⟩, d'⟩ := opened
    dsimp only at hfirst ⊢
    cases current.supported with
    | false => exact hnext _ _ d (hrefl d)
    | true =>
      rw [if_neg (by decide)]
      by_cases hmatch : (decide (ret ≥ 0) && monitorMatchesSelector lib selector current mon) = true
      · have hret : ret ≠ -3 := by
          rw [Bool.and_eq_true, decide_eq_true_eq] at hmatch
          omega
        rw [if_neg hret] at hfirst
        rw [if_pos hmatch]
        split_ifs
        · exact hfirst
        · exact hfirst
        · exact hnext _ _ _ hfirst
        · exact hnext _ _ _ hfirst
      · rw [if_neg hmatch]
        exact hnext _ _ _ hfirst

/-- So it is for `main`, which probes first. -/
theorem selectMonitors_related {R : D → D → Prop} (hrefl : ∀ d, R d d)
    (htrans : ∀ {d₁ d₂ d₃}, R d₁ d₂ → R d₂ d₃ → R d₁ d₃)
    (htried : ∀ filename d, R d (tried lib filename d)) (hprobe : ∀ d, R d (lib.probe d).2)
    (requestedTarget : List UInt8) (file : Option (List UInt8)) (d : D) :
    R d (selectMonitors lib requestedTarget file d).2 := by
  unfold selectMonitors
  rcases parseSelectorIndex requestedTarget with _ | ⟨selector, index⟩
  · exact hrefl d
  have hfound := hprobe d
  generalize lib.probe d = found at hfound ⊢
  obtain ⟨monlist, d'⟩ := found
  have hselected := htrans hfound
    (selectEach_related lib hrefl htrans htried selector index file monlist 0 [] d')
  dsimp only
  generalize selectEach lib selector index file monlist 0 [] d' = result at hselected ⊢
  rcases result with ⟨_ | ⟨_ | ⟨_, _⟩, _⟩, _⟩ <;> exact hselected

end Selecting

end DdcControl.Command
