import DdcControl.Saved.Profile

/-!
# The integers of a database

What the base-0 integers of a database are, as a grammar, and that they are what
`parse_integer` reads.

## The model

`from_str_radix` is written out: it takes a sign of its own, and multiplies and adds with
overflow checks, one digit after the other. `parseInteger` of `DdcControl.Text`, which every
other module uses, has the value of the digits and one range check in its place.

`IntegerText` is the grammar: white space, a sign, and a numeral. It says nothing of ranges.

## What is proved

* `fromStrRadix_eq` — the checks of `from_str_radix` are the one range check.
* `parseInteger_eq` — so the two models are equal.
* `IntegerText.unique` — a text denotes at most one integer.
* `parseInteger_integerText` — what is read are the texts of the grammar whose integer has
  64 bits; and decimal and `{:#x}` texts are read back.
-/

namespace DdcControl.Integers

open Saved.Profile

/-! ### Reading -/

/-- A result of `checked_mul`, `checked_add` or `checked_sub`. -/
def checked (n : ℤ) : Option ℤ := if -2 ^ 63 ≤ n ∧ n < 2 ^ 63 then some n else none

/-- The loop body of `i64::from_str_radix`. -/
def accumulate (negative : Bool) (radix : ℕ) (result : ℤ) (c : Char) : Option ℤ := do
  let shifted ← checked (result * radix)
  let digit ← toDigit radix c
  checked (if negative then shifted - digit else shifted + digit)

/-- `i64::from_str_radix`. -/
def fromStrRadix (src : List Char) (radix : ℕ) : Option ℤ :=
  match src with
  | [] | ['+'] | ['-'] => none
  | '+' :: digits => digits.foldlM (accumulate false radix) 0
  | '-' :: digits => digits.foldlM (accumulate true radix) 0
  | digits => digits.foldlM (accumulate false radix) 0

/-- `parse_integer`. -/
def parseInteger (input : String) : Except String ℤ :=
  let input := input.toList.dropWhile isAsciiWhitespace
  let (negative, rest) := splitSign input
  let (radix, digits) := splitRadix rest
  if digits.isEmpty || !digits.all (isDigit radix) then .error "invalid integer syntax"
  else match fromStrRadix (if negative then '-' :: digits else digits) radix with
    | some value => .ok value
    | none => .error "integer outside the signed 64-bit range"

/-! ### The grammar -/

/-- A digit, in either case. -/
def DigitOf (radix : ℕ) (c : Char) (d : ℕ) : Prop :=
  d < radix ∧ (c = d.digitChar ∨ c = d.digitChar.toUpper)

/-- One digit or more, and the number they denote. -/
inductive Digits (radix : ℕ) : List Char → ℕ → Prop where
  | single {c d} : DigitOf radix c d → Digits radix [c] d
  | snoc {cs n c d} : Digits radix cs n → DigitOf radix c d → Digits radix (cs ++ [c]) (radix * n + d)

/-- A number without a sign. -/
inductive Numeral : List Char → ℕ → Prop where
  | hexadecimal {x cs n} : x = 'x' ∨ x = 'X' → Digits 16 cs n → Numeral ('0' :: x :: cs) n
  | octal {cs n} : Digits 8 cs n → Numeral ('0' :: cs) n
  | zero : Numeral ['0'] 0
  | decimal {c cs n} : c ≠ '0' → Digits 10 (c :: cs) n → Numeral (c :: cs) n

/-- A number with at most one sign. -/
inductive Signed : List Char → ℤ → Prop where
  | unsigned {cs n} : Numeral cs n → Signed cs n
  | plus {cs n} : Numeral cs n → Signed ('+' :: cs) n
  | minus {cs n} : Numeral cs n → Signed ('-' :: cs) (-n)

/-- The text of an integer. -/
def IntegerText (input : String) (n : ℤ) : Prop :=
  ∃ spaces cs, input.toList = spaces ++ cs ∧
    (∀ c ∈ spaces, c ∈ ['\t', '\n', '\x0c', '\r', ' ']) ∧ Signed cs n

/-! ### Overflow checks -/

/-- A number with its sign. -/
def withSign (negative : Bool) (n : ℕ) : ℤ := if negative then -n else n

theorem i64FromDigits_eq (negative : Bool) (radix : ℕ) (digits : List Char) :
    i64FromDigits negative radix digits = checked (withSign negative (digitsValue radix digits)) := rfl

theorem digitsValue_append (radix : ℕ) (digits : List Char) (c : Char) :
    digitsValue radix (digits ++ [c]) =
      radix * digitsValue radix digits + (toDigit radix c).getD 0 := by
  rw [digitsValue, List.foldl_append]
  rfl

/-- Overflow comes to stay. -/
theorem checked_eq_none_of_le {negative : Bool} {m n : ℕ} (hle : m ≤ n)
    (h : checked (withSign negative m) = none) : checked (withSign negative n) = none := by
  rw [checked, ite_eq_right_iff] at h ⊢
  intro hn
  refine absurd (h ?_) (by simp)
  cases negative <;> simp only [withSign, if_true, Bool.false_eq_true, if_false] at hn ⊢ <;> omega

theorem checked_of_le {negative : Bool} {m n : ℕ} (hle : m ≤ n) {value : ℤ}
    (h : checked (withSign negative n) = some value) :
    checked (withSign negative m) = some (withSign negative m) := by
  cases hm : checked (withSign negative m) with
  | none => rw [checked_eq_none_of_le hle hm] at h; cases h
  | some v =>
    rw [checked, Option.ite_none_right_eq_some] at hm
    exact congrArg some (Option.some.inj hm.2).symm

theorem withSign_mul (negative : Bool) (radix n : ℕ) :
    withSign negative n * radix = withSign negative (radix * n) := by
  cases negative <;> simp [withSign, mul_comm]

/-- One more digit. -/
theorem accumulate_eq {negative : Bool} {radix n d : ℕ} {c : Char} (hradix : 0 < radix)
    (hc : toDigit radix c = some d) :
    (checked (withSign negative n)).bind (accumulate negative radix · c) =
      checked (withSign negative (radix * n + d)) := by
  have hmul : n ≤ radix * n := Nat.le_mul_of_pos_left n hradix
  have hadd : (if negative then withSign negative (radix * n) - (d : ℤ)
      else withSign negative (radix * n) + d) = withSign negative (radix * n + d) := by
    cases negative <;> simp only [withSign, if_true, Bool.false_eq_true, if_false] <;> omega
  cases hlast : checked (withSign negative (radix * n + d)) with
  | some value =>
    rw [checked_of_le (hmul.trans (Nat.le_add_right _ d)) hlast, Option.bind_some, accumulate,
      withSign_mul, checked_of_le (Nat.le_add_right _ d) hlast, hc]
    exact (congrArg checked hadd).trans hlast
  | none =>
    cases hfirst : checked (withSign negative n) with
    | none => rfl
    | some v =>
      rw [checked_of_le le_rfl hfirst] at hfirst
      cases hfirst
      rw [Option.bind_some, accumulate, withSign_mul, hc]
      cases hshifted : checked (withSign negative (radix * n)) with
      | none => rfl
      | some v =>
        rw [checked_of_le le_rfl hshifted] at hshifted
        cases hshifted
        exact (congrArg checked hadd).trans hlast

/-- **The loop has the value of the digits**, if that has 64 bits. -/
theorem foldlM_accumulate {negative : Bool} {radix : ℕ} {digits : List Char} (hradix : 0 < radix)
    (h : digits.all (isDigit radix) = true) :
    digits.foldlM (accumulate negative radix) 0 = i64FromDigits negative radix digits := by
  rw [i64FromDigits_eq]
  induction digits using List.reverseRecOn with
  | nil => cases negative <;> simp [checked, withSign, digitsValue]
  | append_singleton digits c ih =>
    rw [List.all_append, Bool.and_eq_true] at h
    obtain ⟨d, hd⟩ := Option.isSome_iff_exists.mp (show (toDigit radix c).isSome = true by
      simpa [isDigit] using h.2)
    rw [List.foldlM_append, ih h.1, digitsValue_append, hd, Option.getD_some,
      ← accumulate_eq hradix hd]
    simp

/-- `from_str_radix` takes digits for digits: a sign is none. -/
theorem fromStrRadix_eq {radix : ℕ} {digits : List Char} (hradix : 0 < radix) (hne : digits ≠ [])
    (h : digits.all (isDigit radix) = true) (negative : Bool) :
    fromStrRadix (if negative then '-' :: digits else digits) radix =
      i64FromDigits negative radix digits := by
  have hsign : ∀ c ∈ digits, c ≠ '+' ∧ c ≠ '-' := by
    intro c hc
    have hdigit := List.all_eq_true.mp h c hc
    constructor <;> rintro rfl <;> cases hdigit
  rw [← foldlM_accumulate hradix h]
  match digits, hne, negative with
  | c :: digits, _, true => rfl
  | c :: digits, _, false =>
    obtain ⟨hplus, hminus⟩ := hsign c (List.mem_cons_self ..)
    rw [if_neg (by simp), fromStrRadix]
    all_goals simp [hplus, hminus]

/-- Radixes of literals. -/
theorem splitRadix_radix (rest : List Char) :
    0 < (splitRadix rest).1 ∧ (splitRadix rest).1 ≤ 16 := by
  unfold splitRadix
  split <;> simp

/-- **The model with overflow checks is the model with a range check.** -/
theorem parseInteger_eq (input : String) : parseInteger input = DdcControl.parseInteger input := by
  unfold parseInteger DdcControl.parseInteger
  simp only
  obtain ⟨negative, rest⟩ := splitSign (input.toList.dropWhile isAsciiWhitespace)
  have hradix := (splitRadix_radix rest).1
  revert hradix
  obtain ⟨radix, digits⟩ := splitRadix rest
  intro (hradix : 0 < radix)
  by_cases h : (digits.isEmpty || !digits.all (isDigit radix)) = true
  · simp only [h, if_true]
  · simp only [h, Bool.false_eq_true, if_false]
    simp only [Bool.or_eq_true, not_or, Bool.not_eq_true, List.isEmpty_eq_false_iff,
      Bool.not_eq_false'] at h
    have hvalue := fromStrRadix_eq hradix h.1 h.2 negative
    cases hdigits : i64FromDigits negative radix digits <;> simp only [hvalue, hdigits]

/-! ### Digits -/

theorem toDigit_eq_some {radix : ℕ} (hradix : radix ≤ 16) {c : Char} {d : ℕ} :
    toDigit radix c = some d ↔ toDigit 16 c = some d ∧ d < radix := by
  simp only [toDigit, Option.filter_eq_some_iff, decide_eq_true_eq]
  constructor
  · rintro ⟨hc, hd⟩
    exact ⟨⟨hc, hd.trans_le hradix⟩, hd⟩
  · rintro ⟨⟨hc, -⟩, hd⟩
    exact ⟨hc, hd⟩

/-- The codes of the digits. -/
theorem toNat_digitChar {d : ℕ} (h : d < 16) :
    (d.digitChar.toNat = if d < 10 then 48 + d else 87 + d) ∧
      d.digitChar.toUpper.toNat = if d < 10 then 48 + d else 55 + d := by
  have hall : ∀ d < 16, (d.digitChar.toNat = if d < 10 then 48 + d else 87 + d) ∧
      d.digitChar.toUpper.toNat = if d < 10 then 48 + d else 55 + d := by decide
  exact hall d h

/-- **A character is the digit that `to_digit` finds.** -/
theorem toDigit_iff {radix : ℕ} (hradix : radix ≤ 16) {c : Char} {d : ℕ} :
    toDigit radix c = some d ↔ DigitOf radix c d := by
  rw [toDigit_eq_some hradix, DigitOf]
  constructor
  · rintro ⟨hc, hd⟩
    obtain ⟨hlower, hupper⟩ := toNat_digitChar (hd.trans_le hradix)
    have hnat : c.val.toNat = c.toNat := rfl
    have hchar : c.toNat = d.digitChar.toNat ∨ c.toNat = d.digitChar.toUpper.toNat := by
      rw [hlower, hupper]
      simp only [toDigit, Char.le_def, UInt32.le_iff_toNat_le, Option.filter_eq_some_iff] at hc
      simp only [Char.reduceVal, UInt32.reduceToNat, Char.reduceToNat, hnat] at hc
      split_ifs at hc ⊢ <;> simp at hc <;> omega
    exact ⟨hd, hchar.imp (fun h => Char.toNat_inj.mp h) fun h => Char.toNat_inj.mp h⟩
  · rintro ⟨hd, rfl | rfl⟩
    · exact ⟨toDigit_digitChar_lower (hd.trans_le hradix), hd⟩
    · exact ⟨toDigit_digitChar (hd.trans_le hradix), hd⟩

/-- **Digits are what is tested and evaluated.** -/
theorem digits_iff {radix : ℕ} (hradix : radix ≤ 16) {cs : List Char} {n : ℕ} :
    Digits radix cs n ↔
      cs ≠ [] ∧ cs.all (isDigit radix) = true ∧ digitsValue radix cs = n := by
  constructor
  · intro h
    induction h with
    | single hc =>
      have hdigit := (toDigit_iff hradix).mpr hc
      simp [isDigit, digitsValue, hdigit]
    | snoc _ hc ih =>
      have hdigit := (toDigit_iff hradix).mpr hc
      obtain ⟨-, hall, rfl⟩ := ih
      refine ⟨by simp, ?_, ?_⟩
      · simp [hall, isDigit, hdigit]
      · rw [digitsValue_append, hdigit, Option.getD_some]
  · rintro ⟨hne, hall, rfl⟩
    induction cs using List.reverseRecOn with
    | nil => exact absurd rfl hne
    | append_singleton cs c ih =>
      rw [List.all_append, Bool.and_eq_true] at hall
      obtain ⟨d, hd⟩ := Option.isSome_iff_exists.mp (show (toDigit radix c).isSome = true by
        simpa [isDigit] using hall.2)
      have hdigit := (toDigit_iff hradix).mp hd
      by_cases hcs : cs = []
      · subst hcs
        simpa [digitsValue, hd] using Digits.single hdigit
      · rw [digitsValue_append, hd, Option.getD_some]
        exact .snoc (ih hcs hall.1) hdigit

/-- Leading zeros change nothing. -/
theorem Digits.zeros {radix : ℕ} {cs : List Char} {n : ℕ} (h : Digits radix cs n) (zeros : ℕ) :
    Digits radix (List.replicate zeros '0' ++ cs) n := by
  have hcons : ∀ {cs n}, Digits radix cs n → Digits radix ('0' :: cs) n := by
    intro cs n h
    induction h with
    | single hc =>
      have hzero : DigitOf radix '0' 0 := ⟨Nat.zero_lt_of_lt hc.1, .inl rfl⟩
      simpa using Digits.snoc (.single hzero) hc
    | snoc _ hc ih => exact .snoc ih hc
  induction zeros with
  | zero => exact h
  | succ zeros ih => exact hcons ih

/-! ### Numerals -/

/-- What a digit is not. -/
theorem not_of_isDigit {radix : ℕ} {c : Char} (h : isDigit radix c = true) :
    c ≠ '+' ∧ c ≠ '-' ∧ isAsciiWhitespace c = false := by
  refine ⟨?_, ?_, ?_⟩
  · rintro rfl; cases h
  · rintro rfl; cases h
  · cases hspace : isAsciiWhitespace c with
    | false => rfl
    | true =>
      simp only [isAsciiWhitespace, Bool.or_eq_true, decide_eq_true_eq] at hspace
      rcases hspace with (((rfl | rfl) | rfl) | rfl) | rfl <;> cases h

/-- Where digits begin. -/
theorem Digits.head {radix : ℕ} (hradix : radix ≤ 16) {cs : List Char} {n : ℕ}
    (h : Digits radix cs n) :
    ∃ c rest, cs = c :: rest ∧ isDigit radix c = true := by
  obtain ⟨hne, hall, -⟩ := (digits_iff hradix).mp h
  match cs, hne with
  | c :: rest, _ =>
    rw [List.all_cons, Bool.and_eq_true] at hall
    exact ⟨c, rest, rfl, hall.1⟩

theorem digits_zero : Digits 10 ['0'] 0 := .single ⟨by decide, .inl rfl⟩

/-- **A numeral is digits in the radix it declares.** -/
theorem numeral_iff {cs : List Char} {n : ℕ} :
    Numeral cs n ↔ Digits (splitRadix cs).1 (splitRadix cs).2 n := by
  constructor
  · intro h
    cases h with
    | hexadecimal hx h => rcases hx with rfl | rfl <;> exact h
    | octal h =>
      obtain ⟨c, rest, rfl, hc⟩ := h.head (by decide)
      have hx : c ≠ 'x' := by rintro rfl; cases hc
      have hX : c ≠ 'X' := by rintro rfl; cases hc
      have hsplit : splitRadix ('0' :: c :: rest) = (8, c :: rest) := by
        unfold splitRadix
        split <;> simp_all
      rwa [hsplit]
    | zero => exact digits_zero
    | @decimal c cs n hc h =>
      have hsplit : splitRadix (c :: cs) = (10, c :: cs) := by
        unfold splitRadix
        split <;> simp_all
      rwa [hsplit]
  · intro h
    unfold splitRadix at h
    split at h
    · exact .hexadecimal (.inl rfl) h
    · exact .hexadecimal (.inr rfl) h
    · exact .octal h
    · rename_i hx hX hoctal
      obtain ⟨c, rest, rfl, -⟩ := h.head (by simp)
      by_cases hc : c = '0'
      · subst hc
        cases rest with
        | nil =>
          obtain ⟨-, -, rfl⟩ := (digits_iff (by simp)).mp h
          exact .zero
        | cons c rest => exact absurd rfl (hoctal c rest)
      · exact .decimal hc h

/-- Where a numeral begins. -/
theorem Numeral.head {cs : List Char} {n : ℕ} (h : Numeral cs n) :
    ∃ c rest, cs = c :: rest ∧ isDigit 10 c = true := by
  cases h with
  | hexadecimal => exact ⟨_, _, rfl, rfl⟩
  | octal => exact ⟨_, _, rfl, rfl⟩
  | zero => exact ⟨_, _, rfl, rfl⟩
  | decimal _ h => exact h.head (by decide)

/-- **A number is a numeral after the sign it declares.** -/
theorem signed_iff {cs : List Char} {n : ℤ} :
    Signed cs n ↔ ∃ m, Numeral (splitSign cs).2 m ∧ n = withSign (splitSign cs).1 m := by
  constructor
  · intro h
    cases h with
    | @unsigned cs m h =>
      obtain ⟨c, rest, rfl, hc⟩ := h.head
      obtain ⟨hplus, hminus, -⟩ := not_of_isDigit hc
      have hsplit : splitSign (c :: rest) = (false, c :: rest) := by
        unfold splitSign
        split <;> simp_all
      rw [hsplit]
      exact ⟨m, h, rfl⟩
    | plus h => exact ⟨_, h, rfl⟩
    | minus h => exact ⟨_, h, rfl⟩
  · rintro ⟨m, h, rfl⟩
    unfold splitSign at h ⊢
    split at h
    · exact .minus h
    · exact .plus h
    · exact .unsigned h

/-- Where a number begins. -/
theorem Signed.head {cs : List Char} {n : ℤ} (h : Signed cs n) :
    ∃ c rest, cs = c :: rest ∧ isAsciiWhitespace c = false := by
  cases h with
  | unsigned h =>
    obtain ⟨c, rest, rfl, hc⟩ := h.head
    exact ⟨c, rest, rfl, (not_of_isDigit hc).2.2⟩
  | plus => exact ⟨_, _, rfl, rfl⟩
  | minus => exact ⟨_, _, rfl, rfl⟩

theorem isAsciiWhitespace_iff (c : Char) :
    isAsciiWhitespace c = true ↔ c ∈ ['\t', '\n', '\x0c', '\r', ' '] := by
  simp [isAsciiWhitespace, or_assoc]

/-- **An integer is a number after white space.** -/
theorem integerText_iff {input : String} {n : ℤ} :
    IntegerText input n ↔ Signed (input.toList.dropWhile isAsciiWhitespace) n := by
  constructor
  · rintro ⟨spaces, cs, heq, hspaces, h⟩
    obtain ⟨c, rest, rfl, hc⟩ := h.head
    rwa [heq, List.dropWhile_append_of_pos fun c hc => (isAsciiWhitespace_iff c).mpr (hspaces c hc),
      List.dropWhile_cons_of_neg (by simp [hc])]
  · intro h
    refine ⟨_, _, (List.takeWhile_append_dropWhile).symm, fun c hc => ?_, h⟩
    exact (isAsciiWhitespace_iff c).mp (List.mem_takeWhile_imp hc)

/-- What is read, before its range is tested. -/
theorem integerText_eq {input : String} {n : ℤ} {negative : Bool} {rest : List Char}
    (h : splitSign (input.toList.dropWhile isAsciiWhitespace) = (negative, rest)) :
    IntegerText input n ↔ (splitRadix rest).2 ≠ [] ∧
      (splitRadix rest).2.all (isDigit (splitRadix rest).1) = true ∧
        n = withSign negative (digitsValue (splitRadix rest).1 (splitRadix rest).2) := by
  rw [integerText_iff, signed_iff, h]
  simp only [numeral_iff, digits_iff (splitRadix_radix rest).2]
  constructor
  · rintro ⟨m, ⟨hne, hall, rfl⟩, rfl⟩
    exact ⟨hne, hall, rfl⟩
  · rintro ⟨hne, hall, rfl⟩
    exact ⟨_, ⟨hne, hall, rfl⟩, rfl⟩

/-- **A text denotes one integer at most.** -/
theorem IntegerText.unique {input : String} {m n : ℤ} (hm : IntegerText input m)
    (hn : IntegerText input n) : m = n := by
  obtain ⟨negative, rest, hsign⟩ : ∃ negative rest,
      splitSign (input.toList.dropWhile isAsciiWhitespace) = (negative, rest) := ⟨_, _, rfl⟩
  rw [((integerText_eq hsign).mp hm).2.2, ((integerText_eq hsign).mp hn).2.2]

/-- What is read is an integer of 64 bits. -/
theorem parseInteger_eq_ok {input : String} {n : ℤ} :
    DdcControl.parseInteger input = .ok n ↔ IntegerText input n ∧ -2 ^ 63 ≤ n ∧ n < 2 ^ 63 := by
  obtain ⟨negative, rest, hsign⟩ : ∃ negative rest,
      splitSign (input.toList.dropWhile isAsciiWhitespace) = (negative, rest) := ⟨_, _, rfl⟩
  rw [integerText_eq hsign, DdcControl.parseInteger, hsign]
  simp only [i64FromDigits_eq]
  obtain ⟨radix, digits⟩ := splitRadix rest
  simp only
  by_cases h : digits ≠ [] ∧ digits.all (isDigit radix) = true
  · have hcond : (digits.isEmpty || !digits.all (isDigit radix)) = false := by simpa using h
    rw [hcond, if_neg (by simp)]
    by_cases hrange : -2 ^ 63 ≤ withSign negative (digitsValue radix digits) ∧
        withSign negative (digitsValue radix digits) < 2 ^ 63
    · rw [checked, if_pos hrange]
      constructor
      · rintro ⟨⟩
        exact ⟨⟨h.1, h.2, rfl⟩, hrange⟩
      · rintro ⟨⟨-, -, rfl⟩, -⟩
        rfl
    · rw [checked, if_neg hrange]
      constructor
      · rintro ⟨⟩
      · rintro ⟨⟨-, -, rfl⟩, hn⟩
        exact absurd hn hrange
  · have hcond : (digits.isEmpty || !digits.all (isDigit radix)) = true := by
      rw [Bool.or_eq_true, List.isEmpty_iff, Bool.not_eq_true']
      by_contra hcond
      rw [not_or, Bool.not_eq_false] at hcond
      exact h hcond
    rw [hcond, if_pos rfl]
    constructor
    · rintro ⟨⟩
    · rintro ⟨⟨hne, hall, -⟩, -⟩
      exact absurd ⟨hne, hall⟩ h

/-- **What is read are the texts of the grammar whose integer has 64 bits**, as that
integer; and a decimal or `{:#x}` text of 16 bits is read back. -/
theorem parseInteger_integerText (input : String) (n : ℤ) :
    (parseInteger input = .ok n ↔ IntegerText input n ∧ -2 ^ 63 ≤ n ∧ n < 2 ^ 63) ∧
      ∀ value : UInt16, parseInteger (toString (value.toNat : ℤ)) = .ok value.toNat ∧
        parseInteger (hexPrefixed value.toNat) = .ok value.toNat := by
  refine ⟨by rw [parseInteger_eq, parseInteger_eq_ok], fun value => ?_⟩
  have hvalue : value.toNat < 2 ^ 63 := value.toNat_lt.trans (by decide)
  rw [parseInteger_eq, parseInteger_eq, hexPrefixed]
  exact ⟨parseInteger_repr hvalue, parseInteger_toDigits hvalue⟩

example : parseInteger "\t-0x8000000000000000" = .ok (-2 ^ 63) := by decide
example : parseInteger "0x" = .error "invalid integer syntax" := by decide

end DdcControl.Integers
