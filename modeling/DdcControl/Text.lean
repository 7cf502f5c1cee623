import Mathlib.Data.Nat.Digits.Defs
import Mathlib.Tactic.Ring

/-!
# Text and database integers

The string helpers shared by the database, the profiles and the scanner: the
character classes of Rust's `char`, and the two integer grammars of a database.
Attribute text is a `String`; the grammars walk its characters.

* `parseInteger` is the base-0 grammar of addresses, values and `dbversion`:
  leading ASCII whitespace, one optional sign, then hexadecimal after `0x`, octal
  after a leading zero, decimal otherwise.
* `parseI64` is Rust's `str::parse::<i64>`, the decimal grammar of delays.

`parseInteger_repr` and `parseIntDecimal_repr` say that the decimal text of an integer in
range is read back as that integer by either, and `parseInteger_hexText` that a number
written in hexadecimal is.
-/

namespace DdcControl

/-- `char::is_ascii_whitespace`: tab, line feed, form feed, carriage return, space. -/
def isAsciiWhitespace (c : Char) : Bool :=
  c = '\t' || c = '\n' || c = '\x0c' || c = '\r' || c = ' '

/-- `u8::is_ascii_alphanumeric`, on the characters of a text. -/
def isAsciiAlphanumeric (c : Char) : Bool :=
  ('0' ≤ c && c ≤ '9') || ('a' ≤ c && c ≤ 'z') || ('A' ≤ c && c ≤ 'Z')

/-- `char::to_digit`. -/
def toDigit (radix : ℕ) (c : Char) : Option ℕ :=
  let digit : Option ℕ :=
    if '0' ≤ c ∧ c ≤ '9' then some (c.toNat - '0'.toNat)
    else if 'a' ≤ c ∧ c ≤ 'z' then some (c.toNat - 'a'.toNat + 10)
    else if 'A' ≤ c ∧ c ≤ 'Z' then some (c.toNat - 'A'.toNat + 10)
    else none
  digit.filter (· < radix)

/-- `char::is_digit`. -/
def isDigit (radix : ℕ) (c : Char) : Bool := (toDigit radix c).isSome

/-- The number a run of digits denotes. -/
def digitsValue (radix : ℕ) (digits : List Char) : ℕ :=
  digits.foldl (fun value c => radix * value + (toDigit radix c).getD 0) 0

/-- `i64::from_str_radix` on digits already known to be digits: it fails only when
the value leaves 64 bits. -/
def i64FromDigits (negative : Bool) (radix : ℕ) (digits : List Char) : Option ℤ :=
  let value : ℤ := if negative then -digitsValue radix digits else digitsValue radix digits
  if -2 ^ 63 ≤ value ∧ value < 2 ^ 63 then some value else none

/-- One optional sign. -/
def splitSign : List Char → Bool × List Char
  | '-' :: rest => (true, rest)
  | '+' :: rest => (false, rest)
  | rest => (false, rest)

/-- The radix a literal declares, and its digits. -/
def splitRadix : List Char → ℕ × List Char
  | '0' :: 'x' :: rest => (16, rest)
  | '0' :: 'X' :: rest => (16, rest)
  | '0' :: c :: rest => (8, c :: rest)
  | rest => (10, rest)

/-- `parse_integer`: the database's signed decimal, hexadecimal and octal notation. -/
def parseInteger (input : String) : Except String ℤ :=
  let input := input.toList.dropWhile isAsciiWhitespace
  let (negative, rest) := splitSign input
  let (radix, digits) := splitRadix rest
  if digits.isEmpty || !digits.all (isDigit radix) then .error "invalid integer syntax"
  else match i64FromDigits negative radix digits with
    | some value => .ok value
    | none => .error "integer outside the signed 64-bit range"

/-- Rust's `str::parse::<i64>`. -/
def parseI64 (input : List Char) : Option ℤ :=
  let (negative, digits) := splitSign input
  if digits.isEmpty || !digits.all (isDigit 10) then none else i64FromDigits negative 10 digits

/-- `parse_int_decimal`. -/
def parseIntDecimal (input : String) : Option ℤ := parseI64 (input.toList.dropWhile isAsciiWhitespace)

/-- `u8::try_from`. -/
def u8TryFrom (value : ℤ) : Option UInt8 :=
  if 0 ≤ value ∧ value ≤ 255 then some (UInt8.ofNat value.toNat) else none

/-- A byte is in range. -/
theorem u8TryFrom_toNat (b : UInt8) : u8TryFrom (b.toNat : ℤ) = some b := by
  have hlt := b.toNat_lt
  rw [u8TryFrom, if_pos (by omega), Int.toNat_natCast, UInt8.ofNat_toNat]

/-- The bytes of a text, `str::as_bytes`. -/
def utf8 (s : String) : List UInt8 := s.toUTF8.data.toList

/-! ### NUL -/

/-- A text without a NUL character. -/
def NulFree (s : String) : Prop := '\x00' ∉ s.toList

theorem utf8_eq (s : String) : utf8 s = s.toList.flatMap String.utf8EncodeChar := by
  rw [utf8, String.toUTF8, ← String.utf8Encode_toList, List.utf8Encode,
    List.toList_data_toByteArray]

theorem utf8_append (s t : String) : utf8 (s ++ t) = utf8 s ++ utf8 t := by
  rw [utf8_eq, utf8_eq, utf8_eq, String.toList_append, List.flatMap_append]

/-- NUL is the only character with a NUL byte. -/
theorem zero_mem_utf8EncodeChar {c : Char} : (0 : UInt8) ∈ String.utf8EncodeChar c ↔
    c = '\x00' := by
  constructor
  · intro h
    have hnat : c.val.toNat = c.toNat := rfl
    refine Char.ext (UInt32.toNat_inj.mp ?_)
    unfold String.utf8EncodeChar at h
    simp only at h
    split_ifs at h <;> simp only [List.mem_cons, List.not_mem_nil, or_false, ← UInt8.toNat_inj,
      UInt8.toNat_ofNat'] at h <;>
      simp at h ⊢ <;> omega
  · rintro rfl
    decide

/-- **A text has a NUL byte where it has a NUL character.** -/
theorem nulFree_iff {s : String} : NulFree s ↔ (0 : UInt8) ∉ utf8 s := by
  rw [NulFree, utf8_eq, List.mem_flatMap, not_exists]
  simp only [zero_mem_utf8EncodeChar, not_and]
  exact ⟨fun h c hc heq => h (heq ▸ hc), fun h hmem => h _ hmem rfl⟩

/-! ### Decimal text -/

theorem isDigit_ten_iff (c : Char) : isDigit 10 c = c.isDigit := by
  have hnat : c.val.toNat = c.toNat := rfl
  simp only [isDigit, toDigit, Char.isDigit, Char.le_def, UInt32.le_iff_toNat_le]
  split_ifs with h0 h1 h2
  all_goals simp_all [Option.filter]
  all_goals omega

theorem toDigit_ten_of_isDigit {c : Char} (h : c.isDigit = true) :
    toDigit 10 c = some (c.toNat - '0'.toNat) := by
  have hnat : c.val.toNat = c.toNat := rfl
  simp only [Char.isDigit, UInt32.le_iff_toNat_le, ge_iff_le, Bool.and_eq_true,
    decide_eq_true_eq] at h
  simp only [toDigit, Char.le_def, UInt32.le_iff_toNat_le]
  rw [if_pos ⟨by simpa using h.1, by simpa using h.2⟩]
  simp at h ⊢
  omega

theorem digitsValue_ten {digits : List Char} (h : ∀ c ∈ digits, c.isDigit = true) :
    digitsValue 10 digits = Nat.ofDigitChars 10 digits 0 := by
  have hfold : ∀ init, digits.foldl (fun value c => 10 * value + (toDigit 10 c).getD 0) init =
      digits.foldl (fun value c => 10 * value + (c.toNat - '0'.toNat)) init := by
    induction digits with
    | nil => exact fun _ => rfl
    | cons c digits ih =>
      intro init
      rw [List.foldl_cons, List.foldl_cons, toDigit_ten_of_isDigit (h c (List.mem_cons_self ..)),
        Option.getD_some]
      exact ih (fun d hd => h d (List.mem_cons_of_mem _ hd)) _
  rw [digitsValue, Nat.ofDigitChars_eq_foldl, hfold]

theorem isDigit_of_mem_toDigits {n : ℕ} {c : Char} (h : c ∈ Nat.toDigits 10 n) : c.isDigit = true :=
  Nat.isDigit_of_mem_toDigits (by decide) (by decide) h

/-- The decimal digits of `n` denote `n`. -/
theorem digitsValue_toDigits (n : ℕ) : digitsValue 10 (Nat.toDigits 10 n) = n := by
  rw [digitsValue_ten fun _ => isDigit_of_mem_toDigits, Nat.ofDigitChars_ten_toDigits]

theorem all_isDigit_toDigits (n : ℕ) : (Nat.toDigits 10 n).all (isDigit 10) = true := by
  rw [List.all_eq_true]
  intro c hc
  rw [isDigit_ten_iff]
  exact isDigit_of_mem_toDigits hc

/-- Decimal digits begin with neither whitespace nor a sign. -/
theorem toDigits_head {n : ℕ} {c : Char} {rest : List Char} (h : Nat.toDigits 10 n = c :: rest) :
    isAsciiWhitespace c = false ∧ c ≠ '-' ∧ c ≠ '+' := by
  have hc : c.isDigit = true := isDigit_of_mem_toDigits (n := n) (h ▸ List.mem_cons_self ..)
  refine ⟨?_, ?_, ?_⟩
  · cases hw : isAsciiWhitespace c with
    | false => rfl
    | true =>
      simp only [isAsciiWhitespace, Bool.or_eq_true, decide_eq_true_eq] at hw
      rcases hw with (((rfl | rfl) | rfl) | rfl) | rfl <;> simp [Char.isDigit] at hc
  · rintro rfl; simp [Char.isDigit] at hc
  · rintro rfl; simp [Char.isDigit] at hc

theorem dropWhile_toDigits (n : ℕ) :
    (Nat.toDigits 10 n).dropWhile isAsciiWhitespace = Nat.toDigits 10 n := by
  cases h : Nat.toDigits 10 n with
  | nil => rfl
  | cons c rest => rw [List.dropWhile_cons, (toDigits_head h).1]; rfl

theorem splitSign_toDigits (n : ℕ) : splitSign (Nat.toDigits 10 n) = (false, Nat.toDigits 10 n) := by
  cases h : Nat.toDigits 10 n with
  | nil => rfl
  | cons c rest =>
    obtain ⟨-, h1, h2⟩ := toDigits_head h
    unfold splitSign
    split <;> simp_all

/-- A decimal text has a leading zero only when it is `0`. -/
theorem splitRadix_toDigits (n : ℕ) : splitRadix (Nat.toDigits 10 n) = (10, Nat.toDigits 10 n) := by
  have hlead : ∀ n c rest, Nat.toDigits 10 n = '0' :: c :: rest → False := by
    intro n
    induction n using Nat.strong_induction_on with
    | _ n ih =>
      intro c rest h
      by_cases hn : n < 10
      · rw [Nat.toDigits_of_lt_base hn] at h; simp at h
      · rw [Nat.toDigits_of_base_le (by decide) (by omega)] at h
        cases hd : Nat.toDigits 10 (n / 10) with
        | nil => exact Nat.toDigits_ne_nil hd
        | cons c' rest' =>
          rw [hd] at h
          simp only [List.cons_append, List.cons.injEq] at h
          obtain ⟨rfl, h⟩ := h
          cases rest' with
          | cons c'' rest'' => exact ih (n / 10) (by omega) c'' rest'' hd
          | nil =>
            have hz := digitsValue_toDigits (n / 10)
            rw [hd] at hz
            have : digitsValue 10 ['0'] = 0 := by decide
            omega
  unfold splitRadix
  split
  · rename_i h; exact absurd h (hlead n _ _)
  · rename_i h; exact absurd h (hlead n _ _)
  · rename_i h; exact absurd h (hlead n _ _)
  · rfl

/-- The decimal text of an integer, as Rust's `to_string` writes it. -/
theorem toList_repr_ofNat (n : ℕ) : (toString (n : ℤ)).toList = Nat.toDigits 10 n := by
  show (Int.repr (Int.ofNat n)).toList = _
  rw [Int.repr, Nat.toList_repr]

/-- **The base-0 grammar reads the decimal text of a number back**: nothing in it can
be taken for whitespace, a sign or a radix prefix. -/
theorem parseInteger_repr {n : ℕ} (h : n < 2 ^ 63) : parseInteger (toString (n : ℤ)) = .ok n := by
  have hne : (Nat.toDigits 10 n).isEmpty = false := by
    cases hd : Nat.toDigits 10 n with
    | nil => exact absurd hd Nat.toDigits_ne_nil
    | cons _ _ => rfl
  simp only [parseInteger, toList_repr_ofNat, dropWhile_toDigits, splitSign_toDigits,
    splitRadix_toDigits, hne, all_isDigit_toDigits, i64FromDigits, digitsValue_toDigits]
  have hlo : (-2 ^ 63 : ℤ) ≤ n := by omega
  have hhi : (n : ℤ) < 2 ^ 63 := by exact_mod_cast h
  simp only [Bool.false_eq_true, Bool.not_true, Bool.or_self, if_false, if_pos (And.intro hlo hhi)]

theorem toList_repr_neg (n : ℕ) : (toString (Int.negSucc n)).toList = '-' :: Nat.toDigits 10 (n + 1) := by
  show (Int.repr (Int.negSucc n)).toList = _
  rw [Int.repr]
  simp [Nat.toList_repr]

/-- **The decimal grammar reads the decimal text of a 64-bit integer back.** -/
theorem parseIntDecimal_repr {n : ℤ} (hlo : -2 ^ 63 ≤ n) (hhi : n < 2 ^ 63) :
    parseIntDecimal (toString n) = some n := by
  have hne : ∀ m, (Nat.toDigits 10 m).isEmpty = false := fun m => by
    cases hd : Nat.toDigits 10 m with
    | nil => exact absurd hd Nat.toDigits_ne_nil
    | cons _ _ => rfl
  cases n with
  | ofNat m =>
    rw [Int.ofNat_eq_natCast] at hlo hhi ⊢
    simp only [parseIntDecimal, toList_repr_ofNat, dropWhile_toDigits, parseI64,
      splitSign_toDigits, hne, all_isDigit_toDigits, i64FromDigits, digitsValue_toDigits]
    simp only [Bool.false_eq_true, Bool.not_true, Bool.or_self, if_false,
      if_pos (And.intro hlo hhi)]
  | negSucc m =>
    rw [parseIntDecimal, toList_repr_neg, List.dropWhile_cons,
      show isAsciiWhitespace '-' = false from rfl]
    simp only [parseI64, splitSign, hne, all_isDigit_toDigits, i64FromDigits, digitsValue_toDigits,
      Bool.false_eq_true, if_false]
    have : -((m + 1 : ℕ) : ℤ) = Int.negSucc m := rfl
    simp only [this, Bool.false_eq_true, if_false, if_true, Bool.not_true, Bool.or_self]
    rw [if_pos (And.intro hlo hhi)]

/-! ### Hexadecimal text -/

/-- `{:X}`. -/
def hexDigits (n : ℕ) : List Char := (Nat.toDigits 16 n).map Char.toUpper

/-- `{:02X}`. -/
def hexText (n : ℕ) : String := .ofList ((hexDigits n).leftpad 2 '0')

theorem hexDigits_of_lt {n : ℕ} (h : n < 16) : hexDigits n = [n.digitChar.toUpper] := by
  rw [hexDigits, Nat.toDigits_of_lt_base h, List.map_singleton]

theorem hexDigits_of_le {n : ℕ} (h : 16 ≤ n) :
    hexDigits n = hexDigits (n / 16) ++ [(n % 16).digitChar.toUpper] := by
  rw [hexDigits, Nat.toDigits_of_base_le (by decide) h, List.map_append, List.map_singleton]
  rfl

/-- A digit is read back. -/
theorem toDigit_digitChar {n : ℕ} (h : n < 16) : toDigit 16 n.digitChar.toUpper = some n := by
  have hall : ∀ n < 16, toDigit 16 n.digitChar.toUpper = some n := by decide
  exact hall n h

/-- The digits written are those that the padded text has after its zeros. -/
theorem toList_hexText (n : ℕ) : ∃ zeros, (hexText n).toList = List.replicate zeros '0' ++ hexDigits n :=
  ⟨2 - (hexDigits n).length, by rw [hexText, String.toList_ofList]; rfl⟩

/-- A property of digits holds of everything in a text of digits. -/
theorem forall_mem_hexDigits {P : Char → Prop} (h : ∀ n < 16, P n.digitChar.toUpper) (n : ℕ) :
    ∀ c ∈ hexDigits n, P c := by
  induction n using Nat.strong_induction_on with
  | _ n ih =>
    by_cases hn : n < 16
    · rw [hexDigits_of_lt hn]
      exact List.forall_mem_singleton.mpr (h n hn)
    · rw [hexDigits_of_le (Nat.not_lt.mp hn)]
      exact List.forall_mem_append.mpr ⟨ih _ (by omega),
        List.forall_mem_singleton.mpr (h _ (by omega))⟩

theorem forall_mem_hexText {P : Char → Prop} (h : ∀ n < 16, P n.digitChar.toUpper) (n : ℕ) :
    ∀ c ∈ (hexText n).toList, P c := by
  obtain ⟨zeros, hzeros⟩ := toList_hexText n
  rw [hzeros]
  refine List.forall_mem_append.mpr ⟨fun c hc => ?_, forall_mem_hexDigits h n⟩
  rw [List.eq_of_mem_replicate hc]
  exact h 0 (by decide)

/-- The hexadecimal text of `n` denotes `n`. -/
theorem digitsValue_hexText (n : ℕ) : digitsValue 16 (hexText n).toList = n := by
  obtain ⟨zeros, hzeros⟩ := toList_hexText n
  have hzero : ∀ zeros, (List.replicate zeros '0').foldl (fun value c => 16 * value +
      (toDigit 16 c).getD 0) 0 = 0 := by
    intro zeros
    induction zeros with
    | zero => rfl
    | succ zeros ih => rw [List.replicate_succ, List.foldl_cons]; exact ih
  rw [hzeros, digitsValue, List.foldl_append, hzero]
  induction n using Nat.strong_induction_on generalizing zeros with
  | _ n ih =>
    by_cases hn : n < 16
    · rw [hexDigits_of_lt hn, List.foldl_cons, List.foldl_nil, toDigit_digitChar hn]
      simp
    · obtain ⟨zeros', hzeros'⟩ := toList_hexText (n / 16)
      rw [hexDigits_of_le (Nat.not_lt.mp hn), List.foldl_append,
        ih (n / 16) (by omega) zeros' hzeros', List.foldl_cons, List.foldl_nil,
        toDigit_digitChar (Nat.mod_lt _ (by decide))]
      exact Nat.div_add_mod n 16

/-- The base-0 grammar reads hexadecimal digits after their prefix. -/
theorem parseInteger_hexadecimal {digits : List Char} (hne : digits ≠ []) (hall : digits.all (isDigit 16) = true)
    (h : digitsValue 16 digits < 2 ^ 63) : parseInteger ("0x" ++ .ofList digits) = .ok (digitsValue 16 digits) := by
  have hlist : ("0x" ++ String.ofList digits).toList = '0' :: 'x' :: digits := by simp [String.toList_append]
  have hspace : ('0' :: 'x' :: digits).dropWhile isAsciiWhitespace = '0' :: 'x' :: digits := rfl
  have hsign : splitSign ('0' :: 'x' :: digits) = (false, '0' :: 'x' :: digits) := rfl
  have hradix : splitRadix ('0' :: 'x' :: digits) = (16, digits) := rfl
  simp only [parseInteger, hlist, hspace, hsign, hradix, List.isEmpty_eq_false_iff.mpr hne, hall, i64FromDigits]
  have hlo : (-2 ^ 63 : ℤ) ≤ digitsValue 16 digits := by omega
  have hhi : (digitsValue 16 digits : ℤ) < 2 ^ 63 := by exact_mod_cast h
  simp only [Bool.false_eq_true, Bool.not_true, Bool.or_self, if_false, if_pos (And.intro hlo hhi)]

/-- **The base-0 grammar reads the hexadecimal text of a number back.** -/
theorem parseInteger_hexText {n : ℕ} (h : n < 2 ^ 63) :
    parseInteger ("0x" ++ hexText n) = .ok n := by
  have hdigits : (hexText n).toList.all (isDigit 16) = true := by
    refine List.all_eq_true.mpr (forall_mem_hexText (fun n hn => ?_) n)
    rw [isDigit, toDigit_digitChar hn]
    rfl
  have hne : (hexText n).toList ≠ [] := by
    intro hd
    obtain ⟨zeros, hzeros⟩ := toList_hexText n
    rw [hd] at hzeros
    have := (List.append_eq_nil_iff.mp hzeros.symm).2
    simp [hexDigits, Nat.toDigits_ne_nil] at this
  have := parseInteger_hexadecimal hne hdigits (by rwa [digitsValue_hexText])
  rwa [String.ofList_toList, digitsValue_hexText] at this

/-! ### Lower-case hexadecimal text -/

/-- `{:0width$x}`. -/
def lowerHex (width n : ℕ) : List Char := (Nat.toDigits 16 n).leftpad width '0'

theorem toDigit_digitChar_lower {n : ℕ} (h : n < 16) : toDigit 16 n.digitChar = some n := by
  have hall : ∀ n < 16, toDigit 16 n.digitChar = some n := by decide
  exact hall n h

/-- The digits of a number are those of the numbers below the radix. -/
theorem exists_of_mem_toDigits {b n : ℕ} (hb : 1 < b) {c : Char} (h : c ∈ Nat.toDigits b n) :
    ∃ d < b, c = d.digitChar := by
  induction n using Nat.strong_induction_on with
  | _ n ih =>
    by_cases hn : n < b
    · rw [Nat.toDigits_of_lt_base hn] at h
      exact ⟨n, hn, List.mem_singleton.mp h⟩
    · rw [Nat.toDigits_of_base_le hb (Nat.not_lt.mp hn)] at h
      rcases List.mem_append.mp h with h | h
      · exact ih _ (Nat.div_lt_self (by omega) hb) h
      · exact ⟨n % b, Nat.mod_lt _ (by omega), List.mem_singleton.mp h⟩

/-- The hexadecimal digits of `n` denote `n`. -/
theorem digitsValue_toDigits_sixteen (n : ℕ) : digitsValue 16 (Nat.toDigits 16 n) = n := by
  induction n using Nat.strong_induction_on with
  | _ n ih =>
    by_cases hn : n < 16
    · rw [Nat.toDigits_of_lt_base hn, digitsValue, List.foldl_cons, List.foldl_nil, toDigit_digitChar_lower hn]
      simp
    · have hdiv := ih (n / 16) (by omega)
      rw [digitsValue] at hdiv
      rw [Nat.toDigits_of_base_le (by decide) (Nat.not_lt.mp hn), digitsValue, List.foldl_append, hdiv,
        List.foldl_cons, List.foldl_nil, toDigit_digitChar_lower (Nat.mod_lt _ (by decide))]
      exact Nat.div_add_mod n 16

/-- **The base-0 grammar reads lower-case digits back too.** -/
theorem parseInteger_toDigits {n : ℕ} (h : n < 2 ^ 63) :
    parseInteger ("0x" ++ .ofList (Nat.toDigits 16 n)) = .ok n := by
  have hdigits : (Nat.toDigits 16 n).all (isDigit 16) = true := by
    refine List.all_eq_true.mpr fun c hc => ?_
    obtain ⟨d, hd, rfl⟩ := exists_of_mem_toDigits (by decide) hc
    rw [isDigit, toDigit_digitChar_lower hd]
    rfl
  have := parseInteger_hexadecimal Nat.toDigits_ne_nil hdigits (by rwa [digitsValue_toDigits_sixteen])
  rwa [digitsValue_toDigits_sixteen] at this

example : hexText 5 = "05" ∧ hexText 0x1F = "1F" ∧ hexText 0xABCD = "ABCD" := by decide
example : parseInteger "  +0x1F" = .ok 31 := by decide
example : parseInteger "0140" = .ok 96 := by decide
example : parseInteger "--1" = .error "invalid integer syntax" := by decide

end DdcControl
