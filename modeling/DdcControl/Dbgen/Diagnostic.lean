import DdcControl.Library.Cbor
import DdcControl.Text
import Mathlib.Data.List.Forall2

/-!
# The diagnostic dump

`diagnostic` writes a value as indented JSON. A map is tagged and its entries are pairs,
and so are bytes, since JSON has neither; integers are written whole.

## What is proved

* `Restricted.reads` — the dump of a value is read back, whatever follows it.
* `diagnostic_injective` — so values with one dump are one value.
-/

namespace DdcControl.Dbgen

open Cbor

/-! ### Writing -/

/-- The loop body of `string`. -/
def escape (c : Char) : List Char :=
  if c = '"' then ['\\', '"']
  else if c = '\\' then ['\\', '\\']
  else if c = '\n' then ['\\', 'n']
  else if c = '\r' then ['\\', 'r']
  else if c = '\t' then ['\\', 't']
  else if c = '\x08' then ['\\', 'b']
  else if c = '\x0c' then ['\\', 'f']
  else if c < ' ' then '\\' :: 'u' :: lowerHex 4 c.toNat
  else [c]

/-- `string`. -/
def string (s : String) : List Char := '"' :: (s.toList.flatMap escape ++ ['"'])

/-- `line`. -/
def line (depth : ℕ) : List Char := '\n' :: List.replicate (2 * depth) ' '

/-- The loop of `list`, on what its values are written as. -/
def listItems (depth : ℕ) : List (List Char) → List Char
  | [] => []
  | [item] => line (depth + 1) ++ item
  | item :: items => line (depth + 1) ++ item ++ ',' :: listItems depth items

/-- `list`. -/
def list (items : List (List Char)) (depth : ℕ) : List Char :=
  '[' :: (listItems depth items ++ (if items.isEmpty then [] else line depth) ++ [']'])

mutual
/-- `write`. -/
def write : Value → ℕ → Except String (List Char)
  | .unsigned n, _ => .ok (toString n.toNat).toList
  | .negative n, _ => .ok (toString (-1 - (n.toNat : ℤ))).toList
  | .text s, _ => .ok (string s)
  | .bool b, _ => .ok (if b then "true" else "false").toList
  | .null, _ => .ok "null".toList
  | .array values, depth => do
    let items ← writeItems values (depth + 1)
    return list items depth
  | .bytes bytes, depth =>
    .ok ('\x7b' :: (line (depth + 1) ++ "\"$bytes\": \"".toList ++ bytes.flatMap (fun b => lowerHex 2 b.toNat) ++
      ['"'] ++ line depth ++ ['\x7d']))
  | .map entries, depth => do
    let pairs ← writeEntries entries (depth + 2)
    return '\x7b' :: (line (depth + 1) ++ "\"$map\": ".toList ++ list pairs (depth + 1) ++ line depth ++ ['\x7d'])
  | _, _ => .error "unsupported diagnostic value"
/-- `write`, of each value of a list. -/
def writeItems : List Value → ℕ → Except String (List (List Char))
  | [], _ => .ok []
  | value :: values, depth => do
    let item ← write value depth
    let items ← writeItems values depth
    return item :: items
/-- `write`, of the array of each entry's key and value. -/
def writeEntries : List (Value × Value) → ℕ → Except String (List (List Char))
  | [], _ => .ok []
  | (key, value) :: entries, depth => do
    let key ← write key (depth + 1)
    let value ← write value (depth + 1)
    let pairs ← writeEntries entries depth
    return list [key, value] depth :: pairs
end

/-- `diagnostic`. -/
def diagnostic (value : Value) : Except String String := do
  let out ← write value 0
  return .ofList (out ++ ['\n'])

/-- What `write` makes of the array of an entry's key and value. -/
theorem writeEntries_eq (entries : List (Value × Value)) (depth : ℕ) :
    writeEntries entries depth = writeItems (entries.map fun (key, value) => .array [key, value]) depth := by
  induction entries with
  | nil => rfl
  | cons entry entries ih =>
    obtain ⟨key, value⟩ := entry
    rw [writeEntries, List.map_cons, writeItems, ih, write, writeItems, writeItems, writeItems]
    cases write key (depth + 1) with
    | error e => rfl
    | ok key =>
      cases write value (depth + 1) with
      | error e => rfl
      | ok value => rfl

/-! ### Reading -/

/-- A dump has blanks between its tokens. -/
def isBlank (c : Char) : Bool := c = ' ' || c = '\n'

def skipBlanks (cs : List Char) : List Char := cs.dropWhile isBlank

/-- The character an escape stands for. -/
def unescape (c : Char) : Char :=
  if c = 'n' then '\n' else if c = 'r' then '\r' else if c = 't' then '\t' else if c = 'b' then '\x08'
  else if c = 'f' then '\x0c' else c

/-- Reads a string up to its closing quote. -/
def readString : List Char → Option (List Char × List Char)
  | [] => none
  | '"' :: cs => some ([], cs)
  | '\\' :: 'u' :: '0' :: '0' :: a :: b :: cs => do
    let high ← toDigit 16 a
    let low ← toDigit 16 b
    (readString cs).map fun (s, cs) => (.ofNat (16 * high + low) :: s, cs)
  | '\\' :: c :: cs => (readString cs).map fun (s, cs) => (unescape c :: s, cs)
  | c :: cs => (readString cs).map fun (s, cs) => (c :: s, cs)

/-- Reads bytes up to their closing quote. -/
def readBytes : List Char → Option (List UInt8 × List Char)
  | '"' :: cs => some ([], cs)
  | a :: b :: cs => do
    let high ← toDigit 16 a
    let low ← toDigit 16 b
    (readBytes cs).map fun (bytes, cs) => (.ofNat (16 * high + low) :: bytes, cs)
  | _ => none

/-- Reads decimal digits. -/
def readDigits (cs : List Char) : ℕ × List Char :=
  (Nat.ofDigitChars 10 (cs.takeWhile Char.isDigit) 0, cs.dropWhile Char.isDigit)

/-- Reads one character behind blanks. -/
def expect (c : Char) (cs : List Char) : Option (List Char) :=
  match skipBlanks cs with
  | d :: cs => if d = c then some cs else none
  | [] => none

/-- The entry a pair stands for. -/
def asEntry : Value → Option (Value × Value)
  | .array [key, value] => some (key, value)
  | _ => none

mutual
/-- Reads a value. -/
def readValue : ℕ → List Char → Option (Value × List Char)
  | 0, _ => none
  | fuel + 1, cs =>
    match cs with
    | '"' :: cs => do
      let (s, cs) ← readString cs
      return (.text (.ofList s), cs)
    | 't' :: 'r' :: 'u' :: 'e' :: cs => some (.bool true, cs)
    | 'f' :: 'a' :: 'l' :: 's' :: 'e' :: cs => some (.bool false, cs)
    | 'n' :: 'u' :: 'l' :: 'l' :: cs => some (.null, cs)
    | '[' :: ']' :: cs => some (.array [], cs)
    | '[' :: cs => do
      let (values, cs) ← readItems fuel cs
      return (.array values, cs)
    | '\x7b' :: cs =>
      match (skipBlanks cs).dropPrefix? "\"$bytes\": \"".toList with
      | some cs => do
        let (bytes, cs) ← readBytes cs
        let cs ← expect '\x7d' cs
        return (.bytes bytes, cs)
      | none => do
        let cs ← (skipBlanks cs).dropPrefix? "\"$map\": ".toList
        let (value, cs) ← readValue fuel cs
        match value with
        | .array pairs =>
          let entries ← pairs.mapM asEntry
          let cs ← expect '\x7d' cs
          return (.map entries, cs)
        | _ => none
    | '-' :: cs => let (n, cs) := readDigits cs; some (.negative (.ofNat (n - 1)), cs)
    | cs => let (n, cs) := readDigits cs; some (.unsigned (.ofNat n), cs)
/-- Reads the values of a list up to its closing bracket. -/
def readItems : ℕ → List Char → Option (List Value × List Char)
  | 0, _ => none
  | fuel + 1, cs => do
    let (value, cs) ← readValue fuel (skipBlanks cs)
    match skipBlanks cs with
    | ',' :: cs =>
      let (values, cs) ← readItems fuel cs
      return (value :: values, cs)
    | ']' :: cs => return ([value], cs)
    | _ => none
end

/-! ### Digits -/

/-- A byte has two digits, after zeros. -/
theorem lowerHex_byte {n : ℕ} (h : n < 256) (k : ℕ) :
    lowerHex (k + 2) n = List.replicate k '0' ++ [(n / 16).digitChar, (n % 16).digitChar] := by
  have hzero : (0 : ℕ).digitChar = '0' := rfl
  unfold lowerHex List.leftpad
  by_cases hn : n < 16
  · rw [Nat.toDigits_of_lt_base hn, Nat.div_eq_of_lt hn, Nat.mod_eq_of_lt hn, hzero,
      List.length_singleton, Nat.add_sub_cancel (n := k + 1) (m := 1), List.replicate_succ', List.append_assoc]
    rfl
  · rw [Nat.toDigits_of_base_le (by decide) (Nat.not_lt.mp hn), Nat.toDigits_of_lt_base (by omega)]
    rfl

/-- A byte is written as two digits. -/
theorem lowerHex_two {n : ℕ}
    (h : n < 256) : lowerHex 2 n = [(n / 16).digitChar, (n % 16).digitChar] := lowerHex_byte h 0

/-- A control character is written as four digits, two of them zero. -/
theorem lowerHex_four {n : ℕ} (h : n < 256) :
    lowerHex 4 n = ['0', '0', (n / 16).digitChar, (n % 16).digitChar] := lowerHex_byte h 2

/-! ### Strings and bytes -/

theorem readString_plain {c : Char} (hquote : c ≠ '"') (hescape : c ≠ '\\') (cs : List Char) :
    readString (c :: cs) = (readString cs).map fun (s, cs) => (c :: s, cs) := by
  rw [readString.eq_def]
  split <;> simp_all

/-- An escape that is not a number stands for one character. -/
theorem readString_unescape {c : Char} (hc : c ≠ 'u') (cs : List Char) :
    readString ('\\' :: c :: cs) = (readString cs).map fun (s, cs) => (unescape c :: s, cs) := by
  rw [readString]
  exact fun _ _ _ hu => absurd hu hc

/-- The escape of a number stands for the character of that number. -/
theorem readString_code {n : ℕ} (h : n < 256) (cs : List Char) :
    readString ('\\' :: 'u' :: (lowerHex 4 n ++ cs)) = (readString cs).map fun (s, cs) =>
      (.ofNat n :: s, cs) := by
  rw [lowerHex_four h]
  change readString ('\\' :: 'u' :: '0' :: '0' :: (n / 16).digitChar :: (n % 16).digitChar :: cs) = _
  rw [readString, toDigit_digitChar_lower (by omega), toDigit_digitChar_lower (by omega)]
  simp only [Option.bind_eq_bind, Option.bind_some, Nat.div_add_mod]

/-- An escaped character is read back. -/
theorem readString_escape (c : Char) (cs : List Char) :
    readString (escape c ++ cs) = (readString cs).map fun (s, cs) => (c :: s, cs) := by
  unfold escape
  split_ifs with hquote hescape hline hreturn htab hback hform hcontrol
  · subst hquote
    exact readString_unescape (by decide) cs
  · subst hescape
    exact readString_unescape (by decide) cs
  · subst hline
    exact readString_unescape (by decide) cs
  · subst hreturn
    exact readString_unescape (by decide) cs
  · subst htab
    exact readString_unescape (by decide) cs
  · subst hback
    exact readString_unescape (by decide) cs
  · subst hform
    exact readString_unescape (by decide) cs
  · have hlt : c.toNat < 32 := hcontrol
    rw [List.cons_append, List.cons_append, readString_code (by omega), Char.ofNat_toNat]
  · exact readString_plain hquote hescape cs

/-- **A string is read back.** -/
theorem readString_flatMap (s cs : List Char) :
    readString (s.flatMap escape ++ '"' :: cs) = some (s, cs) := by
  induction s with
  | nil => rfl
  | cons c s ih => rw [List.flatMap_cons, List.append_assoc, readString_escape, ih]; rfl

/-- **Bytes are read back.** -/
theorem readBytes_flatMap (bytes : List UInt8) (cs : List Char) :
    readBytes (bytes.flatMap (fun b => lowerHex 2 b.toNat) ++ '"' :: cs) = some (bytes, cs) := by
  induction bytes with
  | nil => rfl
  | cons b bytes ih =>
    have hb := b.toNat_lt
    have hquote : ∀ n < 16, n.digitChar ≠ '"' := by decide
    rw [List.flatMap_cons, List.append_assoc, lowerHex_two hb, List.cons_append, List.cons_append,
      List.nil_append, readBytes, toDigit_digitChar_lower (by omega), toDigit_digitChar_lower (by omega), ih]
    · simp only [Option.bind_eq_bind, Option.bind_some, Nat.div_add_mod, Option.map_some,
        UInt8.ofNat_toNat]
    · exact hquote _ (by omega)

/-! ### Numbers -/

/-- What follows a number is no digit. -/
def NoDigitHead (cs : List Char) : Prop := ∀ c ∈ cs.head?, c.isDigit = false

/-- **A number is read back.** -/
theorem readDigits_toDigits (n : ℕ) {cs : List Char} (h : NoDigitHead cs) :
    readDigits (Nat.toDigits 10 n ++ cs) = (n, cs) := by
  have hdigits : ∀ c ∈ Nat.toDigits 10 n, c.isDigit = true := fun _ => isDigit_of_mem_toDigits
  have hcs : cs.takeWhile Char.isDigit = [] ∧ cs.dropWhile Char.isDigit = cs := by
    cases cs with
    | nil => exact ⟨rfl, rfl⟩
    | cons c cs => simp [h c rfl]
  rw [readDigits, List.takeWhile_append_of_pos hdigits,
    List.dropWhile_append_of_pos hdigits, hcs.1, hcs.2, List.append_nil, Nat.ofDigitChars_ten_toDigits]

/-! ### Values -/

/-- A text begins with something that is no blank. -/
def Inked (text : List Char) : Prop := ∃ c cs, text = c :: cs ∧ isBlank c = false

/-- With fuel enough, a text is read as a value, whatever follows it. -/
def Reads (value : Value) (text : List Char) : Prop :=
  Inked text ∧ ∃ n, ∀ fuel ≥ n, ∀ rest, NoDigitHead rest → readValue fuel (text ++ rest) = some (value, rest)

theorem skipBlanks_line (depth : ℕ) {text : List Char} (h : Inked text) (rest : List Char) :
    skipBlanks (line depth ++ (text ++ rest)) = text ++ rest := by
  obtain ⟨c, cs, rfl, hc⟩ := h
  have hline : ∀ c ∈ line depth, isBlank c = true := by
    intro c hc
    rcases List.mem_cons.mp hc with rfl | hc
    · rfl
    · rw [List.eq_of_mem_replicate hc]
      rfl
  rw [skipBlanks, List.dropWhile_append_of_pos hline, List.cons_append,
    List.dropWhile_cons_of_neg (by simp [hc])]

theorem skipBlanks_line_cons (depth : ℕ) {c : Char} (hc : isBlank c = false) (rest : List Char) :
    skipBlanks (line depth ++ c :: rest) = c :: rest :=
  skipBlanks_line depth ⟨c, [], rfl, hc⟩ rest

theorem skipBlanks_cons {c : Char} (hc : isBlank c = false) (rest : List Char) :
    skipBlanks (c :: rest) = c :: rest :=
  List.dropWhile_cons_of_neg (by simp [hc])

theorem noDigitHead_cons {c : Char} (hc : c.isDigit = false) (rest : List Char) :
    NoDigitHead (c :: rest) := by
  rintro _ ⟨⟩
  exact hc

theorem expect_line (depth : ℕ) {c : Char} (hc : isBlank c = false) (rest : List Char) :
    expect c (line depth ++ c :: rest) = some rest := by
  rw [expect, skipBlanks_line_cons depth hc]
  exact if_pos rfl

theorem noDigitHead_line (depth : ℕ) (rest : List Char) : NoDigitHead (line depth ++ rest) :=
  noDigitHead_cons rfl _

theorem listItems_cons_cons (depth : ℕ) (item item' : List Char) (items : List (List Char)) :
    listItems depth (item :: item' :: items) = line (depth + 1) ++ item ++
      ',' :: listItems depth (item' :: items) :=
  rfl

/-- **The values of a list are read back**, one after the other. -/
theorem readItems_listItems {values : List Value} {texts : List (List Char)}
    (h : List.Forall₂ Reads values texts) (hne : texts ≠ []) (depth : ℕ) :
    ∃ n, ∀ fuel ≥ n, ∀ rest, readItems fuel (listItems depth texts ++
      (line depth ++ ']' :: rest)) = some (values, rest) := by
  induction h with
  | nil => exact absurd rfl hne
  | @cons value text values texts hread hrest ih =>
    obtain ⟨hink, n, hread⟩ := hread
    cases hrest with
    | nil =>
      refine ⟨n + 1, fun fuel hfuel rest => ?_⟩
      obtain ⟨fuel, rfl⟩ := Nat.exists_eq_add_one_of_ne_zero (show fuel ≠ 0 by omega)
      rw [listItems, List.append_assoc, readItems, skipBlanks_line _ hink,
        hread fuel (by omega) _ (noDigitHead_line depth _)]
      simp only [Option.bind_eq_bind, Option.bind_some,
        skipBlanks_line_cons depth (show isBlank ']' = false by decide)]
      rfl
    | @cons value' text' values texts hread' hrest =>
      obtain ⟨m, ih⟩ := ih (List.cons_ne_nil _ _)
      refine ⟨n + m + 1, fun fuel hfuel rest => ?_⟩
      obtain ⟨fuel, rfl⟩ := Nat.exists_eq_add_one_of_ne_zero (show fuel ≠ 0 by omega)
      rw [listItems_cons_cons, List.append_assoc, List.append_assoc, List.cons_append, readItems,
        skipBlanks_line _ hink, hread fuel (by omega) _ (noDigitHead_cons (by decide) _)]
      simp only [Option.bind_eq_bind, Option.bind_some,
        skipBlanks_cons (show isBlank ',' = false by decide)]
      rw [ih fuel (by omega) rest]
      rfl

/-- What begins with a bracket and a line is a list of values. -/
theorem readValue_bracket (fuel depth : ℕ) (cs : List Char) :
    readValue (fuel + 1) ('[' :: (line depth ++ cs)) = (do
      let (values, cs) ← readItems fuel (line depth ++ cs)
      return (.array values, cs)) := by
  rw [line, List.cons_append, readValue]
  exact fun _ h => absurd (List.cons.inj h).1 (by decide)

theorem readValue_digits (fuel : ℕ) {c : Char} (hc : c.isDigit = true) (cs : List Char) :
    readValue (fuel + 1) (c :: cs) =
      some (.unsigned (.ofNat (readDigits (c :: cs)).1), (readDigits (c :: cs)).2) := by
  have hopen : (['"', 't', 'f', 'n', '[', '\x7b', '-'].all fun d => !d.isDigit) = true := by decide
  have hne : ∀ d ∈ ['"', 't', 'f', 'n', '[', '\x7b', '-'], c ≠ d := by
    rintro d hd rfl
    have hnot := List.all_eq_true.mp hopen c hd
    rw [hc] at hnot
    cases hnot
  rw [readValue]
  all_goals exact fun _ h => hne _ (by decide) (List.cons.inj h).1

/-- **A list is read back.** -/
theorem reads_list {values : List Value} {texts : List (List Char)}
    (h : List.Forall₂ Reads values texts) (depth : ℕ) :
    Reads (.array values) (list texts depth) := by
  refine ⟨⟨'[', _, rfl, rfl⟩, ?_⟩
  cases h with
  | nil =>
    refine ⟨1, fun fuel hfuel rest _ => ?_⟩
    obtain ⟨fuel, rfl⟩ := Nat.exists_eq_add_one_of_ne_zero (show fuel ≠ 0 by omega)
    rfl
  | @cons value text values texts hread hrest =>
    obtain ⟨n, hitems⟩ := readItems_listItems (.cons hread hrest) (List.cons_ne_nil _ _) depth
    refine ⟨n + 1, fun fuel hfuel rest _ => ?_⟩
    obtain ⟨fuel, rfl⟩ := Nat.exists_eq_add_one_of_ne_zero (show fuel ≠ 0 by omega)
    have hitems := hitems fuel (by omega) rest
    obtain ⟨items, hline⟩ : ∃ items, listItems depth (text :: texts) = line (depth + 1) ++ items := by
      cases texts with
      | nil => exact ⟨_, rfl⟩
      | cons text' texts => exact ⟨_, (listItems_cons_cons ..).trans (List.append_assoc ..)⟩
    rw [hline] at hitems
    rw [list, hline]
    simp only [List.isEmpty_cons, Bool.false_eq_true, if_false, List.cons_append, List.append_assoc,
      List.nil_append] at hitems ⊢
    rw [readValue_bracket, hitems]
    rfl

theorem reads_unsigned (n : UInt64) : Reads (.unsigned n) (toString n.toNat).toList := by
  change Reads _ n.toNat.repr.toList
  rw [Nat.toList_repr]
  cases hdigits : Nat.toDigits 10 n.toNat with
  | nil => exact absurd hdigits Nat.toDigits_ne_nil
  | cons c cs =>
    have hc : c.isDigit = true := isDigit_of_mem_toDigits (hdigits ▸ List.mem_cons_self ..)
    have hblank : isBlank c = false := by
      rw [← Bool.not_eq_true]
      intro h
      simp only [isBlank, Bool.or_eq_true, decide_eq_true_eq] at h
      rcases h with rfl | rfl <;> cases hc
    refine ⟨⟨c, cs, rfl, hblank⟩, 1, fun fuel hfuel rest hrest => ?_⟩
    obtain ⟨fuel, rfl⟩ := Nat.exists_eq_add_one_of_ne_zero (show fuel ≠ 0 by omega)
    rw [List.cons_append, readValue_digits fuel hc, ← List.cons_append, ← hdigits,
      readDigits_toDigits _ hrest, UInt64.ofNat_toNat]

theorem reads_negative (n : UInt64) :
    Reads (.negative n) (toString (-1 - (n.toNat : ℤ))).toList := by
  have hneg : -1 - (n.toNat : ℤ) = Int.negSucc n.toNat := by omega
  rw [hneg, toList_repr_neg]
  refine ⟨⟨'-', _, rfl, rfl⟩, 1, fun fuel hfuel rest hrest => ?_⟩
  obtain ⟨fuel, rfl⟩ := Nat.exists_eq_add_one_of_ne_zero (show fuel ≠ 0 by omega)
  rw [List.cons_append, readValue, readDigits_toDigits _ hrest]
  simp only [Nat.add_sub_cancel, UInt64.ofNat_toNat]

theorem reads_text (s : String) : Reads (.text s) (string s) := by
  refine ⟨⟨'"', _, rfl, rfl⟩, 1, fun fuel hfuel rest hrest => ?_⟩
  obtain ⟨fuel, rfl⟩ := Nat.exists_eq_add_one_of_ne_zero (show fuel ≠ 0 by omega)
  rw [string, List.cons_append, List.append_assoc, readValue, List.singleton_append,
    readString_flatMap]
  simp

theorem reads_bool (b : Bool) : Reads (.bool b) (if b then "true" else "false").toList := by
  cases b
  · refine ⟨⟨'f', _, rfl, rfl⟩, 1, fun fuel hfuel rest _ => ?_⟩
    obtain ⟨fuel, rfl⟩ := Nat.exists_eq_add_one_of_ne_zero (show fuel ≠ 0 by omega)
    rfl
  · refine ⟨⟨'t', _, rfl, rfl⟩, 1, fun fuel hfuel rest _ => ?_⟩
    obtain ⟨fuel, rfl⟩ := Nat.exists_eq_add_one_of_ne_zero (show fuel ≠ 0 by omega)
    rfl

theorem reads_null : Reads .null "null".toList := by
  refine ⟨⟨'n', _, rfl, rfl⟩, 1, fun fuel hfuel rest _ => ?_⟩
  obtain ⟨fuel, rfl⟩ := Nat.exists_eq_add_one_of_ne_zero (show fuel ≠ 0 by omega)
  rfl

theorem dropPrefix?_append (p rest : List Char) : (p ++ rest).dropPrefix? p = some rest :=
  List.dropPrefix?_eq_some_iff.mpr ⟨p, rfl, beq_self_eq_true p⟩

theorem reads_bytes (bytes : List UInt8) (depth : ℕ) : Reads (.bytes bytes)
    ('\x7b' :: (line (depth + 1) ++ "\"$bytes\": \"".toList ++ bytes.flatMap (fun b => lowerHex 2 b.toNat) ++ ['"'] ++
      line depth ++ ['\x7d'])) := by
  refine ⟨⟨'\x7b', _, rfl, rfl⟩, 1, fun fuel hfuel rest hrest => ?_⟩
  obtain ⟨fuel, rfl⟩ := Nat.exists_eq_add_one_of_ne_zero (show fuel ≠ 0 by omega)
  have hink : Inked "\"$bytes\": \"".toList := ⟨'"', _, rfl, rfl⟩
  simp only [List.cons_append, List.append_assoc, List.nil_append]
  rw [readValue, skipBlanks_line _ hink, dropPrefix?_append]
  simp only [readBytes_flatMap, expect_line depth (show isBlank '\x7d' = false by decide),
    Option.bind_eq_bind, Option.bind_some]
  rfl

/-- The entries of a map are its pairs. -/
theorem mapM_asEntry (entries : List (Value × Value)) :
    (entries.map fun entry => Value.array [entry.1, entry.2]).mapM asEntry = some entries := by
  induction entries with
  | nil => rfl
  | cons entry entries ih => simp [asEntry, ih]

theorem reads_map {entries : List (Value × Value)} {pairs : List (List Char)}
    (h : List.Forall₂ (fun entry pair => Reads (.array [entry.1, entry.2]) pair) entries pairs)
    (depth : ℕ) :
    Reads (.map entries)
      ('\x7b' :: (line (depth + 1) ++ "\"$map\": ".toList ++ list pairs (depth + 1) ++ line depth ++
        ['\x7d'])) := by
  obtain ⟨-, n, hread⟩ := reads_list (List.forall₂_map_left_iff.mpr h) (depth + 1)
  refine ⟨⟨'\x7b', _, rfl, rfl⟩, n + 1, fun fuel hfuel rest hrest => ?_⟩
  obtain ⟨fuel, rfl⟩ := Nat.exists_eq_add_one_of_ne_zero (show fuel ≠ 0 by omega)
  have hink : Inked "\"$map\": ".toList := ⟨'"', _, rfl, rfl⟩
  have hbytes : ∀ rest, ("\"$map\": ".toList ++ rest).dropPrefix? "\"$bytes\": \"".toList = none :=
    fun _ => rfl
  simp only [List.cons_append, List.append_assoc, List.nil_append]
  rw [readValue, skipBlanks_line _ hink, hbytes, dropPrefix?_append]
  simp only [Option.bind_eq_bind, Option.bind_some,
    hread fuel (by omega) _ (noDigitHead_line depth _), mapM_asEntry,
    expect_line depth (show isBlank '\x7d' = false by decide)]
  rfl

/-! ### The dump -/

/-- A value of the database: no tags and no floating-point numbers, and the keys of maps
are numbers or texts. -/
inductive Restricted : Value → Prop
  | unsigned (n : UInt64) : Restricted (.unsigned n)
  | negative (n : UInt64) : Restricted (.negative n)
  | bytes (s : List UInt8) : Restricted (.bytes s)
  | text (s : String) : Restricted (.text s)
  | bool (b : Bool) : Restricted (.bool b)
  | null : Restricted .null
  | array {items : List Value} : (∀ v ∈ items, Restricted v) → Restricted (.array items)
  | map {entries : List (Value × Value)} : (∀ e ∈ entries, (∃ n, e.1 = .unsigned n) ∨ ∃ s, e.1 = .text s) →
      (∀ e ∈ entries, Restricted e.2) → Restricted (.map entries)

/-- Each of the values is written, and read back. -/
theorem writeItems_reads {values : List Value}
    (h : ∀ v ∈ values, ∀ depth, ∃ text, write v depth = .ok text ∧ Reads v text) (depth : ℕ) :
    ∃ texts, writeItems values depth = .ok texts ∧ List.Forall₂ Reads values texts := by
  induction values with
  | nil => exact ⟨[], rfl, .nil⟩
  | cons v values ih =>
    rw [List.forall_mem_cons] at h
    obtain ⟨text, htext, hread⟩ := h.1 depth
    obtain ⟨texts, htexts, hreads⟩ := ih h.2
    exact ⟨text :: texts, by rw [writeItems, htext, htexts]; rfl, .cons hread hreads⟩

theorem write_array_reads {values : List Value}
    (h : ∀ v ∈ values, ∀ depth, ∃ text, write v depth = .ok text ∧ Reads v text) (depth : ℕ) :
    ∃ text, write (.array values) depth = .ok text ∧ Reads (.array values) text := by
  obtain ⟨texts, htexts, hreads⟩ := writeItems_reads h (depth + 1)
  exact ⟨_, by rw [write, htexts]; rfl, reads_list hreads depth⟩

/-- **The dump of a value is read back**, whatever follows it. -/
theorem Restricted.reads {v : Value} (h : Restricted v) (depth : ℕ) :
    ∃ text, write v depth = .ok text ∧ Reads v text := by
  induction h generalizing depth with
  | unsigned n => exact ⟨_, by rw [write], reads_unsigned n⟩
  | negative n => exact ⟨_, by rw [write], reads_negative n⟩
  | bytes s => exact ⟨_, by rw [write], reads_bytes s depth⟩
  | text s => exact ⟨_, by rw [write], reads_text s⟩
  | bool b => exact ⟨_, by rw [write], reads_bool b⟩
  | null => exact ⟨_, by rw [write], reads_null⟩
  | array _ ih => exact write_array_reads ih depth
  | @map entries hkeys _ ih =>
    have hpairs : ∀ pair ∈ entries.map (fun (key, value) => Value.array [key, value]), ∀ depth,
        ∃ text, write pair depth = .ok text ∧ Reads pair text := by
      rintro pair hpair depth
      obtain ⟨⟨key, value⟩, hentry, rfl⟩ := List.mem_map.mp hpair
      refine write_array_reads (List.forall_mem_cons.mpr ⟨fun depth => ?_,
        List.forall_mem_singleton.mpr (ih _ hentry)⟩) depth
      rcases hkeys _ hentry with ⟨n, rfl⟩ | ⟨s, rfl⟩
      · exact ⟨_, by rw [write], reads_unsigned n⟩
      · exact ⟨_, by rw [write], reads_text s⟩
    obtain ⟨pairs, hwrite, hreads⟩ := writeItems_reads hpairs (depth + 2)
    rw [← writeEntries_eq] at hwrite
    exact ⟨_, by rw [write, hwrite]; rfl, reads_map (List.forall₂_map_left_iff.mp hreads) depth⟩

/-- **Values with one dump are one value**, with the entries of maps in one order. -/
theorem diagnostic_injective {v w : Value} (hv : Restricted v) (hw : Restricted w) :
    ∃ s t, diagnostic v = .ok s ∧ diagnostic w = .ok t ∧ (s = t → v = w) := by
  obtain ⟨text, hwrite, -, n, hread⟩ := hv.reads 0
  obtain ⟨text', hwrite', -, m, hread'⟩ := hw.reads 0
  refine ⟨.ofList (text ++ ['\n']), .ofList (text' ++ ['\n']), by rw [diagnostic, hwrite]; rfl,
    by rw [diagnostic, hwrite']; rfl, fun h => ?_⟩
  have hread := hread (n + m) (by omega) ['\n'] (noDigitHead_cons rfl [])
  rw [String.ofList_inj.mp h, hread' (n + m) (by omega) ['\n'] (noDigitHead_cons rfl [])] at hread
  exact (Prod.mk.inj (Option.some.inj hread)).1.symm

/-- Key 1 for bytes, and a text key for a map that imitates them. -/
def ambiguousMaps : Value × Value :=
  (.map [(.unsigned 1, .bytes [1])], .map [(.text "1", .map [(.text "$bytes", .text "01")])])

/-- The two do not collide. -/
theorem ambiguousMaps_differ : ∃ s t, diagnostic ambiguousMaps.1 = .ok s ∧ diagnostic ambiguousMaps.2 = .ok t ∧
    (s = t → ambiguousMaps.1 = ambiguousMaps.2) :=
  diagnostic_injective
    (.map (List.forall_mem_singleton.mpr (.inl ⟨1, rfl⟩)) (List.forall_mem_singleton.mpr (.bytes _)))
    (.map (List.forall_mem_singleton.mpr (.inr ⟨"1", rfl⟩)) (List.forall_mem_singleton.mpr
      (.map (List.forall_mem_singleton.mpr (.inr ⟨"$bytes", rfl⟩)) (List.forall_mem_singleton.mpr (.text _)))))

example : diagnostic (.negative 0xFFFFFFFFFFFFFFFF) = .ok "-18446744073709551616\n" := by decide +kernel

end DdcControl.Dbgen
