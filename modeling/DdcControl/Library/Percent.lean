import Mathlib.Data.List.TakeWhile
import Mathlib.Data.UInt

/-!
# Percent-encoding

A byte that may not stand in a text is written as `%` and two hexadecimal digits. Which
bytes are kept is a parameter. `decode_encode` says that nothing is lost, and
`encode_encoded` that nothing else is written.

A query is pairs of a name and a value, with `=` between the two and `&` between pairs;
`parameters` reads it. Where `%`, `&` and `=` are not kept, `parameters_query` says that the
pairs come back, whatever their bytes are. `queryOf` is the query of a URL.
-/

namespace Percent

/-- `%`. -/
def percent : UInt8 := '%'.toUInt8

/-- `&`. -/
def ampersand : UInt8 := '&'.toUInt8

/-- `=`. -/
def equals : UInt8 := '='.toUInt8

/-- A digit, in upper case. -/
def hexDigit (n : ℕ) : UInt8 := .ofNat (if n < 10 then '0'.toNat + n else 'A'.toNat + (n - 10))

/-- What a digit stands for, in either case. -/
def hexValue (c : UInt8) : Option ℕ :=
  if '0'.toUInt8 ≤ c ∧ c ≤ '9'.toUInt8 then some (c.toNat - '0'.toNat)
  else if 'A'.toUInt8 ≤ c ∧ c ≤ 'F'.toUInt8 then some (c.toNat - 'A'.toNat + 10)
  else if 'a'.toUInt8 ≤ c ∧ c ≤ 'f'.toUInt8 then some (c.toNat - 'a'.toNat + 10)
  else none

/-- A byte written as `%` and two digits. -/
def escape (c : UInt8) : List UInt8 := [percent, hexDigit (c.toNat / 16), hexDigit (c.toNat % 16)]

/-- The bytes that an escape stands for, and every other byte as it is. -/
def decode : List UInt8 → List UInt8
  | [] => []
  | [c] => [c]
  | [c, d] => [c, d]
  | c :: high :: low :: rest =>
    if c = percent then
      match hexValue high, hexValue low with
      | some h, some l => .ofNat (16 * h + l) :: decode rest
      | _, _ => c :: decode (high :: low :: rest)
    else c :: decode (high :: low :: rest)

/-- The name and the value of a pair. -/
def readPair (pair : List UInt8) : List UInt8 × List UInt8 :=
  (decode (pair.takeWhile (· ≠ equals)), decode ((pair.dropWhile (· ≠ equals)).drop 1))

/-- The pairs of a query. -/
def parameters (query : List UInt8) : List (List UInt8 × List UInt8) := (query.splitOn ampersand).map readPair

/-- The query of a URL: what follows the first `?`, as far as a `#`. -/
def queryOf (url : List UInt8) : List UInt8 :=
  ((url.dropWhile (· ≠ '?'.toUInt8)).drop 1).takeWhile (· ≠ '#'.toUInt8)

section Encode

variable (keep : UInt8 → Bool)

/-- A byte, or its escape. -/
def encodeByte (c : UInt8) : List UInt8 := if keep c then [c] else escape c

/-- The bytes that are kept, and the escapes of the others. -/
def encode (s : List UInt8) : List UInt8 := s.flatMap (encodeByte keep)

/-- A pair, written. -/
def writePair (pair : List UInt8 × List UInt8) : List UInt8 := encode keep pair.1 ++ equals :: encode keep pair.2

/-- A query, written. -/
def query (pairs : List (List UInt8 × List UInt8)) : List UInt8 := [ampersand].intercalate (pairs.map (writePair keep))

/-- Bytes that are kept, and escapes. -/
inductive Encoded : List UInt8 → Prop where
  | nil : Encoded []
  | kept {c : UInt8} {rest : List UInt8} : keep c → Encoded rest → Encoded (c :: rest)
  | escaped {high low : UInt8} {rest : List UInt8} : (hexValue high).isSome → (hexValue low).isSome → Encoded rest →
      Encoded (percent :: high :: low :: rest)

end Encode

theorem encode_cons (keep : UInt8 → Bool) (c : UInt8) (s : List UInt8) :
    encode keep (c :: s) = encodeByte keep c ++ encode keep s := List.flatMap_cons

/-! ### Digits -/

theorem hexValue_hexDigit {n : ℕ} (h : n < 16) : hexValue (hexDigit n) = some n := by
  have hall : ∀ n < 16, hexValue (hexDigit n) = some n := by decide
  exact hall n h

theorem high_lt (c : UInt8) : c.toNat / 16 < 16 := by
  have := c.toNat_lt
  omega

theorem low_lt (c : UInt8) : c.toNat % 16 < 16 := Nat.mod_lt _ (by decide)

/-! ### Decoding -/

theorem decode_cons {c : UInt8} (h : c ≠ percent) (rest : List UInt8) :
    decode (c :: rest) = c :: decode rest := by
  match rest with
  | [] | [_] => rfl
  | high :: low :: rest => rw [decode, if_neg h]

theorem decode_escape (c : UInt8) (rest : List UInt8) :
    decode (escape c ++ rest) = c :: decode rest := by
  have hc : UInt8.ofNat (16 * (c.toNat / 16) + c.toNat % 16) = c := by rw [Nat.div_add_mod, UInt8.ofNat_toNat]
  simp only [escape, List.cons_append, List.nil_append, decode, if_true,
    hexValue_hexDigit (high_lt c), hexValue_hexDigit (low_lt c), hc]

section Encode

variable {keep : UInt8 → Bool}

theorem decode_encodeByte (h : keep percent = false) (c : UInt8) (rest : List UInt8) :
    decode (encodeByte keep c ++ rest) = c :: decode rest := by
  unfold encodeByte
  split_ifs with hkeep
  · refine decode_cons ?_ rest
    rintro rfl
    rw [h] at hkeep
    exact Bool.false_ne_true hkeep
  · exact decode_escape c rest

/-- **What is encoded comes back.** -/
theorem decode_encode (h : keep percent = false) (s : List UInt8) : decode (encode keep s) = s := by
  induction s with
  | nil => rfl
  | cons c s ih => rw [encode_cons, decode_encodeByte h, ih]

/-! ### Encoding -/

theorem encode_of_kept {s : List UInt8} (h : ∀ c ∈ s, keep c = true) : encode keep s = s := by
  induction s with
  | nil => rfl
  | cons c s ih =>
    obtain ⟨hc, hs⟩ := List.forall_mem_cons.mp h
    rw [encode_cons, ih hs, encodeByte, if_pos hc]
    rfl

/-- **Nothing else is written.** -/
theorem encode_encoded (s : List UInt8) : Encoded keep (encode keep s) := by
  induction s with
  | nil => exact .nil
  | cons c s ih =>
    rw [encode_cons, encodeByte]
    split_ifs with hkeep
    · exact .kept hkeep ih
    · exact .escaped (by rw [hexValue_hexDigit (high_lt c)]; rfl) (by rw [hexValue_hexDigit (low_lt c)]; rfl) ih

/-- A byte that is no digit, no `%` and not kept is not written. -/
theorem Encoded.not_mem {s : List UInt8} (h : Encoded keep s) {c : UInt8} (hkeep : keep c = false)
    (hc : c ≠ percent) (hdigit : hexValue c = none) : c ∉ s := by
  induction h with
  | nil => exact List.not_mem_nil
  | kept hkept _ ih =>
    refine List.not_mem_cons_of_ne_of_not_mem ?_ ih
    rintro rfl
    rw [hkeep] at hkept
    exact Bool.false_ne_true hkept
  | escaped hhigh hlow _ ih =>
    have hne : ∀ d : UInt8, (hexValue d).isSome → c ≠ d := by
      rintro d hd rfl
      rw [hdigit] at hd
      exact Bool.false_ne_true hd
    exact List.not_mem_cons_of_ne_of_not_mem hc (List.not_mem_cons_of_ne_of_not_mem (hne _ hhigh)
      (List.not_mem_cons_of_ne_of_not_mem (hne _ hlow) ih))

/-! ### Queries -/

theorem takeWhile_name {name : List UInt8} (h : equals ∉ name) (value : List UInt8) :
    (name ++ equals :: value).takeWhile (· ≠ equals) = name ∧
      (name ++ equals :: value).dropWhile (· ≠ equals) = equals :: value := by
  have hall : ∀ c ∈ name, decide (c ≠ equals) = true :=
    fun c hc => decide_eq_true (ne_of_mem_of_not_mem hc h)
  rw [List.takeWhile_append_of_pos hall, List.dropWhile_append_of_pos hall]
  simp

variable (hpercent : keep percent = false) (hequals : keep equals = false)

include hpercent hequals in
theorem readPair_writePair (pair : List UInt8 × List UInt8) :
    readPair (writePair keep pair) = pair := by
  have hname : equals ∉ encode keep pair.1 :=
    (encode_encoded pair.1).not_mem hequals (by decide) (by decide)
  obtain ⟨htake, hdrop⟩ := takeWhile_name hname (encode keep pair.2)
  rw [readPair, writePair, htake, hdrop, List.drop_succ_cons, List.drop_zero,
    decode_encode hpercent, decode_encode hpercent]

/-- A pair has no `&`. -/
theorem ampersand_not_mem (hampersand : keep ampersand = false) (pair : List UInt8 × List UInt8) :
    ampersand ∉ writePair keep pair := by
  have hencoded : ∀ s, ampersand ∉ encode keep s := fun s =>
    (encode_encoded s).not_mem hampersand (by decide) (by decide)
  simp only [writePair, List.mem_append, List.mem_cons, not_or]
  exact ⟨hencoded pair.1, by decide, hencoded pair.2⟩

/-- A query is the written pairs, with `&` between them. -/
theorem splitOn_query (hampersand : keep ampersand = false) {pairs : List (List UInt8 × List UInt8)}
    (hne : pairs ≠ []) :
    (query keep pairs).splitOn ampersand = pairs.map (writePair keep) := by
  refine List.splitOn_intercalate ampersand ?_ (by simpa using hne)
  intro l hl
  obtain ⟨pair, -, rfl⟩ := List.mem_map.mp hl
  exact ampersand_not_mem hampersand pair

include hpercent hequals in
/-- **The pairs of a query come back.** -/
theorem parameters_query (hampersand : keep ampersand = false)
    {pairs : List (List UInt8 × List UInt8)} (hne : pairs ≠ []) :
    parameters (query keep pairs) = pairs := by
  rw [parameters, splitOn_query hampersand hne, List.map_map]
  exact (List.map_congr_left fun pair _ => readPair_writePair hpercent hequals pair).trans (List.map_id pairs)

/-- A query has no byte that is no digit, not kept and none of its marks. -/
theorem not_mem_query {pairs : List (List UInt8 × List UInt8)} {c : UInt8} (hkeep : keep c = false)
    (hdigit : hexValue c = none) (hmarks : c ≠ percent ∧ c ≠ equals ∧ c ≠ ampersand) :
    c ∉ query keep pairs := by
  obtain ⟨hpercent, hequals, hampersand⟩ := hmarks
  have hencoded : ∀ s, c ∉ encode keep s :=
    fun s => (encode_encoded s).not_mem hkeep hpercent hdigit
  have hpair : ∀ pair, c ∉ writePair keep pair := fun pair => by
    simp only [writePair, List.mem_append, List.mem_cons, not_or]
    exact ⟨hencoded pair.1, hequals, hencoded pair.2⟩
  unfold query
  induction pairs with
  | nil => exact List.not_mem_nil
  | cons pair pairs ih =>
    cases pairs with
    | nil => simpa [List.intercalate] using hpair pair
    | cons next pairs =>
      rw [List.map_cons, List.map_cons, List.intercalate_cons_cons, ← List.map_cons]
      simp only [List.mem_append, List.mem_singleton, not_or]
      exact ⟨⟨hpair pair, hampersand⟩, ih⟩

theorem queryOf_append {location query : List UInt8} (hlocation : '?'.toUInt8 ∉ location)
    (hquery : '#'.toUInt8 ∉ query) :
    queryOf (location ++ '?'.toUInt8 :: query) = query := by
  have hall : ∀ c ∈ location, decide (c ≠ '?'.toUInt8) = true :=
    fun c hc => decide_eq_true (ne_of_mem_of_not_mem hc hlocation)
  rw [queryOf, List.dropWhile_append_of_pos hall, List.dropWhile_cons_of_neg (by simp),
    List.drop_succ_cons, List.drop_zero]
  exact List.takeWhile_eq_self_iff.mpr fun c hc => decide_eq_true (ne_of_mem_of_not_mem hc hquery)

end Encode

end Percent
