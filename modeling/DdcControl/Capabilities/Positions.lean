import DdcControl.Capabilities.Parser
import DdcControl.Library.Fallible
import DdcControl.Library.Utf8
import Mathlib.Data.List.Chain

/-!
# Positions of the capabilities parser

The parser reads bytes, but takes names, tokens and the type from its input as `str` slices.
Such a slice panics unless it begins and ends on a character boundary.

## The model

The functions of `DdcControl.Capabilities.Parser` again, with all that may panic: `Checked`
has an outcome for it. The position is an index, as in the source, and a slice is checked.
The `while` loops recur on the bytes left; the others take fuel as before. The stack of the
machine is not modelled, and parentheses may be nested as deep as the text allows.

## What is proved

* `isCharBoundary_succ` — a position after an ASCII byte is a boundary.
* `Agrees` — what the two models have in common; one lemma for each function says that it
  neither panics nor does anything else than its counterpart.
* `parse_safe` — every text is parsed to its end, or refused.
-/

namespace DdcControl.Capabilities.Positions

open Fallible

/-! ### Panics -/

/-- What a parse ends with if not with a result. -/
inductive Fault where
  | panic
  | outOfFuel
  | failed (e : ParseError)
  deriving DecidableEq, Repr

/-- The outcome of a parsing function. -/
abbrev Checked (α : Type) : Type := Except Fault α

/-- `Err(self.err_at(kind, position))`. -/
def failAt {α : Type} (kind : ErrorKind) (position : ℕ) : Checked α := .error (.failed ⟨position, kind⟩)

/-- `hex_nibble`. -/
def hexNibble (byte : UInt8) : Checked UInt8 :=
  if isHexdigit byte then .ok (Capabilities.hexNibble byte) else .error .panic

/-- `token[i]`. -/
def index (token : List UInt8) (i : ℕ) : Checked UInt8 :=
  match token[i]? with
  | some byte => .ok byte
  | none => .error .panic

/-- `high * 16 + low`, of `u8`. -/
def joinNibbles (high low : UInt8) : Checked UInt8 :=
  if high.toNat * 16 + low.toNat < 256 then .ok (high * 16 + low) else .error .panic

section Parser

/-! ### The input -/

variable (bytes : List UInt8)

/-- `str::is_char_boundary`. -/
def isCharBoundary (index : ℕ) : Bool :=
  index = 0 ||
    match bytes[index]? with
    | none => index = bytes.length
    | some byte => !Utf8.isContinuation byte

/-- `&self.input[start..stop]`. -/
def slice (start stop : ℕ) : Checked (List UInt8) :=
  if start ≤ stop ∧ stop ≤ bytes.length ∧ isCharBoundary bytes start ∧ isCharBoundary bytes stop then
    .ok ((bytes.drop start).take (stop - start))
  else .error .panic

/-- `&self.bytes[start..stop]`. -/
def sliceBytes (start stop : ℕ) : Checked (List UInt8) :=
  if start ≤ stop ∧ stop ≤ bytes.length then .ok ((bytes.drop start).take (stop - start)) else .error .panic

theorem lt_of_peek {pos : ℕ} {byte : UInt8} (h : bytes[pos]? = some byte) : pos < bytes.length :=
  (List.getElem?_eq_some_iff.mp h).1

/-- `while matches!(self.peek(), Some(byte) if p(byte)) { self.pos += 1; }`. -/
def scan (p : UInt8 → Bool) (pos : ℕ) : ℕ :=
  match h : bytes[pos]? with
  | none => pos
  | some byte => if p byte then scan p (pos + 1) else pos
termination_by bytes.length - pos
decreasing_by have := lt_of_peek bytes h; omega

/-- `skip_spaces`. -/
def skipSpaces (pos : ℕ) : ℕ := scan bytes isSpace pos

/-- `consume`. -/
def consume (expected : UInt8) (pos : ℕ) : Option ℕ :=
  if bytes[pos]? = some expected then some (pos + 1) else none

/-- `take_name`. -/
def takeName (start : ℕ) : Checked (List UInt8 × ℕ) := do
  let pos := scan bytes isNameByte start
  let name ← slice bytes start pos
  return (name, pos)

/-- `take_token`. -/
def takeToken (start : ℕ) : Checked (List UInt8 × ℕ) :=
  let pos := scan bytes (fun byte => !(byte = openParen || byte = closeParen || isSpace byte)) start
  if start = pos then failAt .unexpectedEnd pos
  else do
    let token ← slice bytes start pos
    return (token, pos)

/-- `take_vcp_code`. -/
def takeVcpCode (position pos : ℕ) : Checked (UInt8 × ℕ) :=
  if bytes.length - pos < 2 then failAt .invalidHex position
  else do
    let token ← sliceBytes bytes pos (pos + 2)
    if !token.all isHexdigit then failAt .invalidHex position
    else do
      let high ← hexNibble (← index token 0)
      let low ← hexNibble (← index token 1)
      let code ← joinNibbles high low
      return (code, pos + 2)

/-- The loop of `skip_balanced`. -/
def skipBalancedAt (depth pos : ℕ) : Checked ℕ :=
  match h : bytes[pos]? with
  | none => failAt .unbalancedParens pos
  | some byte =>
    if byte = openParen then skipBalancedAt (depth + 1) (pos + 1)
    else if byte = closeParen then
      if depth = 0 then .error .panic
      else if depth - 1 = 0 then .ok (pos + 1)
      else skipBalancedAt (depth - 1) (pos + 1)
    else skipBalancedAt depth (pos + 1)
termination_by bytes.length - pos
decreasing_by all_goals have := lt_of_peek bytes h; omega

/-- `skip_balanced`. -/
def skipBalanced (pos : ℕ) : Checked ℕ := skipBalancedAt bytes 1 pos

/-- `skip_balanced_from_current`. -/
def skipBalancedFromCurrent : ℕ → ℕ → Checked ℕ
  | 0, _ => .error .outOfFuel
  | fuel + 1, pos =>
    match bytes[pos]? with
    | none => failAt .unbalancedParens pos
    | some byte =>
      if byte = closeParen then .ok (pos + 1)
      else if byte = openParen then do
        let pos ← skipBalanced bytes (pos + 1)
        skipBalancedFromCurrent fuel pos
      else skipBalancedFromCurrent fuel (pos + 1)

/-! ### Sections -/

/-- `parse_type`. -/
def parseType (pos : ℕ) (parsed : ParsedCaps) : Checked (ℕ × ParsedCaps) := do
  let start := skipSpaces bytes pos
  let pos := scan bytes (fun byte => !(byte = closeParen || isSpace byte)) start
  let value ← slice bytes start pos
  let value := value.map toLowercase
  let parsed :=
    if value = utf8 "lcd" then { parsed with monitorType := some .lcd }
    else if value = utf8 "crt" then { parsed with monitorType := some .crt }
    else parsed
  let pos ← skipBalancedFromCurrent bytes (bytes.length - pos + 1) pos
  return (pos, parsed)

/-- `parse_vcp_values`. -/
def parseVcpValues : ℕ → ℕ → List UInt16 → Checked (List UInt16 × ℕ)
  | 0, _, _ => .error .outOfFuel
  | fuel + 1, pos, values =>
    let pos := skipSpaces bytes pos
    match bytes[pos]? with
    | none => failAt .unbalancedParens pos
    | some byte =>
      if byte = closeParen then .ok (values, pos + 1)
      else if byte = openParen then do
        let pos ← skipBalanced bytes (pos + 1)
        parseVcpValues fuel pos values
      else do
        let (token, pos') ← takeToken bytes pos
        match parseHexU16 token with
        | none => failAt .invalidHex pos
        | some value => parseVcpValues fuel pos' (values ++ [value])

/-- The values after a code. -/
def parseVcpEntry (pos : ℕ) : Checked (Option (List UInt16) × ℕ) :=
  match consume bytes openParen (skipSpaces bytes pos) with
  | none => .ok (none, skipSpaces bytes pos)
  | some pos => do
    let (values, pos) ← parseVcpValues bytes (bytes.length - pos + 1) pos []
    return (if values.isEmpty then none else some values, pos)

/-- `parse_vcp`. -/
def parseVcp : ℕ → ℕ → ParsedCaps → Checked (ℕ × ParsedCaps)
  | 0, _, _ => .error .outOfFuel
  | fuel + 1, pos, parsed =>
    let pos := skipSpaces bytes pos
    match bytes[pos]? with
    | none => failAt .unbalancedParens pos
    | some byte =>
      if byte = closeParen then .ok (pos + 1, parsed)
      else if byte = openParen then failAt .valueWithoutVcpCode pos
      else if isNameByte byte && !isHexdigit byte then do
        let (name, pos') ← takeName bytes pos
        match consume bytes openParen (skipSpaces bytes pos') with
        | none => failAt .invalidHex pos
        | some pos' =>
          if name.map toLowercase = utf8 "vcp" then do
            let (pos, parsed) ← parseVcp fuel pos' parsed
            parseVcp fuel pos parsed
          else do
            let pos ← skipBalanced bytes pos'
            parseVcp fuel pos parsed
      else do
        let (code, pos') ← takeVcpCode bytes pos pos
        let (values, pos) ← parseVcpEntry bytes pos'
        parseVcp fuel pos { parsed with vcp := parsed.vcp ++ [⟨code, values⟩] }

/-- A section by its name, after its opening parenthesis. -/
def parseSection (name : List UInt8) (pos : ℕ) (parsed : ParsedCaps) : Checked (ℕ × ParsedCaps) :=
  if name = utf8 "type" then parseType bytes pos parsed
  else if name = utf8 "vcp" then parseVcp bytes (bytes.length - pos + 1) pos parsed
  else do
    let pos ← skipBalanced bytes pos
    return (pos, parsed)

/-- `parse_sections`. -/
def parseSections : ℕ → Option UInt8 → ℕ → ParsedCaps → Checked (ℕ × ParsedCaps)
  | 0, _, _, _ => .error .outOfFuel
  | fuel + 1, stopAt, pos, parsed =>
    let pos := skipSpaces bytes pos
    match bytes[pos]? with
    | none => if stopAt.isSome then failAt .unbalancedParens pos else .ok (pos, parsed)
    | some byte =>
      if some byte = stopAt then .ok (pos + 1, parsed)
      else if byte = closeParen then failAt .unexpectedCloseParen pos
      else if byte = openParen then do
        let (pos, parsed) ← parseSections fuel (some closeParen) (pos + 1) parsed
        parseSections fuel stopAt pos parsed
      else if isNameByte byte then do
        let (name, pos) ← takeName bytes pos
        match consume bytes openParen (skipSpaces bytes pos) with
        | none => parseSections fuel stopAt (skipSpaces bytes pos) parsed
        | some pos => do
          let (pos, parsed) ← parseSection bytes name pos parsed
          parseSections fuel stopAt pos parsed
      else parseSections fuel stopAt (pos + 1) parsed

end Parser

/-- `Parser::parse`, with the position where it ends. -/
def parse (input : String) : Checked (ℕ × ParsedCaps) :=
  parseSections (utf8 input) ((utf8 input).length + 1) none 0 ⟨none, []⟩

/-! ### Character boundaries -/

/-- A byte after an ASCII byte begins a character. -/
def Follows (a b : UInt8) : Prop := a < 0x80 → Utf8.isContinuation b = false

/-- A character begins with no continuation byte, and is one ASCII byte or has none. -/
theorem utf8EncodeChar_cases (c : Char) : ∃ a tail, String.utf8EncodeChar c = a :: tail ∧
    Utf8.isContinuation a = false ∧ (tail = [] ∨ ∀ b ∈ a :: tail, 0x80 ≤ b) := by
  have hnat : c.val.toNat = c.toNat := rfl
  unfold String.utf8EncodeChar
  simp only
  split_ifs with h1 h2 h3
  all_goals
    refine ⟨_, _, rfl, ?_, ?_⟩
    · simp only [Utf8.isContinuation, Bool.and_eq_false_iff, decide_eq_false_iff_not,
        UInt8.le_iff_toNat_le, UInt8.toNat_ofNat']
      simp
      omega
  · exact .inl rfl
  all_goals
    refine .inr ?_
    simp only [List.forall_mem_cons, List.not_mem_nil, false_implies, implies_true, and_true,
      UInt8.le_iff_toNat_le, UInt8.toNat_ofNat']
    simp
    omega

theorem isChain_utf8EncodeChar (chars : List Char) :
    (chars.flatMap String.utf8EncodeChar).IsChain Follows ∧
      ∀ b ∈ (chars.flatMap String.utf8EncodeChar).head?, Utf8.isContinuation b = false := by
  induction chars with
  | nil => exact ⟨.nil, nofun⟩
  | cons c chars ih =>
    obtain ⟨a, tail, heq, ha, hcases⟩ := utf8EncodeChar_cases c
    rw [List.flatMap_cons, heq]
    refine ⟨List.isChain_append.mpr ⟨?_, ih.1, fun x _ y hy _ => ih.2 y hy⟩, ?_⟩
    · rcases hcases with rfl | hhigh
      · exact .singleton a
      · refine (List.pairwise_of_forall_mem_list fun x hx _ _ hlow => ?_).isChain
        exact absurd hlow (UInt8.not_lt.mpr (hhigh x hx))
    · simpa using ha

theorem utf8_isChain (s : String) : (utf8 s).IsChain Follows := by
  rw [utf8_eq]
  exact (isChain_utf8EncodeChar s.toList).1

section Boundaries

variable {bytes : List UInt8}

theorem isCharBoundary_length : isCharBoundary bytes bytes.length = true := by
  simp [isCharBoundary]

/-- An ASCII byte begins a character. -/
theorem isCharBoundary_ascii {pos : ℕ} {byte : UInt8} (h : bytes[pos]? = some byte)
    (hbyte : byte < 0x80) :
    isCharBoundary bytes pos = true := by
  have hnot : Utf8.isContinuation byte = false := by
    rw [Utf8.isContinuation, Bool.and_eq_false_iff, decide_eq_false_iff_not]
    exact .inl (UInt8.not_le.mpr hbyte)
  simp [isCharBoundary, h, hnot]

/-- **The position after an ASCII byte is a boundary.** -/
theorem isCharBoundary_succ (hchain : bytes.IsChain Follows) {pos : ℕ} {byte : UInt8}
    (h : bytes[pos]? = some byte) (hbyte : byte < 0x80) :
    isCharBoundary bytes (pos + 1) = true := by
  obtain ⟨hlt, rfl⟩ := List.getElem?_eq_some_iff.mp h
  rw [isCharBoundary]
  cases hnext : bytes[pos + 1]? with
  | none =>
    have := List.getElem?_eq_none_iff.mp hnext
    simp only [Bool.or_eq_true, decide_eq_true_eq]
    omega
  | some next =>
    obtain ⟨hlt', rfl⟩ := List.getElem?_eq_some_iff.mp hnext
    have hfollows := List.isChain_iff_getElem.mp hchain pos (by omega)
    simp [hfollows hbyte]

/-! ### Scanning -/

theorem scan_of_none {p : UInt8 → Bool} {pos : ℕ} (h : bytes[pos]? = none) :
    scan bytes p pos = pos := by
  rw [scan]
  split
  · rfl
  · rename_i heq
    cases h.symm.trans heq

theorem scan_of_some {p : UInt8 → Bool} {pos : ℕ} {byte : UInt8} (h : bytes[pos]? = some byte) :
    scan bytes p pos = if p byte then scan bytes p (pos + 1) else pos := by
  rw [scan]
  split
  · rename_i heq
    cases h.symm.trans heq
  · rename_i heq
    cases h.symm.trans heq
    rfl

/-- Where a scan ends. -/
theorem scan_stop (p : UInt8 → Bool) (pos : ℕ) :
    ∀ byte, bytes[scan bytes p pos]? = some byte → p byte = false := by
  induction pos using scan.induct bytes p with
  | case1 pos h =>
    intro byte hbyte
    rw [scan_of_none h, h] at hbyte
    cases hbyte
  | case2 pos byte h hp ih => rwa [scan_of_some h, if_pos hp]
  | case3 pos byte h hp =>
    intro byte' hbyte
    rw [scan_of_some h, if_neg hp, h] at hbyte
    cases hbyte
    simpa using hp

/-- What holds where a scan begins, and after each byte it passes, holds where it ends. -/
theorem scan_induct {p : UInt8 → Bool} {P : ℕ → Prop} {pos : ℕ} (hbegin : P pos)
    (hstep : ∀ pos byte, bytes[pos]? = some byte → p byte = true → P pos → P (pos + 1)) :
    P (scan bytes p pos) := by
  induction pos using scan.induct bytes p with
  | case1 pos h => rwa [scan_of_none h]
  | case2 pos byte h hp ih =>
    rw [scan_of_some h, if_pos hp]
    exact ih (hstep pos byte h hp hbegin)
  | case3 pos byte h hp => rwa [scan_of_some h, if_neg hp]

theorem scan_le {p : UInt8 → Bool} {pos : ℕ} (h : pos ≤ bytes.length) :
    scan bytes p pos ≤ bytes.length :=
  scan_induct (P := (· ≤ bytes.length)) h fun _ _ hbyte _ _ => lt_of_peek bytes hbyte

variable (bytes) in
/-- A scan passes what it accepts. -/
theorem scan_eq (p : UInt8 → Bool) (pos : ℕ) :
    scan bytes p pos = pos + ((bytes.drop pos).takeWhile p).length := by
  induction pos using scan.induct bytes p with
  | case1 pos h =>
    rw [scan_of_none h, List.drop_eq_nil_of_le (List.getElem?_eq_none_iff.mp h)]
    rfl
  | case2 pos byte h hp ih =>
    obtain ⟨hlt, rfl⟩ := List.getElem?_eq_some_iff.mp h
    rw [scan_of_some h, if_pos hp, ih, List.drop_eq_getElem_cons hlt, List.takeWhile_cons_of_pos hp,
      List.length_cons]
    omega
  | case3 pos byte h hp =>
    obtain ⟨hlt, rfl⟩ := List.getElem?_eq_some_iff.mp h
    rw [scan_of_some h, if_neg hp, List.drop_eq_getElem_cons hlt, List.takeWhile_cons_of_neg hp]
    rfl

/-- A scan over ASCII bytes goes from boundary to boundary. -/
theorem isCharBoundary_scan (hchain : bytes.IsChain Follows) {p : UInt8 → Bool}
    (hp : ∀ byte, p byte = true → byte < 0x80) {pos : ℕ} (h : isCharBoundary bytes pos = true) :
    isCharBoundary bytes (scan bytes p pos) = true :=
  scan_induct (P := fun pos => isCharBoundary bytes pos = true) h
    fun _ _ hbyte hpbyte _ => isCharBoundary_succ hchain hbyte (hp _ hpbyte)

/-- A scan up to an ASCII byte ends at a boundary. -/
theorem isCharBoundary_scan_stop {p : UInt8 → Bool} (hp : ∀ byte, p byte = false → byte < 0x80)
    {pos : ℕ} (hpos : pos ≤ bytes.length) : isCharBoundary bytes (scan bytes p pos) = true := by
  have hle : scan bytes p pos ≤ bytes.length := scan_le hpos
  cases h : bytes[scan bytes p pos]? with
  | none =>
    have := List.getElem?_eq_none_iff.mp h
    rw [le_antisymm hle this]
    exact isCharBoundary_length
  | some byte => exact isCharBoundary_ascii h (hp byte (scan_stop p pos byte h))

/-- **What is scanned can be sliced**, between boundaries. -/
theorem slice_scan {p : UInt8 → Bool} {pos : ℕ} (hpos : pos ≤ bytes.length)
    (hbegin : isCharBoundary bytes pos = true)
    (hend : isCharBoundary bytes (scan bytes p pos) = true) :
    slice bytes pos (scan bytes p pos) = .ok ((bytes.drop pos).takeWhile p) := by
  have heq := scan_eq bytes p pos
  rw [slice, if_pos ⟨by omega, scan_le hpos, hbegin, hend⟩, heq, Nat.add_sub_cancel_left]
  exact congrArg Except.ok (List.prefix_iff_eq_take.mp (List.takeWhile_prefix p)).symm

end Boundaries

/-! ### Agreement -/

/-- The outcomes agree: neither is a panic, and results are related. -/
def Agrees {α β : Type} (R : α → β → Prop) : Checked α → Parse β → Prop
  | .ok a, .ok b => R a b
  | .error (.failed e), .error (some e') => e = e'
  | .error .outOfFuel, .error none => True
  | _, _ => False

theorem agrees_fail {α β : Type} {R : α → β → Prop} (kind : ErrorKind) (position : ℕ) :
    Agrees R (failAt kind position) (fail kind position) := rfl

/-- The rule of sequencing. -/
theorem Agrees.bind {α β γ δ : Type} {R : α → β → Prop} {S : γ → δ → Prop}
    {x : Checked α} {y : Parse β} {f : α → Checked γ} {g : β → Parse δ} (h : Agrees R x y)
    (hf : ∀ a b, R a b → Agrees S (f a) (g b)) :
    Agrees S (x >>= f) (y >>= g) := by
  match x, y, h with
  | .ok a, .ok b, h => exact hf a b h
  | .error (.failed e), .error (some e'), h => exact h
  | .error .outOfFuel, .error none, _ => trivial

section Agreement

variable (bytes : List UInt8)

/-- The cursor of a position. -/
def cursorAt (pos : ℕ) : Cursor := ⟨pos, bytes.drop pos⟩

/-- The cursor is at this position, of the input. -/
def At (pos : ℕ) (c : Cursor) : Prop := c = cursorAt bytes pos ∧ pos ≤ bytes.length

/-- The cursor is at a boundary. -/
def AtBoundary (pos : ℕ) (c : Cursor) : Prop := At bytes pos c ∧ isCharBoundary bytes pos = true

variable {bytes}

theorem peek_cursorAt (pos : ℕ) : (cursorAt bytes pos).peek = bytes[pos]? := List.head?_drop

theorem advance_cursorAt (pos : ℕ) : (cursorAt bytes pos).advance = cursorAt bytes (pos + 1) := by
  rw [Cursor.advance, cursorAt, List.tail_drop]
  rfl

theorem takeWhile_cursorAt (p : UInt8 → Bool) (pos : ℕ) :
    (cursorAt bytes pos).takeWhile p = ((bytes.drop pos).takeWhile p, cursorAt bytes (scan bytes p pos)) := by
  have hdrop : (bytes.drop pos).dropWhile p = bytes.drop (scan bytes p pos) := by
    have hleft := @List.drop_left _ ((bytes.drop pos).takeWhile p) ((bytes.drop pos).dropWhile p)
    rw [List.takeWhile_append_dropWhile, List.drop_drop] at hleft
    rw [scan_eq, hleft]
  rw [Cursor.takeWhile, cursorAt, cursorAt, hdrop, scan_eq]

theorem skipSpaces_cursorAt (pos : ℕ) :
    Capabilities.skipSpaces (cursorAt bytes pos) = cursorAt bytes (skipSpaces bytes pos) := by
  rw [Capabilities.skipSpaces, takeWhile_cursorAt]
  rfl

theorem length_rest_cursorAt (pos : ℕ) : (cursorAt bytes pos).rest.length = bytes.length - pos :=
  List.length_drop

variable (bytes) in
/-- An opening parenthesis consumed, or none. -/
theorem consume_cursorAt (pos : ℕ) :
    (bytes[pos]? = some openParen ∧ consume bytes openParen pos = some (pos + 1) ∧
        Capabilities.consume openParen (cursorAt bytes pos) = some (cursorAt bytes (pos + 1))) ∨
      (consume bytes openParen pos = none ∧ Capabilities.consume openParen (cursorAt bytes pos) = none) := by
  rw [consume, Capabilities.consume, peek_cursorAt, advance_cursorAt]
  by_cases h : bytes[pos]? = some openParen
  · exact .inl ⟨h, if_pos h, if_pos h⟩
  · exact .inr ⟨if_neg h, if_neg h⟩

section Sequencing

variable {γ δ : Type} {S : γ → δ → Prop}

/-- After what ends at a boundary. -/
theorem Agrees.bind_at {x : Checked ℕ} {y : Parse Cursor} {f : ℕ → Checked γ} {g : Cursor → Parse δ}
    (h : Agrees (AtBoundary bytes) x y)
    (hf : ∀ pos, pos ≤ bytes.length → isCharBoundary bytes pos = true → Agrees S (f pos) (g (cursorAt bytes pos))) :
    Agrees S (x >>= f) (y >>= g) := by
  refine h.bind fun pos c hc => ?_
  obtain ⟨⟨rfl, hle⟩, hboundary⟩ := hc
  exact hf pos hle hboundary

/-- After what reads a value. -/
theorem Agrees.bind_value {α : Type} {x : Checked (α × ℕ)} {y : Parse (α × Cursor)}
    {f : α × ℕ → Checked γ} {g : α × Cursor → Parse δ}
    (h : Agrees (fun a b => a.1 = b.1 ∧ At bytes a.2 b.2) x y)
    (hf : ∀ a pos, pos ≤ bytes.length → Agrees S (f (a, pos)) (g (a, cursorAt bytes pos))) :
    Agrees S (x >>= f) (y >>= g) := by
  refine h.bind fun r r' hr => ?_
  obtain ⟨a, pos⟩ := r
  obtain ⟨a', c⟩ := r'
  obtain ⟨rfl, rfl, hle⟩ := hr
  exact hf a pos hle

/-- After what adds to the capabilities. -/
theorem Agrees.bind_parsed {x : Checked (ℕ × ParsedCaps)} {y : Parse (Cursor × ParsedCaps)}
    {f : ℕ × ParsedCaps → Checked γ} {g : Cursor × ParsedCaps → Parse δ}
    (h : Agrees (fun a b => At bytes a.1 b.1 ∧ a.2 = b.2) x y)
    (hf : ∀ pos parsed, pos ≤ bytes.length → Agrees S (f (pos, parsed)) (g (cursorAt bytes pos, parsed))) :
    Agrees S (x >>= f) (y >>= g) := by
  refine h.bind fun r r' hr => ?_
  obtain ⟨pos, parsed⟩ := r
  obtain ⟨c, parsed'⟩ := r'
  obtain ⟨⟨rfl, hle⟩, rfl⟩ := hr
  exact hf pos parsed hle

end Sequencing

/-! ### Bytes that delimit -/

theorem isSpace_ascii (byte : UInt8) (h : isSpace byte = true) : byte < 0x80 := by
  simp only [isSpace, Bool.or_eq_true, decide_eq_true_eq] at h
  rcases h with (((rfl | rfl) | rfl) | rfl) | rfl <;> decide

theorem isNameByte_ascii (byte : UInt8) (h : isNameByte byte = true) : byte < 0x80 := by
  have hz : 'z'.toUInt8.toNat = 122 := rfl
  have hZ : 'Z'.toUInt8.toNat = 90 := rfl
  have h9 : '9'.toUInt8.toNat = 57 := rfl
  simp only [isNameByte, Bool.or_eq_true, Bool.and_eq_true, decide_eq_true_eq,
    UInt8.le_iff_toNat_le] at h
  rw [UInt8.lt_iff_toNat_lt]
  show byte.toNat < 128
  rcases h with ((h | h) | h) | rfl
  · omega
  · omega
  · omega
  · decide

theorem not_token_ascii (byte : UInt8)
    (h : (!(byte = openParen || byte = closeParen || isSpace byte)) = false) : byte < 0x80 := by
  simp only [Bool.not_eq_false', Bool.or_eq_true, decide_eq_true_eq] at h
  rcases h with (rfl | rfl) | h
  · decide
  · decide
  · exact isSpace_ascii byte h

theorem not_type_ascii (byte : UInt8) (h : (!(byte = closeParen || isSpace byte)) = false) :
    byte < 0x80 := by
  simp only [Bool.not_eq_false', Bool.or_eq_true, decide_eq_true_eq] at h
  rcases h with rfl | h
  · decide
  · exact isSpace_ascii byte h

theorem hexNibble_lt {byte : UInt8} (h : isHexdigit byte = true) :
    (Capabilities.hexNibble byte).toNat < 16 := by
  have h0 : '0'.toUInt8.toNat = 48 := rfl
  have h9 : '9'.toUInt8.toNat = 57 := rfl
  have ha : 'a'.toUInt8.toNat = 97 := rfl
  have hf : 'f'.toUInt8.toNat = 102 := rfl
  have hA : 'A'.toUInt8.toNat = 65 := rfl
  have hF : 'F'.toUInt8.toNat = 70 := rfl
  have hten : (10 : UInt8).toNat = 10 := rfl
  simp only [isHexdigit, Bool.or_eq_true, Bool.and_eq_true, decide_eq_true_eq,
    UInt8.le_iff_toNat_le] at h
  simp only [Capabilities.hexNibble, Bool.and_eq_true, decide_eq_true_eq, UInt8.le_iff_toNat_le]
  split_ifs <;> simp only [UInt8.toNat_add, UInt8.toNat_sub] <;> omega

/-! ### What is taken -/

theorem skipSpaces_le {pos : ℕ} (h : pos ≤ bytes.length) :
    skipSpaces bytes pos ≤ bytes.length := scan_le h

/-- **A name**, at a byte of it. -/
theorem takeName_agrees (hchain : bytes.IsChain Follows) {pos : ℕ} {byte : UInt8}
    (h : bytes[pos]? = some byte) (hbyte : isNameByte byte = true) :
    ∃ name pos', takeName bytes pos = .ok (name, pos') ∧
      Capabilities.takeName (cursorAt bytes pos) = (name, cursorAt bytes pos') ∧
      pos' ≤ bytes.length := by
  have hpos : pos ≤ bytes.length := (lt_of_peek bytes h).le
  have hbegin := isCharBoundary_ascii h (isNameByte_ascii byte hbyte)
  have hend := isCharBoundary_scan hchain isNameByte_ascii hbegin
  refine ⟨_, _, ?_, takeWhile_cursorAt isNameByte pos, scan_le hpos⟩
  rw [takeName, slice_scan hpos hbegin hend]
  rfl

/-- **A token**, from a boundary on. -/
theorem takeToken_agrees {pos : ℕ} (hpos : pos ≤ bytes.length)
    (hbegin : isCharBoundary bytes pos = true) :
    Agrees (fun a b => a.1 = b.1 ∧ AtBoundary bytes a.2 b.2) (takeToken bytes pos)
      (Capabilities.takeToken (cursorAt bytes pos)) := by
  have hend := isCharBoundary_scan_stop not_token_ascii hpos
  have heq := scan_eq bytes (fun byte => !(byte = openParen || byte = closeParen || isSpace byte)) pos
  have hslice := slice_scan hpos hbegin hend
  simp only [takeToken, Capabilities.takeToken, takeWhile_cursorAt]
  by_cases hempty : ((bytes.drop pos).takeWhile fun byte =>
      !(byte = openParen || byte = closeParen || isSpace byte)) = []
  · rw [hempty, List.length_nil, Nat.add_zero] at heq
    rw [heq, hempty, if_pos rfl]
    exact agrees_fail _ _
  · have hne : pos ≠ scan bytes (fun byte => !(byte = openParen || byte = closeParen || isSpace byte)) pos := by
      have := List.length_pos_iff.mpr hempty
      omega
    rw [if_neg hne, hslice, List.isEmpty_eq_false_iff.mpr hempty]
    exact ⟨rfl, ⟨rfl, scan_le hpos⟩, hend⟩

/-- **A code**, if two bytes are left. -/
theorem takeVcpCode_agrees (position : ℕ) {pos : ℕ} (hpos : pos ≤ bytes.length) :
    Agrees (fun a b => a.1 = b.1 ∧ At bytes a.2 b.2) (takeVcpCode bytes position pos)
      (Capabilities.takeVcpCode position (cursorAt bytes pos)) := by
  have hlength : (bytes.drop pos).length = bytes.length - pos := List.length_drop
  rw [takeVcpCode, Capabilities.takeVcpCode, cursorAt]
  rcases hrest : bytes.drop pos with _ | ⟨high, _ | ⟨low, rest⟩⟩
  · rw [hrest, List.length_nil] at hlength
    rw [if_pos (by omega)]
    exact agrees_fail _ _
  · rw [hrest, List.length_singleton] at hlength
    rw [if_pos (by omega)]
    exact agrees_fail _ _
  · rw [hrest, List.length_cons, List.length_cons] at hlength
    have hslice : sliceBytes bytes pos (pos + 2) = .ok [high, low] := by
      rw [sliceBytes, if_pos ⟨by omega, by omega⟩, hrest, Nat.add_sub_cancel_left]
      rfl
    have hdrop : bytes.drop (pos + 2) = rest := by rw [← List.drop_drop, hrest]; rfl
    rw [if_neg (by omega), hslice]
    by_cases hhigh : isHexdigit high = true
    · by_cases hlow : isHexdigit low = true
      · have hjoin : joinNibbles (Capabilities.hexNibble high) (Capabilities.hexNibble low) =
            .ok (Capabilities.hexNibble high * 16 + Capabilities.hexNibble low) := by
          have := hexNibble_lt hhigh
          have := hexNibble_lt hlow
          rw [joinNibbles, if_pos (by omega)]
        simp only [ok_bind, index, hexNibble, List.all_cons, List.all_nil, hhigh, hlow, hjoin,
          Bool.and_self, Bool.not_true, Bool.false_eq_true, if_false, if_true, List.getElem?_cons_zero,
          List.getElem?_cons_succ]
        exact ⟨rfl, by rw [cursorAt, hdrop], by omega⟩
      · simp only [ok_bind, List.all_cons, hlow, Bool.false_and, Bool.and_false,
          Bool.not_false, if_true, Bool.false_eq_true, if_false]
        exact agrees_fail _ _
    · simp only [ok_bind, List.all_cons, hhigh, Bool.false_and, Bool.not_false, if_true,
        Bool.false_eq_true, if_false]
      exact agrees_fail _ _

/-! ### The functions, one by one -/

theorem skipBalancedAt_of_none {depth pos : ℕ} (h : bytes[pos]? = none) :
    skipBalancedAt bytes depth pos = failAt .unbalancedParens pos := by
  rw [skipBalancedAt]
  split
  · rfl
  · rename_i heq
    cases h.symm.trans heq

theorem skipBalancedAt_of_some {depth pos : ℕ} {byte : UInt8} (h : bytes[pos]? = some byte) :
    skipBalancedAt bytes depth pos =
      if byte = openParen then skipBalancedAt bytes (depth + 1) (pos + 1)
      else if byte = closeParen then
        if depth = 0 then .error .panic
        else if depth - 1 = 0 then .ok (pos + 1)
        else skipBalancedAt bytes (depth - 1) (pos + 1)
      else skipBalancedAt bytes depth (pos + 1) := by
  rw [skipBalancedAt]
  split
  · rename_i heq
    cases h.symm.trans heq
  · rename_i heq
    cases h.symm.trans heq
    rfl

/-- `skip_balanced`, inside at least one parenthesis: the depth does not underflow. -/
theorem skipBalancedAt_agrees (hchain : bytes.IsChain Follows) (depth pos : ℕ)
    (hpos : pos ≤ bytes.length) :
    Agrees (AtBoundary bytes) (skipBalancedAt bytes (depth + 1) pos)
      (Capabilities.skipBalancedAt (depth + 1) pos (bytes.drop pos)) := by
  induction hn : bytes.length - pos generalizing depth pos with
  | zero =>
    rw [List.drop_eq_nil_of_le (by omega), Capabilities.skipBalancedAt,
      skipBalancedAt_of_none (List.getElem?_eq_none_iff.mpr (by omega))]
    exact agrees_fail _ _
  | succ n ih =>
    have hlt : pos < bytes.length := by omega
    have hpeek : bytes[pos]? = some bytes[pos] := List.getElem?_eq_getElem hlt
    rw [List.drop_eq_getElem_cons hlt, Capabilities.skipBalancedAt, skipBalancedAt_of_some hpeek]
    by_cases hopen : bytes[pos] = openParen
    · rw [if_pos hopen, if_pos hopen]
      exact ih (depth + 1) (pos + 1) hlt (by omega)
    rw [if_neg hopen, if_neg hopen]
    by_cases hclose : bytes[pos] = closeParen
    · rw [if_pos hclose, if_pos hclose, if_neg (Nat.succ_ne_zero depth)]
      cases depth with
      | zero => exact ⟨⟨rfl, hlt⟩, isCharBoundary_succ hchain hpeek (by rw [hclose]; decide)⟩
      | succ depth => exact ih depth (pos + 1) hlt (by omega)
    · rw [if_neg hclose, if_neg hclose]
      exact ih depth (pos + 1) hlt (by omega)

theorem skipBalanced_agrees (hchain : bytes.IsChain Follows) {pos : ℕ} (hpos : pos ≤ bytes.length) :
    Agrees (AtBoundary bytes) (skipBalanced bytes pos)
      (Capabilities.skipBalanced (cursorAt bytes pos)) :=
  skipBalancedAt_agrees hchain 0 pos hpos

/-- `skip_balanced_from_current`. -/
theorem skipBalancedFromCurrent_agrees (hchain : bytes.IsChain Follows) (fuel : ℕ) {pos : ℕ}
    (hpos : pos ≤ bytes.length) :
    Agrees (AtBoundary bytes) (skipBalancedFromCurrent bytes fuel pos)
      (Capabilities.skipBalancedFromCurrent fuel (cursorAt bytes pos)) := by
  induction fuel generalizing pos with
  | zero => trivial
  | succ fuel ih =>
    rw [skipBalancedFromCurrent, Capabilities.skipBalancedFromCurrent, peek_cursorAt,
      advance_cursorAt]
    cases hpeek : bytes[pos]? with
    | none => exact agrees_fail _ _
    | some byte =>
      have hnext : pos + 1 ≤ bytes.length := lt_of_peek bytes hpeek
      simp only
      by_cases hclose : byte = closeParen
      · rw [if_pos hclose, if_pos hclose]
        subst hclose
        exact ⟨⟨rfl, hnext⟩, isCharBoundary_succ hchain hpeek (by decide)⟩
      rw [if_neg hclose, if_neg hclose]
      by_cases hopen : byte = openParen
      · rw [if_pos hopen, if_pos hopen]
        exact (skipBalanced_agrees hchain hnext).bind_at fun pos' hle _ => ih hle
      · rw [if_neg hopen, if_neg hopen]
        exact ih hnext

/-- `parse_type`, after its opening parenthesis. -/
theorem parseType_agrees (hchain : bytes.IsChain Follows) {pos : ℕ} (hpos : pos ≤ bytes.length)
    (hbegin : isCharBoundary bytes pos = true) (parsed : ParsedCaps) :
    Agrees (fun a b => At bytes a.1 b.1 ∧ a.2 = b.2) (parseType bytes pos parsed)
      (Capabilities.parseType (cursorAt bytes pos) parsed) := by
  have hspaces := skipSpaces_le hpos
  have hstart := isCharBoundary_scan hchain isSpace_ascii hbegin
  have hend := isCharBoundary_scan_stop not_type_ascii hspaces
  rw [parseType, Capabilities.parseType, skipSpaces_cursorAt, takeWhile_cursorAt]
  simp only [slice_scan hspaces hstart hend, ok_bind, length_rest_cursorAt]
  exact (skipBalancedFromCurrent_agrees hchain _ (scan_le hspaces)).bind_at fun pos' hle _ =>
    ⟨⟨rfl, hle⟩, rfl⟩

/-- `parse_vcp_values`, from a boundary on. -/
theorem parseVcpValues_agrees (hchain : bytes.IsChain Follows) (fuel : ℕ) {pos : ℕ}
    (hpos : pos ≤ bytes.length) (hbegin : isCharBoundary bytes pos = true) (values : List UInt16) :
    Agrees (fun a b => a.1 = b.1 ∧ At bytes a.2 b.2) (parseVcpValues bytes fuel pos values)
      (Capabilities.parseVcpValues fuel (cursorAt bytes pos) values) := by
  induction fuel generalizing pos values with
  | zero => trivial
  | succ fuel ih =>
    have hspaces := skipSpaces_le hpos
    have hstart := isCharBoundary_scan hchain isSpace_ascii hbegin
    rw [parseVcpValues, Capabilities.parseVcpValues]
    simp only [skipSpaces_cursorAt, peek_cursorAt, advance_cursorAt]
    cases hpeek : bytes[skipSpaces bytes pos]? with
    | none => exact agrees_fail _ _
    | some byte =>
      have hnext : skipSpaces bytes pos + 1 ≤ bytes.length := lt_of_peek bytes hpeek
      simp only
      by_cases hclose : byte = closeParen
      · rw [if_pos hclose, if_pos hclose]
        exact ⟨rfl, rfl, hnext⟩
      rw [if_neg hclose, if_neg hclose]
      by_cases hopen : byte = openParen
      · rw [if_pos hopen, if_pos hopen]
        exact (skipBalanced_agrees hchain hnext).bind_at fun pos' hle hboundary =>
          ih hle hboundary values
      · rw [if_neg hopen, if_neg hopen]
        refine (takeToken_agrees hspaces hstart).bind fun r r' hr => ?_
        obtain ⟨token, pos'⟩ := r
        obtain ⟨token', c⟩ := r'
        obtain ⟨rfl, ⟨rfl, hle⟩, hboundary⟩ := hr
        cases parseHexU16 token with
        | none => exact agrees_fail _ _
        | some value => exact ih hle hboundary _

/-- The values after a code. -/
theorem parseVcpEntry_agrees (hchain : bytes.IsChain Follows) {pos : ℕ}
    (hpos : pos ≤ bytes.length) :
    Agrees (fun a b => a.1 = b.1 ∧ At bytes a.2 b.2) (parseVcpEntry bytes pos)
      (Capabilities.parseVcpEntry (cursorAt bytes pos)) := by
  rw [parseVcpEntry, Capabilities.parseVcpEntry, skipSpaces_cursorAt]
  rcases consume_cursorAt bytes (skipSpaces bytes pos) with ⟨hpeek, hsome, hsome'⟩ | ⟨hnone, hnone'⟩
  · rw [hsome, hsome']
    have hnext : skipSpaces bytes pos + 1 ≤ bytes.length := lt_of_peek bytes hpeek
    have hboundary := isCharBoundary_succ hchain hpeek (by decide)
    simp only [length_rest_cursorAt]
    exact (parseVcpValues_agrees hchain _ hnext hboundary []).bind_value fun values pos' hle =>
      ⟨rfl, rfl, hle⟩
  · rw [hnone, hnone']
    exact ⟨rfl, rfl, skipSpaces_le hpos⟩

/-- `parse_vcp`. -/
theorem parseVcp_agrees (hchain : bytes.IsChain Follows) (fuel : ℕ) {pos : ℕ}
    (hpos : pos ≤ bytes.length) (parsed : ParsedCaps) :
    Agrees (fun a b => At bytes a.1 b.1 ∧ a.2 = b.2) (parseVcp bytes fuel pos parsed)
      (Capabilities.parseVcp fuel (cursorAt bytes pos) parsed) := by
  induction fuel generalizing pos parsed with
  | zero => trivial
  | succ fuel ih =>
    have hspaces := skipSpaces_le hpos
    rw [parseVcp, Capabilities.parseVcp]
    simp only [skipSpaces_cursorAt, peek_cursorAt, advance_cursorAt]
    cases hpeek : bytes[skipSpaces bytes pos]? with
    | none => exact agrees_fail _ _
    | some byte =>
      have hnext : skipSpaces bytes pos + 1 ≤ bytes.length := lt_of_peek bytes hpeek
      simp only
      by_cases hclose : byte = closeParen
      · rw [if_pos hclose, if_pos hclose]
        exact ⟨⟨rfl, hnext⟩, rfl⟩
      rw [if_neg hclose, if_neg hclose]
      by_cases hopen : byte = openParen
      · rw [if_pos hopen, if_pos hopen]
        exact agrees_fail _ _
      rw [if_neg hopen, if_neg hopen]
      by_cases hname : (isNameByte byte && !isHexdigit byte) = true
      · rw [if_pos hname, if_pos hname]
        obtain ⟨name, pos', htake, htake', hle⟩ :=
          takeName_agrees hchain hpeek (Bool.and_eq_true_iff.mp hname).1
        rw [htake, htake', ok_bind]
        simp only [skipSpaces_cursorAt]
        rcases consume_cursorAt bytes (skipSpaces bytes pos') with
          ⟨hpeek', hsome, hsome'⟩ | ⟨hnone, hnone'⟩
        · rw [hsome, hsome']
          have hnext' : skipSpaces bytes pos' + 1 ≤ bytes.length := lt_of_peek bytes hpeek'
          simp only
          by_cases hvcp : name.map toLowercase = utf8 "vcp"
          · rw [if_pos hvcp, if_pos hvcp]
            exact (ih hnext' parsed).bind_parsed fun pos'' parsed' hle' => ih hle' _
          · rw [if_neg hvcp, if_neg hvcp]
            exact (skipBalanced_agrees hchain hnext').bind_at fun pos'' hle' _ => ih hle' _
        · rw [hnone, hnone']
          exact agrees_fail _ _
      · rw [if_neg hname, if_neg hname]
        refine (takeVcpCode_agrees _ hspaces).bind_value fun code pos' hle => ?_
        exact (parseVcpEntry_agrees hchain hle).bind_value fun values pos'' hle' => ih hle' _

/-- A section, after its opening parenthesis. -/
theorem parseSection_agrees (hchain : bytes.IsChain Follows) (name : List UInt8) {pos : ℕ}
    (hpos : pos ≤ bytes.length) (hbegin : isCharBoundary bytes pos = true) (parsed : ParsedCaps) :
    Agrees (fun a b => At bytes a.1 b.1 ∧ a.2 = b.2) (parseSection bytes name pos parsed)
      (Capabilities.parseSection name (cursorAt bytes pos) parsed) := by
  rw [parseSection, Capabilities.parseSection]
  by_cases htype : name = utf8 "type"
  · rw [if_pos htype, if_pos htype]
    exact parseType_agrees hchain hpos hbegin parsed
  rw [if_neg htype, if_neg htype]
  by_cases hvcp : name = utf8 "vcp"
  · rw [if_pos hvcp, if_pos hvcp, length_rest_cursorAt]
    exact parseVcp_agrees hchain _ hpos parsed
  · rw [if_neg hvcp, if_neg hvcp]
    exact (skipBalanced_agrees hchain hpos).bind_at fun pos' hle _ => ⟨⟨rfl, hle⟩, rfl⟩

/-- `parse_sections`. -/
theorem parseSections_agrees (hchain : bytes.IsChain Follows) (fuel : ℕ)
    (stopAt : Option UInt8) {pos : ℕ} (hpos : pos ≤ bytes.length) (parsed : ParsedCaps) :
    Agrees (fun a b => At bytes a.1 b.1 ∧ a.2 = b.2) (parseSections bytes fuel stopAt pos parsed)
      (Capabilities.parseSections fuel stopAt (cursorAt bytes pos) parsed) := by
  induction fuel generalizing stopAt pos parsed with
  | zero => trivial
  | succ fuel ih =>
    have hspaces := skipSpaces_le hpos
    rw [parseSections, Capabilities.parseSections]
    simp only [skipSpaces_cursorAt, peek_cursorAt, advance_cursorAt]
    cases hpeek : bytes[skipSpaces bytes pos]? with
    | none =>
      simp only
      by_cases hstop : stopAt.isSome = true
      · rw [if_pos hstop, if_pos hstop]
        exact agrees_fail _ _
      · rw [if_neg hstop, if_neg hstop]
        exact ⟨⟨rfl, hspaces⟩, rfl⟩
    | some byte =>
      have hnext : skipSpaces bytes pos + 1 ≤ bytes.length := lt_of_peek bytes hpeek
      simp only
      by_cases hstop : some byte = stopAt
      · rw [if_pos hstop, if_pos hstop]
        exact ⟨⟨rfl, hnext⟩, rfl⟩
      rw [if_neg hstop, if_neg hstop]
      by_cases hclose : byte = closeParen
      · rw [if_pos hclose, if_pos hclose]
        exact agrees_fail _ _
      rw [if_neg hclose, if_neg hclose]
      by_cases hopen : byte = openParen
      · rw [if_pos hopen, if_pos hopen]
        exact (ih (some closeParen) hnext parsed).bind_parsed fun pos' parsed' hle =>
          ih stopAt hle _
      rw [if_neg hopen, if_neg hopen]
      by_cases hname : isNameByte byte = true
      · rw [if_pos hname, if_pos hname]
        obtain ⟨name, pos', htake, htake', hle⟩ := takeName_agrees hchain hpeek hname
        rw [htake, htake', ok_bind]
        simp only [skipSpaces_cursorAt]
        rcases consume_cursorAt bytes (skipSpaces bytes pos') with
          ⟨hpeek', hsome, hsome'⟩ | ⟨hnone, hnone'⟩
        · rw [hsome, hsome']
          have hnext' : skipSpaces bytes pos' + 1 ≤ bytes.length := lt_of_peek bytes hpeek'
          have hboundary := isCharBoundary_succ hchain hpeek' (by decide)
          exact (parseSection_agrees hchain name hnext' hboundary parsed).bind_parsed
            fun pos'' parsed' hle' => ih stopAt hle' _
        · rw [hnone, hnone']
          exact ih stopAt (skipSpaces_le hle) parsed
      · rw [if_neg hname, if_neg hname]
        exact ih stopAt hnext parsed

/-- Outside of parentheses, the sections end with the input. -/
theorem parseSections_end {fuel pos : ℕ} {parsed : ParsedCaps} {r : ℕ × ParsedCaps}
    (h : parseSections bytes fuel none pos parsed = .ok r) : bytes[r.1]? = none := by
  induction fuel generalizing pos parsed with
  | zero => cases h
  | succ fuel ih =>
    rw [parseSections] at h
    cases hpeek : bytes[skipSpaces bytes pos]? with
    | none =>
      simp only [hpeek] at h
      cases h
      exact hpeek
    | some byte =>
      simp only [hpeek, reduceCtorEq, if_false] at h
      split_ifs at h with hclose hopen hname
      · cases h
      · obtain ⟨r', -, hrest⟩ := bind_eq_ok.mp h
        exact ih hrest
      · obtain ⟨⟨name, pos'⟩, -, hrest⟩ := bind_eq_ok.mp h
        rcases hconsume : consume bytes openParen (skipSpaces bytes pos') with _ | pos''
        · simp only [hconsume] at hrest
          exact ih hrest
        · simp only [hconsume] at hrest
          obtain ⟨r', -, hrest⟩ := bind_eq_ok.mp hrest
          exact ih hrest
      · exact ih h

end Agreement

/-- **A text is parsed to its end, or refused**: no slice cuts a character or leaves the
input, no byte is taken for a hexadecimal digit that is none, no depth is below zero, and
the parser does not go on for ever; and it does what the parser over cursors does. -/
theorem parse_safe (input : String) :
    (∃ parsed, parse input = .ok ((utf8 input).length, parsed) ∧
        Capabilities.parse (utf8 input) = .ok parsed) ∨
      ∃ e, parse input = .error (.failed e) ∧ Capabilities.parse (utf8 input) = .error e := by
  have hagrees := parseSections_agrees (utf8_isChain input) ((utf8 input).length + 1) none
    (Nat.zero_le _) ⟨none, []⟩
  have hfuel := sections_ne_outOfFuel (utf8 input)
  rw [Capabilities.parse]
  change Agrees _ (parse input) (Capabilities.parseSections _ none ⟨0, utf8 input⟩ _) at hagrees
  match hx : parse input, hy : Capabilities.parseSections ((utf8 input).length + 1) none ⟨0, utf8 input⟩
      ⟨none, []⟩, hagrees with
  | .ok (pos, parsed), .ok (c, parsed'), hagrees =>
    obtain ⟨⟨-, hle⟩, rfl⟩ := hagrees
    have hend := List.getElem?_eq_none_iff.mp (parseSections_end hx)
    obtain rfl : pos = (utf8 input).length := le_antisymm hle hend
    exact .inl ⟨parsed, rfl, rfl⟩
  | .error (.failed e), .error (some e'), hagrees =>
    cases hagrees
    exact .inr ⟨e, rfl, rfl⟩
  | .error .outOfFuel, .error none, _ => exact absurd hy hfuel

example : slice (utf8 "(é)") 1 3 = .ok (utf8 "é") ∧ slice (utf8 "(é)") 1 2 = .error .panic := by decide

end DdcControl.Capabilities.Positions
