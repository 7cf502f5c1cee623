import DdcControl.Text

/-!
# The capabilities parser

`ddccontrol-caps` reads a monitor's capabilities string, and the CAPS patches of a
profile, with one hand-written recursive descent parser over bytes.

## The model

`Cursor` is the parser's position: the bytes not read yet, and how many were read,
which error positions report. The parsing functions follow the source one for one.
`parse_sections` and `parse_vcp` call themselves on nested parentheses and loop, so
they take `fuel`, one unit for each pass of a loop; a pass reads at least one byte,
and `parse` starts them with more fuel than there are bytes. Running out of fuel is
an outcome of its own (`.error none`), and `sections_ne_outOfFuel` says that it is
never the outcome of a parse.
-/

namespace DdcControl.Capabilities

/-- `MonitorType`. -/
inductive MonitorType where
  | unknown
  | lcd
  | crt
  deriving DecidableEq, Repr

/-- `ErrorKind`. -/
inductive ErrorKind where
  | invalidHex
  | unexpectedCloseParen
  | unexpectedEnd
  | unbalancedParens
  | valueWithoutVcpCode
  deriving DecidableEq, Repr

/-- `ParseError`: the kind, and the byte at which it was found. -/
structure ParseError where
  position : ℕ
  kind : ErrorKind
  deriving DecidableEq, Repr

/-- `ParsedVcp`: a code, and the values listed for it, `none` standing for all. -/
structure ParsedVcp where
  code : UInt8
  values : Option (List UInt16)
  deriving DecidableEq, Repr

/-- `ParsedCaps`. -/
structure ParsedCaps where
  monitorType : Option MonitorType
  vcp : List ParsedVcp
  deriving DecidableEq, Repr

/-- `Parser`: how many bytes were read, and the bytes that remain. -/
structure Cursor where
  pos : ℕ
  rest : List UInt8
  deriving DecidableEq, Repr

/-- The outcome of a parsing function; `.error none` is running out of fuel. -/
abbrev Parse (α : Type) : Type := Except (Option ParseError) α

/-- `Err(self.err_at(kind, position))`. -/
def fail {α : Type} (kind : ErrorKind) (position : ℕ) : Parse α := .error (some ⟨position, kind⟩)

/-! ### Bytes -/

/-- `b'('`. -/
def openParen : UInt8 := '('.toUInt8

/-- `b')'`. -/
def closeParen : UInt8 := ')'.toUInt8

/-- `u8::is_ascii_whitespace`. -/
def isSpace (byte : UInt8) : Bool := byte = 9 || byte = 10 || byte = 12 || byte = 13 || byte = 32

/-- `u8::is_ascii_hexdigit`. -/
def isHexdigit (byte : UInt8) : Bool :=
  ('0'.toUInt8 ≤ byte && byte ≤ '9'.toUInt8) || ('a'.toUInt8 ≤ byte && byte ≤ 'f'.toUInt8) ||
    ('A'.toUInt8 ≤ byte && byte ≤ 'F'.toUInt8)

/-- `is_name_byte`. -/
def isNameByte (byte : UInt8) : Bool :=
  ('0'.toUInt8 ≤ byte && byte ≤ '9'.toUInt8) || ('a'.toUInt8 ≤ byte && byte ≤ 'z'.toUInt8) ||
    ('A'.toUInt8 ≤ byte && byte ≤ 'Z'.toUInt8) || byte = '_'.toUInt8

/-- `u8::to_ascii_lowercase`. -/
def toLowercase (byte : UInt8) : UInt8 :=
  if 'A'.toUInt8 ≤ byte && byte ≤ 'Z'.toUInt8 then byte + 32 else byte

/-- `hex_nibble`, on a hexadecimal digit. -/
def hexNibble (byte : UInt8) : UInt8 :=
  if '0'.toUInt8 ≤ byte && byte ≤ '9'.toUInt8 then byte - '0'.toUInt8
  else if 'a'.toUInt8 ≤ byte && byte ≤ 'f'.toUInt8 then byte - 'a'.toUInt8 + 10
  else byte - 'A'.toUInt8 + 10

/-- `parse_hex_u16`. -/
def parseHexU16 (token : List UInt8) : Option UInt16 :=
  if token.isEmpty || token.length > 4 || !token.all isHexdigit then none
  else some (token.foldl (fun value byte => 16 * value + (hexNibble byte).toUInt16) 0)

/-! ### The cursor -/

/-- `peek`. -/
def Cursor.peek (c : Cursor) : Option UInt8 := c.rest.head?

/-- `self.pos += 1`. -/
def Cursor.advance (c : Cursor) : Cursor := ⟨c.pos + 1, c.rest.tail⟩

/-- The bytes from the cursor on that satisfy `p`, and the cursor after them. -/
def Cursor.takeWhile (p : UInt8 → Bool) (c : Cursor) : List UInt8 × Cursor :=
  (c.rest.takeWhile p, ⟨c.pos + (c.rest.takeWhile p).length, c.rest.dropWhile p⟩)

/-- `skip_spaces`. -/
def skipSpaces (c : Cursor) : Cursor := (c.takeWhile isSpace).2

/-- `consume`. -/
def consume (expected : UInt8) (c : Cursor) : Option Cursor :=
  if c.peek = some expected then some c.advance else none

/-- `take_name`. -/
def takeName (c : Cursor) : List UInt8 × Cursor := c.takeWhile isNameByte

/-- `take_token`. -/
def takeToken (c : Cursor) : Parse (List UInt8 × Cursor) :=
  let (token, c') := c.takeWhile fun byte => !(byte = openParen || byte = closeParen || isSpace byte)
  if token.isEmpty then fail .unexpectedEnd c.pos else .ok (token, c')

/-- `take_vcp_code`. -/
def takeVcpCode (position : ℕ) (c : Cursor) : Parse (UInt8 × Cursor) :=
  match c.rest with
  | high :: low :: rest =>
    if isHexdigit high && isHexdigit low then .ok (hexNibble high * 16 + hexNibble low, ⟨c.pos + 2, rest⟩)
    else fail .invalidHex position
  | _ => fail .invalidHex position

/-- The loop of `skip_balanced`, inside `depth` open parentheses. -/
def skipBalancedAt : ℕ → ℕ → List UInt8 → Parse Cursor
  | _, pos, [] => fail .unbalancedParens pos
  | depth, pos, byte :: rest =>
    if byte = openParen then skipBalancedAt (depth + 1) (pos + 1) rest
    else if byte = closeParen then
      if depth - 1 = 0 then .ok ⟨pos + 1, rest⟩ else skipBalancedAt (depth - 1) (pos + 1) rest
    else skipBalancedAt depth (pos + 1) rest

/-- `skip_balanced`. -/
def skipBalanced (c : Cursor) : Parse Cursor := skipBalancedAt 1 c.pos c.rest

/-- `skip_balanced_from_current`. -/
def skipBalancedFromCurrent : ℕ → Cursor → Parse Cursor
  | 0, _ => .error none
  | fuel + 1, c =>
    match c.peek with
    | none => fail .unbalancedParens c.pos
    | some byte =>
      if byte = closeParen then .ok c.advance
      else if byte = openParen then do
        let c ← skipBalanced c.advance
        skipBalancedFromCurrent fuel c
      else skipBalancedFromCurrent fuel c.advance

/-! ### Sections -/

/-- `parse_type`. -/
def parseType (c : Cursor) (parsed : ParsedCaps) : Parse (Cursor × ParsedCaps) := do
  let (value, c) := (skipSpaces c).takeWhile fun byte => !(byte = closeParen || isSpace byte)
  let value := value.map toLowercase
  let parsed :=
    if value = utf8 "lcd" then { parsed with monitorType := some .lcd }
    else if value = utf8 "crt" then { parsed with monitorType := some .crt }
    else parsed
  let c ← skipBalancedFromCurrent (c.rest.length + 1) c
  return (c, parsed)

/-- `parse_vcp_values`. -/
def parseVcpValues : ℕ → Cursor → List UInt16 → Parse (List UInt16 × Cursor)
  | 0, _, _ => .error none
  | fuel + 1, c, values =>
    let c := skipSpaces c
    match c.peek with
    | none => fail .unbalancedParens c.pos
    | some byte =>
      if byte = closeParen then .ok (values, c.advance)
      else if byte = openParen then do
        let c ← skipBalanced c.advance
        parseVcpValues fuel c values
      else do
        let (token, c') ← takeToken c
        match parseHexU16 token with
        | none => fail .invalidHex c.pos
        | some value => parseVcpValues fuel c' (values ++ [value])

/-- The values after a code: a parenthesis opens a list, and an empty list stands for all. -/
def parseVcpEntry (c : Cursor) : Parse (Option (List UInt16) × Cursor) :=
  match consume openParen (skipSpaces c) with
  | none => .ok (none, skipSpaces c)
  | some c => do
    let (values, c) ← parseVcpValues (c.rest.length + 1) c []
    return (if values.isEmpty then none else some values, c)

/-- `parse_vcp`. -/
def parseVcp : ℕ → Cursor → ParsedCaps → Parse (Cursor × ParsedCaps)
  | 0, _, _ => .error none
  | fuel + 1, c, parsed =>
    let c := skipSpaces c
    match c.peek with
    | none => fail .unbalancedParens c.pos
    | some byte =>
      if byte = closeParen then .ok (c.advance, parsed)
      else if byte = openParen then fail .valueWithoutVcpCode c.pos
      else if isNameByte byte && !isHexdigit byte then
        let (name, c') := takeName c
        match consume openParen (skipSpaces c') with
        | none => fail .invalidHex c.pos
        | some c' =>
          if name.map toLowercase = utf8 "vcp" then do
            let (c, parsed) ← parseVcp fuel c' parsed
            parseVcp fuel c parsed
          else do
            let c ← skipBalanced c'
            parseVcp fuel c parsed
      else do
        let (code, c') ← takeVcpCode c.pos c
        let (values, c) ← parseVcpEntry c'
        parseVcp fuel c { parsed with vcp := parsed.vcp ++ [⟨code, values⟩] }

/-- A section by its name, after its opening parenthesis. -/
def parseSection (name : List UInt8) (c : Cursor) (parsed : ParsedCaps) : Parse (Cursor × ParsedCaps) :=
  if name = utf8 "type" then parseType c parsed
  else if name = utf8 "vcp" then parseVcp (c.rest.length + 1) c parsed
  else do
    let c ← skipBalanced c
    return (c, parsed)

/-- `parse_sections`. -/
def parseSections : ℕ → Option UInt8 → Cursor → ParsedCaps → Parse (Cursor × ParsedCaps)
  | 0, _, _, _ => .error none
  | fuel + 1, stopAt, c, parsed =>
    let c := skipSpaces c
    match c.peek with
    | none => if stopAt.isSome then fail .unbalancedParens c.pos else .ok (c, parsed)
    | some byte =>
      if some byte = stopAt then .ok (c.advance, parsed)
      else if byte = closeParen then fail .unexpectedCloseParen c.pos
      else if byte = openParen then do
        let (c, parsed) ← parseSections fuel (some closeParen) c.advance parsed
        parseSections fuel stopAt c parsed
      else if isNameByte byte then
        let (name, c) := takeName c
        match consume openParen (skipSpaces c) with
        | none => parseSections fuel stopAt (skipSpaces c) parsed
        | some c => do
          let (c, parsed) ← parseSection name c parsed
          parseSections fuel stopAt c parsed
      else parseSections fuel stopAt c.advance parsed

/-- `Parser::parse`. -/
def parse (input : List UInt8) : Except ParseError ParsedCaps :=
  match parseSections (input.length + 1) none ⟨0, input⟩ ⟨none, []⟩ with
  | .ok (_, parsed) => .ok parsed
  | .error (some e) => .error e
  | .error none => .error ⟨0, .unexpectedEnd⟩ -- not an outcome: `sections_ne_outOfFuel`

/-! ### Fuel -/

/-- The parse did not run out of fuel, and left fewer than `n` bytes if it succeeded. -/
def Within {α : Type} (cursor : α → Cursor) (n : ℕ) : Parse α → Prop
  | .ok a => (cursor a).rest.length < n
  | .error e => e ≠ none

theorem within_fail {α : Type} {cursor : α → Cursor} {n : ℕ} (kind : ErrorKind) (position : ℕ) :
    Within cursor n (fail kind position) := nofun

theorem Within.mono {α : Type} {cursor : α → Cursor} {m n : ℕ} {x : Parse α} (h : Within cursor m x)
    (hmn : m ≤ n) : Within cursor n x := by
  cases x with
  | ok a => exact Nat.lt_of_lt_of_le h hmn
  | error e => exact h

/-- The rule of sequencing: what follows sees a cursor with fewer bytes left. -/
theorem Within.bind {α β : Type} {f : α → Cursor} {g : β → Cursor} {m n : ℕ} {x : Parse α}
    {k : α → Parse β} (h : Within f m x) (hk : ∀ a, (f a).rest.length < m → Within g n (k a)) :
    Within g n (x >>= k) := by
  cases x with
  | ok a => exact hk a h
  | error e => exact h

theorem length_takeWhile_cursor (p : UInt8 → Bool) (c : Cursor) :
    (c.takeWhile p).2.rest.length + (c.takeWhile p).1.length = c.rest.length := by
  show (c.rest.dropWhile p).length + (c.rest.takeWhile p).length = _
  rw [Nat.add_comm, ← List.length_append, List.takeWhile_append_dropWhile]

theorem length_skipSpaces_le (c : Cursor) : (skipSpaces c).rest.length ≤ c.rest.length :=
  Nat.le_of_add_right_le (length_takeWhile_cursor isSpace c).le

theorem peek_eq_some {c : Cursor} {byte : UInt8} (h : c.peek = some byte) :
    ∃ rest, c.rest = byte :: rest := by
  cases hr : c.rest with
  | nil => simp [Cursor.peek, hr] at h
  | cons b rest =>
    simp only [Cursor.peek, hr, List.head?_cons, Option.some.injEq] at h
    exact ⟨rest, by rw [h]⟩

theorem length_advance {c : Cursor} {byte : UInt8} (h : c.peek = some byte) :
    c.advance.rest.length + 1 = c.rest.length := by
  obtain ⟨rest, hr⟩ := peek_eq_some h
  simp [Cursor.advance, hr]

theorem length_consume {expected : UInt8} {c c' : Cursor} (h : consume expected c = some c') :
    c'.rest.length + 1 = c.rest.length := by
  unfold consume at h
  split at h
  · rename_i hp
    rw [← Option.some.inj h]
    exact length_advance hp
  · cases h

/-- A name byte at the cursor makes the name nonempty. -/
theorem length_takeName {c : Cursor} {byte : UInt8} (h : c.peek = some byte)
    (hb : isNameByte byte = true) :
    (takeName c).2.rest.length < c.rest.length := by
  obtain ⟨rest, hr⟩ := peek_eq_some h
  have hlen := length_takeWhile_cursor isNameByte c
  have hpos : 0 < (c.takeWhile isNameByte).1.length := by simp [Cursor.takeWhile, hr, hb]
  rw [takeName]
  omega

theorem skipBalancedAt_within (depth pos : ℕ) (bytes : List UInt8) :
    Within id bytes.length (skipBalancedAt depth pos bytes) := by
  induction bytes generalizing depth pos with
  | nil => exact within_fail _ _
  | cons byte rest ih =>
    unfold skipBalancedAt
    split_ifs
    · exact (ih _ _).mono (Nat.le_succ _)
    · exact Nat.lt_succ_self _
    · exact (ih _ _).mono (Nat.le_succ _)
    · exact (ih _ _).mono (Nat.le_succ _)

theorem skipBalanced_within (c : Cursor) : Within id c.rest.length (skipBalanced c) :=
  skipBalancedAt_within _ _ _

theorem skipBalancedFromCurrent_within (fuel : ℕ) :
    ∀ c : Cursor, c.rest.length < fuel → Within id c.rest.length (skipBalancedFromCurrent fuel c) := by
  induction fuel with
  | zero => exact fun c h => absurd h (Nat.not_lt_zero _)
  | succ fuel ih =>
    intro c h
    unfold skipBalancedFromCurrent
    cases hp : c.peek with
    | none => exact within_fail _ _
    | some byte =>
      have ha := length_advance hp
      simp only
      split_ifs
      · show c.advance.rest.length < c.rest.length
        omega
      · refine (skipBalanced_within c.advance).bind fun c' hc' => ?_
        simp only [id] at hc'
        exact (ih c' (by omega)).mono (by omega)
      · exact (ih c.advance (by omega)).mono (by omega)

theorem parseType_within (c : Cursor) (parsed : ParsedCaps) :
    Within Prod.fst c.rest.length (parseType c parsed) := by
  have hs := length_skipSpaces_le c
  have ht := length_takeWhile_cursor (fun byte => !(byte = closeParen || isSpace byte)) (skipSpaces c)
  refine (skipBalancedFromCurrent_within _ _ (Nat.lt_succ_self _)).bind fun c' hc' => ?_
  show c'.rest.length < c.rest.length
  change _ < (Cursor.takeWhile _ _).2.rest.length at hc'
  simp only [id] at hc'
  omega

theorem takeToken_within (c : Cursor) : Within Prod.snd c.rest.length (takeToken c) := by
  have ht := length_takeWhile_cursor (fun byte => !(byte = openParen || byte = closeParen || isSpace byte)) c
  simp only [takeToken]
  split_ifs with h
  · exact within_fail _ _
  · show (c.takeWhile _).2.rest.length < _
    have : (c.takeWhile fun byte => !(byte = openParen || byte = closeParen || isSpace byte)).1.length ≠ 0 := by
      simpa [List.isEmpty_iff] using h
    omega

theorem takeVcpCode_within (position : ℕ) (c : Cursor) :
    Within Prod.snd c.rest.length (takeVcpCode position c) := by
  unfold takeVcpCode
  split
  · rename_i high low rest hr
    split_ifs
    · show rest.length < c.rest.length
      rw [hr, List.length_cons, List.length_cons]
      omega
    · exact within_fail _ _
  · exact within_fail _ _

theorem parseVcpValues_within (fuel : ℕ) :
    ∀ (c : Cursor) (values : List UInt16), c.rest.length < fuel →
    Within Prod.snd c.rest.length (parseVcpValues fuel c values) := by
  induction fuel with
  | zero => exact fun c _ h => absurd h (Nat.not_lt_zero _)
  | succ fuel ih =>
    intro c values h
    have hs := length_skipSpaces_le c
    unfold parseVcpValues
    cases hp : (skipSpaces c).peek with
    | none => simp only [hp]; exact within_fail _ _
    | some byte =>
      have ha := length_advance hp
      simp only [hp]
      split_ifs
      · show (skipSpaces c).advance.rest.length < c.rest.length
        omega
      · refine (skipBalanced_within _).bind fun c' hc' => ?_
        simp only [id] at hc'
        exact (ih c' values (by omega)).mono (by omega)
      · refine (takeToken_within _).bind fun r hr => ?_
        cases parseHexU16 r.1 with
        | none => exact within_fail _ _
        | some value => exact (ih r.2 _ (by omega)).mono (by omega)

theorem parseVcpEntry_within (c : Cursor) : Within Prod.snd (c.rest.length + 1)
    (parseVcpEntry c) := by
  have hs := length_skipSpaces_le c
  unfold parseVcpEntry
  cases hc : consume openParen (skipSpaces c) with
  | none => exact Nat.lt_succ_of_le hs
  | some c' =>
    have := length_consume hc
    refine (parseVcpValues_within _ c' [] (Nat.lt_succ_self _)).bind fun r hr => ?_
    show r.2.rest.length < _
    omega

theorem parseVcp_within (fuel : ℕ) : ∀ (c : Cursor) (parsed : ParsedCaps), c.rest.length < fuel →
    Within Prod.fst c.rest.length (parseVcp fuel c parsed) := by
  induction fuel with
  | zero => exact fun c _ h => absurd h (Nat.not_lt_zero _)
  | succ fuel ih =>
    intro c parsed h
    have hs := length_skipSpaces_le c
    unfold parseVcp
    cases hp : (skipSpaces c).peek with
    | none => simp only [hp]; exact within_fail _ _
    | some byte =>
      have ha := length_advance hp
      simp only [hp]
      by_cases h1 : byte = closeParen
      · rw [if_pos h1]
        show (skipSpaces c).advance.rest.length < c.rest.length
        omega
      rw [if_neg h1]
      by_cases h2 : byte = openParen
      · rw [if_pos h2]
        exact within_fail _ _
      rw [if_neg h2]
      by_cases h3 : (isNameByte byte && !isHexdigit byte) = true
      · rw [if_pos h3]
        have hn := length_takeName hp (Bool.and_eq_true_iff.mp h3).1
        cases hc : consume openParen (skipSpaces (takeName (skipSpaces c)).2) with
        | none => exact within_fail _ _
        | some c' =>
          have hc' := length_consume hc
          have hs' := length_skipSpaces_le (takeName (skipSpaces c)).2
          simp only
          split_ifs
          · refine (ih c' parsed (by omega)).bind fun r hr => ?_
            exact (ih r.1 r.2 (by omega)).mono (by omega)
          · refine (skipBalanced_within c').bind fun c'' hc'' => ?_
            simp only [id] at hc''
            exact (ih c'' parsed (by omega)).mono (by omega)
      · rw [if_neg h3]
        refine (takeVcpCode_within _ _).bind fun r hr => ?_
        refine (parseVcpEntry_within r.2).bind fun r' hr' => ?_
        exact (ih r'.2 _ (by omega)).mono (by omega)

theorem parseSection_within (name : List UInt8) (c : Cursor) (parsed : ParsedCaps) :
    Within Prod.fst c.rest.length (parseSection name c parsed) := by
  unfold parseSection
  split_ifs
  · exact parseType_within c parsed
  · exact parseVcp_within _ c parsed (Nat.lt_succ_self _)
  · refine (skipBalanced_within c).bind fun c' hc' => ?_
    exact hc'

theorem parseSections_within (fuel : ℕ) :
    ∀ (stopAt : Option UInt8) (c : Cursor) (parsed : ParsedCaps),
    c.rest.length < fuel → Within Prod.fst (c.rest.length + 1)
      (parseSections fuel stopAt c parsed) := by
  induction fuel with
  | zero => exact fun _ c _ h => absurd h (Nat.not_lt_zero _)
  | succ fuel ih =>
    intro stopAt c parsed h
    have hs := length_skipSpaces_le c
    unfold parseSections
    cases hp : (skipSpaces c).peek with
    | none =>
      simp only [hp]
      split_ifs
      · exact within_fail _ _
      · exact Nat.lt_succ_of_le hs
    | some byte =>
      have ha := length_advance hp
      simp only [hp]
      split_ifs with h1 h2 h3 h4
      · show (skipSpaces c).advance.rest.length < c.rest.length + 1
        omega
      · exact within_fail _ _
      · refine (ih _ (skipSpaces c).advance parsed (by omega)).bind fun r hr => ?_
        exact (ih stopAt r.1 r.2 (by omega)).mono (by omega)
      · have hn := length_takeName hp h4
        have hs' := length_skipSpaces_le (takeName (skipSpaces c)).2
        cases hc : consume openParen (skipSpaces (takeName (skipSpaces c)).2) with
        | none => exact (ih stopAt _ parsed (by omega)).mono (by omega)
        | some c' =>
          have hc' := length_consume hc
          refine (parseSection_within _ c' parsed).bind fun r hr => ?_
          exact (ih stopAt r.1 r.2 (by omega)).mono (by omega)
      · exact (ih stopAt _ parsed (by omega)).mono (by omega)

/-- **A parse never runs out of fuel.** -/
theorem sections_ne_outOfFuel (input : List UInt8) :
    parseSections (input.length + 1) none ⟨0, input⟩ ⟨none, []⟩ ≠ .error none := by
  intro h
  have := parseSections_within (input.length + 1) none ⟨0, input⟩ ⟨none, []⟩ (Nat.lt_succ_self _)
  rw [h] at this
  exact this rfl

example : parse (utf8 "(prot(monitor)type(LCD)vcp(04 10 60(11 0F)))") =
    .ok ⟨some .lcd, [⟨0x04, none⟩, ⟨0x10, none⟩, ⟨0x60, some [0x11, 0x0F]⟩]⟩ := by decide

end DdcControl.Capabilities
