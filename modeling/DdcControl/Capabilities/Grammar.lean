import DdcControl.Capabilities.Masking

/-!
# What the parser reads

The capabilities parser as a grammar: for each of its routines a relation between the
bytes it starts at, what it reads and the bytes it stops at. The grammar knows neither
positions nor fuel, and records the values of the `type` sections it comes to, of which
the parser keeps what they say.

## What is proved

* `parseSections_sound`, `parseSections_complete` — the parser accepts the texts of the
  grammar, and no other, with what they list.
* `parse_iff` — the same of a whole text.
-/

namespace DdcControl.Capabilities

/-! ### The grammar -/

/-- The bytes after white space. -/
abbrev trim (bytes : List UInt8) : List UInt8 := bytes.dropWhile isSpace

/-- The name that is next. -/
abbrev nameOf (bytes : List UInt8) : List UInt8 := (trim bytes).takeWhile isNameByte

/-- The bytes after the name that is next, and after white space. -/
abbrev afterName (bytes : List UInt8) : List UInt8 := trim ((trim bytes).dropWhile isNameByte)

/-- Bytes are skipped until as many parentheses are closed. -/
inductive Skips : ℕ → List UInt8 → List UInt8 → Prop where
  | opened {depth : ℕ} {r r' : List UInt8} (h : Skips (depth + 1) r r') : Skips depth (openParen :: r) r'
  | closed {depth : ℕ} {r r' : List UInt8} (h : Skips (depth + 1) r r') : Skips (depth + 2) (closeParen :: r) r'
  | last {r : List UInt8} : Skips 1 (closeParen :: r) r
  | byte {depth : ℕ} {b : UInt8} {r r' : List UInt8} (hb : b ≠ openParen ∧ b ≠ closeParen) (h : Skips depth r r') :
      Skips depth (b :: r) r'

/-- The values of a code, up to the parenthesis that closes them. -/
inductive ReadsValues : List UInt8 → List UInt16 → List UInt8 → Prop where
  | close {r r' : List UInt8} (h : trim r = closeParen :: r') : ReadsValues r [] r'
  | group {r r₁ r₂ r' : List UInt8} {values : List UInt16} (h : trim r = openParen :: r₁) (hskip : Skips 1 r₁ r₂)
      (hrest : ReadsValues r₂ values r') : ReadsValues r values r'
  | value {r r' : List UInt8} {value : UInt16} {values : List UInt16} (h : parseHexU16 ((trim r).takeWhile inToken) = some value)
      (hrest : ReadsValues ((trim r).dropWhile inToken) values r') : ReadsValues r (value :: values) r'

/-- What may follow a code: nothing, or a parenthesis with its values. -/
inductive ReadsEntry : List UInt8 → Option (List UInt16) → List UInt8 → Prop where
  | bare {r : List UInt8} (h : (trim r).head? ≠ some openParen) : ReadsEntry r none (trim r)
  | listed {r r₁ r' : List UInt8} {values : List UInt16} (h : trim r = openParen :: r₁) (hvalues : ReadsValues r₁ values r') :
      ReadsEntry r (if values.isEmpty then none else some values) r'

/-- A `vcp` section, up to the parenthesis that closes it. -/
inductive ReadsVcp : List UInt8 → List ParsedVcp → List UInt8 → Prop where
  | close {r r' : List UInt8} (h : trim r = closeParen :: r') : ReadsVcp r [] r'
  | nested {r r₁ r₂ r' : List UInt8} {b : UInt8} {items items' : List ParsedVcp} (hname : (trim r).head? = some b)
      (hb : (isNameByte b && !isHexdigit b) = true) (h : afterName r = openParen :: r₁)
      (hvcp : (nameOf r).map toLowercase = utf8 "vcp") (hitems : ReadsVcp r₁ items r₂) (hrest : ReadsVcp r₂ items' r') :
      ReadsVcp r (items ++ items') r'
  | skipped {r r₁ r₂ r' : List UInt8} {b : UInt8} {items : List ParsedVcp} (hname : (trim r).head? = some b)
      (hb : (isNameByte b && !isHexdigit b) = true) (h : afterName r = openParen :: r₁)
      (hvcp : (nameOf r).map toLowercase ≠ utf8 "vcp") (hskip : Skips 1 r₁ r₂) (hrest : ReadsVcp r₂ items r') : ReadsVcp r items r'
  | code {r r₁ r₂ r' : List UInt8} {high low : UInt8} {values : Option (List UInt16)} {items : List ParsedVcp}
      (h : trim r = high :: low :: r₁) (hhex : isHexdigit high = true ∧ isHexdigit low = true) (hentry : ReadsEntry r₁ values r₂)
      (hrest : ReadsVcp r₂ items r') : ReadsVcp r (⟨hexNibble high * 16 + hexNibble low, values⟩ :: items) r'

/-- The monitor type that the value of a `type` section gives. -/
def typeOf (value : List UInt8) : Option MonitorType :=
  if value.map toLowercase = utf8 "lcd" then some .lcd else if value.map toLowercase = utf8 "crt" then some .crt else none

/-- What a text lists: the values of its `type` sections, and its codes. -/
structure Listing where
  types : List (List UInt8)
  vcp : List ParsedVcp
  deriving DecidableEq, Repr

namespace Listing

/-- Nothing. -/
def empty : Listing := ⟨[], []⟩

/-- One listing after another. -/
def append (p q : Listing) : Listing := ⟨p.types ++ q.types, p.vcp ++ q.vcp⟩

/-- What the parser records of a listing: the last type that is one, and the codes. -/
def record (p : Listing) (parsed : ParsedCaps) : ParsedCaps :=
  ⟨(p.types.filterMap typeOf).getLast?.or parsed.monitorType, parsed.vcp ++ p.vcp⟩

@[simp] theorem record_empty (parsed : ParsedCaps) : empty.record parsed = parsed := by
  simp [record, empty]

theorem record_append (p q : Listing) (parsed : ParsedCaps) :
    (p.append q).record parsed = q.record (p.record parsed) := by
  simp [record, append, List.filterMap_append, List.getLast?_append, Option.or_assoc]

theorem append_assoc (p q l : Listing) : (p.append q).append l = p.append (q.append l) := by
  simp [append, List.append_assoc]

@[simp] theorem append_empty (p : Listing) : p.append empty = p := by simp [append, empty]

end Listing

/-- A section, by its name, after its opening parenthesis. -/
inductive ReadsSection (name : List UInt8) : List UInt8 → Listing → List UInt8 → Prop where
  | type {r r' : List UInt8} (hname : name = utf8 "type") (hskip : Skips 1 ((trim r).dropWhile inValue) r') :
      ReadsSection name r ⟨[(trim r).takeWhile inValue], []⟩ r'
  | vcp {r r' : List UInt8} {items : List ParsedVcp} (hname : name = utf8 "vcp") (hitems : ReadsVcp r items r') :
      ReadsSection name r ⟨[], items⟩ r'
  | skipped {r r' : List UInt8} (hname : name ≠ utf8 "type" ∧ name ≠ utf8 "vcp") (hskip : Skips 1 r r') :
      ReadsSection name r .empty r'

/-- The sections, to the end of the text, or up to the parenthesis that closes them. -/
inductive ReadsSections : Bool → List UInt8 → Listing → List UInt8 → Prop where
  | done {r : List UInt8} (h : trim r = []) : ReadsSections false r .empty []
  | close {r r' : List UInt8} (h : trim r = closeParen :: r') : ReadsSections true r .empty r'
  | group {inside : Bool} {r r₁ r₂ r' : List UInt8} {p q : Listing} (h : trim r = openParen :: r₁)
      (hgroup : ReadsSections true r₁ p r₂) (hrest : ReadsSections inside r₂ q r') : ReadsSections inside r (p.append q) r'
  | word {inside : Bool} {r r' : List UInt8} {p : Listing} (hname : nameOf r ≠ []) (h : (afterName r).head? ≠ some openParen)
      (hrest : ReadsSections inside (afterName r) p r') : ReadsSections inside r p r'
  | named {inside : Bool} {r r₁ r₂ r' : List UInt8} {p q : Listing} (hname : nameOf r ≠ []) (h : afterName r = openParen :: r₁)
      (hsection : ReadsSection (nameOf r) r₁ p r₂) (hrest : ReadsSections inside r₂ q r') : ReadsSections inside r (p.append q) r'
  | other {inside : Bool} {r r₁ r' : List UInt8} {b : UInt8} {p : Listing} (h : trim r = b :: r₁) (hb : b ≠ openParen ∧ b ≠ closeParen)
      (hname : isNameByte b = false) (hrest : ReadsSections inside r₁ p r') : ReadsSections inside r p r'

/-! ### Skipping -/

theorem skipBalancedAt_eq_ok {depth pos : ℕ} {r : List UInt8} {c : Cursor} (hdepth : 0 < depth)
    (h : skipBalancedAt depth pos r = .ok c) : Skips depth r c.rest := by
  induction r generalizing depth pos with
  | nil => cases h
  | cons b r ih =>
    unfold skipBalancedAt at h
    split_ifs at h with hopen hclose hlast
    · subst hopen
      exact .opened (ih (Nat.succ_pos depth) h)
    · subst hclose
      obtain rfl : depth = 1 := by omega
      cases h
      exact .last
    · subst hclose
      obtain ⟨depth, rfl⟩ : ∃ e, depth = e + 2 := ⟨depth - 2, by omega⟩
      exact .closed (ih (Nat.succ_pos depth) h)
    · exact .byte ⟨hopen, hclose⟩ (ih hdepth h)

theorem Skips.complete {depth : ℕ} {r r' : List UInt8} (h : Skips depth r r') (pos : ℕ) :
    ∃ pos', skipBalancedAt depth pos r = .ok ⟨pos', r'⟩ := by
  induction h generalizing pos with
  | opened _ ih => exact ih (pos + 1)
  | closed _ ih => exact ih (pos + 1)
  | last => exact ⟨pos + 1, rfl⟩
  | byte hb _ ih =>
    unfold skipBalancedAt
    rw [if_neg hb.1, if_neg hb.2]
    exact ih (pos + 1)

theorem skipBalanced_eq_ok {c c' : Cursor} (h : skipBalanced c = .ok c') : Skips 1 c.rest c'.rest :=
  skipBalancedAt_eq_ok one_pos h

/-! ### The parser reads the grammar -/

/-- The parenthesis that `consume` takes. -/
theorem consume_openParen {c c' : Cursor} (h : consume openParen c = some c') :
    c.rest = openParen :: c'.rest := by
  unfold consume at h
  split at h
  · rename_i hp
    obtain ⟨rest, hrest⟩ := peek_eq_some hp
    cases h
    rw [hrest, Cursor.advance, hrest, List.tail_cons]
  · cases h

theorem consume_openParen_eq_none {c : Cursor} (h : consume openParen c = none) :
    c.rest.head? ≠ some openParen := by
  unfold consume at h
  split at h
  · cases h
  · rename_i hp
    exact hp

/-- The byte at the cursor, once white space is skipped. -/
theorem trim_of_peek {c : Cursor} {b : UInt8} (h : (skipSpaces c).peek = some b) :
    trim c.rest = b :: (skipSpaces c).advance.rest := by
  obtain ⟨rest, hrest⟩ := peek_eq_some h
  rw [Cursor.advance, hrest, List.tail_cons]
  exact hrest

theorem takeToken_eq_ok {c : Cursor} {token : List UInt8} {c' : Cursor}
    (h : takeToken c = .ok (token, c')) :
    token = c.rest.takeWhile inToken ∧ c'.rest = c.rest.dropWhile inToken := by
  rw [takeToken_eq] at h
  split at h
  · cases h
  · cases h
    exact ⟨rfl, rfl⟩

theorem parseVcpValues_sound (fuel : ℕ) : ∀ {c c' : Cursor} {values values' : List UInt16},
    parseVcpValues fuel c values = .ok (values', c') →
    ∃ read, values' = values ++ read ∧ ReadsValues c.rest read c'.rest := by
  induction fuel with
  | zero => exact fun h => nomatch h
  | succ fuel ih =>
    intro c c' values values' h
    unfold parseVcpValues at h
    cases hp : (skipSpaces c).peek with
    | none => simp only [hp] at h; cases h
    | some b =>
      have htrim := trim_of_peek hp
      simp only [hp] at h
      split_ifs at h with hclose hopen
      · cases h
        exact ⟨[], (List.append_nil values).symm, .close (hclose ▸ htrim)⟩
      · obtain ⟨c₂, hskip, h⟩ := Fallible.bind_eq_ok.mp h
        obtain ⟨read, rfl, hrest⟩ := ih h
        exact ⟨read, rfl, .group (hopen ▸ htrim) (skipBalanced_eq_ok hskip) hrest⟩
      · obtain ⟨⟨token, c₂⟩, htoken, h⟩ := Fallible.bind_eq_ok.mp h
        obtain ⟨rfl, hc₂⟩ := takeToken_eq_ok htoken
        dsimp only at h
        split at h
        · cases h
        · rename_i value hvalue
          obtain ⟨read, rfl, hrest⟩ := ih h
          rw [hc₂] at hrest
          exact ⟨value :: read, by simp, .value hvalue hrest⟩

theorem parseVcpEntry_sound {c c' : Cursor} {values : Option (List UInt16)}
    (h : parseVcpEntry c = .ok (values, c')) :
    ReadsEntry c.rest values c'.rest := by
  unfold parseVcpEntry at h
  split at h
  · rename_i hnone
    cases h
    exact .bare (consume_openParen_eq_none hnone)
  · rename_i c₁ hopen
    obtain ⟨⟨read, c₂⟩, hvalues, h⟩ := Fallible.bind_eq_ok.mp h
    cases h
    obtain ⟨_, rfl, hread⟩ := parseVcpValues_sound _ hvalues
    exact .listed (consume_openParen hopen) hread

theorem takeVcpCode_eq_ok {position : ℕ} {c c' : Cursor} {code : UInt8}
    (h : takeVcpCode position c = .ok (code, c')) :
    ∃ high low, c.rest = high :: low :: c'.rest ∧ (isHexdigit high = true ∧ isHexdigit low = true) ∧
      code = hexNibble high * 16 + hexNibble low := by
  unfold takeVcpCode at h
  split at h
  · rename_i high low rest hrest
    split_ifs at h with hhex
    · cases h
      exact ⟨high, low, hrest, Bool.and_eq_true_iff.mp hhex, rfl⟩
    · cases h
  · cases h

theorem parseVcp_sound (fuel : ℕ) : ∀ {c c' : Cursor} {parsed parsed' : ParsedCaps},
    parseVcp fuel c parsed = .ok (c', parsed') →
      ∃ items, parsed' = { parsed with vcp := parsed.vcp ++ items } ∧ ReadsVcp c.rest items c'.rest := by
  induction fuel with
  | zero => exact fun h => nomatch h
  | succ fuel ih =>
    intro c c' parsed parsed' h
    unfold parseVcp at h
    cases hp : (skipSpaces c).peek with
    | none => simp only [hp] at h; cases h
    | some b =>
      have htrim := trim_of_peek hp
      have hhead : (trim c.rest).head? = some b := by rw [htrim, List.head?_cons]
      simp only [hp] at h
      by_cases hclose : b = closeParen
      · rw [if_pos hclose] at h
        cases h
        exact ⟨[], by simp, .close (hclose ▸ htrim)⟩
      rw [if_neg hclose] at h
      by_cases hopen : b = openParen
      · rw [if_pos hopen] at h
        cases h
      rw [if_neg hopen] at h
      by_cases hname : (isNameByte b && !isHexdigit b) = true
      · rw [if_pos hname] at h
        split at h
        · cases h
        rename_i c₁ hconsume
        have hafter : afterName c.rest = openParen :: c₁.rest := consume_openParen hconsume
        split_ifs at h with hvcp
        · obtain ⟨⟨c₂, parsed₂⟩, hnested, h⟩ := Fallible.bind_eq_ok.mp h
          obtain ⟨items, rfl, hitems⟩ := ih hnested
          obtain ⟨items', rfl, hrest⟩ := ih h
          exact ⟨items ++ items', by simp, .nested hhead hname hafter hvcp hitems hrest⟩
        · obtain ⟨c₂, hskip, h⟩ := Fallible.bind_eq_ok.mp h
          obtain ⟨items, rfl, hrest⟩ := ih h
          exact ⟨items, rfl, .skipped hhead hname hafter hvcp (skipBalanced_eq_ok hskip) hrest⟩
      · rw [if_neg hname] at h
        obtain ⟨⟨code, c₁⟩, hcode, h⟩ := Fallible.bind_eq_ok.mp h
        obtain ⟨⟨values, c₂⟩, hentry, h⟩ := Fallible.bind_eq_ok.mp h
        obtain ⟨high, low, hrest₁, hhex, rfl⟩ := takeVcpCode_eq_ok hcode
        obtain ⟨items, rfl, hrest⟩ := ih h
        exact ⟨⟨_, values⟩ :: items, by simp, .code hrest₁ hhex (parseVcpEntry_sound hentry) hrest⟩

theorem recordType_eq (value : List UInt8) (parsed : ParsedCaps) :
    recordType value parsed = Listing.record ⟨[value], []⟩ parsed := by
  unfold recordType Listing.record
  simp only [List.append_nil, List.filterMap_cons, List.filterMap_nil, typeOf]
  split_ifs <;> rfl

theorem parseSection_sound {name : List UInt8} {c c' : Cursor} {parsed parsed' : ParsedCaps}
    (h : parseSection name c parsed = .ok (c', parsed')) :
    ∃ p : Listing, parsed' = p.record parsed ∧ ReadsSection name c.rest p c'.rest := by
  unfold parseSection at h
  split_ifs at h with htype hvcp
  · rw [parseType_eq] at h
    obtain ⟨c₁, hskip, h⟩ := Fallible.bind_eq_ok.mp h
    cases h
    exact ⟨_, recordType_eq _ _, .type htype (skipBalanced_eq_ok hskip)⟩
  · obtain ⟨items, rfl, hitems⟩ := parseVcp_sound _ h
    exact ⟨⟨[], items⟩, by simp [Listing.record], .vcp hvcp hitems⟩
  · obtain ⟨c₁, hskip, h⟩ := Fallible.bind_eq_ok.mp h
    cases h
    exact ⟨.empty, (Listing.record_empty _).symm, .skipped ⟨htype, hvcp⟩ (skipBalanced_eq_ok hskip)⟩

/-- The parenthesis that ends the sections, if one does. -/
abbrev stopByte (inside : Bool) : Option UInt8 := if inside then some closeParen else none

theorem parseSections_sound (fuel : ℕ) : ∀ {inside : Bool} {c c' : Cursor} {parsed parsed' : ParsedCaps},
    parseSections fuel (stopByte inside) c parsed = .ok (c', parsed') →
      ∃ p : Listing, parsed' = p.record parsed ∧ ReadsSections inside c.rest p c'.rest := by
  induction fuel with
  | zero => exact fun h => nomatch h
  | succ fuel ih =>
    intro inside c c' parsed parsed' h
    unfold parseSections at h
    cases hp : (skipSpaces c).peek with
    | none =>
      simp only [hp] at h
      have htrim : trim c.rest = [] := List.head?_eq_none_iff.mp hp
      cases inside with
      | true => cases h
      | false =>
        cases h
        refine ⟨.empty, (Listing.record_empty _).symm, ?_⟩
        show ReadsSections false c.rest .empty (trim c.rest)
        rw [htrim]
        exact .done htrim
    | some b =>
      have htrim := trim_of_peek hp
      simp only [hp] at h
      split_ifs at h with hstop hclose hopen hname
      · cases inside with
        | false => cases hstop
        | true =>
          cases hstop
          cases h
          exact ⟨.empty, (Listing.record_empty _).symm, .close htrim⟩
      · cases h
      · obtain ⟨⟨c₂, parsed₂⟩, hgroup, h⟩ := Fallible.bind_eq_ok.mp h
        obtain ⟨p, rfl, hreads⟩ := @ih true _ _ _ _ hgroup
        obtain ⟨q, rfl, hrest⟩ := ih h
        exact ⟨p.append q, (Listing.record_append ..).symm, .group (hopen ▸ htrim) hreads hrest⟩
      · have hne : nameOf c.rest ≠ [] := by
          rw [nameOf, htrim, List.takeWhile_cons_of_pos hname]
          exact List.cons_ne_nil _ _
        split at h
        · rename_i hnone
          obtain ⟨p, rfl, hrest⟩ := ih h
          exact ⟨p, rfl, .word hne (consume_openParen_eq_none hnone) hrest⟩
        · rename_i c₁ hconsume
          obtain ⟨⟨c₂, parsed₂⟩, hsection, h⟩ := Fallible.bind_eq_ok.mp h
          obtain ⟨p, rfl, hreads⟩ := parseSection_sound hsection
          obtain ⟨q, rfl, hrest⟩ := ih h
          exact ⟨p.append q, (Listing.record_append ..).symm,
            .named hne (consume_openParen hconsume) hreads hrest⟩
      · obtain ⟨p, rfl, hrest⟩ := ih h
        refine ⟨p, rfl, .other htrim ⟨hopen, ?_⟩ (by simpa using hname) hrest⟩
        exact hclose

/-! ### What is read -/

/-- The depth after some bytes, starting at a depth; a parenthesis that closes none ends it. -/
def climb : ℕ → List UInt8 → Option ℕ
  | depth, [] => some depth
  | depth, b :: bytes =>
    if b = openParen then climb (depth + 1) bytes
    else if b = closeParen then
      match depth with
      | 0 => none
      | depth + 1 => climb depth bytes
    else climb depth bytes

theorem climb_open (depth : ℕ) (bytes : List UInt8) :
    climb depth (openParen :: bytes) = climb (depth + 1) bytes :=
  if_pos rfl

theorem climb_close (depth : ℕ) (bytes : List UInt8) : climb (depth + 1)
    (closeParen :: bytes) = climb depth bytes :=
  (if_neg (by decide)).trans (if_pos rfl)

theorem climb_byte {b : UInt8} (hb : b ≠ openParen ∧ b ≠ closeParen) (depth : ℕ)
    (bytes : List UInt8) :
    climb depth (b :: bytes) = climb depth bytes :=
  (if_neg hb.1).trans (if_neg hb.2)

theorem climb_append (depth : ℕ) (bytes bytes' : List UInt8) :
    climb depth (bytes ++ bytes') = (climb depth bytes).bind fun depth' => climb depth' bytes' := by
  induction bytes generalizing depth with
  | nil => rfl
  | cons b bytes ih =>
    rw [List.cons_append]
    by_cases hopen : b = openParen
    · subst hopen
      rw [climb_open, climb_open, ih]
    by_cases hclose : b = closeParen
    · subst hclose
      cases depth with
      | zero => rfl
      | succ depth => rw [climb_close, climb_close, ih]
    · rw [climb_byte ⟨hopen, hclose⟩, climb_byte ⟨hopen, hclose⟩, ih]

/-- Further in, the same bytes climb as far. -/
theorem climb_add {depth depth' : ℕ} {bytes : List UInt8}
    (h : climb depth bytes = some depth') (k : ℕ) :
    climb (depth + k) bytes = some (depth' + k) := by
  induction bytes generalizing depth with
  | nil =>
    cases h
    rfl
  | cons b bytes ih =>
    by_cases hopen : b = openParen
    · subst hopen
      rw [climb_open] at h ⊢
      rw [Nat.add_right_comm]
      exact ih h
    by_cases hclose : b = closeParen
    · subst hclose
      cases depth with
      | zero => cases h
      | succ depth =>
        rw [climb_close] at h
        rw [Nat.add_right_comm, climb_close]
        exact ih h
    · rw [climb_byte ⟨hopen, hclose⟩] at h ⊢
      exact ih h

/-- Bytes without a closing parenthesis climb by the opening ones. -/
theorem climb_of_not_mem {bytes : List UInt8} (h : closeParen ∉ bytes) (depth : ℕ) :
    climb depth bytes = some (depth + bytes.count openParen) := by
  induction bytes generalizing depth with
  | nil => rfl
  | cons b bytes ih =>
    rw [List.mem_cons, not_or] at h
    by_cases hopen : b = openParen
    · subst hopen
      rw [climb_open, ih h.2, List.count_cons_self, Nat.add_right_comm, Nat.add_assoc]
    · rw [climb_byte ⟨hopen, Ne.symm h.1⟩, ih h.2, List.count_cons_of_ne (by simpa using hopen)]

theorem climb_plain {bytes : List UInt8} (h : Plain bytes) (depth : ℕ) :
    climb depth bytes = some depth := by
  rw [climb_of_not_mem (fun hmem => (h _ hmem).2 rfl),
    List.count_eq_zero.mpr fun hmem => (h _ hmem).1 rfl, Nat.add_zero]

/-- Bytes are read, from one depth to another. -/
def Consumes (depth : ℕ) (r : List UInt8) (depth' : ℕ) (r' : List UInt8) : Prop :=
  ∃ bytes, r = bytes ++ r' ∧ climb depth bytes = some depth'

namespace Consumes

variable {depth depth' depth'' : ℕ} {r r' r'' : List UInt8}

theorem trans (h : Consumes depth r depth' r') (h' : Consumes depth' r' depth'' r'') :
    Consumes depth r depth'' r'' := by
  obtain ⟨bytes, rfl, hclimb⟩ := h
  obtain ⟨bytes', rfl, hclimb'⟩ := h'
  exact ⟨bytes ++ bytes', by simp, by rw [climb_append, hclimb]; exact hclimb'⟩

theorem add (h : Consumes depth r depth' r') (k : ℕ) : Consumes (depth + k) r (depth' + k) r' := by
  obtain ⟨bytes, rfl, hclimb⟩ := h
  exact ⟨bytes, rfl, climb_add hclimb k⟩

theorem opened : Consumes depth (openParen :: r) (depth + 1) r := ⟨[openParen], rfl, climb_open _ _⟩

theorem closed : Consumes (depth + 1) (closeParen :: r) depth r :=
  ⟨[closeParen], rfl, climb_close _ _⟩

theorem byte {b : UInt8} (hb : b ≠ openParen ∧ b ≠ closeParen) : Consumes depth (b :: r) depth r :=
  ⟨[b], rfl, climb_byte hb _ _⟩

theorem dropWhile {p : UInt8 → Bool} (hp : p openParen = false ∧ p closeParen = false) :
    Consumes depth r depth (r.dropWhile p) := by
  refine ⟨r.takeWhile p, List.takeWhile_append_dropWhile.symm, climb_plain (fun b hb => ?_) depth⟩
  have hpb := List.mem_takeWhile_imp hb
  constructor
  · rintro rfl
    rw [hp.1] at hpb
    cases hpb
  · rintro rfl
    rw [hp.2] at hpb
    cases hpb

theorem trimmed (h : Consumes depth (trim r) depth' r') : Consumes depth r depth' r' :=
  (dropWhile (by decide)).trans h

theorem afterName (h : Consumes depth (afterName r) depth' r') : Consumes depth r depth' r' :=
  ((dropWhile (by decide)).trans h.trimmed).trimmed

/-- To come down is to read something. -/
theorem length_lt (h : Consumes (depth + 1) r 0 r') : r'.length < r.length := by
  obtain ⟨bytes, rfl, hclimb⟩ := h
  cases bytes with
  | nil => cases hclimb
  | cons b bytes =>
    rw [List.length_append, List.length_cons]
    omega

theorem length_le (h : Consumes depth r depth' r') : r'.length ≤ r.length := by
  obtain ⟨bytes, rfl, -⟩ := h
  simp

end Consumes

theorem Skips.consumes {depth : ℕ} {r r' : List UInt8} (h : Skips depth r r') :
    Consumes depth r 0 r' := by
  induction h with
  | opened _ ih => exact Consumes.opened.trans ih
  | closed _ ih => exact Consumes.closed.trans ih
  | last => exact Consumes.closed
  | byte hb _ ih => exact (Consumes.byte hb).trans ih

theorem ReadsValues.consumes {r r' : List UInt8} {values : List UInt16}
    (h : ReadsValues r values r') : Consumes 1 r 0 r' := by
  induction h with
  | close h => exact Consumes.trimmed (h ▸ Consumes.closed)
  | group h hskip _ ih => exact Consumes.trimmed (h ▸ Consumes.opened.trans ((hskip.consumes.add 1).trans ih))
  | value h _ ih => exact Consumes.trimmed ((Consumes.dropWhile (by decide)).trans ih)

theorem ReadsEntry.consumes {r r' : List UInt8} {values : Option (List UInt16)}
    (h : ReadsEntry r values r') : Consumes 0 r 0 r' := by
  cases h with
  | bare => exact Consumes.dropWhile (by decide)
  | listed h hvalues => exact Consumes.trimmed (h ▸ Consumes.opened.trans hvalues.consumes)

theorem isHexdigit_ne {b : UInt8} (h : isHexdigit b = true) : b ≠ openParen ∧ b ≠ closeParen := by
  constructor <;> rintro rfl <;> exact absurd h (by decide)

theorem ReadsVcp.consumes {r r' : List UInt8} {items : List ParsedVcp} (h : ReadsVcp r items r') : Consumes 1 r 0 r' := by
  induction h with
  | close h => exact Consumes.trimmed (h ▸ Consumes.closed)
  | nested _ _ h _ _ _ ih ih' => exact Consumes.afterName (h ▸ Consumes.opened.trans ((ih.add 1).trans ih'))
  | skipped _ _ h _ hskip _ ih => exact Consumes.afterName (h ▸ Consumes.opened.trans ((hskip.consumes.add 1).trans ih))
  | code h hhex hentry _ ih =>
    exact Consumes.trimmed (h ▸ (Consumes.byte (isHexdigit_ne hhex.1)).trans
      ((Consumes.byte (isHexdigit_ne hhex.2)).trans ((hentry.consumes.add 1).trans ih)))

/-- The parentheses that the values of the `type` sections hold. -/
def Listing.swallowed (p : Listing) : ℕ := (p.types.map fun value => value.count openParen).sum

theorem ReadsSection.consumes {name r r' : List UInt8} {p : Listing}
    (h : ReadsSection name r p r') : Consumes 1 r p.swallowed r' := by
  cases h with
  | type _ hskip =>
    have hvalue : closeParen ∉ (trim r).takeWhile inValue :=
      fun hmem => absurd (List.mem_takeWhile_imp hmem) (by decide)
    have hskipped := hskip.consumes.add (((trim r).takeWhile inValue).count openParen)
    rw [Nat.zero_add] at hskipped
    refine Consumes.trimmed (Consumes.trans ⟨_, List.takeWhile_append_dropWhile.symm, climb_of_not_mem hvalue 1⟩ ?_)
    simpa [Listing.swallowed] using hskipped
  | vcp _ hitems => exact hitems.consumes
  | skipped _ hskip => exact hskip.consumes

theorem Listing.swallowed_append (p q : Listing) :
    (p.append q).swallowed = p.swallowed + q.swallowed := by
  simp [swallowed, append]

/-- **Sections are read up to the parenthesis that closes them**, but for what the values
of `type` sections swallow. -/
theorem ReadsSections.consumes {inside : Bool} {r r' : List UInt8} {p : Listing}
    (h : ReadsSections inside r p r') :
    Consumes inside.toNat r p.swallowed r' := by
  induction h with
  | done h => exact h ▸ Consumes.dropWhile (by decide)
  | close h => exact Consumes.trimmed (h ▸ Consumes.closed)
  | @group inside _ _ _ _ p q h _ _ ih ih' =>
    rw [Listing.swallowed_append, Nat.add_comm]
    refine Consumes.trimmed (h ▸ Consumes.opened.trans ?_)
    have hgroup := ih.add inside.toNat
    have hrest := ih'.add p.swallowed
    rw [Nat.add_comm] at hgroup
    rw [Nat.add_comm inside.toNat] at hrest
    exact hgroup.trans hrest
  | word _ _ _ ih => exact Consumes.afterName ih
  | @named inside _ _ _ _ p q _ h hsection _ ih =>
    rw [Listing.swallowed_append, Nat.add_comm]
    refine Consumes.afterName (h ▸ Consumes.opened.trans ?_)
    have hsection := hsection.consumes.add inside.toNat
    have hrest := ih.add p.swallowed
    rw [Nat.add_comm] at hsection
    rw [Nat.add_comm inside.toNat] at hrest
    exact hsection.trans hrest
  | other h hb _ _ ih => exact Consumes.trimmed (h ▸ (Consumes.byte hb).trans ih)

/-! ### Values are some or all -/

/-- An item lists some values, or all. -/
def ParsedVcp.Lists (item : ParsedVcp) : Prop := item.values ≠ some []

theorem ReadsEntry.ne_some_nil {r r' : List UInt8} {values : Option (List UInt16)}
    (h : ReadsEntry r values r') : values ≠ some [] := by
  cases h with
  | bare => exact nofun
  | @listed _ _ values h hvalues => cases values <;> simp

theorem ReadsVcp.lists {r r' : List UInt8} {items : List ParsedVcp} (h : ReadsVcp r items r') :
    ∀ item ∈ items, item.Lists := by
  induction h with
  | close => exact nofun
  | nested _ _ _ _ _ _ ih ih' => exact List.forall_mem_append.mpr ⟨ih, ih'⟩
  | skipped _ _ _ _ _ _ ih => exact ih
  | code _ _ hentry _ ih => exact List.forall_mem_cons.mpr ⟨hentry.ne_some_nil, ih⟩

theorem ReadsSections.lists {inside : Bool} {r r' : List UInt8} {p : Listing}
    (h : ReadsSections inside r p r') :
    ∀ item ∈ p.vcp, item.Lists := by
  induction h with
  | done => exact nofun
  | close => exact nofun
  | group _ _ _ ih ih' => exact List.forall_mem_append.mpr ⟨ih, ih'⟩
  | word _ _ _ ih => exact ih
  | named _ _ hsection _ ih =>
    refine List.forall_mem_append.mpr ⟨?_, ih⟩
    cases hsection with
    | type => exact nofun
    | vcp _ hitems => exact hitems.lists
    | skipped => exact nofun
  | other _ _ _ _ ih => exact ih

/-! ### The grammar is read by the parser -/

theorem peek_skipSpaces {c : Cursor} {b : UInt8} {r : List UInt8} (h : trim c.rest = b :: r) :
    (skipSpaces c).peek = some b ∧ (skipSpaces c).advance.rest = r := by
  show (trim c.rest).head? = some b ∧ (trim c.rest).tail = r
  rw [h]
  exact ⟨rfl, rfl⟩

theorem consume_eq_some {c : Cursor} {r : List UInt8} (h : c.rest = openParen :: r) :
    ∃ c', consume openParen c = some c' ∧ c'.rest = r := by
  refine ⟨c.advance, if_pos ?_, ?_⟩
  · rw [Cursor.peek, h, List.head?_cons]
  · rw [Cursor.advance, h, List.tail_cons]

theorem consume_eq_none {c : Cursor} (h : c.rest.head? ≠ some openParen) :
    consume openParen c = none := if_neg h

theorem Skips.skipBalanced {c : Cursor} {r r' : List UInt8} (h : Skips 1 r r') (hc : c.rest = r) :
    ∃ c', Capabilities.skipBalanced c = .ok c' ∧ c'.rest = r' := by
  subst hc
  obtain ⟨pos', hskip⟩ := h.complete c.pos
  exact ⟨_, hskip, rfl⟩

/-- A token that reads as a value begins with a byte of its own. -/
theorem head_of_token {r : List UInt8} {value : UInt16}
    (h : parseHexU16 (r.takeWhile inToken) = some value) :
    ∃ b r', r = b :: r' ∧ inToken b = true := by
  cases r with
  | nil => cases h
  | cons b r =>
    cases hb : inToken b with
    | false =>
      rw [List.takeWhile_cons_of_neg (by simp [hb])] at h
      cases h
    | true => exact ⟨b, r, rfl, hb⟩

theorem inToken_ne {b : UInt8} (h : inToken b = true) : b ≠ closeParen ∧ b ≠ openParen := by
  constructor <;> rintro rfl <;> exact absurd h (by decide)

theorem length_of_trim {r r' : List UInt8} {b : UInt8} (h : trim r = b :: r') :
    r'.length < r.length := by
  have hle : (trim r).length ≤ r.length := (List.dropWhile_suffix _).length_le
  rw [h, List.length_cons] at hle
  omega

theorem length_of_afterName {r r' : List UInt8} {b : UInt8} (h : afterName r = b :: r') :
    r'.length < r.length :=
  (length_of_trim h).trans_le ((List.dropWhile_suffix _).trans (List.dropWhile_suffix _)).length_le

theorem parseVcpValues_complete {r r' : List UInt8} {read : List UInt16}
    (h : ReadsValues r read r') :
    ∀ {c : Cursor} {fuel : ℕ}, c.rest = r → r.length < fuel → ∀ values,
      ∃ c', parseVcpValues fuel c values = .ok (values ++ read, c') ∧ c'.rest = r' := by
  induction h with
  | close h =>
    rintro c (_ | fuel) rfl hfuel values
    · cases hfuel
    obtain ⟨hpeek, hrest⟩ := peek_skipSpaces h
    refine ⟨(skipSpaces c).advance, ?_, hrest⟩
    unfold parseVcpValues
    simp only [hpeek]
    rw [if_pos trivial, List.append_nil]
  | group h hskip hread ih =>
    rintro c (_ | fuel) rfl hfuel values
    · cases hfuel
    obtain ⟨hpeek, hrest⟩ := peek_skipSpaces h
    obtain ⟨c₂, hskipped, hc₂⟩ := hskip.skipBalanced hrest
    have hlen := length_of_trim h
    have hlen₂ := hskip.consumes.length_lt
    obtain ⟨c', hparse, hc'⟩ := @ih _ fuel hc₂ (by omega) values
    refine ⟨c', ?_, hc'⟩
    unfold parseVcpValues
    simp only [hpeek]
    rw [if_neg (by decide), if_pos trivial, hskipped]
    exact hparse
  | value h hread ih =>
    rintro c (_ | fuel) rfl hfuel values
    · cases hfuel
    obtain ⟨b, r₁, htrim, hb⟩ := head_of_token h
    have hlen := length_of_trim htrim
    have hlen₂ : ((trim c.rest).dropWhile inToken).length ≤ r₁.length := by
      rw [htrim, List.dropWhile_cons_of_pos hb]
      exact (List.dropWhile_suffix _).length_le
    have hne : ¬((trim c.rest).takeWhile inToken).isEmpty = true := by
      rw [htrim, List.takeWhile_cons_of_pos hb]
      exact Bool.false_ne_true
    obtain ⟨c', hparse, hc'⟩ := @ih (((skipSpaces c).takeWhile inToken).2) fuel rfl (by omega) (values ++ [_])
    refine ⟨c', ?_, hc'⟩
    have htoken : takeToken (skipSpaces c) = .ok ((skipSpaces c).takeWhile inToken) := by
      rw [takeToken_eq]
      exact if_neg hne
    unfold parseVcpValues
    simp only [(peek_skipSpaces htrim).1]
    rw [if_neg (inToken_ne hb).1, if_neg (inToken_ne hb).2, htoken]
    have hvalue : parseHexU16 ((skipSpaces c).takeWhile inToken).1 = some _ := h
    simp only [bind, Except.bind, hvalue]
    simpa using hparse

theorem parseVcpEntry_complete {r r' : List UInt8} {values : Option (List UInt16)}
    (h : ReadsEntry r values r') {c : Cursor} (hc : c.rest = r) :
    ∃ c', parseVcpEntry c = .ok (values, c') ∧ c'.rest = r' := by
  subst hc
  cases h with
  | bare h =>
    refine ⟨skipSpaces c, ?_, rfl⟩
    unfold parseVcpEntry
    rw [consume_eq_none h]
  | listed h hvalues =>
    obtain ⟨c₁, hconsume, hc₁⟩ := consume_eq_some (c := skipSpaces c) h
    subst hc₁
    obtain ⟨c', hparse, hc'⟩ := parseVcpValues_complete hvalues rfl (Nat.lt_succ_self c₁.rest.length) []
    refine ⟨c', ?_, hc'⟩
    unfold parseVcpEntry
    rw [hconsume]
    dsimp only
    rw [hparse]
    rfl

theorem isNameByte_ne_paren {b : UInt8} (h : isNameByte b = true) :
    b ≠ closeParen ∧ b ≠ openParen :=
  ⟨(isNameByte_ne h).2.1, (isNameByte_ne h).1⟩

theorem parseVcp_complete {r r' : List UInt8} {items : List ParsedVcp} (h : ReadsVcp r items r') :
    ∀ {c : Cursor} {fuel : ℕ}, c.rest = r → r.length < fuel → ∀ parsed : ParsedCaps,
      ∃ c', parseVcp fuel c parsed = .ok (c', { parsed with vcp := parsed.vcp ++ items }) ∧ c'.rest = r' := by
  induction h with
  | close h =>
    rintro c (_ | fuel) rfl hfuel parsed
    · cases hfuel
    obtain ⟨hpeek, hrest⟩ := peek_skipSpaces h
    refine ⟨(skipSpaces c).advance, ?_, hrest⟩
    unfold parseVcp
    simp only [hpeek]
    rw [if_pos trivial, List.append_nil]
  | nested hname hb h hvcp hitems _ ih ih' =>
    rintro c (_ | fuel) rfl hfuel parsed
    · cases hfuel
    obtain ⟨c₁, hconsume, hc₁⟩ := consume_eq_some (c := skipSpaces (takeName (skipSpaces c)).2) h
    have hlen := length_of_afterName h
    have hlen₂ := hitems.consumes.length_lt
    obtain ⟨c₂, hnested, hc₂⟩ := @ih _ fuel hc₁ (by omega) parsed
    obtain ⟨c', hparse, hc'⟩ := @ih' _ fuel hc₂ (by omega) { parsed with vcp := parsed.vcp ++ _ }
    refine ⟨c', ?_, hc'⟩
    have hparen := isNameByte_ne_paren (Bool.and_eq_true_iff.mp hb).1
    have hvcp : (takeName (skipSpaces c)).1.map toLowercase = utf8 "vcp" := hvcp
    unfold parseVcp
    simp only [show (skipSpaces c).peek = _ from hname]
    rw [if_neg hparen.1, if_neg hparen.2, if_pos hb, hconsume]
    dsimp only
    rw [if_pos hvcp, hnested, ← List.append_assoc]
    exact hparse
  | skipped hname hb h hvcp hskip _ ih =>
    rintro c (_ | fuel) rfl hfuel parsed
    · cases hfuel
    obtain ⟨c₁, hconsume, hc₁⟩ := consume_eq_some (c := skipSpaces (takeName (skipSpaces c)).2) h
    obtain ⟨c₂, hskipped, hc₂⟩ := hskip.skipBalanced hc₁
    have hlen := length_of_afterName h
    have hlen₂ := hskip.consumes.length_lt
    obtain ⟨c', hparse, hc'⟩ := @ih _ fuel hc₂ (by omega) parsed
    refine ⟨c', ?_, hc'⟩
    have hparen := isNameByte_ne_paren (Bool.and_eq_true_iff.mp hb).1
    have hvcp : (takeName (skipSpaces c)).1.map toLowercase ≠ utf8 "vcp" := hvcp
    unfold parseVcp
    simp only [show (skipSpaces c).peek = _ from hname]
    rw [if_neg hparen.1, if_neg hparen.2, if_pos hb, hconsume]
    dsimp only
    rw [if_neg hvcp, hskipped]
    exact hparse
  | @code r r₁ r₂ r' high low values items h hhex hentry _ ih =>
    rintro c (_ | fuel) rfl hfuel parsed
    · cases hfuel
    obtain ⟨hpeek, hrest⟩ := peek_skipSpaces h
    obtain ⟨c₂, hparsed, hc₂⟩ := parseVcpEntry_complete hentry (c := ⟨(skipSpaces c).pos + 2, r₁⟩) rfl
    have hlen := length_of_trim h
    have hlen₂ := hentry.consumes.length_le
    rw [List.length_cons] at hlen
    obtain ⟨c', hparse, hc'⟩ := @ih _ fuel hc₂ (by omega) { parsed with vcp := parsed.vcp ++ [⟨_, values⟩] }
    refine ⟨c', ?_, hc'⟩
    have hparen := isHexdigit_ne hhex.1
    have hcode : takeVcpCode (skipSpaces c).pos (skipSpaces c) =
        .ok (hexNibble high * 16 + hexNibble low, ⟨(skipSpaces c).pos + 2, r₁⟩) := by
      unfold takeVcpCode
      rw [show (skipSpaces c).rest = high :: low :: r₁ from h]
      simp only [hhex.1, hhex.2]
      rfl
    unfold parseVcp
    simp only [hpeek]
    rw [if_neg hparen.2, if_neg hparen.1, if_neg (by simp [hhex.1]), hcode]
    show (parseVcpEntry _ >>= _) = _
    rw [hparsed, List.append_cons]
    exact hparse

theorem parseSection_complete {name r r' : List UInt8} {p : Listing} (h : ReadsSection name r p r')
    {c : Cursor} (hc : c.rest = r) (parsed : ParsedCaps) :
    ∃ c', parseSection name c parsed = .ok (c', p.record parsed) ∧ c'.rest = r' := by
  subst hc
  unfold parseSection
  cases h with
  | type hname hskip =>
    obtain ⟨c', hskipped, hc'⟩ := hskip.skipBalanced (c := ((skipSpaces c).takeWhile inValue).2) rfl
    refine ⟨c', ?_, hc'⟩
    rw [if_pos hname, parseType_eq, hskipped]
    exact congrArg (fun parsed => Except.ok (c', parsed)) (recordType_eq _ _)
  | vcp hname hitems =>
    obtain ⟨c', hparse, hc'⟩ := parseVcp_complete hitems (c := c) rfl (Nat.lt_succ_self _) parsed
    refine ⟨c', ?_, hc'⟩
    rw [if_neg (by rw [hname]; decide), if_pos hname, hparse]
    simp [Listing.record]
  | skipped hname hskip =>
    obtain ⟨c', hskipped, hc'⟩ := hskip.skipBalanced (c := c) rfl
    refine ⟨c', ?_, hc'⟩
    rw [if_neg hname.1, if_neg hname.2, hskipped, Listing.record_empty]
    rfl

/-- The byte that begins a name. -/
theorem head_of_nameOf {r : List UInt8} (h : nameOf r ≠ []) :
    ∃ b r', trim r = b :: r' ∧ isNameByte b = true := by
  unfold nameOf at h
  cases htrim : trim r with
  | nil =>
    rw [htrim] at h
    exact absurd rfl h
  | cons b r' =>
    cases hb : isNameByte b with
    | false =>
      rw [htrim, List.takeWhile_cons_of_neg (by simp [hb])] at h
      exact absurd rfl h
    | true => exact ⟨b, r', rfl, hb⟩

theorem stopByte_ne {b : UInt8} (hb : b ≠ closeParen) (inside : Bool) :
    some b ≠ stopByte inside := by
  cases inside
  · exact nofun
  · exact fun h => hb (Option.some.inj h)

/-- What follows a name is shorter than what begins with it. -/
theorem length_afterName_lt {r : List UInt8} (h : nameOf r ≠ []) :
    (afterName r).length < r.length := by
  obtain ⟨b, r', htrim, hb⟩ := head_of_nameOf h
  have hlen := length_of_trim htrim
  have hle : (afterName r).length ≤ ((trim r).dropWhile isNameByte).length :=
    (List.dropWhile_suffix _).length_le
  rw [htrim, List.dropWhile_cons_of_pos hb] at hle
  have hle' : (r'.dropWhile isNameByte).length ≤ r'.length := (List.dropWhile_suffix _).length_le
  omega

theorem parseSections_complete {inside : Bool} {r r' : List UInt8} {p : Listing}
    (h : ReadsSections inside r p r') :
    ∀ {c : Cursor} {fuel : ℕ}, c.rest = r → r.length < fuel → ∀ parsed : ParsedCaps,
      ∃ c', parseSections fuel (stopByte inside) c parsed = .ok (c', p.record parsed) ∧ c'.rest = r' := by
  induction h with
  | done h =>
    rintro c (_ | fuel) rfl hfuel parsed
    · cases hfuel
    refine ⟨skipSpaces c, ?_, h⟩
    have hpeek : (skipSpaces c).peek = none := List.head?_eq_none_iff.mpr h
    unfold parseSections
    simp only [hpeek]
    rw [Listing.record_empty]
    rfl
  | close h =>
    rintro c (_ | fuel) rfl hfuel parsed
    · cases hfuel
    obtain ⟨hpeek, hrest⟩ := peek_skipSpaces h
    refine ⟨(skipSpaces c).advance, ?_, hrest⟩
    unfold parseSections
    simp only [hpeek]
    rw [if_pos (show some closeParen = stopByte true from rfl), Listing.record_empty]
  | @group inside r r₁ r₂ r' p q h hgroup _ ih ih' =>
    rintro c (_ | fuel) rfl hfuel parsed
    · cases hfuel
    obtain ⟨hpeek, hrest⟩ := peek_skipSpaces h
    have hlen := length_of_trim h
    have hlen₂ := hgroup.consumes.length_le
    obtain ⟨c₂, hnested, hc₂⟩ := @ih _ fuel hrest (by omega) parsed
    obtain ⟨c', hparse, hc'⟩ := @ih' _ fuel hc₂ (by omega) (p.record parsed)
    refine ⟨c', ?_, hc'⟩
    unfold parseSections
    simp only [hpeek]
    rw [if_neg (stopByte_ne (by decide) inside), if_neg (by decide), if_pos trivial,
      Listing.record_append]
    show (parseSections fuel (stopByte true) _ parsed >>= _) = _
    rw [hnested]
    exact hparse
  | @word inside r r' p hname h _ ih =>
    rintro c (_ | fuel) rfl hfuel parsed
    · cases hfuel
    obtain ⟨b, r₁, htrim, hb⟩ := head_of_nameOf hname
    have hlen := length_afterName_lt hname
    obtain ⟨c', hparse, hc'⟩ := @ih (skipSpaces (takeName (skipSpaces c)).2) fuel rfl (by omega) parsed
    refine ⟨c', ?_, hc'⟩
    have hparen := isNameByte_ne_paren hb
    unfold parseSections
    simp only [(peek_skipSpaces htrim).1]
    rw [if_neg (stopByte_ne hparen.1 inside), if_neg hparen.1, if_neg hparen.2, if_pos hb,
      consume_eq_none h]
    exact hparse
  | @named inside r r₁ r₂ r' p q hname h hsection _ ih =>
    rintro c (_ | fuel) rfl hfuel parsed
    · cases hfuel
    obtain ⟨b, _, htrim, hb⟩ := head_of_nameOf hname
    obtain ⟨c₁, hconsume, hc₁⟩ := consume_eq_some (c := skipSpaces (takeName (skipSpaces c)).2) h
    obtain ⟨c₂, hread, hc₂⟩ := parseSection_complete hsection hc₁ parsed
    have hlen := length_of_afterName h
    have hlen₂ := hsection.consumes.length_le
    obtain ⟨c', hparse, hc'⟩ := @ih _ fuel hc₂ (by omega) (p.record parsed)
    refine ⟨c', ?_, hc'⟩
    have hparen := isNameByte_ne_paren hb
    unfold parseSections
    simp only [(peek_skipSpaces htrim).1]
    rw [if_neg (stopByte_ne hparen.1 inside), if_neg hparen.1, if_neg hparen.2, if_pos hb, hconsume,
      Listing.record_append]
    show (parseSection (nameOf c.rest) c₁ parsed >>= _) = _
    rw [hread]
    exact hparse
  | @other inside r r₁ r' b p h hb hname _ ih =>
    rintro c (_ | fuel) rfl hfuel parsed
    · cases hfuel
    obtain ⟨hpeek, hrest⟩ := peek_skipSpaces h
    have hlen := length_of_trim h
    obtain ⟨c', hparse, hc'⟩ := @ih _ fuel hrest (by omega) parsed
    refine ⟨c', ?_, hc'⟩
    unfold parseSections
    simp only [hpeek]
    rw [if_neg (stopByte_ne hb.2 inside), if_neg hb.2, if_neg hb.1, if_neg (by simp [hname])]
    exact hparse

/-- Outside of parentheses the sections go to the end of the text. -/
theorem ReadsSections.rest_eq_nil {r r' : List UInt8} {p : Listing}
    (h : ReadsSections false r p r') : r' = [] := by
  generalize hinside : false = inside at h
  induction h with
  | done => rfl
  | close => cases hinside
  | group _ _ _ _ ih => exact ih hinside
  | word _ _ _ ih => exact ih hinside
  | named _ _ _ _ ih => exact ih hinside
  | other _ _ _ _ ih => exact ih hinside

/-- **A text is accepted if it is one of the grammar**, and the parse is what it lists. -/
theorem parse_iff {input : List UInt8} {parsed : ParsedCaps} :
    parse input = .ok parsed ↔ ∃ p : Listing, ReadsSections false input p [] ∧ parsed = p.record ⟨none, []⟩ := by
  unfold parse
  constructor
  · intro h
    split at h
    · rename_i c parsed' hrun
      cases h
      obtain ⟨p, rfl, hreads⟩ := @parseSections_sound _ false _ _ _ _ hrun
      rw [hreads.rest_eq_nil] at hreads
      exact ⟨p, hreads, rfl⟩
    · cases h
    · cases h
  · rintro ⟨p, hreads, rfl⟩
    obtain ⟨c', hparse, -⟩ := parseSections_complete hreads (c := ⟨0, input⟩) rfl (Nat.lt_succ_self _) ⟨none, []⟩
    rw [show stopByte false = none from rfl] at hparse
    rw [hparse]

end DdcControl.Capabilities
