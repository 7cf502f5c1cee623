import DdcControl.Capabilities.Received
import DdcControl.Library.Fallible

/-!
# Two readings of one reply

The library parses the masked text of a reply, the scanner the reply itself. `Masked`
relates the two texts: they are the same outside the payloads of binary sections, where
each holds some bytes that are no parentheses, and the second may go on after the end of
the first with a NUL and no more parentheses. Where the parser accepts the first text it
accepts the second, with the same result: one lemma for each parsing function
(`parseSections_masked` is the last), each by the cases of `Masked`.

The parser is not always outside a payload when it opens a parenthesis: a name that ends
in `bin` is followed by a declared length and a payload. `Masked` has a flag for that
stretch, and only `skip_balanced` and the value of a `type` section run through it.
-/

namespace DdcControl.Capabilities

open Fallible

/-! ### Skipping -/

/-- Bytes that are not parentheses. -/
def Plain (bytes : List UInt8) : Prop := ∀ b ∈ bytes, b ≠ openParen ∧ b ≠ closeParen

theorem Plain.nil : Plain [] := nofun

theorem plain_cons {b : UInt8} {bytes : List UInt8} :
    Plain (b :: bytes) ↔ (b ≠ openParen ∧ b ≠ closeParen) ∧ Plain bytes := List.forall_mem_cons

theorem plain_append {bytes bytes' : List UInt8} : Plain (bytes ++ bytes') ↔ Plain bytes ∧
    Plain bytes' :=
  List.forall_mem_append

/-- Skipping runs through bytes that are not parentheses. -/
theorem skipBalancedAt_plain {bytes : List UInt8} (h : Plain bytes) (depth pos : ℕ)
    (rest : List UInt8) :
    skipBalancedAt depth pos (bytes ++ rest) = skipBalancedAt depth (pos + bytes.length) rest := by
  induction bytes generalizing pos with
  | nil => rfl
  | cons b bytes ih =>
    obtain ⟨⟨hopen, hclose⟩, h⟩ := plain_cons.mp h
    rw [List.cons_append, skipBalancedAt, if_neg hopen, if_neg hclose, ih h, List.length_cons]
    congr 1
    omega

/-- To leave `d + e` open parentheses is to leave `e`, and then `d`. -/
theorem skipBalancedAt_add {d e : ℕ} (hd : 0 < d) (he : 0 < e) (pos : ℕ) (bytes : List UInt8) :
    skipBalancedAt (d + e) pos bytes =
      skipBalancedAt e pos bytes >>= fun c => skipBalancedAt d c.pos c.rest := by
  induction bytes generalizing e pos with
  | nil => rfl
  | cons b bytes ih =>
    simp only [skipBalancedAt]
    by_cases hopen : b = openParen
    · simp only [if_pos hopen]
      exact ih (Nat.succ_pos e) _
    by_cases hclose : b = closeParen
    · simp only [if_neg hopen, if_pos hclose]
      by_cases he1 : e - 1 = 0
      · rw [if_neg (by omega), if_pos he1, show d + e - 1 = d by omega]
        rfl
      · rw [if_neg (by omega), if_neg he1, show d + e - 1 = d + (e - 1) by omega]
        exact ih (by omega) _
    · simp only [if_neg hopen, if_neg hclose]
      exact ih he _

/-- **`skip_balanced_from_current` is `skip_balanced`**: from inside one open parenthesis,
both go to where it closes. -/
theorem skipBalancedFromCurrent_eq {fuel : ℕ} {c : Cursor} (h : c.rest.length < fuel) :
    skipBalancedFromCurrent fuel c = skipBalanced c := by
  induction fuel generalizing c with
  | zero => exact absurd h (Nat.not_lt_zero _)
  | succ fuel ih =>
    obtain ⟨pos, rest⟩ := c
    cases rest with
    | nil => rfl
    | cons b rest =>
      simp only [List.length_cons, Nat.add_lt_add_iff_right] at h
      simp only [skipBalancedFromCurrent, skipBalanced, skipBalancedAt, Cursor.peek,
        List.head?_cons, Cursor.advance, List.tail_cons]
      by_cases hopen : b = openParen
      · subst hopen
        rw [if_neg (by decide), if_pos rfl, if_pos rfl, skipBalancedAt_add Nat.one_pos Nat.one_pos]
        cases hskip : skipBalancedAt 1 (pos + 1) rest with
        | error e => rfl
        | ok c =>
          have hlen := skipBalancedAt_within 1 (pos + 1) rest
          rw [hskip] at hlen
          exact ih (Nat.lt_trans hlen h)
      · by_cases hclose : b = closeParen
        · subst hclose
          rfl
        · simp only [if_neg hopen, if_neg hclose]
          exact ih h

/-! ### Masked texts -/

/-- A payload, or what stands for one: no parenthesis, and no white space where payloads
are `spaceless`. -/
def Inert (spaceless : Prop) (bytes : List UInt8) : Prop :=
  Plain bytes ∧ (spaceless → ∀ b ∈ bytes, isSpace b = false)

/-- The first text is the second with its payloads masked; with `true`, from inside the
declaration of a payload's length. -/
inductive Masked (spaceless : Prop) : Bool → List UInt8 → List UInt8 → Prop where
  /-- The end of the first text; a NUL may follow in the second. -/
  | nil {x : List UInt8} : Plain x → x = [] ∨ x.head? = some 0 → Masked spaceless false [] x
  | byte {b : UInt8} {y x : List UInt8} : Masked spaceless false y x → Masked spaceless false (b :: y) (b :: x)
  /-- The rest of a name that ends in `bin`, and the parenthesis after it. -/
  | name {u y x : List UInt8} : u ≠ [] → u <:+ utf8 "bin" → Masked spaceless true y x →
      Masked spaceless false (u ++ openParen :: y) (u ++ openParen :: x)
  | number {b : UInt8} {y x : List UInt8} : b ≠ closeParen → Masked spaceless true y x →
      Masked spaceless true (b :: y) (b :: x)
  | payload {q p y x : List UInt8} : Inert spaceless q → Inert spaceless p → Masked spaceless false y x →
      Masked spaceless true (openParen :: q ++ y) (openParen :: p ++ x)

/-- What a name that ends in `bin` can have left. -/
theorem bin_suffix {u : List UInt8} (hne : u ≠ []) (h : u <:+ utf8 "bin") :
    u = utf8 "bin" ∨ u = utf8 "in" ∨ u = utf8 "n" := by
  have hbin : utf8 "bin" = ['b'.toUInt8, 'i'.toUInt8, 'n'.toUInt8] := by decide
  rw [hbin, List.suffix_cons_iff, List.suffix_cons_iff, List.suffix_cons_iff, List.suffix_nil] at h
  rcases h with h | h | h | h
  · exact .inl (h.trans hbin.symm)
  · exact .inr (.inl (h.trans (by decide)))
  · exact .inr (.inr (h.trans (by decide)))
  · exact absurd h hne

theorem bin_isNameByte {u : List UInt8} (h : u <:+ utf8 "bin") : ∀ b ∈ u, isNameByte b = true := by
  have hall : (utf8 "bin").all isNameByte = true := by decide
  exact fun b hb => List.all_eq_true.mp hall b (h.subset hb)

theorem isNameByte_ne {b : UInt8} (h : isNameByte b = true) :
    b ≠ openParen ∧ b ≠ closeParen ∧ isSpace b = false := by
  refine ⟨?_, ?_, ?_⟩
  · rintro rfl; revert h; decide
  · rintro rfl; revert h; decide
  · cases hs : isSpace b with
    | false => rfl
    | true =>
      simp only [isSpace, Bool.or_eq_true, decide_eq_true_eq] at hs
      rcases hs with (((rfl | rfl) | rfl) | rfl) | rfl <;> revert h <;> decide

theorem bin_plain {u : List UInt8} (h : u <:+ utf8 "bin") : Plain u := fun b hb =>
  have hname := isNameByte_ne (bin_isNameByte h b hb)
  ⟨hname.1, hname.2.1⟩

variable {spaceless : Prop}

/-- A byte that is no part of a name is in both texts. -/
theorem Masked.cons_inv {b : UInt8} {y x : List UInt8} (h : Masked spaceless false (b :: y) x)
    (hb : isNameByte b = false) : ∃ x', x = b :: x' ∧ Masked spaceless false y x' := by
  generalize hy : b :: y = y' at h
  cases h with
  | nil => cases hy
  | byte h => cases hy; exact ⟨_, rfl, h⟩
  | @name u y x hne hu h =>
    cases u with
    | nil => exact absurd rfl hne
    | cons c u =>
      cases hy
      rw [bin_isNameByte hu b (List.mem_cons_self ..)] at hb
      cases hb

/-- A hexadecimal digit is in both texts, and what follows is no parenthesis of a binary section. -/
theorem Masked.hex_cons_inv {b : UInt8} {y x : List UInt8} (h : Masked spaceless false (b :: y) x)
    (hb : isHexdigit b = true) : ∃ x', x = b :: x' ∧ Masked spaceless false y x' := by
  generalize hy : b :: y = y' at h
  cases h with
  | nil => cases hy
  | byte h => cases hy; exact ⟨_, rfl, h⟩
  | @name u y x hne hu h =>
    rcases bin_suffix hne hu with rfl | rfl | rfl
    · have hbin : utf8 "bin" = 'b'.toUInt8 :: utf8 "in" := by decide
      rw [hbin, List.cons_append, List.cons.injEq] at hy
      obtain ⟨rfl, rfl⟩ := hy
      exact ⟨utf8 "in" ++ openParen :: x, by rw [hbin]; rfl, .name (by decide) (by decide) h⟩
    · have : b = 'i'.toUInt8 := by
        have := congrArg List.head? hy
        simpa [show utf8 "in" = ['i'.toUInt8, 'n'.toUInt8] by decide] using this
      subst this
      exact absurd hb (by decide)
    · have : b = 'n'.toUInt8 := by
        have := congrArg List.head? hy
        simpa [show utf8 "n" = ['n'.toUInt8] by decide] using this
      subst this
      exact absurd hb (by decide)

/-- Where the first text ends, the second goes on with a NUL at most. -/
theorem Masked.nil_inv {x : List UInt8} (h : Masked spaceless false [] x) :
    Plain x ∧ (x = [] ∨ x.head? = some 0) := by
  generalize hy : ([] : List UInt8) = y at h
  cases h with
  | nil hplain hhead => exact ⟨hplain, hhead⟩
  | byte => cases hy
  | name => simp at hy

/-- A byte that begins the first text begins the second. -/
theorem Masked.head {y x : List UInt8} (h : Masked spaceless false y x) {b : UInt8}
    (hy : y.head? = some b) :
    x.head? = some b := by
  cases h with
  | nil => cases hy
  | byte h => exact hy
  | @name u y x hne hu h =>
    cases u with
    | nil => exact absurd rfl hne
    | cons c u => exact hy

/-- **White space** is in both texts. -/
theorem Masked.dropWhile_isSpace {y x : List UInt8} (h : Masked spaceless false y x) :
    Masked spaceless false (y.dropWhile isSpace) (x.dropWhile isSpace) := by
  generalize hi : false = i at h
  induction h with
  | @nil x hplain hhead =>
    have : x.dropWhile isSpace = x := by
      cases x with
      | nil => rfl
      | cons b x =>
        have hb : b = 0 := by simpa using hhead
        rw [List.dropWhile_cons, hb]
        rfl
    rw [this]
    exact .nil hplain hhead
  | @byte b y x h ih =>
    simp only [List.dropWhile_cons]
    split
    · exact ih rfl
    · exact .byte h
  | @name u y x hne hu h _ =>
    cases u with
    | nil => exact absurd rfl hne
    | cons c u =>
      have hc : isSpace c = false := (isNameByte_ne (bin_isNameByte hu c (List.mem_cons_self ..))).2.2
      rw [List.cons_append, List.cons_append, List.dropWhile_cons, List.dropWhile_cons, hc]
      exact .name hne hu h
  | number => cases hi
  | payload => cases hi

/-- **A name** is in both texts; where it ends in `bin`, a payload may be declared after it. -/
theorem Masked.name_inv {y x : List UInt8} (h : Masked spaceless false y x) :
    x.takeWhile isNameByte = y.takeWhile isNameByte ∧
      (Masked spaceless false (y.dropWhile isNameByte) (x.dropWhile isNameByte) ∨
        ∃ y' x', y.dropWhile isNameByte = openParen :: y' ∧ x.dropWhile isNameByte = openParen :: x' ∧
          Masked spaceless true y' x' ∧ (y.takeWhile isNameByte).getLast? = some 'n'.toUInt8) := by
  generalize hi : false = i at h
  induction h with
  | @nil x hplain hhead =>
    cases x with
    | nil => exact ⟨rfl, .inl (.nil hplain hhead)⟩
    | cons b x =>
      have hb : isNameByte b = false := by
        have : b = 0 := by simpa using hhead
        rw [this]
        decide
      simp only [List.takeWhile_cons, List.dropWhile_cons, hb]
      exact ⟨rfl, .inl (.nil hplain hhead)⟩
  | @byte b y x h ih =>
    simp only [List.takeWhile_cons, List.dropWhile_cons]
    cases hb : isNameByte b with
    | false => exact ⟨rfl, .inl (.byte h)⟩
    | true =>
      obtain ⟨heq, hrest⟩ := ih rfl
      refine ⟨by simp [heq], hrest.imp id ?_⟩
      rintro ⟨y', x', hy, hx, hm, hlast⟩
      refine ⟨y', x', hy, hx, hm, ?_⟩
      simp only [if_true, List.getLast?_cons, hlast]
      rfl
  | @name u y x hne hu h _ =>
    have hopen : isNameByte openParen = false := by decide
    rw [List.takeWhile_append_of_pos (bin_isNameByte hu),
      List.takeWhile_append_of_pos (bin_isNameByte hu), List.dropWhile_append_of_pos
        (bin_isNameByte hu), List.dropWhile_append_of_pos (bin_isNameByte hu)]
    simp only [List.takeWhile_cons, List.dropWhile_cons, hopen, Bool.false_eq_true, if_false,
      List.append_nil]
    refine ⟨trivial, .inr ⟨y, x, rfl, rfl, h, ?_⟩⟩
    rcases bin_suffix hne hu with rfl | rfl | rfl <;> decide
  | number => cases hi
  | payload => cases hi

/-! ### Skipping a masked text -/

/-- **Skipping ends in both texts alike**, and outside a payload. -/
theorem skipBalancedAt_masked {i : Bool} {y x : List UInt8} (h : Masked spaceless i y x)
    (depth pos pos' : ℕ) :
    Simulates (skipBalancedAt depth pos y) (skipBalancedAt depth pos' x) fun c c' =>
      Masked spaceless false c.rest c'.rest ∧ c'.rest <:+ x := by
  induction h generalizing depth pos pos' with
  | nil => exact Simulates.error
  | @byte b y x h ih =>
    simp only [skipBalancedAt]
    split_ifs
    · exact (ih _ _ _).mono fun _ _ hc => ⟨hc.1, hc.2.trans (List.suffix_cons _ _)⟩
    · exact Simulates.pure ⟨h, List.suffix_cons _ _⟩
    · exact (ih _ _ _).mono fun _ _ hc => ⟨hc.1, hc.2.trans (List.suffix_cons _ _)⟩
    · exact (ih _ _ _).mono fun _ _ hc => ⟨hc.1, hc.2.trans (List.suffix_cons _ _)⟩
  | @name u y x hne hu h ih =>
    rw [skipBalancedAt_plain (bin_plain hu), skipBalancedAt_plain (bin_plain hu), skipBalancedAt,
      skipBalancedAt, if_pos rfl, if_pos rfl]
    exact (ih _ _ _).mono fun _ _ hc =>
      ⟨hc.1, (hc.2.trans (List.suffix_cons _ _)).trans (List.suffix_append _ _)⟩
  | @number b y x hb h ih =>
    simp only [skipBalancedAt, if_neg hb]
    split_ifs <;> exact (ih _ _ _).mono fun _ _ hc => ⟨hc.1, hc.2.trans (List.suffix_cons _ _)⟩
  | @payload q p y x hq hp h ih =>
    rw [List.cons_append, List.cons_append, skipBalancedAt, skipBalancedAt, if_pos rfl, if_pos rfl,
      skipBalancedAt_plain hq.1, skipBalancedAt_plain hp.1]
    exact (ih _ _ _).mono fun _ _ hc =>
      ⟨hc.1, (hc.2.trans (List.suffix_append _ _)).trans (List.suffix_cons _ _)⟩

/-- The cursors stand at the same place of a masked text and of `raw`. -/
def Follows (spaceless : Prop) (raw : List UInt8) (c c' : Cursor) : Prop :=
  Masked spaceless false c.rest c'.rest ∧ c'.rest <:+ raw

variable {raw : List UInt8} {c c' : Cursor}

theorem follows_skipSpaces (h : Follows spaceless raw c c') :
    Follows spaceless raw (skipSpaces c) (skipSpaces c') :=
  ⟨h.1.dropWhile_isSpace, (List.dropWhile_suffix _).trans h.2⟩

/-- Reading on past a byte that is no part of a name. -/
theorem Follows.advance (h : Follows spaceless raw c c') {byte : UInt8} (hp : c.peek = some byte)
    (hb : isNameByte byte = false) : Follows spaceless raw c.advance c'.advance := by
  obtain ⟨rest, hrest⟩ := peek_eq_some hp
  obtain ⟨x, hx, hm⟩ := (hrest ▸ h.1).cons_inv hb
  refine ⟨?_, (List.tail_suffix _).trans h.2⟩
  rw [Cursor.advance, Cursor.advance, hrest, hx]
  exact hm

theorem Follows.peek (h : Follows spaceless raw c c') {byte : UInt8} (hp : c.peek = some byte) :
    c'.peek = some byte := h.1.head hp

/-- A parenthesis that one text opens, the other opens. -/
theorem follows_consume (h : Follows spaceless raw c c') :
    (∃ d d', consume openParen c = some d ∧ consume openParen c' = some d' ∧ Follows spaceless raw d d' ∧
        c'.rest = openParen :: d'.rest) ∨
      consume openParen c = none ∧ consume openParen c' = none := by
  obtain ⟨pos, y⟩ := c
  obtain ⟨pos', x⟩ := c'
  cases y with
  | nil =>
    refine .inr ⟨rfl, ?_⟩
    cases x with
    | nil => rfl
    | cons b x =>
      have hb : b = 0 := by simpa using h.1.nil_inv.2
      subst hb
      rfl
  | cons b y =>
    by_cases hb : b = openParen
    · subst hb
      obtain ⟨x', rfl, hm⟩ := h.1.cons_inv (by decide)
      exact .inl ⟨⟨pos + 1, y⟩, ⟨pos' + 1, x'⟩, by simp [consume, Cursor.peek, Cursor.advance],
        by simp [consume, Cursor.peek, Cursor.advance], ⟨hm, (List.suffix_cons _ _).trans h.2⟩, rfl⟩
    · have hhead := h.1.head (b := b) rfl
      exact .inr ⟨by simp [consume, Cursor.peek, hb],
        by simp_all [consume, Cursor.peek]⟩

theorem skipBalanced_masked {i : Bool} (h : Masked spaceless i c.rest c'.rest)
    (hraw : c'.rest <:+ raw) :
    Simulates (skipBalanced c) (skipBalanced c') (Follows spaceless raw) :=
  (skipBalancedAt_masked h 1 c.pos c'.pos).mono fun _ _ hc => ⟨hc.1, hc.2.trans hraw⟩

/-! ### The type -/

/-- The bytes of a `type` section's value. -/
abbrev inValue (byte : UInt8) : Bool := !(byte = closeParen || isSpace byte)

/-- What `parse_type` records. -/
def recordType (value : List UInt8) (parsed : ParsedCaps) : ParsedCaps :=
  if value.map toLowercase = utf8 "lcd" then { parsed with monitorType := some .lcd }
  else if value.map toLowercase = utf8 "crt" then { parsed with monitorType := some .crt }
  else parsed

theorem parseType_eq (c : Cursor) (parsed : ParsedCaps) :
    parseType c parsed = (skipBalanced ((skipSpaces c).takeWhile inValue).2 >>= fun d =>
      Except.ok (d, recordType ((skipSpaces c).takeWhile inValue).1 parsed)) := by
  show (skipBalancedFromCurrent _ _ >>= _) = _
  rw [skipBalancedFromCurrent_eq (Nat.lt_succ_self _)]
  rfl

/-- A value with a parenthesis names no type. -/
theorem recordType_paren {value : List UInt8} (h : openParen ∈ value) (parsed : ParsedCaps) :
    recordType value parsed = parsed := by
  have hmem : openParen ∈ value.map toLowercase := List.mem_map.mpr ⟨_, h, by decide⟩
  have hne : ∀ text, openParen ∉ text → value.map toLowercase ≠ text :=
    fun _ hnot heq => hnot (heq ▸ hmem)
  rw [recordType, if_neg (hne _ (by decide)), if_neg (hne _ (by decide))]

/-- **The value of a type** is in both texts, or holds a parenthesis in both: a payload is
part of it only where payloads hold no white space. -/
theorem Masked.value_inv {i : Bool} {y x : List UInt8} (h : Masked spaceless i y x)
    (htype : spaceless ∨ i = false ∧ openParen ∉ x.takeWhile (· ≠ closeParen)) :
    y.dropWhile inValue = [] ∨
      (∃ j, Masked spaceless j (y.dropWhile inValue) (x.dropWhile inValue)) ∧
        (x.takeWhile inValue = y.takeWhile inValue ∨
          openParen ∈ y.takeWhile inValue ∧ openParen ∈ x.takeWhile inValue) := by
  have hopen : inValue openParen = true := by decide
  induction h with
  | nil => exact .inl rfl
  | @byte b y x h ih =>
    simp only [List.takeWhile_cons, List.dropWhile_cons]
    cases hb : inValue b with
    | false => exact .inr ⟨⟨false, .byte h⟩, .inl rfl⟩
    | true =>
      have hclose : b ≠ closeParen := by
        rintro rfl
        exact absurd hb (by decide)
      have htype' : spaceless ∨ false = false ∧ openParen ∉ x.takeWhile (· ≠ closeParen) :=
        htype.imp id fun ht => ⟨rfl, fun hmem => ht.2 (by
          rw [List.takeWhile_cons, if_pos (by simpa using hclose)]
          exact List.mem_cons_of_mem _ hmem)⟩
      refine (ih htype').imp id fun hrest => ⟨hrest.1, ?_⟩
      refine hrest.2.imp (fun heq => by simp [heq]) fun hmem => ?_
      exact ⟨List.mem_cons_of_mem _ hmem.1, List.mem_cons_of_mem _ hmem.2⟩
  | @name u y x hne hu h ih =>
    rcases htype with hs | ⟨-, ht⟩
    · have hall : ∀ b ∈ u ++ [openParen], inValue b = true := by
        intro b hb
        rcases List.mem_append.mp hb with hb | hb
        · have hname := isNameByte_ne (bin_isNameByte hu b hb)
          simp [hname.2.1, hname.2.2]
        · rw [List.mem_singleton.mp hb]
          exact hopen
      have hsplit : ∀ t : List UInt8, u ++ openParen :: t = (u ++ [openParen]) ++ t :=
        fun t => by simp
      rw [hsplit y, hsplit x, List.dropWhile_append_of_pos hall, List.dropWhile_append_of_pos hall,
        List.takeWhile_append_of_pos hall, List.takeWhile_append_of_pos hall]
      refine (ih (.inl hs)).imp id fun hrest => ⟨hrest.1, .inr ⟨?_, ?_⟩⟩ <;> simp
    · have hplain : ∀ b ∈ u, decide (b ≠ closeParen) = true :=
        fun b hb => by simp [(bin_plain hu b hb).2]
      rw [List.takeWhile_append_of_pos hplain] at ht
      exact absurd (List.mem_append_right _ (by simp [show openParen ≠ closeParen by decide])) ht
  | @number b y x hb h ih =>
    have hs : spaceless := htype.resolve_right fun ht => nomatch ht.1
    simp only [List.takeWhile_cons, List.dropWhile_cons]
    cases hv : inValue b with
    | false => exact .inr ⟨⟨true, .number hb h⟩, .inl rfl⟩
    | true =>
      refine (ih (.inl hs)).imp id fun hrest => ⟨hrest.1, ?_⟩
      refine hrest.2.imp (fun heq => by simp [heq]) fun hmem => ?_
      exact ⟨List.mem_cons_of_mem _ hmem.1, List.mem_cons_of_mem _ hmem.2⟩
  | @payload q p y x hq hp h ih =>
    have hs : spaceless := htype.resolve_right fun ht => nomatch ht.1
    have hall : ∀ {t : List UInt8}, Inert spaceless t → ∀ b ∈ openParen :: t, inValue b = true := by
      intro t ht b hb
      rcases List.mem_cons.mp hb with rfl | hb
      · exact hopen
      · simp [(ht.1 b hb).2, ht.2 hs b hb]
    rw [List.dropWhile_append_of_pos (hall hq), List.dropWhile_append_of_pos (hall hp),
      List.takeWhile_append_of_pos (hall hq), List.takeWhile_append_of_pos (hall hp)]
    exact (ih (.inl hs)).imp id fun hrest => ⟨hrest.1, .inr ⟨by simp, by simp⟩⟩

theorem parseType_masked (h : Follows spaceless raw c c')
    (htype : spaceless ∨ openParen ∉ c'.rest.takeWhile (· ≠ closeParen)) (parsed : ParsedCaps) :
    Simulates (parseType c parsed)
      (parseType c' parsed) fun r r' => Follows spaceless raw r.1 r'.1 ∧ r.2 = r'.2 := by
  have htype' : spaceless ∨ false = false ∧
      openParen ∉ (c'.rest.dropWhile isSpace).takeWhile (· ≠ closeParen) := by
    refine htype.imp id fun ht => ⟨rfl, fun hmem => ht ?_⟩
    have hspaces : ∀ b ∈ c'.rest.takeWhile isSpace, decide (b ≠ closeParen) = true := fun b hb => by
      have hb := List.mem_takeWhile_imp hb
      simp only [ne_eq, decide_not, Bool.not_eq_true', decide_eq_false_iff_not]
      rintro rfl
      exact absurd hb (by decide)
    rw [← List.takeWhile_append_dropWhile (p := isSpace) (l := c'.rest),
      List.takeWhile_append_of_pos hspaces]
    exact List.mem_append_right _ hmem
  rw [parseType_eq, parseType_eq]
  rcases h.1.dropWhile_isSpace.value_inv htype' with hnil | ⟨⟨j, hm⟩, hvalue⟩
  · have hrest : ((skipSpaces c).takeWhile inValue).2.rest = [] := hnil
    rw [skipBalanced, hrest]
    exact Simulates.error
  · refine (skipBalanced_masked hm ((List.dropWhile_suffix _).trans (follows_skipSpaces h).2)).bind
      fun d d' hd => ?_
    refine Simulates.pure ⟨hd, ?_⟩
    rcases hvalue with heq | ⟨hy, hx⟩
    · exact congrArg (recordType · parsed) heq.symm
    · exact (recordType_paren hy parsed).trans (recordType_paren hx parsed).symm

/-! ### Codes and values -/

/-- A parse that succeeds has left fewer bytes. -/
theorem simulates_within {α β : Type} {x : Parse α} {y : Parse β} {R : α → β → Prop}
    {cursor : β → Cursor} {n : ℕ} (h : Simulates x y R) (hw : Within cursor n y) :
    Simulates x y fun a b => R a b ∧ (cursor b).rest.length < n := by
  intro a ha
  obtain ⟨b, hb, hR⟩ := h a ha
  rw [hb] at hw
  exact ⟨b, hb, hR, hw⟩

theorem takeVcpCode_masked (h : Follows spaceless raw c c') (position position' : ℕ) :
    Simulates (takeVcpCode position c) (takeVcpCode position' c') fun r r' =>
      r.1 = r'.1 ∧ Follows spaceless raw r.2 r'.2 := by
  obtain ⟨pos, y⟩ := c
  obtain ⟨pos', x⟩ := c'
  rcases y with - | ⟨high, - | ⟨low, rest⟩⟩
  · exact Simulates.error
  · exact Simulates.error
  · cases hhigh : isHexdigit high with
    | false => simp only [takeVcpCode, hhigh, Bool.false_and]; exact Simulates.error
    | true =>
      cases hlow : isHexdigit low with
      | false => simp only [takeVcpCode, hlow, Bool.and_false]; exact Simulates.error
      | true =>
        obtain ⟨x₁, rfl, hm⟩ := h.1.hex_cons_inv hhigh
        obtain ⟨x₂, rfl, hm'⟩ := hm.hex_cons_inv hlow
        simp only [takeVcpCode, hhigh, hlow, Bool.and_self, if_true]
        exact Simulates.pure ⟨rfl, hm', ((List.suffix_cons _ _).trans (List.suffix_cons _ _)).trans h.2⟩

/-- The bytes of a token. -/
abbrev inToken (byte : UInt8) : Bool := !(byte = openParen || byte = closeParen || isSpace byte)

/-- **A token of hexadecimal digits** is in both texts, unless the first text ends with it. -/
theorem Masked.token_inv {y x : List UInt8} (h : Masked spaceless false y x)
    (hhex : (y.takeWhile inToken).all isHexdigit = true) : y.dropWhile inToken = [] ∨
      x.takeWhile inToken = y.takeWhile inToken ∧
        Masked spaceless false (y.dropWhile inToken) (x.dropWhile inToken) := by
  induction y generalizing x with
  | nil => exact .inl rfl
  | cons b y ih =>
    cases hb : inToken b with
    | false =>
      have hhead := h.head (b := b) rfl
      cases x with
      | nil => cases hhead
      | cons a x =>
        cases hhead
        simp only [List.takeWhile_cons, List.dropWhile_cons, hb]
        exact .inr ⟨rfl, h⟩
    | true =>
      simp only [List.takeWhile_cons, hb, if_true, List.all_cons, Bool.and_eq_true] at hhex
      obtain ⟨x, rfl, hm⟩ := h.hex_cons_inv hhex.1
      simp only [List.takeWhile_cons, List.dropWhile_cons, hb, if_true]
      exact (ih hm hhex.2).imp id fun hrest => ⟨by rw [hrest.1], hrest.2⟩

theorem takeToken_eq (c : Cursor) : takeToken c =
    if (c.rest.takeWhile inToken).isEmpty = true then fail .unexpectedEnd c.pos
    else .ok (c.rest.takeWhile inToken, ⟨c.pos + (c.rest.takeWhile inToken).length,
      c.rest.dropWhile inToken⟩) := rfl

/-- A token that reads as a value is one in both texts. -/
theorem takeToken_masked (h : Follows spaceless raw c c') :
    Simulates (takeToken c) (takeToken c') fun r r' => (parseHexU16 r.1).isSome = true →
      r.2.rest = [] ∨ r.1 = r'.1 ∧ Follows spaceless raw r.2 r'.2 := by
  obtain ⟨pos, y⟩ := c
  obtain ⟨pos', x⟩ := c'
  intro r hr
  rw [takeToken_eq] at hr
  split_ifs at hr with hempty
  · cases hr
  cases hr
  have hne : (x.takeWhile inToken).isEmpty = false := by
    cases y with
    | nil => exact absurd rfl hempty
    | cons b y =>
      have hb : inToken b = true := by
        by_contra hb
        rw [List.takeWhile_cons, if_neg hb] at hempty
        exact hempty rfl
      have hhead := h.1.head (b := b) rfl
      cases x with
      | nil => cases hhead
      | cons a x =>
        cases hhead
        simp [hb]
  refine ⟨_, by rw [takeToken_eq, if_neg (Bool.eq_false_iff.mp hne)], fun hsome => ?_⟩
  have hhex : (y.takeWhile inToken).all isHexdigit = true := by
    by_contra hnot
    simp [parseHexU16, Bool.not_eq_true _ ▸ hnot] at hsome
  exact (h.1.token_inv hhex).imp id fun hrest =>
    ⟨hrest.1.symm, hrest.2, (List.dropWhile_suffix _).trans h.2⟩

theorem parseVcpValues_nil (fuel pos : ℕ) (values : List UInt16)
    {S : List UInt16 × Cursor → List UInt16 × Cursor → Prop} {y : Parse (List UInt16 × Cursor)} :
    Simulates (parseVcpValues fuel ⟨pos, []⟩ values) y S := by
  cases fuel with
  | zero => exact Simulates.error
  | succ fuel => exact Simulates.error

theorem parseVcpValues_masked (fuel : ℕ) : ∀ (fuel' : ℕ) (c c' : Cursor) (values : List UInt16),
    Follows spaceless raw c c' → c'.rest.length < fuel' →
    Simulates (parseVcpValues fuel c values) (parseVcpValues fuel' c' values) fun r r' =>
      r.1 = r'.1 ∧ Follows spaceless raw r.2 r'.2 := by
  induction fuel with
  | zero => exact fun _ _ _ _ _ _ => Simulates.error
  | succ fuel ih =>
    intro fuel' c c' values h hfuel
    have hs := length_skipSpaces_le c'
    have hd := follows_skipSpaces h
    cases fuel' with
    | zero => omega
    | succ fuel' =>
    unfold parseVcpValues
    cases hp : (skipSpaces c).peek with
    | none => simp only [hp]; exact Simulates.error
    | some byte =>
      have hp' := hd.peek hp
      have ha := length_advance hp'
      simp only [hp, hp']
      by_cases hclose : byte = closeParen
      · rw [if_pos hclose, if_pos hclose]
        exact Simulates.pure ⟨rfl, hd.advance hp (by rw [hclose]; decide)⟩
      rw [if_neg hclose, if_neg hclose]
      by_cases hopen : byte = openParen
      · rw [if_pos hopen, if_pos hopen]
        have hadvance := hd.advance hp (by rw [hopen]; decide)
        refine (simulates_within (skipBalanced_masked hadvance.1 hadvance.2) (skipBalanced_within _)).bind
          fun e e' he => ?_
        have hlen := he.2
        simp only [id] at hlen
        exact ih fuel' e e' values he.1 (by omega)
      · rw [if_neg hopen, if_neg hopen]
        refine (simulates_within (takeToken_masked hd) (takeToken_within _)).bind fun r r' hr => ?_
        cases hv : parseHexU16 r.1 with
        | none => exact Simulates.error
        | some value =>
          obtain ⟨token, ⟨pos, rest⟩⟩ := r
          rcases hr.1 (by simp [hv]) with hnil | ⟨heq, hfollows⟩
          · cases hnil
            exact parseVcpValues_nil _ _ _
          · simp only [← heq, hv]
            exact ih fuel' _ _ _ hfollows (by omega)

theorem parseVcpEntry_masked (h : Follows spaceless raw c c') :
    Simulates (parseVcpEntry c)
      (parseVcpEntry c') fun r r' => r.1 = r'.1 ∧ Follows spaceless raw r.2 r'.2 := by
  unfold parseVcpEntry
  rcases follows_consume (follows_skipSpaces h) with ⟨d, d', hd, hd', hfollows, -⟩ | ⟨hd, hd'⟩
  · rw [hd, hd']
    refine (parseVcpValues_masked _ _ d d' [] hfollows (Nat.lt_succ_self _)).bind fun r r' hr => ?_
    exact Simulates.pure ⟨by rw [hr.1], hr.2⟩
  · rw [hd, hd']
    exact Simulates.pure ⟨rfl, follows_skipSpaces h⟩

/-- **A name and the parenthesis after it** are in both texts. Where it ends in `bin`, the
declaration of a payload may follow. -/
theorem follows_takeName (h : Follows spaceless raw c c') :
    (takeName c').1 = (takeName c).1 ∧
      (consume openParen (skipSpaces (takeName c).2) = none ∧
          consume openParen (skipSpaces (takeName c').2) = none ∧
          Follows spaceless raw (skipSpaces (takeName c).2) (skipSpaces (takeName c').2) ∨
        ∃ d d' i, consume openParen (skipSpaces (takeName c).2) = some d ∧
          consume openParen (skipSpaces (takeName c').2) = some d' ∧
          Masked spaceless i d.rest d'.rest ∧ d'.rest <:+ raw ∧
          (i = true → (takeName c).1.getLast? = some 'n'.toUInt8) ∧
          c'.rest = (takeName c').1 ++ (takeName c').2.rest.takeWhile isSpace ++ openParen :: d'.rest) := by
  obtain ⟨heq, hrest⟩ := h.1.name_inv
  have hraw : c'.rest.dropWhile isNameByte <:+ raw := (List.dropWhile_suffix _).trans h.2
  have hsplit : c'.rest = (takeName c').1 ++ (takeName c').2.rest.takeWhile isSpace ++
      (skipSpaces (takeName c').2).rest := by
    show _ = c'.rest.takeWhile isNameByte ++ _ ++ (c'.rest.dropWhile isNameByte).dropWhile isSpace
    rw [List.append_assoc]
    show _ = _ ++ ((c'.rest.dropWhile isNameByte).takeWhile isSpace ++ _)
    rw [List.takeWhile_append_dropWhile, List.takeWhile_append_dropWhile]
  refine ⟨heq, ?_⟩
  rcases hrest with hm | ⟨y, x, hy, hx, hm, hlast⟩
  · have hspaces : Follows spaceless raw (skipSpaces (takeName c).2) (skipSpaces (takeName c').2) :=
      follows_skipSpaces ⟨hm, hraw⟩
    rcases follows_consume hspaces with ⟨d, d', hd, hd', hfollows, hparen⟩ | ⟨hd, hd'⟩
    · refine .inr ⟨d, d', false, hd, hd', hfollows.1, hfollows.2, nofun, ?_⟩
      rw [← hparen]
      exact hsplit
    · exact .inl ⟨hd, hd', hspaces⟩
  · have hc : (skipSpaces (takeName c).2).rest = openParen :: y := by
      show (c.rest.dropWhile isNameByte).dropWhile isSpace = _
      rw [hy]
      rfl
    have hc' : (skipSpaces (takeName c').2).rest = openParen :: x := by
      show (c'.rest.dropWhile isNameByte).dropWhile isSpace = _
      rw [hx]
      rfl
    have hsome : ∀ {e : Cursor} {t : List UInt8}, e.rest = openParen :: t →
        consume openParen e = some ⟨e.pos + 1, t⟩ := fun he => by
      simp [consume, Cursor.peek, Cursor.advance, he]
    refine .inr ⟨_, _, true, hsome hc, hsome hc', hm, ?_, fun _ => hlast, ?_⟩
    · exact (List.suffix_cons _ _).trans (hx ▸ hraw)
    · rw [hsplit, hc']

/-- A name that ends in `n` is neither `type` nor `vcp`, in capitals or not. -/
theorem ne_of_getLast {name : List UInt8} (h : name.getLast? = some 'n'.toUInt8) :
    name ≠ utf8 "type" ∧ name ≠ utf8 "vcp" ∧ name.map toLowercase ≠ utf8 "vcp" := by
  refine ⟨?_, ?_, fun heq => ?_⟩
  · rintro rfl
    exact absurd h (by decide)
  · rintro rfl
    exact absurd h (by decide)
  · have hlast : (name.map toLowercase).getLast? = some (toLowercase 'n'.toUInt8) := by simp [h]
    rw [heq] at hlast
    exact absurd hlast (by decide)

theorem parseVcp_masked (fuel : ℕ) : ∀ (fuel' : ℕ) (c c' : Cursor) (parsed : ParsedCaps),
    Follows spaceless raw c c' → c'.rest.length < fuel' →
    Simulates (parseVcp fuel c parsed) (parseVcp fuel' c' parsed) fun r r' =>
      Follows spaceless raw r.1 r'.1 ∧ r.2 = r'.2 := by
  induction fuel with
  | zero => exact fun _ _ _ _ _ _ => Simulates.error
  | succ fuel ih =>
    intro fuel' c c' parsed h hfuel
    have hs := length_skipSpaces_le c'
    have hd := follows_skipSpaces h
    cases fuel' with
    | zero => omega
    | succ fuel' =>
    unfold parseVcp
    cases hp : (skipSpaces c).peek with
    | none => simp only [hp]; exact Simulates.error
    | some byte =>
      have hp' := hd.peek hp
      simp only [hp, hp']
      by_cases hclose : byte = closeParen
      · rw [if_pos hclose, if_pos hclose]
        exact Simulates.pure ⟨hd.advance hp (by rw [hclose]; decide), rfl⟩
      rw [if_neg hclose, if_neg hclose]
      by_cases hopen : byte = openParen
      · rw [if_pos hopen]
        exact Simulates.error
      rw [if_neg hopen, if_neg hopen]
      by_cases hname : (isNameByte byte && !isHexdigit byte) = true
      · rw [if_pos hname, if_pos hname]
        have hlen := length_takeName hp' (Bool.and_eq_true_iff.mp hname).1
        have hs' := length_skipSpaces_le (takeName (skipSpaces c')).2
        obtain ⟨heq, hnone | ⟨d, d', i, hsome, hsome', hm, hraw, hlast, -⟩⟩ := follows_takeName hd
        · simp only [hnone.1]
          exact Simulates.error
        · have hlen' := length_consume hsome'
          simp only [hsome, hsome', heq]
          by_cases hvcp : (takeName (skipSpaces c)).1.map toLowercase = utf8 "vcp"
          · rw [if_pos hvcp, if_pos hvcp]
            cases i with
            | true => exact absurd hvcp (ne_of_getLast (hlast rfl)).2.2
            | false =>
              refine (simulates_within (ih fuel' d d' parsed ⟨hm, hraw⟩ (by omega))
                (parseVcp_within fuel' d' parsed (by omega))).bind fun r r' hr => ?_
              rw [hr.1.2]
              exact ih fuel' r.1 r'.1 r'.2 hr.1.1 (by have := hr.2; omega)
          · rw [if_neg hvcp, if_neg hvcp]
            refine (simulates_within (skipBalanced_masked hm hraw) (skipBalanced_within d')).bind fun e e' he => ?_
            have hlen'' := he.2
            simp only [id] at hlen''
            exact ih fuel' e e' parsed he.1 (by omega)
      · rw [if_neg hname, if_neg hname]
        refine (simulates_within (takeVcpCode_masked hd _ _) (takeVcpCode_within _ _)).bind fun r r' hr => ?_
        refine (simulates_within (parseVcpEntry_masked hr.1.2) (parseVcpEntry_within _)).bind fun e e' he => ?_
        rw [hr.1.1, he.1.1]
        exact ih fuel' e.2 e'.2 _ he.1.2 (by have := hr.2; have := he.2; omega)

/-! ### Sections -/

/-- No `type` section opens another parenthesis before its first closing one. -/
def TypesPlain (raw : List UInt8) : Prop :=
  ∀ before spaces after, raw = before ++ (utf8 "type" ++ spaces ++ openParen :: after) →
    (∀ b ∈ spaces, isSpace b = true) → openParen ∉ after.takeWhile (· ≠ closeParen)

theorem parseSection_masked {i : Bool} {name : List UInt8} (h : Masked spaceless i c.rest c'.rest)
    (hraw : c'.rest <:+ raw) (hlast : i = true → name.getLast? = some 'n'.toUInt8)
    (htype : name = utf8 "type" → spaceless ∨ openParen ∉ c'.rest.takeWhile (· ≠ closeParen))
    (parsed : ParsedCaps) :
    Simulates (parseSection name c parsed) (parseSection name c' parsed) fun r r' =>
      Follows spaceless raw r.1 r'.1 ∧ r.2 = r'.2 := by
  unfold parseSection
  by_cases hi : i = true
  · obtain ⟨htype, hvcp, -⟩ := ne_of_getLast (hlast hi)
    rw [if_neg htype, if_neg hvcp, if_neg htype, if_neg hvcp]
    exact (skipBalanced_masked h hraw).bind fun d d' hd => Simulates.pure ⟨hd, rfl⟩
  · obtain rfl := Bool.eq_false_iff.mpr hi
    split_ifs with hname hname
    · exact parseType_masked ⟨h, hraw⟩ (htype hname) parsed
    · exact parseVcp_masked _ _ c c' parsed ⟨h, hraw⟩ (Nat.lt_succ_self _)
    · exact (skipBalanced_masked h hraw).bind fun d d' hd => Simulates.pure ⟨hd, rfl⟩

/-- A text without parentheses holds no section. -/
theorem parseSections_plain (fuel : ℕ) (c : Cursor) (parsed : ParsedCaps) (h : Plain c.rest)
    (hfuel : c.rest.length < fuel) :
    ∃ d, parseSections fuel none c parsed = .ok (d, parsed) ∧ d.rest = [] := by
  induction fuel generalizing c with
  | zero => exact absurd hfuel (Nat.not_lt_zero _)
  | succ fuel ih =>
    have hs := length_skipSpaces_le c
    have hplain : Plain (skipSpaces c).rest := fun b hb => h b ((List.dropWhile_suffix _).subset hb)
    unfold parseSections
    cases hp : (skipSpaces c).peek with
    | none =>
      have hnil : (skipSpaces c).rest = [] := List.head?_eq_none_iff.mp hp
      exact ⟨skipSpaces c, by simp [hp], hnil⟩
    | some byte =>
      have ha := length_advance hp
      have hbyte := hplain byte (List.mem_of_mem_head? hp)
      simp only [hp, reduceCtorEq, if_false, if_neg hbyte.1, if_neg hbyte.2]
      by_cases hname : isNameByte byte = true
      · rw [if_pos hname]
        have hlen := length_takeName hp hname
        have hs' := length_skipSpaces_le (takeName (skipSpaces c)).2
        have hplain' : Plain (skipSpaces (takeName (skipSpaces c)).2).rest := fun b hb =>
          hplain b (((List.dropWhile_suffix _).trans (List.dropWhile_suffix _)).subset hb)
        have hnone : consume openParen (skipSpaces (takeName (skipSpaces c)).2) = none := by
          unfold consume
          rw [if_neg]
          intro hpeek
          exact (hplain' openParen (List.mem_of_mem_head? hpeek)).1 rfl
        simp only [hnone]
        exact ih _ hplain' (by omega)
      · rw [if_neg hname]
        exact ih _ (fun b hb => hplain b ((List.tail_suffix _).subset hb)) (by omega)

theorem parseSections_masked (htypes : spaceless ∨ TypesPlain raw) (fuel : ℕ) :
    ∀ (fuel' : ℕ) (stopAt : Option UInt8) (c c' : Cursor) (parsed : ParsedCaps),
    stopAt = none ∨ stopAt = some closeParen → Follows spaceless raw c c' → c'.rest.length < fuel' →
    Simulates (parseSections fuel stopAt c parsed)
      (parseSections fuel' stopAt c' parsed) fun r r' =>
      Follows spaceless raw r.1 r'.1 ∧ r.2 = r'.2 := by
  induction fuel with
  | zero => exact fun _ _ _ _ _ _ _ _ => Simulates.error
  | succ fuel ih =>
    intro fuel' stopAt c c' parsed hstop h hfuel
    have hs := length_skipSpaces_le c'
    have hd := follows_skipSpaces h
    cases fuel' with
    | zero => omega
    | succ fuel' =>
    cases hp : (skipSpaces c).peek with
    | none =>
      have hnil : (skipSpaces c).rest = [] := List.head?_eq_none_iff.mp hp
      rcases hstop with rfl | rfl
      · -- the first text ends; what the second has left holds no section
        have hplain : Plain c'.rest := by
          have hplain := (hnil ▸ hd.1).nil_inv.1
          intro b hb
          rw [← List.takeWhile_append_dropWhile (p := isSpace) (l := c'.rest)] at hb
          rcases List.mem_append.mp hb with hb | hb
          · have hb := List.mem_takeWhile_imp hb
            constructor <;> rintro rfl <;> exact absurd hb (by decide)
          · exact hplain b hb
        obtain ⟨d, hd', hdnil⟩ := parseSections_plain (fuel' + 1) c' parsed hplain hfuel
        rw [hd']
        simp only [parseSections, hp, Option.isSome_none, Bool.false_eq_true, if_false]
        refine Simulates.pure ⟨⟨?_, ?_⟩, rfl⟩
        · rw [hnil, hdnil]
          exact .nil .nil (.inl rfl)
        · rw [hdnil]
          exact List.nil_suffix
      · simp only [parseSections, hp, Option.isSome_some, if_true]
        exact Simulates.error
    | some byte =>
      have hp' := hd.peek hp
      have ha := length_advance hp'
      unfold parseSections
      simp only [hp, hp']
      by_cases hclose : byte = closeParen
      · subst hclose
        have hadvance := hd.advance hp (by decide)
        by_cases hst : some closeParen = stopAt
        · rw [if_pos hst, if_pos hst]
          exact Simulates.pure ⟨hadvance, rfl⟩
        · rw [if_neg hst, if_pos rfl]
          exact Simulates.error
      have hne : ¬some byte = stopAt := by
        rintro rfl
        rcases hstop with hstop | hstop
        · cases hstop
        · exact hclose (Option.some.inj hstop)
      rw [if_neg hne, if_neg hne, if_neg hclose, if_neg hclose]
      by_cases hopen : byte = openParen
      · rw [if_pos hopen, if_pos hopen]
        have hadvance := hd.advance hp (by rw [hopen]; decide)
        refine (simulates_within (ih fuel' _ _ _ parsed (.inr rfl) hadvance (by omega))
          (parseSections_within fuel' _ _ parsed (by omega))).bind fun r r' hr => ?_
        rw [hr.1.2]
        exact ih fuel' stopAt r.1 r'.1 r'.2 hstop hr.1.1 (by have := hr.2; omega)
      rw [if_neg hopen, if_neg hopen]
      by_cases hname : isNameByte byte = true
      · rw [if_pos hname, if_pos hname]
        have hlen := length_takeName hp' hname
        have hs' := length_skipSpaces_le (takeName (skipSpaces c')).2
        obtain ⟨heq, ⟨hnone, hnone', hspaces⟩ | ⟨d, d', i, hsome, hsome', hm, hraw, hlast, hsplit⟩⟩ :=
          follows_takeName hd
        · simp only [hnone, hnone']
          exact ih fuel' stopAt _ _ parsed hstop hspaces (by omega)
        · have hlen' := length_consume hsome'
          simp only [hsome, hsome', heq]
          refine (simulates_within (parseSection_masked hm hraw hlast ?_ parsed)
            (parseSection_within _ d' parsed)).bind fun r r' hr => ?_
          · refine fun htype => htypes.imp id fun hplain => ?_
            obtain ⟨before, hbefore⟩ := hd.2
            have hspaces : ∀ b ∈ (takeName (skipSpaces c')).2.rest.takeWhile isSpace, isSpace b =
                true := fun _ => List.mem_takeWhile_imp
            refine hplain before _ d'.rest ?_ hspaces
            rw [← hbefore, hsplit, heq, htype]
          · rw [hr.1.2]
            exact ih fuel' stopAt r.1 r'.1 r'.2 hstop hr.1.1 (by have := hr.2; omega)
      · rw [if_neg hname, if_neg hname]
        have hadvance := hd.advance hp (Bool.eq_false_iff.mpr hname)
        exact ih fuel' stopAt _ _ parsed hstop hadvance (by omega)

/-- **The parser reads a reply as it reads the masked reply**, if it accepts the latter. -/
theorem parse_masked {text : List UInt8} {parsed : ParsedCaps} (h : Masked spaceless false text raw)
    (htypes : spaceless ∨ TypesPlain raw) (hparse : parse text = .ok parsed) :
    parse raw = .ok parsed := by
  have hsim := parseSections_masked htypes (text.length + 1) (raw.length + 1) none ⟨0, text⟩ ⟨0, raw⟩ ⟨none, []⟩
    (.inl rfl) ⟨h, List.suffix_refl raw⟩ (Nat.lt_succ_self _)
  unfold parse at hparse ⊢
  split at hparse
  · rename_i c parsed' hsections
    obtain ⟨⟨c', parsed''⟩, hsections', -, heq⟩ := hsim _ hsections
    rw [hsections']
    cases hparse
    exact congrArg Except.ok heq.symm
  · cases hparse
  · cases hparse

end DdcControl.Capabilities
