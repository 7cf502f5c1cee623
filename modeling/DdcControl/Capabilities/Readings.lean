import DdcControl.Capabilities.Masking

/-!
# The library's reading and the scanner's

For a reply that is UTF-8, the text the library parses is the reply with its payloads
masked (`masked_of_normalize`): a payload may cut a character in two, and what is left
of it after the payload is replaced by U+FFFD, which the parser takes no more notice of.
So what the library reads the scanner reads too, as long as no payload reads as a
section to a parser that does not know binary sections (`Quiet`).
-/

namespace DdcControl.Capabilities

open Fallible

/-! ### The scan -/

theorem normalizeLoop_of_le {m n : ℕ} {bytes : List UInt8} (hm : bytes.length ≤ m)
    (hn : bytes.length ≤ n) :
    normalizeLoop m bytes = normalizeLoop n bytes := by
  induction m generalizing n bytes with
  | zero =>
    obtain rfl := List.length_eq_zero_iff.mp (Nat.le_zero.mp hm)
    cases n <;> rfl
  | succ m ih =>
    cases bytes with
    | nil => cases n <;> rfl
    | cons byte rest =>
      cases n with
      | zero => simp at hn
      | succ n =>
        simp only [List.length_cons, Nat.add_le_add_iff_right] at hm hn
        have hrest : ∀ k, normalizeLoop m (rest.drop k) = normalizeLoop n (rest.drop k) := fun k =>
          ih (by simp; omega) (by simp; omega)
        have hrest' := hrest 0
        rw [List.drop_zero] at hrest'
        simp only [normalizeLoop, hrest', List.drop_succ_cons, List.drop_drop, hrest]

/-- The payloads that `ddcci_normalize_caps` masks, and what it leaves unread: all from the
first NUL outside them on. -/
def scanLoop : ℕ → List UInt8 → List (List UInt8) × List UInt8
  | _, [] => ([], [])
  | 0, _ => ([], [])
  | fuel + 1, byte :: rest =>
    if byte = 0 then ([], byte :: rest)
    else if !(utf8 "bin(").isPrefixOf (byte :: rest) then scanLoop fuel rest
    else
      let number := (byte :: rest).drop 4
      match binaryLength number with
      | none => ([], [])
      | some (binaryLen, used) =>
        let (payloads, unread) := scanLoop fuel (number.drop (used + 1 + binaryLen))
        ((number.drop (used + 1)).take binaryLen :: payloads, unread)

/-- `scanLoop` over a whole reply. -/
def scan (rawCaps : List UInt8) : List (List UInt8) × List UInt8 := scanLoop rawCaps.length rawCaps

theorem scanLoop_of_le {m n : ℕ} {bytes : List UInt8} (hm : bytes.length ≤ m)
    (hn : bytes.length ≤ n) :
    scanLoop m bytes = scanLoop n bytes := by
  induction m generalizing n bytes with
  | zero =>
    obtain rfl := List.length_eq_zero_iff.mp (Nat.le_zero.mp hm)
    cases n <;> rfl
  | succ m ih =>
    cases bytes with
    | nil => cases n <;> rfl
    | cons byte rest =>
      cases n with
      | zero => simp at hn
      | succ n =>
        simp only [List.length_cons, Nat.add_le_add_iff_right] at hm hn
        have hrest : ∀ k, scanLoop m (rest.drop k) = scanLoop n (rest.drop k) := fun k =>
          ih (by simp; omega) (by simp; omega)
        have hrest' := hrest 0
        rw [List.drop_zero] at hrest'
        simp only [scanLoop, hrest', List.drop_succ_cons, List.drop_drop, hrest]

/-- A byte that begins no binary section is passed over. -/
theorem normalize_cons {byte : UInt8} {rest : List UInt8} (hzero : byte ≠ 0)
    (hbin : (utf8 "bin(").isPrefixOf (byte :: rest) = false) :
    ddcciNormalizeCaps (byte :: rest) = (byte :: ·) <$> ddcciNormalizeCaps rest ∧
    scan (byte :: rest) = scan rest := by
  constructor
  · show normalizeLoop (rest.length + 1) _ = _
    rw [normalizeLoop, if_neg hzero, hbin]
    show (normalizeLoop rest.length rest >>= fun rest => some (byte :: rest)) =
      (byte :: ·) <$> normalizeLoop rest.length rest
    cases normalizeLoop rest.length rest <;> rfl
  · show scanLoop (rest.length + 1) _ = _
    rw [scanLoop, if_neg hzero, hbin]
    rfl

/-- Bytes that are not ASCII are passed over. -/
theorem normalize_append {bytes : List UInt8} (h : ∀ b ∈ bytes, 0x80 ≤ b) (rest : List UInt8) :
    ddcciNormalizeCaps (bytes ++ rest) = (bytes ++ ·) <$> ddcciNormalizeCaps rest ∧
    scan (bytes ++ rest) = scan rest := by
  induction bytes with
  | nil => exact ⟨by simp, rfl⟩
  | cons b bytes ih =>
    have hb := h b (List.mem_cons_self ..)
    have hzero : b ≠ 0 := by
      rintro rfl
      exact absurd hb (by decide)
    have hbin : (utf8 "bin(").isPrefixOf (b :: (bytes ++ rest)) = false := by
      have hne : ('b'.toUInt8 == b) = false := beq_eq_false_iff_ne.mpr (by
        rintro rfl
        exact absurd hb (by decide))
      rw [show utf8 "bin(" = 'b'.toUInt8 :: utf8 "in(" by decide, List.isPrefixOf_cons_cons, hne,
        Bool.false_and]
    obtain ⟨hnorm, hscan⟩ := ih fun c hc => h c (List.mem_cons_of_mem _ hc)
    obtain ⟨hnorm', hscan'⟩ := normalize_cons hzero hbin
    refine ⟨?_, hscan'.trans hscan⟩
    rw [List.cons_append, hnorm', hnorm, Option.map_eq_map, Option.map_eq_map, Option.map_eq_map,
      Option.map_map]
    rfl

/-- What a binary section's declaration is: a number, and a parenthesis with bytes enough after it. -/
theorem binaryLength_eq_some {number : List UInt8} {n used : ℕ}
    (h : binaryLength number = some (n, used)) :
    (∃ value, strtol number = some (value, used)) ∧ number[used]? = some openParen ∧
      n ≤ (number.drop (used + 1)).length := by
  unfold binaryLength at h
  split at h
  · cases h
  · rename_i value k hs
    split_ifs at h with h₁ h₂ h₃
    cases h
    obtain ⟨-, hhead⟩ := not_or.mp h₂
    rw [not_not, List.head?_drop] at hhead
    exact ⟨⟨value, hs⟩, hhead, by omega⟩

/-- A binary section is passed over whole, with its payload masked. -/
theorem normalize_bin {rest : List UInt8} :
    ddcciNormalizeCaps (utf8 "bin(" ++ rest) = (do
      let (n, used) ← binaryLength rest
      let tail ← ddcciNormalizeCaps (rest.drop (used + 1 + n))
      return utf8 "bin(" ++ rest.take (used + 1) ++ List.replicate n mask ++ tail) ∧
    ∀ n used, binaryLength rest = some (n, used) → scan (utf8 "bin(" ++ rest) =
      ((rest.drop (used + 1)).take n :: (scan (rest.drop (used + 1 + n))).1,
        (scan (rest.drop (used + 1 + n))).2) := by
  have hbin : utf8 "bin(" = 'b'.toUInt8 :: utf8 "in(" := by decide
  have hlen : (utf8 "in(").length = 3 := by decide
  have hpre : (utf8 "bin(").isPrefixOf ('b'.toUInt8 :: (utf8 "in(" ++ rest)) = true := by
    rw [← List.cons_append, ← hbin, List.isPrefixOf_iff_prefix]
    exact List.prefix_append _ _
  have hdrop : ('b'.toUInt8 :: (utf8 "in(" ++ rest)).drop 4 = rest := by
    rw [List.drop_succ_cons, ← hlen, List.drop_left]
  have hne : ¬ 'b'.toUInt8 = 0 := by decide
  constructor
  · rw [ddcciNormalizeCaps]
    conv_lhs => rw [hbin, List.cons_append, List.length_cons, normalizeLoop,
      if_neg hne, hpre, hdrop]
    simp only [Bool.not_true, Bool.false_eq_true, if_false]
    cases binaryLength rest with
    | none => rfl
    | some r =>
      simp only [Option.bind_eq_bind, Option.bind_some, ddcciNormalizeCaps]
      rw [normalizeLoop_of_le (by simp; omega) (Nat.le_refl _)]
  · intro n used h
    rw [scan]
    conv_lhs => rw [hbin, List.cons_append, List.length_cons, scanLoop, if_neg hne, hpre, hdrop]
    simp only [Bool.not_true, Bool.false_eq_true, if_false, h]
    rw [scanLoop_of_le (by simp; omega) (Nat.le_refl _)]
    rfl

/-! ### Numbers -/

/-- The bytes `strtol` takes: white space, a sign, `0x` and digits. -/
def isNumberByte (b : UInt8) : Bool := isCSpace b || isSign b || b = 'x'.toUInt8 || b = 'X'.toUInt8 || isHexdigit b

theorem isNumberByte_ascii {b : UInt8} (h : isNumberByte b = true) :
    b ≠ 0 ∧ b ≠ closeParen ∧ b < 0x80 := by
  have hclose : closeParen = 41 := by decide
  rw [hclose]
  simp only [isNumberByte, isCSpace, isSign, isHexdigit, Bool.or_eq_true, Bool.and_eq_true,
    decide_eq_true_eq, ← UInt8.toNat_inj, UInt8.le_iff_toNat_le, UInt8.lt_iff_toNat_lt, ne_eq, Char.toUInt8] at h ⊢
  simp at h ⊢
  omega

theorem hexPrefix_text (s : List UInt8) : hexPrefix s <+: s ∧
    ∀ b ∈ hexPrefix s, isNumberByte b = true := by
  unfold hexPrefix
  split
  · rename_i zero x digit rest
    split
    · rename_i h
      simp only [Bool.and_eq_true, Bool.or_eq_true, decide_eq_true_eq] at h
      obtain ⟨⟨rfl, rfl | rfl⟩, -⟩ := h
      · exact ⟨⟨digit :: rest, rfl⟩, by rw [← List.all_eq_true]; decide⟩
      · exact ⟨⟨digit :: rest, rfl⟩, by rw [← List.all_eq_true]; decide⟩
    · exact ⟨List.nil_prefix, by simp⟩
  · exact ⟨List.nil_prefix, by simp⟩

theorem sign_text (s : List UInt8) :
    (s.take 1).filter isSign <+: s ∧ ∀ b ∈ (s.take 1).filter isSign, isNumberByte b = true := by
  refine ⟨?_, fun b hb => ?_⟩
  · cases s with
    | nil => exact List.nil_prefix
    | cons b s =>
      cases hb : isSign b with
      | false => simp [hb]
      | true => simp [hb]
  · simp [isNumberByte, (List.mem_filter.mp hb).2]

/-- What `strtol` takes of its text. -/
theorem strtol_text {s : List UInt8} {value : ℤ} {used : ℕ} (h : strtol s = some (value, used)) :
    used ≤ s.length ∧ ∀ b ∈ s.take used, isNumberByte b = true := by
  have htake : ∀ {text rest : List UInt8} {n : ℕ}, text <+: rest ∧ (∀ b ∈ text, isNumberByte b = true) →
      n ≤ (rest.drop text.length).length ∧ (∀ b ∈ (rest.drop text.length).take n, isNumberByte b = true) →
      text.length + n ≤ rest.length ∧ ∀ b ∈ rest.take (text.length + n), isNumberByte b = true := by
    intro text rest n htext hrest
    refine ⟨?_, fun b hb => ?_⟩
    · have hle := htext.1.length_le
      have hn := hrest.1
      rw [List.length_drop] at hn
      omega
    · rw [List.take_add, ← List.prefix_iff_eq_take.mp htext.1] at hb
      rcases List.mem_append.mp hb with hb | hb
      · exact htext.2 b hb
      · exact hrest.2 b hb
  simp only [strtol] at h
  split_ifs at h
  all_goals
    obtain ⟨-, rfl⟩ := Prod.mk.inj (Option.some.inj h)
    rw [Nat.add_assoc, Nat.add_assoc]
    refine htake ⟨List.takeWhile_prefix _, fun b hb => by simp [isNumberByte, List.mem_takeWhile_imp hb]⟩ ?_
    refine htake (sign_text _) ?_
    refine htake (hexPrefix_text _) ⟨(List.takeWhile_prefix _).length_le, fun b hb => ?_⟩
    rw [← List.prefix_iff_eq_take.mp (List.takeWhile_prefix _)] at hb
    have hdigit := List.mem_takeWhile_imp hb
    simp only [isDigitOf, Bool.and_eq_true] at hdigit
    simp [isNumberByte, hdigit.1]

/-! ### The masked text -/

theorem cString_append {bytes : List UInt8} (h : ∀ b ∈ bytes, b ≠ 0) (rest : List UInt8) :
    cString (bytes ++ rest) = bytes ++ cString rest :=
  List.takeWhile_append_of_pos fun b hb => by simpa using h b hb

theorem Masked.append {spaceless : Prop} {bytes y x : List UInt8} (h : Masked spaceless false y x) :
    Masked spaceless false (bytes ++ y) (bytes ++ x) := by
  induction bytes with
  | nil => exact h
  | cons b bytes ih => exact .byte ih

theorem Masked.number_append {spaceless : Prop} {bytes y x : List UInt8}
    (hbytes : ∀ b ∈ bytes, b ≠ closeParen) (h : Masked spaceless true y x) :
    Masked spaceless true (bytes ++ y) (bytes ++ x) := by
  induction bytes with
  | nil => exact h
  | cons b bytes ih =>
    exact .number (hbytes b (List.mem_cons_self ..)) (ih fun c hc => hbytes c (List.mem_cons_of_mem _ hc))

/-- A byte that is not ASCII is neither NUL nor a parenthesis nor white space. -/
theorem high_ne {b : UInt8} (h : 0x80 ≤ b) :
    b ≠ 0 ∧ (b ≠ openParen ∧ b ≠ closeParen) ∧ isSpace b = false := by
  refine ⟨?_, ⟨?_, ?_⟩, ?_⟩
  · rintro rfl; exact absurd h (by decide)
  · rintro rfl; exact absurd h (by decide)
  · rintro rfl; exact absurd h (by decide)
  · cases hs : isSpace b with
    | false => rfl
    | true =>
      simp only [isSpace, Bool.or_eq_true, decide_eq_true_eq] at hs
      rcases hs with (((rfl | rfl) | rfl) | rfl) | rfl <;> exact absurd h (by decide)

theorem inert_high {spaceless : Prop} {bytes : List UInt8} (h : ∀ b ∈ bytes, 0x80 ≤ b) :
    Inert spaceless bytes :=
  ⟨fun b hb => (high_ne (h b hb)).2.1, fun _ b hb => (high_ne (h b hb)).2.2⟩

theorem inert_append {spaceless : Prop} {bytes bytes' : List UInt8} (h : Inert spaceless bytes)
    (h' : Inert spaceless bytes') : Inert spaceless (bytes ++ bytes') :=
  ⟨plain_append.mpr ⟨h.1, h'.1⟩, fun hs => List.forall_mem_append.mpr ⟨h.2 hs, h'.2 hs⟩⟩

theorem high_of_isContinuation {b : UInt8} (h : Utf8.isContinuation b = true) : 0x80 ≤ b := by
  simp only [Utf8.isContinuation, Bool.and_eq_true, decide_eq_true_eq] at h
  exact h.1

theorem high_replacement {bytes : List UInt8} :
    ∀ b ∈ bytes.flatMap fun _ => Utf8.replacement, 0x80 ≤ b := by
  intro b hb
  obtain ⟨_, -, hb⟩ := List.mem_flatMap.mp hb
  have hall : Utf8.replacement.all (0x80 ≤ ·) = true := by decide
  exact of_decide_eq_true (List.all_eq_true.mp hall b hb)

theorem inert_mask {spaceless : Prop} (n : ℕ) : Inert spaceless (List.replicate n mask) := by
  refine ⟨fun b hb => ?_, fun _ b hb => ?_⟩ <;> rw [List.eq_of_mem_replicate hb] <;> decide

/-- A binary section, masked: what remains of a character that the payload cuts is
replaced along with it. -/
theorem masked_bin {spaceless : Prop} {number cut rest text : List UInt8} {n used : ℕ}
    (h : binaryLength number = some (n, used)) (hdrop : number.drop (used + 1 + n) = cut ++ rest)
    (hcut : ∀ b ∈ cut, Utf8.isContinuation b = true)
    (hpayload : Inert spaceless ((number.drop (used + 1)).take n))
    (hm : Masked spaceless false (Utf8.lossy (cString text)) rest) :
    Masked spaceless false
      (Utf8.lossy (cString (utf8 "bin(" ++ number.take (used + 1) ++ List.replicate n mask ++ (cut ++ text))))
      (utf8 "bin(" ++ number) := by
  obtain ⟨⟨value, hs⟩, hopen, -⟩ := binaryLength_eq_some h
  have hnumber := (strtol_text hs).2
  have hcut' : ∀ b ∈ cut, 0x80 ≤ b := fun b hb => high_of_isContinuation (hcut b hb)
  have htake : number.take (used + 1) = number.take used ++ [openParen] := by
    rw [List.take_add_one, hopen]
    rfl
  have hraw : number = number.take used ++ openParen :: ((number.drop (used + 1)).take n ++ cut ++ rest) := by
    have hpay : number.drop (used + 1 + n) = (number.drop (used + 1)).drop n := by rw [List.drop_drop]
    rw [List.append_assoc, ← hdrop, hpay, List.take_append_drop]
    conv_lhs => rw [← List.take_append_drop (used + 1) number, htake]
    simp
  have hbin : (utf8 "bin(").all (fun b => b ≠ 0 ∧ b < 0x80) = true := by decide
  have hascii : ∀ b ∈ utf8 "bin(" ++ number.take (used + 1) ++ List.replicate n mask, b ≠ 0 ∧ b < 0x80 := by
    intro b hb
    rw [htake] at hb
    simp only [List.mem_append, List.mem_singleton] at hb
    rcases hb with (hb | hb | rfl) | hb
    · exact of_decide_eq_true (List.all_eq_true.mp hbin b hb)
    · exact ⟨(isNumberByte_ascii (hnumber b hb)).1, (isNumberByte_ascii (hnumber b hb)).2.2⟩
    · decide
    · rw [List.eq_of_mem_replicate hb]
      decide
  rw [cString_append fun b hb => (hascii b hb).1,
    cString_append fun b hb => (high_ne (hcut' b hb)).1, Utf8.lossy_ascii_append fun b hb =>
      (hascii b hb).2, Utf8.lossy_continuation_append hcut]
  have hsplit : utf8 "bin(" = utf8 "bin" ++ [openParen] := by decide
  have hname : ∀ t : List UInt8, utf8 "bin(" ++ t = utf8 "bin" ++ openParen :: t :=
    fun t => by simp [hsplit]
  conv => arg 4; rw [hraw, hname]
  rw [htake, List.append_assoc, List.append_assoc, hname]
  refine .name (by decide) (List.suffix_refl _) ?_
  rw [List.append_assoc]
  refine Masked.number_append (fun b hb => (isNumberByte_ascii (hnumber b hb)).2.1) ?_
  have hreplaced : ∀ b ∈ cut.flatMap fun _ => Utf8.replacement, 0x80 ≤ b := high_replacement
  have := Masked.payload (inert_append (inert_mask n) (inert_high hreplaced))
    (inert_append hpayload (inert_high hcut')) hm
  simpa using this

/-- **The text the library parses is the reply with its payloads masked.** -/
theorem masked_of_normalize {spaceless : Prop} {raw text : List UInt8} (hvalid : Utf8.Valid raw)
    (h : ddcciNormalizeCaps raw = some text)
    (hpayloads : ∀ payload ∈ (scan raw).1, Inert spaceless payload) (hunread : Plain (scan raw).2) :
    Masked spaceless false (Utf8.lossy (cString text)) raw := by
  induction hn : raw.length using Nat.strong_induction_on generalizing raw text with
  | _ n ih =>
  have hv := hvalid
  cases hvalid with
  | nil =>
    cases h
    exact .nil .nil (.inl rfl)
  | @char a tail rest hchar hrest =>
    rcases hchar.ascii_or with ⟨ha, rfl⟩ | hhigh
    · by_cases hzero : a = 0
      · subst hzero
        have hscan : (scan ([0] ++ rest)).2 = [0] ++ rest := by simp [scan, scanLoop]
        have htext : text = 0 :: rest := by
          simpa [ddcciNormalizeCaps, normalizeLoop, eq_comm] using h
        rw [htext]
        exact .nil (hscan ▸ hunread) (.inr rfl)
      · cases hbin : (utf8 "bin(").isPrefixOf (a :: rest) with
        | false =>
          obtain ⟨hnorm, hscan⟩ := normalize_cons hzero hbin
          rw [List.singleton_append] at h hpayloads hunread
          rw [hnorm] at h
          rw [hscan] at hpayloads hunread
          obtain ⟨text', htext', rfl⟩ := Option.map_eq_some_iff.mp h
          have hm := ih rest.length (by simp [← hn]) hrest htext' hpayloads hunread rfl
          have hc : cString ([a] ++ text') = [a] ++ cString text' :=
            cString_append (by simpa using hzero) text'
          show Masked _ _ (Utf8.lossy (cString ([a] ++ text'))) (a :: rest)
          rw [hc, List.singleton_append, Utf8.lossy_ascii ha]
          exact .byte hm
        | true =>
          obtain ⟨number, hnumber⟩ := List.isPrefixOf_iff_prefix.mp hbin
          rw [List.singleton_append, ← hnumber] at h hpayloads hunread hv hn ⊢
          rw [normalize_bin.1] at h
          cases hlen : binaryLength number with
          | none => simp [hlen] at h
          | some r =>
            obtain ⟨m, used⟩ := r
            rw [normalize_bin.2 m used hlen] at hpayloads hunread
            obtain ⟨cut, rest', hdrop, hcut, hrest'⟩ := hv.drop_eq (4 + (used + 1 + m))
            have hfour : (utf8 "bin(").length = 4 := by decide
            rw [← List.drop_drop, ← hfour, List.drop_left] at hdrop
            have hhigh : ∀ b ∈ cut, 0x80 ≤ b := fun b hb => high_of_isContinuation (hcut b hb)
            obtain ⟨hnorm, hscan⟩ := normalize_append hhigh rest'
            rw [hlen, Option.bind_eq_bind, Option.bind_some] at h
            simp only [hdrop, hnorm, hscan] at h hpayloads hunread
            obtain ⟨tail, htail, htext⟩ := Option.bind_eq_some_iff.mp h
            obtain ⟨text', htext', rfl⟩ := Option.map_eq_some_iff.mp htail
            cases htext
            have hless : rest'.length < n := by
              have := congrArg List.length hdrop
              simp only [List.length_drop, List.length_append] at this
              rw [← hn, List.length_append, hfour]
              omega
            exact masked_bin hlen hdrop hcut (hpayloads _ (List.mem_cons_self ..))
              (ih _ hless hrest' htext' (fun p hp => hpayloads p (List.mem_cons_of_mem _ hp)) hunread rfl)
    · obtain ⟨hnorm, hscan⟩ := normalize_append hhigh rest
      rw [hnorm] at h
      rw [hscan] at hpayloads hunread
      obtain ⟨text', htext', rfl⟩ := Option.map_eq_some_iff.mp h
      have hless : rest.length < n := by
        rw [← hn, List.length_append, List.length_cons]
        omega
      have hm := ih rest.length hless hrest htext' hpayloads hunread rfl
      rw [cString_append fun b hb => (high_ne (hhigh b hb)).1, Utf8.lossy_char hchar]
      exact hm.append

/-! ### The two readings -/

/-- A reply in which nothing that the library masks or leaves unread reads as a section:
no parenthesis there, and no white space in a payload that could end a type's value. -/
structure Quiet (rawCaps : List UInt8) : Prop where
  payloads : ∀ payload ∈ (scan rawCaps).1, Plain payload
  spaces : (∀ payload ∈ (scan rawCaps).1, ∀ b ∈ payload, isSpace b = false) ∨ TypesPlain rawCaps
  unread : Plain (scan rawCaps).2

theorem Quiet.masked {raw text : List UInt8} (h : Quiet raw) (hvalid : Utf8.isValid raw = true)
    (htext : ddcciNormalizeCaps raw = some text) :
    Masked (∀ payload ∈ (scan raw).1, ∀ b ∈ payload, isSpace b = false) false (Utf8.lossy (cString text)) raw :=
  masked_of_normalize (Utf8.valid_of_isValid hvalid) htext
    (fun payload hp => ⟨h.payloads payload hp, fun hs => hs payload hp⟩) h.unread

/-- What the library makes of a text is what its parse says. -/
theorem ddcciParseCaps_eq_some {capsStr : List UInt8} {caps caps' : Caps}
    (h : ddcciParseCaps capsStr caps = some caps') :
    ∃ parsed, parse (Utf8.lossy capsStr) = .ok parsed ∧
      ∀ text, parse text = .ok parsed → (·.1) <$> caps.apply text .add = .ok caps' := by
  unfold ddcciParseCaps at h
  cases hparse : parse (Utf8.lossy capsStr) with
  | error e =>
    have herror : caps.apply (Utf8.lossy capsStr) .add = .error e := by
      rw [Caps.apply, hparse]
      rfl
    rw [herror] at h
    cases h
  | ok parsed =>
    refine ⟨parsed, rfl, fun text htext => ?_⟩
    have heq : caps.apply text .add = caps.apply (Utf8.lossy capsStr) .add := by
      rw [Caps.apply, Caps.apply, htext, hparse]
    rw [heq]
    split at h
    · cases h
    · rename_i hok
      split_ifs at h
      cases h
      rw [hok]
      rfl

/-- **The scanner reads what the library reads**, in every reply that is UTF-8 and quiet;
it refuses every reply that is not UTF-8. -/
theorem scannerCaps_exact (rawCaps : List UInt8) :
    (Utf8.isValid rawCaps = false → scannerCaps rawCaps = .error .notUtf8) ∧
      (Utf8.isValid rawCaps = true → Quiet rawCaps → ∀ caps, ddcciReceivedCaps rawCaps = some caps →
        scannerCaps rawCaps = .ok caps) := by
  refine ⟨fun hvalid => ?_, fun hvalid hquiet caps h => ?_⟩
  · simp only [scannerCaps, readCapabilities, hvalid]
    rfl
  · obtain ⟨text, htext, h⟩ := Option.bind_eq_some_iff.mp h
    obtain ⟨parsed, hparsed, hcaps⟩ := ddcciParseCaps_eq_some h
    have hraw := hcaps rawCaps (parse_masked (hquiet.masked hvalid htext) hquiet.spaces hparsed)
    have hscanner : Caps.parse rawCaps = .ok caps := hraw
    simp only [scannerCaps, readCapabilities, hvalid, if_true]
    show (Caps.parse rawCaps).mapError ScannerError.parse = _
    rw [hscanner]
    rfl

/-- A reply with a binary section, and a NUL after the last section. -/
def binaryReply : List UInt8 := utf8 "(type(lcd)edid bin(0x4(a\x00#z))vcp(10 60(11 0F)))" ++ 0 :: utf8 "end"

theorem scannerCaps_binaryReply : ∃ caps, ddcciReceivedCaps binaryReply = some caps ∧ scannerCaps binaryReply = .ok caps := by
  have hsome : (ddcciReceivedCaps binaryReply).isSome = true := by decide +kernel
  obtain ⟨caps, hcaps⟩ := Option.isSome_iff_exists.mp hsome
  refine ⟨caps, hcaps, (scannerCaps_exact binaryReply).2 (by decide +kernel) ⟨?_, .inl ?_,
    ?_⟩ caps hcaps⟩
  · unfold Plain
    decide +kernel
  · decide +kernel
  · unfold Plain
    decide +kernel

/-- A model name in Latin-1: the library replaces the letter, the scanner refuses the reply. -/
def latin1Reply : List UInt8 := utf8 "(type(lcd)model(" ++ 0xE9 :: utf8 "cran)vcp(10))"

theorem latin1Reply_refused :
    ¬ ∀ caps, ddcciReceivedCaps latin1Reply = some caps → scannerCaps latin1Reply = .ok caps := by
  intro h
  have hsome : (ddcciReceivedCaps latin1Reply).isSome = true := by decide +kernel
  obtain ⟨caps, hcaps⟩ := Option.isSome_iff_exists.mp hsome
  have hok : (scannerCaps latin1Reply).isOk = true := by
    rw [h caps hcaps]
    rfl
  revert hok
  decide +kernel

end DdcControl.Capabilities
