import DdcControl.Capabilities.Readings
import DdcControl.Library.Block

/-!
# The buffer of a reply

`ddcci_normalize_caps` works in place, in a buffer that `ddcci_caps` has allocated: the
bytes received, with a NUL after them. It finds the binary sections itself, each from the
length that the one before it declares, so that what a payload holds could move the scan.
It does not: the scan passes over a payload whole. The bytes it writes are those of the
payloads (`ddcciNormalizeBuffer_runs`), and two buffers that differ only there go through
the same scan (`SameOutside.normalize_eq`).

## The model

`ddcciNormalizeBuffer` is the code's loop over a `Block`, where a read or a write outside
the buffer has no result; `memcmp` reads all four bytes, and `strtol` is given the C
string that starts at its argument, so that there must be a NUL in the buffer for it to
stop at. The loop takes `fuel`, one unit a pass, and has no result when it runs out.
`size_t` is `ℕ`; `remaining`, the only difference the code takes, wraps round
(`sizeSub`). `Located` says which bytes the scan finds in a payload.
-/

namespace DdcControl.Capabilities

/-! ### The buffer -/

/-- The bytes received, and the NUL that `ddcci_caps` puts after them. -/
def capsBuffer (rawCaps : List UInt8) : Block UInt8 := .written (rawCaps ++ [0])

/-- `a - b`, of type `size_t`. -/
def sizeSub (a b : ℕ) : ℕ := if b ≤ a then a - b else a + 2 ^ 64 - b

/-- The loop of `ddcci_normalize_caps`, from `pos` on: the buffer, and what is returned. -/
def normalizeFrom (length : ℕ) : ℕ → ℕ → Block UInt8 → Option (Block UInt8 × ℤ)
  | 0, _, _ => none
  | fuel + 1, pos, rawCaps =>
    if length ≤ pos then some (rawCaps, 0)
    else do
      let byte ← rawCaps.load pos
      if byte = 0 then some (rawCaps, 0)
      else if length - pos < 4 then normalizeFrom length fuel (pos + 1) rawCaps
      else do
        let keyword ← rawCaps.slice pos 4
        if keyword ≠ utf8 "bin(" then normalizeFrom length fuel (pos + 1) rawCaps
        else do
          let number ← rawCaps.upTo (· = 0) (pos + 4)
          match strtol number with
          | none => some (rawCaps, -1) -- `endptr == number`
          | some (binaryLen, used) =>
            let endptr := pos + 4 + used
            if binaryLen < -2 ^ 63 ∨ 2 ^ 63 ≤ binaryLen then some (rawCaps, -1) -- `errno == ERANGE`
            else if binaryLen < 0 then some (rawCaps, -1)
            else do
              let delimiter ← rawCaps.load endptr
              if delimiter ≠ openParen then some (rawCaps, -1)
              else
                let payload := endptr + 1
                if sizeSub length payload < binaryLen.toNat then some (rawCaps, -1)
                else do
                  let rawCaps ← rawCaps.fill mask payload binaryLen.toNat
                  normalizeFrom length fuel (payload + binaryLen.toNat) rawCaps

/-- `ddcci_normalize_caps`. A pass of its loop takes at least one of the bytes. -/
def ddcciNormalizeBuffer (rawCaps : Block UInt8) (length : ℕ) : Option (Block UInt8 × ℤ) :=
  normalizeFrom length (length + 1) 0 rawCaps

/-- The end of `ddcci_caps`, once the bytes have arrived, on the table of the monitor. -/
def ddcciBufferCaps (rawCaps : Block UInt8) (length : ℕ) (caps : Caps) : Option (Option Caps) := do
  let (rawCaps, result) ← ddcciNormalizeBuffer rawCaps length
  if result < 0 then some none
  else do
    let capsStr ← rawCaps.upTo (· = 0) 0
    return ddcciParseCaps capsStr caps

/-! ### The payloads -/

/-- Byte `i` is in a payload that the scan finds. -/
inductive Located : List UInt8 → ℕ → Prop where
  /-- The scan passes over a byte that begins no binary section. -/
  | skip {byte : UInt8} {rest : List UInt8} {i : ℕ} : byte ≠ 0 → (utf8 "bin(").isPrefixOf (byte :: rest) = false →
      Located rest i → Located (byte :: rest) (i + 1)
  /-- The payload of the section that begins here, after `bin(`, the number and `(`. -/
  | here {number : List UInt8} {binaryLen used i : ℕ} : binaryLength number = some (binaryLen, used) → i < binaryLen →
      Located (utf8 "bin(" ++ number) (4 + (used + 1) + i)
  /-- The scan goes on after the payload. -/
  | later {number : List UInt8} {binaryLen used i : ℕ} : binaryLength number = some (binaryLen, used) →
      Located (number.drop (used + 1 + binaryLen)) i → Located (utf8 "bin(" ++ number) (4 + (used + 1 + binaryLen) + i)

/-- Texts of one length that differ only in the payloads. -/
structure SameOutside (bytes bytes' : List UInt8) : Prop where
  length : bytes'.length = bytes.length
  same : ∀ i, ¬ Located bytes i → bytes'[i]? = bytes[i]?

/-- `after` is `bytes` with its payloads masked. -/
structure PayloadsMasked (bytes after : List UInt8) : Prop where
  length : after.length = bytes.length
  masked : ∀ i, Located bytes i → after[i]? = some mask
  kept : ∀ i, ¬ Located bytes i → after[i]? = bytes[i]?

/-! ### What `strtol` reads -/

theorem drop_takeWhile {α : Type} {p : α → Bool} {k : ℕ} {l : List α}
    (h : k ≤ (l.takeWhile p).length) :
    (l.takeWhile p).drop k = (l.drop k).takeWhile p := by
  induction k generalizing l with
  | zero => rfl
  | succ k ih =>
    cases l with
    | nil => rfl
    | cons a l =>
      cases hp : p a with
      | false => simp [hp] at h
      | true =>
        simp only [List.takeWhile_cons, hp, if_true, List.length_cons, Nat.add_le_add_iff_right,
          List.drop_succ_cons] at h ⊢
        exact ih h

/-- The part of a text that a number can take. -/
def numberText (s : List UInt8) : List UInt8 := s.takeWhile isNumberByte

theorem takeWhile_numberText {p : UInt8 → Bool} (hp : ∀ b, p b = true → isNumberByte b = true)
    (s : List UInt8) :
    (numberText s).takeWhile p = s.takeWhile p := by
  rw [numberText, List.takeWhile_takeWhile]
  congr 1
  funext b
  cases hb : p b with
  | false => simp
  | true => simp [hp b hb]

theorem drop_numberText {text s : List UInt8} (htext : text <+: s)
    (hnumber : ∀ b ∈ text, isNumberByte b = true) :
    (numberText s).drop text.length = numberText (s.drop text.length) := by
  obtain ⟨rest, rfl⟩ := htext
  rw [numberText, drop_takeWhile, numberText]
  rw [List.takeWhile_append_of_pos hnumber, List.length_append]
  exact Nat.le_add_right _ _

theorem hexPrefix_eq_nil {s : List UInt8} (h : (numberText s).length < 3) : hexPrefix s = [] := by
  unfold hexPrefix
  split
  · rename_i zero x digit rest
    rw [if_neg]
    intro hhex
    simp only [Bool.and_eq_true, Bool.or_eq_true, decide_eq_true_eq] at hhex
    obtain ⟨⟨rfl, hx⟩, hdigit⟩ := hhex
    have hzero : isNumberByte '0'.toUInt8 = true := by decide
    have hx : isNumberByte x = true := by rcases hx with rfl | rfl <;> decide
    have hdigit : isNumberByte digit = true := by simp [isNumberByte, hdigit]
    simp only [numberText, List.takeWhile_cons, hzero, hx, hdigit, if_true, List.length_cons] at h
    omega
  · rfl

theorem hexPrefix_numberText (s : List UInt8) : hexPrefix (numberText s) = hexPrefix s := by
  have hidem : numberText (numberText s) = numberText s := takeWhile_numberText (fun _ h => h) s
  by_cases h : (numberText s).length < 3
  · rw [hexPrefix_eq_nil h, hexPrefix_eq_nil (by rwa [hidem])]
  obtain ⟨rest, hrest⟩ := List.takeWhile_prefix isNumberByte (l := s)
  change numberText s ++ rest = s at hrest
  match hs : numberText s, h with
  | a :: b :: c :: more, _ =>
    rw [← hrest, hs]
    rfl
  | [_, _], h | [_], h | [], h => simp at h

/-- `strtol` reads no further than a number can go. -/
theorem strtol_numberText (s : List UInt8) : strtol (numberText s) = strtol s := by
  have hspaces : (numberText s).takeWhile isCSpace = s.takeWhile isCSpace :=
    takeWhile_numberText (fun b hb => by simp [isNumberByte, hb]) s
  have hspaced : (numberText s).drop (s.takeWhile isCSpace).length =
      numberText (s.drop (s.takeWhile isCSpace).length) :=
    drop_numberText (List.takeWhile_prefix _) fun b hb => by simp [isNumberByte, List.mem_takeWhile_imp hb]
  have hsign : ∀ t, ((numberText t).take 1).filter isSign = (t.take 1).filter isSign := by
    intro t
    cases t with
    | nil => rfl
    | cons b t =>
      cases hb : isNumberByte b with
      | true => simp [numberText, hb]
      | false =>
        have hnot : isSign b = false := by simp_all [isNumberByte]
        simp [numberText, hb, hnot]
  have hradix : ∀ hex t, radixOf hex (numberText t) = radixOf hex t := by
    intro hex t
    have hhead : (numberText t).head? = some '0'.toUInt8 ↔ t.head? = some '0'.toUInt8 := by
      have hzero : isNumberByte '0'.toUInt8 = true := by decide
      rw [numberText, List.head?_takeWhile, Option.filter_eq_some_iff]
      exact and_iff_left_of_imp fun _ => hzero
    simp only [radixOf, hhead]
  have hdigits : ∀ radix t, (numberText t).takeWhile (isDigitOf radix) =
      t.takeWhile (isDigitOf radix) := fun radix t =>
    takeWhile_numberText (fun b hb => by simp_all [isNumberByte, isDigitOf]) t
  have hsigned : ∀ t, (numberText t).drop ((t.take 1).filter isSign).length =
      numberText (t.drop ((t.take 1).filter isSign).length) :=
    fun t => drop_numberText (sign_text t).1 (sign_text t).2
  have hhexed : ∀ t, (numberText t).drop (hexPrefix t).length = numberText (t.drop (hexPrefix t).length) :=
    fun t => drop_numberText (hexPrefix_text t).1 (hexPrefix_text t).2
  simp only [strtol, hspaces, hspaced, hsign, hsigned, hexPrefix_numberText, hhexed,
    hradix, hdigits]

/-- A declared length is what it is whatever the payload, and whatever comes after it. -/
theorem binaryLength_congr {number number' : List UInt8} {n used : ℕ}
    (h : binaryLength number = some (n, used))
    (htake : number'.take (used + 1) = number.take (used + 1))
    (hlength : number'.length = number.length) :
    binaryLength number' = some (n, used) := by
  obtain ⟨⟨value, hvalue⟩, hopen, hroom⟩ := binaryLength_eq_some h
  have hread : ∀ {number : List UInt8}, number[used]? = some openParen →
      (∀ b ∈ number.take used, isNumberByte b = true) →
      numberText number = number.take used := by
    intro number hopen hnumber
    conv_lhs => rw [numberText, ← List.take_append_drop used number]
    have hparen : isNumberByte openParen = false := by decide
    obtain ⟨hlt, hget⟩ := List.getElem?_eq_some_iff.mp hopen
    rw [List.takeWhile_append_of_pos hnumber, List.drop_eq_getElem_cons hlt, hget,
      List.takeWhile_cons, hparen]
    simp
  have hopen' : number'[used]? = some openParen := by
    have hget := congrArg (·[used]?) htake
    simpa [List.getElem?_take, hopen] using hget
  have htext : number'.take used = number.take used := by
    have htake' := congrArg (List.take used) htake
    simpa [List.take_take] using htake'
  have hstrtol : strtol number' = strtol number := by
    rw [← strtol_numberText, hread hopen' (by rw [htext]; exact (strtol_text hvalue).2), htext,
      ← hread hopen (strtol_text hvalue).2, strtol_numberText]
  rw [← h]
  simp only [binaryLength, hstrtol, hvalue, List.head?_drop, hopen, hopen',
    List.length_drop, hlength]

theorem strtol_cString (s : List UInt8) : strtol (cString s) = strtol s := by
  have htext : numberText (cString s) = numberText s := by
    rw [cString, numberText, List.takeWhile_takeWhile, numberText]
    congr 1
    funext b
    cases hb : isNumberByte b with
    | false => simp
    | true => simp [(isNumberByte_ascii hb).1]
  rw [← strtol_numberText, htext, strtol_numberText]

/-! ### One pass of the loop -/

theorem bin_length : (utf8 "bin(").length = 4 := by decide

/-- A binary section's declaration, its payload and what follows. -/
theorem binaryLength_split {number : List UInt8} {n used : ℕ}
    (h : binaryLength number = some (n, used)) :
    ∃ declared payload rest, number = declared ++ payload ++ rest ∧ declared.length = used + 1 ∧
      payload.length = n ∧
      number.take (used + 1) = declared ∧ number.drop (used + 1 + n) = rest := by
  obtain ⟨-, hopen, hroom⟩ := binaryLength_eq_some h
  have hused := (List.getElem?_eq_some_iff.mp hopen).1
  refine ⟨number.take (used + 1), (number.drop (used + 1)).take n, number.drop (used + 1 + n), ?_,
    ?_, ?_, rfl, rfl⟩
  · rw [List.append_assoc, ← List.drop_drop (i := n), List.take_append_drop, List.take_append_drop]
  · rw [List.length_take]
    omega
  · rw [List.length_take]
    omega

section
variable {fuel : ℕ} (front : List UInt8) {byte : UInt8} {rest number : List UInt8}

theorem load_capsBuffer : (capsBuffer (front ++ byte :: rest)).load front.length = some byte := by
  rw [capsBuffer, Block.load_written]
  simp

theorem slice_capsBuffer (h : 4 ≤ rest.length) :
    (capsBuffer (front ++ rest)).slice front.length 4 = some (rest.take 4) := by
  rw [capsBuffer, Block.slice_written (by simp; omega), List.append_assoc, List.drop_left,
    List.take_append_of_le_length h]

theorem upTo_capsBuffer : (capsBuffer (front ++ rest)).upTo (· = 0) front.length = some (cString rest) := by
  have hdrop : (front ++ rest ++ [0]).drop front.length = rest ++ [0] := by
    rw [List.append_assoc, List.drop_left]
  rw [capsBuffer, Block.upTo_written (by rw [hdrop]; exact ⟨0, by simp, by simp⟩), hdrop, cString]
  congr 1
  induction rest with
  | nil => rfl
  | cons b rest ih => by_cases hb : b = 0 <;> simp_all

theorem fill_capsBuffer {n used : ℕ} (h : binaryLength number = some (n, used)) :
    (capsBuffer (front ++ (utf8 "bin(" ++ number))).fill mask (front.length + 4 + used + 1) n =
      some
        (capsBuffer (front ++ (utf8 "bin(" ++ number.take (used + 1) ++ List.replicate n mask ++
        number.drop (used + 1 + n)))) := by
  obtain ⟨declared, payload, rest, hnumber, hdeclared, hpayload, htake, hdrop⟩ :=
    binaryLength_split h
  have hfill := Block.fill_written mask (front ++ utf8 "bin(" ++ declared) payload (rest ++ [0])
  have hlength : (front ++ utf8 "bin(" ++ declared).length = front.length + 4 + used + 1 := by
    rw [List.length_append, List.length_append, hdeclared, bin_length]
    omega
  rw [hlength, hpayload] at hfill
  rw [htake, hdrop, hnumber]
  simpa only [capsBuffer, List.append_assoc] using hfill

theorem normalizeFrom_nil : normalizeFrom front.length (fuel + 1) front.length (capsBuffer front) =
    some (capsBuffer front, 0) := by
  rw [normalizeFrom, if_pos (Nat.le_refl _)]

theorem normalizeFrom_nul :
    normalizeFrom (front ++ 0 :: rest).length (fuel + 1) front.length (capsBuffer (front ++ 0 :: rest)) =
      some (capsBuffer (front ++ 0 :: rest), 0) := by
  rw [normalizeFrom, if_neg (by simp), load_capsBuffer]
  rfl

theorem normalizeFrom_skip (hzero : byte ≠ 0)
    (hbin : (utf8 "bin(").isPrefixOf (byte :: rest) = false) :
    normalizeFrom (front ++ byte :: rest).length (fuel + 1) front.length (capsBuffer (front ++ byte :: rest)) =
      normalizeFrom (front ++ byte :: rest).length fuel (front.length + 1)
        (capsBuffer (front ++ byte :: rest)) := by
  rw [normalizeFrom, if_neg (by simp), load_capsBuffer, Option.bind_eq_bind,
    Option.bind_some, if_neg hzero]
  split_ifs with hshort
  · rfl
  · have hroom : 4 ≤ (byte :: rest).length := by
      rw [List.length_append] at hshort
      omega
    have hkeyword : (byte :: rest).take 4 ≠ utf8 "bin(" := by
      intro heq
      have hprefix : utf8 "bin(" <+: byte :: rest := heq ▸ List.take_prefix 4 _
      rw [List.isPrefixOf_iff_prefix.mpr hprefix] at hbin
      exact nomatch hbin
    rw [slice_capsBuffer _ hroom, Option.bind_eq_bind, Option.bind_some, if_pos hkeyword]

theorem normalizeFrom_bin :
    normalizeFrom (front ++ (utf8 "bin(" ++ number)).length (fuel + 1) front.length
      (capsBuffer (front ++ (utf8 "bin(" ++ number))) =
      match binaryLength number with
      | none => some (capsBuffer (front ++ (utf8 "bin(" ++ number)), -1)
      | some (n, used) =>
        normalizeFrom (front ++ (utf8 "bin(" ++ number)).length fuel (front.length + 4 + used + 1 + n)
          (capsBuffer (front ++ (utf8 "bin(" ++ number.take (used + 1) ++ List.replicate n mask ++
            number.drop (used + 1 + n)))) := by
  have hload : (capsBuffer (front ++ (utf8 "bin(" ++ number))).load front.length = some 'b'.toUInt8 :=
    @load_capsBuffer front _ (utf8 "in(" ++ number)
  have hroom : 4 ≤ (utf8 "bin(" ++ number).length := by
    rw [List.length_append, bin_length]
    exact Nat.le_add_right ..
  have hkeyword : (utf8 "bin(" ++ number).take 4 = utf8 "bin(" := by rw [← bin_length, List.take_left]
  have hnumber : (capsBuffer (front ++ (utf8 "bin(" ++ number))).upTo (· = 0) (front.length + 4) =
      some (cString number) := by
    rw [← List.append_assoc, ← bin_length, ← List.length_append]
    exact upTo_capsBuffer _
  have hdelimiter : ∀ used, (capsBuffer (front ++ (utf8 "bin(" ++ number))).load
      (front.length + 4 + used) = (number ++ [0])[used]? := by
    intro used
    rw [capsBuffer, Block.load_written, ← List.append_assoc, List.append_assoc _ number,
      List.getElem?_append_right (by simp [bin_length])]
    congr 1
    simp [bin_length]
  rw [normalizeFrom, if_neg (by rw [List.length_append]; omega), hload, Option.bind_eq_bind,
    Option.bind_some, if_neg (by decide), if_neg (by rw [List.length_append]; omega), slice_capsBuffer _ hroom]
  simp only [Option.bind_eq_bind, Option.bind_some, hkeyword, ne_eq, not_true_eq_false, if_false,
    hnumber, strtol_cString]
  cases hstrtol : strtol number with
  | none => simp only [binaryLength, hstrtol]
  | some r =>
    obtain ⟨binaryLen, used⟩ := r
    have hused := (strtol_text hstrtol).1
    simp only [hdelimiter]
    by_cases hrange : binaryLen < -2 ^ 63 ∨ 2 ^ 63 ≤ binaryLen
    · simp only [binaryLength, hstrtol, if_pos hrange]
    by_cases hsign : binaryLen < 0
    · simp only [binaryLength, hstrtol, if_neg hrange, if_pos (Or.inl hsign), if_pos hsign]
    by_cases hparen : number[used]? = some openParen
    · have hlt := (List.getElem?_eq_some_iff.mp hparen).1
      have hroom : sizeSub (front ++ (utf8 "bin(" ++ number)).length (front.length + 4 + used + 1) =
          (number.drop (used + 1)).length := by
        simp only [sizeSub, List.length_append, bin_length, List.length_drop]
        rw [if_pos (by omega)]
        omega
      have hhead : ¬ (binaryLen < 0 ∨ (number.drop used).head? ≠ some openParen) := by
        rw [List.head?_drop]
        exact not_or.mpr ⟨hsign, not_not.mpr hparen⟩
      rw [List.getElem?_append_left hlt, hparen]
      simp only [if_neg hrange, if_neg hsign, Option.bind_some, not_true_eq_false, if_false, hroom]
      by_cases hlen : (number.drop (used + 1)).length < binaryLen.toNat
      · simp only [binaryLength, hstrtol, if_neg hrange, if_neg hhead, if_pos hlen]
      · have hbinary : binaryLength number = some (binaryLen.toNat, used) := by
          simp only [binaryLength, hstrtol, if_neg hrange, if_neg hhead, if_neg hlen]
        simp only [if_neg hlen, fill_capsBuffer front hbinary, Option.bind_some, hbinary]
    · -- The number ends at another byte, the NUL at the latest.
      have hother : (number ++ [0])[used]? ≠ some openParen := by
        rcases Nat.eq_or_lt_of_le hused with rfl | hlt
        · rw [List.getElem?_append_right (Nat.le_refl _), Nat.sub_self]
          decide
        · rwa [List.getElem?_append_left hlt]
      have hhead : binaryLen < 0 ∨ (number.drop used).head? ≠ some openParen := by
        rw [List.head?_drop]
        exact Or.inr hparen
      obtain ⟨byte, hbyte⟩ : ∃ byte, (number ++ [0])[used]? = some byte :=
        ⟨_, List.getElem?_eq_getElem (by rw [List.length_append]; simp; omega)⟩
      rw [hbyte, ne_eq, Option.some_inj] at hother
      simp only [binaryLength, hstrtol, if_neg hrange, if_neg hsign, if_pos hhead, hbyte,
        Option.bind_some, hother, not_false_eq_true, if_true]

end

/-! ### Which bytes the scan finds in a payload -/

/-- Where the scan finds a byte: past one that begins no binary section, or in or past a payload. -/
theorem Located.inv {bytes : List UInt8} {i : ℕ} (h : Located bytes i) :
    (∃ byte rest j, bytes = byte :: rest ∧ i = j + 1 ∧ byte ≠
      0 ∧ (utf8 "bin(").isPrefixOf (byte :: rest) = false ∧ Located rest j) ∨
      ∃ number n used, bytes = utf8 "bin(" ++ number ∧ binaryLength number = some (n, used) ∧
        ((∃ j < n, i = 4 + (used + 1) + j) ∨ ∃ j, Located (number.drop (used + 1 + n)) j ∧ i = 4 +
          (used + 1 + n) + j) := by
  cases h with
  | skip hzero hbin h => exact .inl ⟨_, _, _, rfl, rfl, hzero, hbin, h⟩
  | here hbinary hi => exact .inr ⟨_, _, _, rfl, hbinary, .inl ⟨_, hi, rfl⟩⟩
  | later hbinary h => exact .inr ⟨_, _, _, rfl, hbinary, .inr ⟨_, h, rfl⟩⟩

theorem isPrefixOf_bin (number : List UInt8) :
    (utf8 "bin(").isPrefixOf (utf8 "bin(" ++ number) = true :=
  List.isPrefixOf_iff_prefix.mpr (List.prefix_append _ _)

theorem not_located_nil (i : ℕ) : ¬ Located [] i := by
  intro h
  obtain ⟨_, _, _, h, -⟩ | ⟨_, _, _, h, -⟩ := h.inv
  · exact nomatch h
  · exact absurd h (by rw [show utf8 "bin(" = 'b'.toUInt8 :: utf8 "in(" by decide]; exact nofun)

theorem not_located_nul (rest : List UInt8) (i : ℕ) : ¬ Located (0 :: rest) i := by
  intro h
  obtain ⟨_, _, _, h, -, hzero, -⟩ | ⟨_, _, _, h, -⟩ := h.inv
  · exact hzero (List.cons.inj h).1.symm
  · rw [show utf8 "bin(" = 'b'.toUInt8 :: utf8 "in(" by decide] at h
    exact absurd (List.cons.inj h).1 (by decide)

theorem located_skip_iff {byte : UInt8} {rest : List UInt8} (hzero : byte ≠ 0)
    (hbin : (utf8 "bin(").isPrefixOf (byte :: rest) = false) {i : ℕ} :
    Located (byte :: rest) i ↔ ∃ j, i = j + 1 ∧ Located rest j := by
  constructor
  · intro h
    obtain ⟨_, _, j, h, hi, -, -, hj⟩ | ⟨number, _, _, h, -⟩ := h.inv
    · obtain ⟨rfl, rfl⟩ := List.cons.inj h
      exact ⟨j, hi, hj⟩
    · rw [h, isPrefixOf_bin] at hbin
      exact nomatch hbin
  · rintro ⟨j, rfl, hj⟩
    exact .skip hzero hbin hj

theorem not_located_refused {number : List UInt8} (h : binaryLength number = none) (i : ℕ) :
    ¬ Located (utf8 "bin(" ++ number) i := by
  intro hi
  obtain ⟨_, _, _, heq, -, -, hbin, -⟩ | ⟨number', _, _, heq, hbinary, -⟩ := hi.inv
  · rw [← heq, isPrefixOf_bin] at hbin
    exact nomatch hbin
  · rw [← List.append_cancel_left heq, h] at hbinary
    exact nomatch hbinary

theorem located_bin_iff {number : List UInt8} {n used : ℕ}
    (h : binaryLength number = some (n, used)) {i : ℕ} :
    Located (utf8 "bin(" ++ number) i ↔
      (∃ j < n, i = 4 + (used + 1) + j) ∨
      ∃ j, Located (number.drop (used + 1 + n)) j ∧ i = 4 + (used + 1 + n) + j := by
  constructor
  · intro hi
    obtain ⟨_, _, _, heq, -, -, hbin, -⟩ | ⟨number', _, _, heq, hbinary, hi⟩ := hi.inv
    · rw [← heq, isPrefixOf_bin] at hbin
      exact nomatch hbin
    · obtain rfl := List.append_cancel_left heq
      rw [h] at hbinary
      cases hbinary
      exact hi
  · rintro (⟨j, hj, rfl⟩ | ⟨j, hj, rfl⟩)
    · exact .here h hj
    · exact .later h hj

/-- No payload is before the end of the first `bin(`. -/
theorem Located.four_lt {bytes : List UInt8} {i : ℕ} (h : Located bytes i) : 4 < i := by
  induction h with
  | skip _ _ _ ih => exact Nat.lt_succ_of_lt ih
  | here | later => omega

theorem PayloadsMasked.of_not_located {bytes : List UInt8} (h : ∀ i, ¬ Located bytes i) :
    PayloadsMasked bytes bytes :=
  ⟨rfl, fun i hi => absurd hi (h i), fun _ _ => rfl⟩

theorem PayloadsMasked.skip {byte : UInt8} {rest after : List UInt8} (hzero : byte ≠ 0)
    (hbin : (utf8 "bin(").isPrefixOf (byte :: rest) = false) (h : PayloadsMasked rest after) :
    PayloadsMasked (byte :: rest) (byte :: after) := by
  refine ⟨congrArg (· + 1) h.length, fun i hi => ?_, fun i hi => ?_⟩
  · obtain ⟨j, rfl, hj⟩ := (located_skip_iff hzero hbin).mp hi
    exact h.masked j hj
  · cases i with
    | zero => rfl
    | succ j => exact h.kept j fun hj => hi (.skip hzero hbin hj)

theorem PayloadsMasked.bin {number after : List UInt8} {n used : ℕ}
    (hbinary : binaryLength number = some (n, used))
    (h : PayloadsMasked (number.drop (used + 1 + n)) after) :
    PayloadsMasked (utf8 "bin(" ++ number)
      (utf8 "bin(" ++ number.take (used + 1) ++ List.replicate n mask ++ after) := by
  obtain ⟨declared, payload, rest, hnumber, hdeclared, hpayload, htake, hdrop⟩ :=
    binaryLength_split hbinary
  have hfront : (utf8 "bin(" ++ declared).length = 4 +
      (used + 1) := by rw [List.length_append, hdeclared, bin_length]
  have hbytes : utf8 "bin(" ++ number = utf8 "bin(" ++ declared ++ payload ++ rest := by simp [hnumber]
  rw [hdrop] at h
  rw [htake]
  refine ⟨?_, fun i hi => ?_, fun i hi => ?_⟩
  · rw [hbytes]
    simp only [List.length_append, List.length_replicate, h.length, hpayload]
  · rcases (located_bin_iff hbinary).mp hi with ⟨j, hj, rfl⟩ | ⟨j, hj, rfl⟩
    · rw [List.append_assoc, List.getElem?_append_right (by omega), hfront, Nat.add_sub_cancel_left,
        List.getElem?_append_left (by simpa using hj)]
      simp [hj]
    · rw [hdrop] at hj
      have hlength : (utf8 "bin(" ++ declared ++ List.replicate n mask).length = 4 + (used + 1 + n) := by
        rw [List.length_append, hfront, List.length_replicate]
        omega
      rw [List.getElem?_append_right (by omega), hlength, Nat.add_sub_cancel_left]
      exact h.masked j hj
  · have hlength : ∀ middle : List UInt8, middle.length = n →
        (utf8 "bin(" ++ declared ++ middle).length = 4 + (used + 1 + n) := by
      intro middle hmiddle
      rw [List.length_append, hfront, hmiddle]
      omega
    rw [hbytes]
    rcases Nat.lt_or_ge i (4 + (used + 1)) with hlt | hge
    · have hleft : ∀ tail : List UInt8, (utf8 "bin(" ++ declared ++ tail)[i]? =
          (utf8 "bin(" ++ declared)[i]? := fun tail =>
        List.getElem?_append_left (by omega)
      rw [List.append_assoc (utf8 "bin(" ++ declared),
        List.append_assoc (utf8 "bin(" ++ declared), hleft, hleft]
    obtain ⟨j, rfl⟩ := Nat.exists_eq_add_of_le hge
    rcases Nat.lt_or_ge j n with hj | hj
    · exact absurd (.here hbinary hj) hi
    obtain ⟨k, rfl⟩ := Nat.exists_eq_add_of_le hj
    have hi : ¬ Located rest k := by
      intro hk
      refine hi ?_
      have hlater : Located (utf8 "bin(" ++ number) (4 + (used + 1 + n) + k) :=
        .later hbinary (by rwa [hdrop])
      rwa [show 4 + (used + 1) + (n + k) = 4 + (used + 1 + n) + k by omega]
    have hindex : 4 + (used + 1) + (n + k) = 4 + (used + 1 + n) + k := by omega
    rw [hindex, List.getElem?_append_right (by rw [hlength _ (by simp)]; omega),
      List.getElem?_append_right (by rw [hlength _ hpayload]; omega), hlength _ (by simp),
      hlength _ hpayload, Nat.add_sub_cancel_left]
    exact h.kept k hi

/-! ### The run -/

theorem normalize_nul (rest : List UInt8) : ddcciNormalizeCaps (0 :: rest) = some (0 :: rest) := by
  rw [ddcciNormalizeCaps, List.length_cons, normalizeLoop, if_pos rfl]

/-- The loop ends, stays in the buffer, masks the payloads of what it has not read, and finds what
`ddcciNormalizeCaps` finds there. By induction on the fuel, with what has been read before `front.length`. -/
theorem normalizeFrom_runs {fuel : ℕ} (front : List UInt8) {rest : List UInt8}
    (h : rest.length < fuel) :
    ∃ after result, normalizeFrom (front ++ rest).length fuel front.length (capsBuffer (front ++ rest)) =
        some (capsBuffer (front ++ after), result) ∧ PayloadsMasked rest after ∧
      (result = 0 ∧ ddcciNormalizeCaps rest = some after ∨ result = -1 ∧ ddcciNormalizeCaps rest = none) := by
  induction fuel generalizing front rest with
  | zero => exact absurd h (Nat.not_lt_zero _)
  | succ fuel ih =>
    cases rest with
    | nil =>
      rw [List.append_nil]
      exact ⟨[], 0, by rw [List.append_nil]; exact normalizeFrom_nil front,
        .of_not_located not_located_nil, .inl ⟨rfl, rfl⟩⟩
    | cons byte rest =>
      by_cases hzero : byte = 0
      · subst hzero
        exact ⟨_, 0, normalizeFrom_nul front, .of_not_located (not_located_nul rest),
          .inl ⟨rfl, normalize_nul rest⟩⟩
      cases hbin : (utf8 "bin(").isPrefixOf (byte :: rest) with
      | false =>
        obtain ⟨after, result, hrun, hmasked, hresult⟩ :=
          ih (front ++ [byte]) (Nat.lt_of_succ_lt_succ h)
        simp only [List.append_assoc, List.singleton_append] at hrun
        rw [show (front ++ [byte]).length = front.length + 1 from List.length_append] at hrun
        refine ⟨byte :: after, result, by rw [normalizeFrom_skip front hzero hbin]; exact hrun,
          hmasked.skip hzero hbin, ?_⟩
        rw [(normalize_cons hzero hbin).1]
        rcases hresult with ⟨rfl, hafter⟩ | ⟨rfl, hafter⟩ <;> simp [hafter]
      | true =>
        obtain ⟨number, hnumber⟩ := List.isPrefixOf_iff_prefix.mp hbin
        rw [← hnumber] at h ⊢
        rw [normalizeFrom_bin, normalize_bin.1]
        cases hbinary : binaryLength number with
        | none => exact ⟨_, -1, rfl, .of_not_located (not_located_refused hbinary), .inr ⟨rfl, rfl⟩⟩
        | some r =>
          obtain ⟨n, used⟩ := r
          obtain ⟨declared, payload, tail, hsplit, hdeclared, hpayload, htake, hdrop⟩ :=
            binaryLength_split hbinary
          have hless : tail.length < fuel := by
            rw [hsplit] at h
            simp only [List.length_append, bin_length] at h
            omega
          obtain ⟨after, result, hrun, hmasked, hresult⟩ :=
            ih (front ++ (utf8 "bin(" ++ declared ++ List.replicate n mask)) hless
          have hlength : (front ++ (utf8 "bin(" ++ number)).length =
              (front ++ (utf8 "bin(" ++ declared ++ List.replicate n mask) ++ tail).length := by
            rw [hsplit]
            simp [hpayload]
          have hpos : (front ++ (utf8 "bin(" ++ declared ++ List.replicate n mask)).length =
              front.length + 4 + used + 1 + n := by
            simp only [List.length_append, hdeclared, bin_length, List.length_replicate]
            omega
          rw [← hlength, hpos] at hrun
          refine ⟨utf8 "bin(" ++ number.take (used + 1) ++ List.replicate n mask ++ after, result,
            ?_, .bin hbinary (hdrop ▸ hmasked), ?_⟩
          · simp only [htake, hdrop]
            simpa only [List.append_assoc] using hrun
          · simp only [Option.bind_eq_bind, Option.bind_some, hdrop]
            rcases hresult with ⟨rfl, hafter⟩ | ⟨rfl, hafter⟩ <;> simp [hafter]

/-- `ddcci_normalize_caps` on a whole buffer. -/
theorem ddcciNormalizeBuffer_runs (bytes : List UInt8) :
    ∃ after result, ddcciNormalizeBuffer (capsBuffer bytes) bytes.length = some (capsBuffer after, result) ∧
      PayloadsMasked bytes after ∧
      (result = 0 ∧ ddcciNormalizeCaps bytes = some after ∨ result = -1 ∧ ddcciNormalizeCaps bytes = none) :=
  normalizeFrom_runs [] (Nat.lt_succ_self _)

/-- The library's reading of the buffer is its reading of the bytes. -/
theorem ddcciBufferCaps_eq (bytes : List UInt8) (caps : Caps) :
    ddcciBufferCaps (capsBuffer bytes) bytes.length caps =
      some (ddcciNormalizeCaps bytes >>= fun text => ddcciParseCaps (cString text) caps) := by
  obtain ⟨after, result, hrun, -, hresult⟩ := ddcciNormalizeBuffer_runs bytes
  rw [ddcciBufferCaps, hrun]
  rcases hresult with ⟨rfl, hafter⟩ | ⟨rfl, hafter⟩
  · have hstr : (capsBuffer after).upTo (· = 0) 0 = some (cString after) := upTo_capsBuffer []
    simp only [Option.bind_eq_bind, Option.bind_some, hafter, Int.lt_irrefl, if_false, hstr]
    rfl
  · simp [hafter]

/-! ### Two runs -/

theorem SameOutside.tail {byte byte' : UInt8} {rest rest' : List UInt8} (hzero : byte ≠ 0)
    (hbin : (utf8 "bin(").isPrefixOf (byte :: rest) = false)
    (h : SameOutside (byte :: rest) (byte' :: rest')) :
    SameOutside rest rest' := by
  refine ⟨Nat.succ.inj h.length, fun i hi => h.same (i + 1) fun hlocated => hi ?_⟩
  obtain ⟨j, hij, hj⟩ := (located_skip_iff hzero hbin).mp hlocated
  exact Nat.succ.inj hij ▸ hj

/-- The bytes before the end of the first `bin(` are the same. -/
theorem SameOutside.take_four {bytes bytes' : List UInt8} (h : SameOutside bytes bytes') :
    bytes'.take 4 = bytes.take 4 := by
  refine List.ext_getElem? fun i => ?_
  by_cases hi : i < 4
  · rw [List.getElem?_take_of_lt hi, List.getElem?_take_of_lt hi]
    exact h.same i fun hlocated => absurd hlocated.four_lt (by omega)
  · rw [List.getElem?_eq_none (by simp; omega), List.getElem?_eq_none (by simp; omega)]

theorem SameOutside.eq_of_not_located {bytes bytes' : List UInt8} (h : SameOutside bytes bytes')
    (hnone : ∀ i, ¬ Located bytes i) : bytes' = bytes :=
  List.ext_getElem? fun i => h.same i (hnone i)

theorem SameOutside.bin {number bytes' : List UInt8} {n used : ℕ}
    (hbinary : binaryLength number = some (n, used))
    (h : SameOutside (utf8 "bin(" ++ number) bytes') :
    ∃ number', bytes' = utf8 "bin(" ++ number' ∧ number'.length = number.length ∧
      number'.take (used + 1) = number.take (used + 1) ∧
      SameOutside (number.drop (used + 1 + n)) (number'.drop (used + 1 + n)) := by
  have htake : bytes'.take 4 = utf8 "bin(" := by rw [h.take_four, ← bin_length, List.take_left]
  have hsplit : bytes' = utf8 "bin(" ++ bytes'.drop 4 := by
    conv_lhs => rw [← List.take_append_drop 4 bytes', htake]
  generalize bytes'.drop 4 = number' at hsplit
  subst hsplit
  have hlength : number'.length = number.length := by
    have hlength := h.length
    rw [List.length_append, List.length_append] at hlength
    exact Nat.add_left_cancel hlength
  have hget : ∀ i, ¬ Located (utf8 "bin(" ++ number) (4 + i) → number'[i]? = number[i]? := by
    intro i hi
    have hsame := h.same (4 + i) hi
    rw [← bin_length] at hsame
    rwa [List.getElem?_append_right (Nat.le_add_right _ _),
      List.getElem?_append_right (Nat.le_add_right _ _), Nat.add_sub_cancel_left] at hsame
  refine ⟨number', rfl, hlength, List.ext_getElem? fun i => ?_, ?_, fun i hi => ?_⟩
  · by_cases hi : i < used + 1
    · rw [List.getElem?_take_of_lt hi, List.getElem?_take_of_lt hi]
      refine hget i fun hlocated => ?_
      rcases (located_bin_iff hbinary).mp hlocated with ⟨j, -, hj⟩ | ⟨j, -, hj⟩ <;> omega
    · rw [List.getElem?_eq_none (by simp; omega), List.getElem?_eq_none (by simp; omega)]
  · rw [List.length_drop, List.length_drop, hlength]
  · rw [List.getElem?_drop, List.getElem?_drop]
    refine hget _ fun hlocated => ?_
    rcases (located_bin_iff hbinary).mp hlocated with ⟨j, hj, heq⟩ | ⟨j, hj, heq⟩
    · omega
    · obtain rfl : i = j := by omega
      exact hi hj

/-- **Payloads do not matter**: the two scans go together. By induction on the length, as a scan reads its text. -/
theorem SameOutside.normalize_eq {bytes bytes' : List UInt8} (h : SameOutside bytes bytes') :
    ddcciNormalizeCaps bytes' = ddcciNormalizeCaps bytes := by
  induction hn : bytes.length using Nat.strong_induction_on generalizing bytes bytes' with
  | _ n ih =>
    cases bytes with
    | nil => rw [h.eq_of_not_located not_located_nil]
    | cons byte rest =>
      by_cases hzero : byte = 0
      · subst hzero
        rw [h.eq_of_not_located (not_located_nul rest)]
      cases hbin : (utf8 "bin(").isPrefixOf (byte :: rest) with
      | false =>
        cases bytes' with
        | nil => exact nomatch h.length
        | cons byte' rest' =>
          obtain rfl : byte' = byte := by
            have hhead := h.same 0 fun hlocated => absurd hlocated.four_lt (by omega)
            simpa using hhead
          have hbin' : (utf8 "bin(").isPrefixOf (byte' :: rest') = false := by
            rw [Bool.eq_false_iff, ne_eq, List.isPrefixOf_iff_prefix, List.prefix_iff_eq_take,
              bin_length] at hbin ⊢
            rwa [h.take_four]
          rw [(normalize_cons hzero hbin).1, (normalize_cons hzero hbin').1,
            ih rest.length (by rw [← hn]; exact Nat.lt_succ_self _) (h.tail hzero hbin) rfl]
      | true =>
        obtain ⟨number, hnumber⟩ := List.isPrefixOf_iff_prefix.mp hbin
        rw [← hnumber] at h hn ⊢
        cases hbinary : binaryLength number with
        | none => rw [h.eq_of_not_located (not_located_refused hbinary)]
        | some r =>
          obtain ⟨m, used⟩ := r
          obtain ⟨number', rfl, hlength, htake, hrest⟩ := h.bin hbinary
          have hless : (number.drop (used + 1 + m)).length < n := by
            rw [← hn, List.length_append, bin_length, List.length_drop]
            omega
          rw [normalize_bin.1, normalize_bin.1, binaryLength_congr hbinary htake hlength, hbinary]
          simp only [Option.bind_eq_bind, Option.bind_some, ih _ hless hrest rfl, htake]

/-- **Binary payloads cannot influence the capabilities.** `ddcci_normalize_caps` ends, stays in the buffer
and writes `#` over the payloads and nothing else; of two buffers that differ only in payloads it refuses both,
or leaves both the same; and what the library reads in them is the same. -/
theorem ddcciNormalizeBuffer_payloads (bytes : List UInt8) :
    (∃ after result, ddcciNormalizeBuffer (capsBuffer bytes) bytes.length = some (capsBuffer after, result) ∧
      after.length = bytes.length ∧ (∀ i, Located bytes i → after[i]? = some mask) ∧
      ∀ i, ¬ Located bytes i → after[i]? = bytes[i]?) ∧
    ∀ bytes', SameOutside bytes bytes' →
      (∃ after after' result,
        ddcciNormalizeBuffer (capsBuffer bytes) bytes.length = some (capsBuffer after, result) ∧
        ddcciNormalizeBuffer (capsBuffer bytes') bytes'.length = some (capsBuffer after', result) ∧
        (result = 0 ∧ after = after' ∨ result = -1)) ∧
      ∀ caps, ddcciBufferCaps (capsBuffer bytes') bytes'.length caps = ddcciBufferCaps (capsBuffer bytes) bytes.length caps := by
  obtain ⟨after, result, hrun, hmasked, hresult⟩ := ddcciNormalizeBuffer_runs bytes
  refine ⟨⟨after, result, hrun, hmasked.length, hmasked.masked, hmasked.kept⟩,
    fun bytes' hsame => ⟨?_, fun caps => ?_⟩⟩
  · obtain ⟨after', result', hrun', -, hresult'⟩ := ddcciNormalizeBuffer_runs bytes'
    rw [hsame.normalize_eq] at hresult'
    rcases hresult with ⟨rfl, hafter⟩ | ⟨rfl, hafter⟩
    · rcases hresult' with ⟨rfl, hafter'⟩ | ⟨-, hafter'⟩
      · rw [hafter, Option.some_inj] at hafter'
        exact ⟨after, after', 0, hrun, hrun', .inl ⟨rfl, hafter'⟩⟩
      · exact absurd (hafter.symm.trans hafter') (Option.some_ne_none _)
    · rcases hresult' with ⟨-, hafter'⟩ | ⟨rfl, -⟩
      · exact absurd (hafter'.symm.trans hafter) (Option.some_ne_none _)
      · exact ⟨after, after', -1, hrun, hrun', .inr rfl⟩
  · rw [ddcciBufferCaps_eq, ddcciBufferCaps_eq, hsame.normalize_eq]

/-- A reply with a binary section of four bytes. -/
def fourByteReply (payload : List UInt8) : List UInt8 := openParen :: (utf8 "bin(" ++ (utf8 "4(" ++ payload ++ utf8 ")vcp(10))"))

/-- A payload that looks like a section, and one of parentheses and NULs. -/
theorem ddcciNormalizeBuffer_payloads_four :
    ∀ caps, ddcciBufferCaps (capsBuffer (fourByteReply [0, 40, 0, 41])) 20 caps =
      ddcciBufferCaps (capsBuffer (fourByteReply (utf8 "vcp("))) 20 caps := by
  have hlocated : ∀ j < 4, Located (fourByteReply (utf8 "vcp(")) (4 + (1 + 1) + j + 1) :=
    fun j hj =>
    .skip (by decide) (by decide) (.here (by decide +kernel) hj)
  refine ((ddcciNormalizeBuffer_payloads (fourByteReply (utf8 "vcp("))).2 (fourByteReply [0, 40, 0,
    41]) ⟨by decide, fun i hi => ?_⟩).2
  by_cases hfront : i < 7
  · have hall : ∀ i < 7, (fourByteReply [0, 40, 0, 41])[i]? = (fourByteReply (utf8 "vcp("))[i]? := by decide
    exact hall i hfront
  obtain ⟨j, rfl⟩ := Nat.exists_eq_add_of_le (Nat.le_of_not_lt hfront)
  by_cases hpayload : j < 4
  · exact absurd (by simpa only [show 7 + j = 4 + (1 + 1) + j + 1 by omega] using hlocated j hpayload) hi
  · obtain ⟨k, rfl⟩ := Nat.exists_eq_add_of_le (Nat.le_of_not_lt hpayload)
    have hdrop : (fourByteReply [0, 40, 0, 41]).drop 11 = (fourByteReply (utf8 "vcp(")).drop 11 := by decide
    have hget := congrArg (·[k]?) hdrop
    rw [show 7 + (4 + k) = 11 + k by omega]
    simpa only [List.getElem?_drop] using hget


end DdcControl.Capabilities
