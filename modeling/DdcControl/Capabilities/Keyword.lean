import DdcControl.Capabilities.Buffer

/-!
# The name of a binary section

The parser takes the longest name it can (`take_name`), so that `cabin(x)` is a section of
its own, which it skips. `ddcci_normalize_caps` compares four bytes wherever it stands and
takes the end of that name for the name `bin`. A text without a binary section is left
alone when what follows each such end declares a payload, and the payload consists of `#`
(`leftAlone_iff`); otherwise bytes of another section are overwritten, or the reply is
refused.
-/

namespace DdcControl.Capabilities

/-- A text with no NUL and no section named `bin`: each `bin(` is the end of a longer name. -/
structure NoBinSection (text : List UInt8) : Prop where
  nulFree : 0 ∉ text
  tails : ∀ front rest, text = front ++ utf8 "bin(" ++ rest → ∃ byte, front.getLast? = some byte ∧ isNameByte byte = true

/-- The library accepts the text, leaves it as it is, and reads in it what the parser reads. -/
structure LeftAlone (text : List UInt8) : Prop where
  normalized : ddcciNormalizeBuffer (capsBuffer text) text.length = some (capsBuffer text, 0)
  parsed : ∀ caps, ddcciBufferCaps (capsBuffer text) text.length caps = some (ddcciParseCaps text caps)

/-- After each `bin(` there is a number, in the range of `long` and not negative, then `(`, and then so many `#`. -/
def DeclaresMasked (text : List UInt8) : Prop :=
  ∀ front rest, text = front ++ utf8 "bin(" ++ rest →
    ∃ (number : List UInt8) (n : ℕ) (tail : List UInt8), rest = number ++ openParen :: (List.replicate n mask ++ tail) ∧
      strtol rest = some ((n : ℤ), number.length) ∧ n < 2 ^ 63

/-! ### A declaration -/

/-- A declaration that the code accepts, in terms of the text. -/
theorem binaryLength_iff {number : List UInt8} {n used : ℕ} :
    binaryLength number = some (n, used) ↔ strtol number = some ((n : ℤ), used) ∧ n < 2 ^ 63 ∧
    number[used]? = some openParen ∧
      n ≤ (number.drop (used + 1)).length := by
  constructor
  · intro h
    obtain ⟨⟨value, hvalue⟩, hopen, hroom⟩ := binaryLength_eq_some h
    simp only [binaryLength, hvalue] at h
    split_ifs at h with hrange hsign hlen
    obtain ⟨hn, -⟩ := Prod.mk.inj (Option.some.inj h)
    obtain ⟨-, hmax⟩ := not_or.mp hrange
    obtain ⟨hneg, -⟩ := not_or.mp hsign
    obtain rfl : value = n := by omega
    exact ⟨hvalue, by omega, hopen, hroom⟩
  · rintro ⟨hvalue, hmax, hopen, hroom⟩
    simp only [binaryLength, hvalue, List.head?_drop, hopen]
    rw [if_neg (by omega), if_neg (by simp), if_neg (by omega)]
    rfl

/-- What `DeclaresMasked` says of one place. -/
theorem declares_iff {rest : List UInt8} :
    (∃ (number : List UInt8) (n : ℕ) (tail : List UInt8), rest = number ++
      openParen :: (List.replicate n mask ++ tail) ∧
      strtol rest = some ((n : ℤ), number.length) ∧ n < 2 ^ 63) ↔
    ∃ n used, binaryLength rest = some (n, used) ∧ (rest.drop (used + 1)).take n = List.replicate n mask := by
  constructor
  · rintro ⟨number, n, tail, rfl, hvalue, hmax⟩
    have hdrop : (number ++ openParen :: (List.replicate n mask ++ tail)).drop (number.length + 1) =
        List.replicate n mask ++ tail := by
      rw [← List.drop_drop, List.drop_left]
      rfl
    refine ⟨n, number.length, binaryLength_iff.mpr ⟨hvalue, hmax, by simp, by rw [hdrop]; simp⟩, ?_⟩
    rw [hdrop]
    exact List.take_left' (List.length_replicate ..)
  · rintro ⟨n, used, hbinary, hmasked⟩
    obtain ⟨hvalue, hmax, hopen, -⟩ := binaryLength_iff.mp hbinary
    obtain ⟨hlt, hget⟩ := List.getElem?_eq_some_iff.mp hopen
    refine ⟨rest.take used, n, (rest.drop (used + 1)).drop n, ?_, ?_, hmax⟩
    · rw [← hmasked, List.take_append_drop, ← hget, ← List.drop_eq_getElem_cons hlt,
        List.take_append_drop]
    · rw [List.length_take_of_le (Nat.le_of_lt hlt)]
      exact hvalue

/-! ### Where `bin(` can stand -/

theorem DeclaresMasked.suffix {front text : List UInt8} (h : DeclaresMasked (front ++ text)) :
    DeclaresMasked text :=
  fun front' rest heq => h (front ++ front') rest (by simp [heq])

/-- No `bin(` begins inside a declaration or in its payload: `i` is in neither, and neither ends in `b`. -/
theorem bin_occurrence {digits tail front rest : List UInt8} {n : ℕ}
    (hdigits : ∀ b ∈ digits, isNumberByte b = true)
    (h : utf8 "bin(" ++ (digits ++ openParen :: List.replicate n mask ++ tail) = front ++ utf8 "bin(" ++ rest) :
    front = [] ∨ ∃ front', tail = front' ++ utf8 "bin(" ++ rest := by
  have hbin : utf8 "bin(" = ['b'.toUInt8, 'i'.toUInt8, 'n'.toUInt8, openParen] := by decide
  cases front with
  | nil => exact .inl rfl
  | cons b front =>
    refine .inr ?_
    have hinside : 'i'.toUInt8 ∉ 'n'.toUInt8 :: openParen :: (digits ++ openParen :: List.replicate n mask) := by
      simp only [List.mem_cons, List.mem_append, List.mem_replicate, not_or, not_and]
      exact ⟨by decide, by decide, fun hi => absurd (hdigits _ hi) (by decide), by decide,
        fun _ => by decide⟩
    have hlast : ∀ b, ('i'.toUInt8 :: 'n'.toUInt8 :: openParen :: (digits ++
        openParen :: List.replicate n mask)).getLast? = some b →
        b ≠ 'b'.toUInt8 := by
      rintro b hb rfl
      rw [← List.cons_append, ← List.cons_append, ← List.cons_append,
        List.getLast?_append_cons] at hb
      rcases List.mem_cons.mp (List.mem_of_getLast? hb) with hb | hb
      · exact absurd hb (by decide)
      · exact absurd (List.eq_of_mem_replicate hb) (by decide)
    simp only [hbin, List.cons_append, List.nil_append, List.append_assoc] at h
    obtain ⟨-, h⟩ := List.cons.inj h
    have h : ('i'.toUInt8 :: 'n'.toUInt8 :: openParen :: (digits ++ openParen :: List.replicate n mask)) ++ tail =
        front ++ 'b'.toUInt8 :: 'i'.toUInt8 :: 'n'.toUInt8 :: openParen :: rest := by simpa using h
    rcases List.append_eq_append_iff.mp h with ⟨front', -, htail⟩ | ⟨shared, hfront, hshared⟩
    · exact ⟨front', by simpa [hbin] using htail⟩
    match shared with
    | [] => exact ⟨[], by simpa [hbin] using hshared.symm⟩
    | [c] =>
      obtain ⟨rfl, -⟩ := List.cons.inj hshared
      exact absurd rfl (hlast _ (by rw [hfront, List.getLast?_concat]))
    | c :: d :: shared =>
      obtain ⟨rfl, hmore⟩ := List.cons.inj hshared
      obtain ⟨rfl, -⟩ := List.cons.inj hmore
      cases front with
      | nil => exact absurd (List.cons.inj hfront).1 (by decide)
      | cons b front =>
        refine absurd ?_ hinside
        rw [(List.cons.inj hfront).2]
        simp

theorem declaresMasked_nil : DeclaresMasked [] := by
  intro front rest h
  have hlength := congrArg List.length h
  rw [List.length_append, List.length_append, bin_length, List.length_nil] at hlength
  omega

theorem declaresMasked_skip {byte : UInt8} {rest : List UInt8}
    (hbin : (utf8 "bin(").isPrefixOf (byte :: rest) = false) :
    DeclaresMasked (byte :: rest) ↔ DeclaresMasked rest := by
  refine ⟨fun h => @DeclaresMasked.suffix [byte] rest h, fun h front tail heq => ?_⟩
  cases front with
  | nil =>
    rw [heq, List.nil_append, isPrefixOf_bin] at hbin
    exact nomatch hbin
  | cons b front => exact h front tail (List.cons.inj heq).2

theorem declaresMasked_bin {number : List UInt8} :
    DeclaresMasked (utf8 "bin(" ++ number) ↔ ∃ n used, binaryLength number = some (n, used) ∧
      (number.drop (used + 1)).take n = List.replicate n mask ∧
      DeclaresMasked (number.drop (used + 1 + n)) := by
  constructor
  · intro h
    obtain ⟨n, used, hbinary, hmasked⟩ := declares_iff.mp (h [] number (by simp))
    refine ⟨n, used, hbinary, hmasked, ?_⟩
    rw [← List.take_append_drop (used + 1 + n) number, ← List.append_assoc] at h
    exact h.suffix
  · rintro ⟨n, used, hbinary, hmasked, hrest⟩ front rest heq
    obtain ⟨hvalue, -, hopen, -⟩ := binaryLength_iff.mp hbinary
    obtain ⟨hlt, hget⟩ := List.getElem?_eq_some_iff.mp hopen
    have hnumber : number = number.take used ++ openParen :: List.replicate n mask ++
        number.drop (used + 1 + n) := by
      rw [List.append_assoc, ← List.drop_drop, ← hmasked, List.cons_append,
        List.take_append_drop, ← hget, ← List.drop_eq_getElem_cons hlt, List.take_append_drop]
    have hcases := heq
    rw [hnumber] at hcases
    rcases bin_occurrence (strtol_text hvalue).2 hcases with rfl | ⟨front', htail⟩
    · rw [List.nil_append] at heq
      rw [← List.append_cancel_left heq]
      exact declares_iff.mpr ⟨n, used, hbinary, hmasked⟩
    · exact hrest front' rest htail

/-! ### What the loop leaves alone -/

/-- The scan leaves a text without a NUL alone exactly when what it takes for payloads is masked already. By
induction on the length, as the scan reads its text. -/
theorem normalize_eq_self_iff {text : List UInt8} (hnul : 0 ∉ text) :
    ddcciNormalizeCaps text = some text ↔ DeclaresMasked text := by
  induction hn : text.length using Nat.strong_induction_on generalizing text with
  | _ n ih =>
    cases text with
    | nil => exact iff_of_true rfl declaresMasked_nil
    | cons byte rest =>
      obtain ⟨hzero, hrest⟩ := not_or.mp (mt List.mem_cons.mpr hnul)
      cases hbin : (utf8 "bin(").isPrefixOf (byte :: rest) with
      | false =>
        rw [declaresMasked_skip hbin, (normalize_cons (Ne.symm hzero) hbin).1,
          ← ih rest.length (by rw [← hn]; exact Nat.lt_succ_self _) hrest rfl]
        simp
      | true =>
        obtain ⟨number, hnumber⟩ := List.isPrefixOf_iff_prefix.mp hbin
        rw [← hnumber] at hnul hn ⊢
        rw [declaresMasked_bin, normalize_bin.1]
        cases hbinary : binaryLength number with
        | none => simp
        | some r =>
          obtain ⟨m, used⟩ := r
          obtain ⟨declared, payload, tail, hsplit, hdeclared, hpayload, htake, hdrop⟩ :=
            binaryLength_split hbinary
          have hless : tail.length < n := by
            rw [← hn, hsplit]
            simp only [List.length_append, bin_length]
            omega
          have htail := ih _ hless (fun h0 => hnul (by simp [hsplit, h0])) rfl
          have hpay : (number.drop (used + 1)).take m = payload := by
            rw [hsplit, ← hdeclared, List.append_assoc, List.drop_left, ← hpayload, List.take_left]
          have hwhole : ∀ tail' : List UInt8, utf8 "bin(" ++ declared ++ List.replicate m mask ++
              tail' = utf8 "bin(" ++ number ↔
              payload = List.replicate m mask ∧ tail' = tail := by
            intro tail'
            rw [hsplit, List.append_assoc, List.append_assoc, List.append_assoc,
              List.append_cancel_left_eq, List.append_cancel_left_eq]
            refine ⟨fun heq => ?_, fun ⟨hmask, htail'⟩ => by rw [hmask, htail']⟩
            obtain ⟨hmask, htail'⟩ := List.append_inj heq (by rw [List.length_replicate, hpayload])
            exact ⟨hmask.symm, htail'⟩
          simp only [Option.bind_eq_bind, Option.bind_some, hdrop, htake]
          constructor
          · intro h
            obtain ⟨tail', htail', heq⟩ := Option.bind_eq_some_iff.mp h
            obtain ⟨hmask, rfl⟩ := (hwhole tail').mp (Option.some.inj heq)
            exact ⟨m, used, rfl, hpay.trans hmask, hdrop ▸ htail.mp htail'⟩
          · rintro ⟨_, _, heq, hmask, hrest⟩
            cases heq
            rw [hdrop] at hrest
            rw [htail.mpr hrest, Option.bind_some]
            exact congrArg some ((hwhole tail).mpr ⟨hpay.symm.trans hmask, rfl⟩)

/-- What the loop does with a buffer that it leaves alone. -/
theorem leftAlone_iff_normalize {text : List UInt8} (hnul : 0 ∉ text) :
    LeftAlone text ↔ ddcciNormalizeCaps text = some text := by
  obtain ⟨after, result, hrun, -, hresult⟩ := ddcciNormalizeBuffer_runs text
  constructor
  · intro h
    rw [h.normalized] at hrun
    obtain ⟨hbuffer, rfl⟩ := Prod.mk.inj (Option.some.inj hrun)
    have hafter : text = after := by
      have hbytes := List.map_injective_iff.mpr (Option.some_injective _) (Option.some.inj hbuffer)
      exact List.append_cancel_right hbytes
    rcases hresult with ⟨-, h⟩ | ⟨h, -⟩
    · rwa [← hafter] at h
    · exact absurd h (by decide)
  · intro h
    have hstr : cString text = text := List.takeWhile_eq_self_iff.mpr fun b hb => by
      simpa using fun hzero : b = 0 => hnul (hzero ▸ hb)
    refine ⟨?_, fun caps => by rw [ddcciBufferCaps_eq, h, Option.bind_eq_bind, Option.bind_some, hstr]⟩
    rcases hresult with ⟨rfl, hafter⟩ | ⟨-, hafter⟩
    · rw [hrun, Option.some.inj (h.symm.trans hafter)]
    · exact absurd (h.symm.trans hafter) (Option.some_ne_none _)

/-- **A text without a binary section is left alone** exactly when the end of each name in it that ends in `bin`
happens to declare a payload of `#`. -/
theorem noBinSection_leftAlone_iff {text : List UInt8} (h : NoBinSection text) : LeftAlone text ↔ DeclaresMasked text :=
  (leftAlone_iff_normalize h.nulFree).trans (normalize_eq_self_iff h.nulFree)

theorem noBinSection_iff {text : List UInt8} :
    NoBinSection text ↔ 0 ∉ text ∧ ∀ i < text.length, (utf8 "bin(").isPrefixOf (text.drop i) = true →
      (text.take i).getLast?.any isNameByte = true := by
  constructor
  · intro h
    refine ⟨h.nulFree, fun i hi hbin => ?_⟩
    obtain ⟨rest, hrest⟩ := List.isPrefixOf_iff_prefix.mp hbin
    obtain ⟨byte, hlast, hname⟩ :=
      h.tails (text.take i) rest (by rw [List.append_assoc, hrest, List.take_append_drop])
    rw [hlast]
    exact hname
  · rintro ⟨hnul, h⟩
    refine ⟨hnul, fun front rest heq => ?_⟩
    have hlast := h front.length (by rw [heq]; simp [bin_length])
      (by rw [heq, List.append_assoc, List.drop_left]; exact isPrefixOf_bin rest)
    rw [heq, List.append_assoc, List.take_left] at hlast
    exact (Option.any_eq_true _ _).mp hlast

instance (text : List UInt8) : Decidable (NoBinSection text) := decidable_of_iff _ noBinSection_iff.symm

/-- A name that ends in `bin`, with a body that is a declaration and its payload. -/
theorem noBinSection_leftAlone_iff_declared :
    LeftAlone (utf8 "(cabin(2(##))vcp(10))") ↔ DeclaresMasked (utf8 "(cabin(2(##))vcp(10))") :=
  noBinSection_leftAlone_iff (by decide +kernel)

/-- A section that the parser skips. -/
def cabinReply : List UInt8 := utf8 "(cabin(x)vcp(10))"

/-- The library refuses the reply, which the parser reads. -/
theorem cabinReply_refused :
    NoBinSection cabinReply ∧ ¬ LeftAlone cabinReply ∧
      ddcciBufferCaps (capsBuffer cabinReply) cabinReply.length .default = some none ∧
      (ddcciParseCaps cabinReply .default).isSome = true := by
  have hrefused : ddcciBufferCaps (capsBuffer cabinReply) cabinReply.length .default = some none := by
    have hnone : ddcciNormalizeCaps cabinReply = none := by decide +kernel
    rw [ddcciBufferCaps_eq, hnone]
    rfl
  have hparsed : (ddcciParseCaps cabinReply .default).isSome = true := by decide +kernel
  refine ⟨by decide +kernel, fun h => ?_, hrefused, hparsed⟩
  have hread := h.parsed .default
  rw [hrefused, Option.some_inj] at hread
  rw [← hread] at hparsed
  exact nomatch hparsed

end DdcControl.Capabilities
