import DdcControl.Capabilities.Balance
import DdcControl.Scanner.Generate
import Mathlib.Data.List.DropRight

/-!
# The capabilities string of a scan

`normalized_caps` writes the codes of a scan in the notation of a capabilities string, in
two hexadecimal digits, and the values of a code in two to four.

Proved here: the parser reads the string back, so the profile adds the capabilities that
the monitor advertised and the codes that it answered, all values of the latter.
-/

namespace DdcControl.Scanner

open Capabilities

/-! ### Numbers -/

/-- The byte of a hexadecimal digit. -/
def hexByte (d : ℕ) : UInt8 := d.digitChar.toUpper.toUInt8

/-- Hexadecimal digits written and read. -/
theorem hexByte_spec {d : ℕ} (h : d < 16) :
    String.utf8EncodeChar d.digitChar.toUpper = [hexByte d] ∧ isHexdigit (hexByte d) = true ∧
      hexNibble (hexByte d) = .ofNat d ∧ inToken (hexByte d) = true := by
  have hall : ∀ d < 16, String.utf8EncodeChar d.digitChar.toUpper = [hexByte d] ∧ isHexdigit (hexByte d) = true ∧
      hexNibble (hexByte d) = .ofNat d ∧ inToken (hexByte d) = true := by decide
  exact hall d h

/-- The digits of a number. -/
theorem exists_hexDigits (n : ℕ) :
    ∃ digits : List ℕ, (∀ d ∈ digits, d < 16) ∧ hexDigits n = digits.map (fun d => d.digitChar.toUpper) ∧
      digits.foldl (fun value d => 16 * value + d) 0 = n ∧
      ∀ k, n < 16 ^ (k + 1) → digits.length ≤ k + 1 := by
  induction n using Nat.strong_induction_on with
  | _ n ih =>
    by_cases hn : n < 16
    · exact ⟨[n], by simpa using hn, by rw [hexDigits_of_lt hn]; rfl, by simp, fun k _ => by simp⟩
    · obtain ⟨digits, hdigits, htext, hvalue, hlength⟩ := ih (n / 16) (by omega)
      refine ⟨digits ++ [n % 16], ?_, ?_, ?_, ?_⟩
      · exact List.forall_mem_append.mpr ⟨hdigits,
          List.forall_mem_singleton.mpr (Nat.mod_lt _ (by decide))⟩
      · rw [hexDigits_of_le (Nat.not_lt.mp hn), htext, List.map_append]
        rfl
      · rw [List.foldl_append, hvalue]
        exact Nat.div_add_mod n 16
      · rintro (_ | k) hk
        · omega
        · have := hlength k (by rw [Nat.pow_succ] at hk; omega)
          rw [List.length_append, List.length_singleton]
          omega

/-- The bytes of a number: at least two digits. -/
theorem exists_utf8_hexText (n : ℕ) :
    ∃ digits : List ℕ, (∀ d ∈ digits, d < 16) ∧ utf8 (hexText n) = digits.map hexByte ∧
      digits.foldl (fun value d => 16 * value + d) 0 = n ∧ 2 ≤ digits.length ∧
      ∀ k, n < 16 ^ (k + 2) → digits.length ≤ k + 2 := by
  obtain ⟨digits, hdigits, htext, hvalue, hlength⟩ := exists_hexDigits n
  have hzeros : ∀ zeros, (List.replicate zeros 0).foldl (fun value d => 16 * value + d) 0 = 0 := by
    intro zeros
    induction zeros with
    | zero => rfl
    | succ zeros ih => exact ih
  have hall : ∀ d ∈ List.replicate (2 - digits.length) 0 ++ digits, d < 16 := by
    refine List.forall_mem_append.mpr ⟨fun d hd => ?_, hdigits⟩
    rw [List.eq_of_mem_replicate hd]
    decide
  refine ⟨List.replicate (2 - digits.length) 0 ++ digits, hall, ?_, ?_, ?_, fun k hk => ?_⟩
  · have hchars : (hexText n).toList = (List.replicate (2 - digits.length) 0 ++
        digits).map fun d : ℕ => d.digitChar.toUpper := by
      rw [hexText, String.toList_ofList, List.leftpad, htext, List.map_append, List.map_replicate,
        List.length_map]
      rfl
    rw [utf8_eq, hchars, List.flatMap_map, List.map_eq_flatMap]
    exact List.flatMap_congr fun d hd => (hexByte_spec (hall d hd)).1
  · rw [List.foldl_append, hzeros, hvalue]
  · rw [List.length_append, List.length_replicate]
    omega
  · have := hlength (k + 1) hk
    rw [List.length_append, List.length_replicate]
    omega

/-- A value is read back. -/
theorem parseHexU16_hexText (value : UInt16) :
    parseHexU16 (utf8 (hexText value.toNat)) = some value := by
  obtain ⟨digits, hdigits, hbytes, hvalue, hmin, hmax⟩ := exists_utf8_hexText value.toNat
  have hlength := hmax 2 value.toNat_lt
  have hhex : (digits.map hexByte).all isHexdigit = true := by
    rw [List.all_map, List.all_eq_true]
    exact fun d hd => (hexByte_spec (hdigits d hd)).2.1
  have hnibble : ∀ d < 16, (hexNibble (hexByte d)).toUInt16 = .ofNat d := by decide
  have hfold : ∀ n, (digits.map hexByte).foldl (fun value byte => 16 * value +
      (hexNibble byte).toUInt16) (.ofNat n) =
      UInt16.ofNat (digits.foldl (fun value d => 16 * value + d) n) := by
    clear hbytes hvalue hmin hmax hlength hhex
    induction digits with
    | nil => exact fun _ => rfl
    | cons d digits ih =>
      intro n
      rw [List.map_cons, List.foldl_cons, List.foldl_cons, hnibble d (hdigits d List.mem_cons_self),
        ← ih (fun d hd => hdigits d (List.mem_cons_of_mem _ hd)), UInt16.ofNat_add, UInt16.ofNat_mul]
      rfl
  have hread := hfold 0
  rw [hvalue, UInt16.ofNat_toNat] at hread
  have hne : (digits.map hexByte).isEmpty = false := by
    cases digits with
    | nil => simp at hmin
    | cons d digits => rfl
  have hshort : decide ((digits.map hexByte).length > 4) = false := by
    rw [List.length_map, decide_eq_false_iff_not]
    omega
  rw [hbytes, parseHexU16, hne, hshort, hhex, if_neg (by decide)]
  exact congrArg some hread

/-- A code is two digits. -/
theorem utf8_hexText_code (code : UInt8) :
    ∃ high low, utf8 (hexText code.toNat) = [high, low] ∧ (isHexdigit high = true ∧ isHexdigit low = true) ∧
      hexNibble high * 16 + hexNibble low = code := by
  obtain ⟨digits, hdigits, hbytes, hvalue, hmin, hmax⟩ := exists_utf8_hexText code.toNat
  have hlength := hmax 0 code.toNat_lt
  obtain ⟨a, b, rfl⟩ := List.length_eq_two.mp (Nat.le_antisymm hlength hmin)
  simp only [List.mem_cons, List.not_mem_nil, or_false, forall_eq_or_imp, forall_eq] at hdigits
  obtain ⟨-, ha, ha', -⟩ := hexByte_spec hdigits.1
  obtain ⟨-, hb, hb', -⟩ := hexByte_spec hdigits.2
  refine ⟨hexByte a, hexByte b, hbytes, ⟨ha, hb⟩, ?_⟩
  simp only [List.foldl_cons, List.foldl_nil] at hvalue
  rw [ha', hb', ← UInt8.toNat_inj, ← hvalue]
  simp
  omega

theorem utf8_space : utf8 " " = [32] := by decide

theorem utf8_open : utf8 "(" = [openParen] := by decide

theorem utf8_close : utf8 ")" = [closeParen] := by decide

/-! ### Values -/

/-- A token of digits, and what comes after it. -/
theorem token_hexText (value : UInt16) {b : UInt8} (hb : inToken b = false) (r : List UInt8) :
    trim (utf8 (hexText value.toNat) ++ b :: r) = utf8 (hexText value.toNat) ++ b :: r ∧
      (utf8 (hexText value.toNat) ++ b :: r).takeWhile inToken = utf8 (hexText value.toNat) ∧
      (utf8 (hexText value.toNat) ++ b :: r).dropWhile inToken = b :: r := by
  obtain ⟨digits, hdigits, hbytes, -, hmin, -⟩ := exists_utf8_hexText value.toNat
  have hall : ∀ byte ∈ utf8 (hexText value.toNat), inToken byte = true := by
    rw [hbytes]
    exact List.forall_mem_map.mpr fun d hd => (hexByte_spec (hdigits d hd)).2.2.2
  refine ⟨?_, ?_, ?_⟩
  · obtain ⟨byte, bytes, hcons⟩ := List.exists_cons_of_ne_nil (l := utf8 (hexText value.toNat)) fun hnil => by
      rw [hnil] at hbytes
      cases digits
      · simp at hmin
      · cases hbytes
    rw [hcons]
    have hbyte := hall byte (hcons ▸ List.mem_cons_self)
    refine List.dropWhile_cons_of_neg fun hspace => ?_
    simp [inToken, hspace] at hbyte
  · rw [List.takeWhile_append_of_pos hall, List.takeWhile_cons_of_neg (by simp [hb]),
      List.append_nil]
  · rw [List.dropWhile_append_of_pos hall, List.dropWhile_cons_of_neg (by simp [hb])]

/-- One printed value. -/
theorem readsValues_cons (value : UInt16) {values : List UInt16} {b : UInt8} {r r' : List UInt8}
    (hb : inToken b = false) (h : ReadsValues (b :: r) values r') :
    ReadsValues (utf8 (hexText value.toNat) ++ b :: r) (value :: values) r' := by
  obtain ⟨htrim, htake, hdrop⟩ := token_hexText value hb r
  exact .value (by rw [htrim, htake]; exact parseHexU16_hexText value) (by rw [htrim, hdrop]; exact h)

/-- What is read does not depend on the white space before it. -/
theorem readsValues_of_trim {r s r' : List UInt8} {values : List UInt16} (hrs : trim s = trim r)
    (h : ReadsValues r values r') :
    ReadsValues s values r' := by
  cases h with
  | close h => exact .close (hrs.trans h)
  | group h hskip hrest => exact .group (hrs.trans h) hskip hrest
  | value h hrest => exact .value (by rw [hrs]; exact h) (by rw [hrs]; exact hrest)

/-- **Printed values are read back.** -/
theorem readsValues_printed (values : List UInt16) (r : List UInt8) :
    ReadsValues (utf8 (" ".intercalate (values.map fun value => hexText value.toNat)) ++
      closeParen :: r) values r := by
  induction values with
  | nil => exact .close rfl
  | cons value values ih =>
    cases values with
    | nil =>
      rw [List.map_singleton, String.intercalate_singleton]
      exact readsValues_cons value (by decide) (.close rfl)
    | cons value' values =>
      rw [List.map_cons, List.map_cons, String.intercalate_cons_cons, utf8_append, utf8_append,
        List.append_assoc, List.append_assoc, utf8_space, List.singleton_append]
      exact readsValues_cons value (by decide) (readsValues_of_trim (List.dropWhile_cons_of_pos (by decide)) ih)

/-! ### Codes -/

theorem readsVcp_of_trim {r s r' : List UInt8} {items : List ParsedVcp} (hrs : trim s = trim r)
    (h : ReadsVcp r items r') :
    ReadsVcp s items r' := by
  cases h with
  | close h => exact .close (hrs.trans h)
  | nested hname hb h hvcp hitems hrest =>
    exact .nested (by rw [hrs]; exact hname) hb (by rw [afterName, hrs]; exact h)
      (by rw [nameOf, hrs]; exact hvcp) hitems hrest
  | skipped hname hb h hvcp hskip hrest =>
    exact .skipped (by rw [hrs]; exact hname) hb (by rw [afterName, hrs]; exact h)
      (by rw [nameOf, hrs]; exact hvcp) hskip hrest
  | code h hhex hentry hrest => exact .code (hrs.trans h) hhex hentry hrest

/-- A `vcp` section does not go on with a parenthesis. -/
theorem head_of_readsVcp {r r' : List UInt8} {items : List ParsedVcp} (h : ReadsVcp r items r') :
    (trim r).head? ≠ some openParen := by
  have hname : ∀ {b : UInt8}, (isNameByte b && !isHexdigit b) = true → some b ≠ some openParen :=
    fun hb heq => by
    cases heq
    exact absurd hb (by decide)
  cases h with
  | close h =>
    rw [h, List.head?_cons]
    exact fun heq => absurd (Option.some.inj heq) (by decide)
  | nested hhead hb => exact hhead ▸ hname hb
  | skipped hhead hb => exact hhead ▸ hname hb
  | code h hhex =>
    rw [h, List.head?_cons]
    exact fun heq => (isHexdigit_ne hhex.1).1 (Option.some.inj heq)

/-- The item of a code. -/
def Scan.item (scan : Scan) (code : UInt8) : ParsedVcp := ⟨code, scan.advertised code⟩

/-- One printed code. -/
theorem readsVcp_cons {scan : Scan} {code : UInt8} (hvalues : scan.advertised code ≠ some [])
    {items : List ParsedVcp} {r r' : List UInt8} (h : ReadsVcp r items r') :
    ReadsVcp (utf8 (capsEntry scan code) ++ r) (scan.item code :: items) r' := by
  obtain ⟨high, low, hbytes, hhex, hcode⟩ := utf8_hexText_code code
  have htrim : ∀ bytes, trim (high :: low :: bytes) = high :: low :: bytes := fun bytes =>
    List.dropWhile_cons_of_neg fun hspace => by
      have hhigh := hhex.1
      simp only [isSpace, Bool.or_eq_true, decide_eq_true_eq] at hspace
      rcases hspace with (((rfl | rfl) | rfl) | rfl) | rfl <;> exact absurd hhigh (by decide)
  unfold capsEntry Scan.item
  rw [utf8_append, hbytes, List.append_assoc]
  cases hadvertised : scan.advertised code with
  | none =>
    have hread := ReadsVcp.code (htrim r) hhex (.bare (head_of_readsVcp h))
      (readsVcp_of_trim (List.dropWhile_idempotent _ _) h)
    rwa [hcode] at hread
  | some values =>
    have hne : values ≠ [] := fun hnil => hvalues (by rw [hadvertised, hnil])
    have hentry :=
      ReadsEntry.listed (r := openParen :: (utf8 (" ".intercalate (values.map fun value => hexText value.toNat)) ++
      closeParen :: r)) rfl (readsValues_printed values r)
    rw [if_neg (by rwa [List.isEmpty_iff])] at hentry
    have hread := ReadsVcp.code (htrim _) hhex hentry h
    rw [hcode] at hread
    rw [utf8_append, utf8_append, utf8_open, utf8_close, List.append_assoc, List.append_assoc]
    exact hread

/-- **Printed codes are read back.** -/
theorem readsVcp_printed {scan : Scan} (hvalues : ∀ code, scan.advertised code ≠ some [])
    (codes r : List UInt8) :
    ReadsVcp (utf8 (" ".intercalate (codes.map (capsEntry scan))) ++ closeParen :: r)
      (codes.map scan.item) r := by
  induction codes with
  | nil => exact .close rfl
  | cons code codes ih =>
    cases codes with
    | nil =>
      rw [List.map_singleton, String.intercalate_singleton]
      exact readsVcp_cons (hvalues code) (.close rfl)
    | cons code' codes =>
      rw [List.map_cons, List.map_cons, String.intercalate_cons_cons, utf8_append, utf8_append,
        List.append_assoc, List.append_assoc, utf8_space, List.singleton_append]
      exact readsVcp_cons (hvalues code) (readsVcp_of_trim (List.dropWhile_cons_of_pos (by decide)) ih)

/-! ### The string -/

/-- The sections of the string, after its first parenthesis. -/
theorem readsSections_vcp {scan : Scan} (hvalues : ∀ code, scan.advertised code ≠ some [])
    (codes : List UInt8) :
    ReadsSections true
      (utf8 "vcp" ++ openParen :: (utf8 (" ".intercalate (codes.map (capsEntry scan))) ++
      closeParen :: [closeParen]))
      ⟨[], codes.map scan.item⟩ [] := by
  obtain ⟨hname, hafter⟩ := @nameOf_section (utf8 "vcp")
    (utf8 (" ".intercalate (codes.map (capsEntry scan))) ++ closeParen :: [closeParen]) (by decide)
      (List.all_eq_true.mp (by decide))
  have hread := @ReadsSections.named true _ _ _ _ _ _ (by rw [hname]; decide) hafter
    (.vcp hname (readsVcp_printed hvalues codes [closeParen])) (.close rfl)
  rwa [Listing.append_empty] at hread

/-- A printed type is read back. -/
theorem readsSections_type {value : List UInt8} (hvalue : ∀ b ∈ value, inValue b = true)
    {r r' : List UInt8} {p : Listing} (h : ReadsSections true r p r') :
    ReadsSections true (utf8 "type" ++ openParen :: (value ++ closeParen :: r))
      (Listing.append ⟨[value], []⟩ p) r' := by
  obtain ⟨hname, hafter⟩ := @nameOf_section (utf8 "type") (value ++ closeParen :: r) (by decide)
    (List.all_eq_true.mp (by decide))
  have htrim : trim (value ++ closeParen :: r) = value ++ closeParen :: r := by
    cases value with
    | nil => rfl
    | cons b value =>
      have hb := hvalue b List.mem_cons_self
      exact List.dropWhile_cons_of_neg fun hspace => by simp [inValue, hspace] at hb
  have hstop : ¬inValue closeParen = true := by decide
  have htake : (trim (value ++ closeParen :: r)).takeWhile inValue = value := by
    rw [htrim, List.takeWhile_append_of_pos hvalue, List.takeWhile_cons_of_neg hstop,
      List.append_nil]
  have hdrop : (trim (value ++ closeParen :: r)).dropWhile inValue = closeParen :: r := by
    rw [htrim, List.dropWhile_append_of_pos hvalue, List.dropWhile_cons_of_neg hstop]
  have hsection := ReadsSection.type hname (hdrop ▸ Skips.last)
  rw [htake] at hsection
  exact .named (by rw [hname]; decide) hafter hsection h

/-- The type that is printed, if one is. -/
def printedType : MonitorType → Option MonitorType
  | .lcd => some .lcd
  | .crt => some .crt
  | .unknown => none

/-- **The string is read back**, with its codes in order. -/
theorem parse_normalizedCaps {scan : Scan} (hvalues : ∀ code, scan.advertised code ≠ some [])
    (codes : List UInt8) :
    Capabilities.parse (utf8 (normalizedCaps scan codes)) = .ok ⟨printedType scan.caps.monitorType,
      codes.map scan.item⟩ := by
  have hvcp := readsSections_vcp hvalues codes
  have hall : ∀ {r : List UInt8} {p : Listing}, ReadsSections true r p [] →
      Capabilities.parse (openParen :: r) = .ok (p.record ⟨none, []⟩) := fun h =>
    parse_iff.mpr ⟨_, ReadsSections.group rfl h (.done rfl), by rw [Listing.append_empty]⟩
  have hopen : utf8 "vcp(" = utf8 "vcp" ++ [openParen] := by decide
  have hclose : utf8 "))" = [closeParen, closeParen] := by decide
  have hlcd : utf8 "type(lcd)" = utf8 "type" ++ openParen :: (utf8 "lcd" ++ [closeParen]) := by decide
  have hcrt : utf8 "type(crt)" = utf8 "type" ++ openParen :: (utf8 "crt" ++ [closeParen]) := by decide
  have hlcd' := hall (readsSections_type (List.all_eq_true.mp (by decide : (utf8 "lcd").all inValue = true)) hvcp)
  have hcrt' := hall (readsSections_type (List.all_eq_true.mp (by decide : (utf8 "crt").all inValue = true)) hvcp)
  unfold normalizedCaps
  cases scan.caps.monitorType with
  | lcd =>
    simp only [utf8_append, utf8_open, hopen, hclose, hlcd, List.append_assoc, List.cons_append]
    exact hlcd'
  | crt =>
    simp only [utf8_append, utf8_open, hopen, hclose, hcrt, List.append_assoc, List.cons_append]
    exact hcrt'
  | unknown =>
    have hnone : utf8 "" = [] := by decide
    simp only [utf8_append, utf8_open, hopen, hclose, hnone, List.append_assoc, List.cons_append,
      List.nil_append]
    exact hall hvcp

/-! ### The capabilities -/

theorem mem_codes {scan : Scan} {code : UInt8} :
    code ∈ scan.codes ↔ scan.caps.isSupported code = true ∨ (scan.readings code).isSome = true := by
  simp [Scan.codes, mem_allCodes]

/-- What the parser reads of the string's codes. -/
theorem edits_items (vcp : UInt8 → Option VcpEntry) (scan : Scan) (codes : List UInt8)
    (code : UInt8) :
    Edits.edits ParsedVcp.code (ParsedVcp.editEntry .add) vcp (codes.map scan.item) code =
      if code ∈ codes then some ⟨scan.advertised code⟩ else vcp code := by
  have hfilter : (codes.map scan.item).filter (fun item => item.code = code) =
      (codes.filter fun code' => code' = code).map scan.item := by
    rw [List.filter_map]
    rfl
  rw [overwrites_add.edits_apply, hfilter]
  by_cases hmem : code ∈ codes
  · rw [if_pos hmem]
    have hne : codes.filter (fun code' => code' = code) ≠ [] :=
      List.ne_nil_of_mem (List.mem_filter.mpr ⟨hmem, decide_eq_true rfl⟩)
    have hlast : (codes.filter fun code' => code' = code).getLast hne = code :=
      of_decide_eq_true (List.mem_filter.mp (List.getLast_mem hne)).2
    rw [List.getLast?_map, List.getLast?_eq_some_getLast hne, hlast]
    rfl
  · have hnil : codes.filter (fun code' => code' = code) = [] :=
      List.filter_eq_nil_iff.mpr fun code' hcode' heq => hmem (of_decide_eq_true heq ▸ hcode')
    rw [if_neg hmem, hnil]
    rfl

/-- Parsed capabilities list no empty list of values. -/
theorem values_ne_nil {input : List UInt8} {caps : Caps} (h : Caps.parse input = .ok caps)
    (code : UInt8) :
    (caps.vcp code).bind VcpEntry.values ≠ some [] := by
  unfold Caps.parse at h
  cases hrun : Caps.default.apply input .add with
  | error e =>
    rw [hrun] at h
    cases h
  | ok result =>
    obtain ⟨p, hreads⟩ := Accepted.reads (.inr ⟨_, _, _, hrun⟩)
    rw [Caps.apply_eq_patched (parse_iff.mpr ⟨p, hreads, rfl⟩)] at h
    cases h
    show ((Edits.edits ParsedVcp.code (ParsedVcp.editEntry .add) Caps.default.vcp (p.record ⟨none,
      []⟩).vcp code).bind VcpEntry.values) ≠ _
    rw [overwrites_add.edits_apply]
    cases hlast : ((p.record ⟨none, []⟩).vcp.filter fun item => item.code = code).getLast? with
    | none => exact nofun
    | some item =>
      have hmem := (List.mem_filter.mp (List.mem_of_getLast? hlast)).1
      exact hreads.lists item (by simpa [Listing.record] using hmem)

/-- **The capabilities string of a scan denotes the scan.** For parsed capabilities and any
readings the string is accepted. Its type is the type of the capabilities, its codes those
that are advertised or were read; an advertised code has its own entry, the order and the
repetitions of its values included, and another all values. Adding the string to any
capabilities adds as many items as there are codes. -/
theorem normalizedCaps_denotes {input : List UInt8} {scan : Scan} (hcaps : Caps.parse input = .ok scan.caps) :
    ∃ caps, Caps.parse (utf8 (normalizedCaps scan scan.codes)) = .ok caps ∧ caps.monitorType = scan.caps.monitorType ∧
      (∀ code, caps.isSupported code = true ↔ code ∈ scan.codes) ∧
      (∀ code, code ∈ scan.codes ↔ scan.caps.isSupported code = true ∨ (scan.readings code).isSome = true) ∧
      (∀ code entry, scan.caps.vcp code = some entry → caps.vcp code = some entry) ∧
      (∀ code, code ∈ scan.codes → scan.caps.vcp code = none → caps.vcp code = some ⟨none⟩) ∧
      ∀ before, ∃ after, Caps.apply before (utf8 (normalizedCaps scan scan.codes)) .add = .ok (after, scan.codes.length) := by
  have hparse := parse_normalizedCaps (values_ne_nil hcaps) scan.codes
  let parsed : ParsedCaps := ⟨printedType scan.caps.monitorType, scan.codes.map scan.item⟩
  have hvcp : ∀ code, (Caps.default.patched parsed .add).vcp code = if code ∈
      scan.codes then some ⟨scan.advertised code⟩ else none :=
    edits_items Caps.default.vcp scan scan.codes
  refine ⟨Caps.default.patched parsed .add, ?_, ?_, fun code => ?_, fun code => mem_codes,
    fun code entry hentry => ?_,
    fun code hmem hnone => ?_, fun before => ⟨before.patched parsed .add, ?_⟩⟩
  · unfold Caps.parse
    rw [Caps.apply_eq_patched hparse]
    rfl
  · show (printedType scan.caps.monitorType).getD .unknown = _
    cases scan.caps.monitorType <;> rfl
  · rw [Caps.isSupported, hvcp]
    split <;> simp_all
  · have hmem : code ∈ scan.codes := mem_codes.mpr (.inl (by rw [Caps.isSupported, hentry]; rfl))
    rw [hvcp, if_pos hmem, Scan.advertised, hentry]
    rfl
  · rw [hvcp, if_pos hmem, Scan.advertised, hnone]
    rfl
  · rw [Caps.apply_eq_patched hparse, List.length_map]

/-- A monitor that advertises its inputs, and answers for its brightness. -/
def inputsScan : Scan where
  pnpId := "ABC1234"
  name := "Monitor"
  caps := Caps.default.patched ⟨some .lcd, [⟨0x60, some [0x11, 0x0f]⟩]⟩ .add
  readings code := if code = 0x10 then some ⟨50, 100⟩ else none

theorem normalizedCaps_denotes_inputs :
    ∃ caps, Caps.parse (utf8 (normalizedCaps inputsScan inputsScan.codes)) = .ok caps ∧ caps.monitorType = .lcd ∧
      caps.vcp 0x60 = some ⟨some [0x11, 0x0f]⟩ ∧ caps.vcp 0x10 = some ⟨none⟩ := by
  have hparse : Caps.parse (utf8 "type(lcd)vcp(60(11 0F))") = .ok inputsScan.caps := by
    unfold Caps.parse
    rw [Caps.apply_eq_patched
      (by decide : Capabilities.parse (utf8 "type(lcd)vcp(60(11 0F))") = .ok ⟨some .lcd, [⟨0x60, some [0x11, 0x0f]⟩]⟩)]
    rfl
  obtain ⟨caps, hcaps, htype, -, hcodes, hadvertised, hread, -⟩ := normalizedCaps_denotes hparse
  exact ⟨caps, hcaps, htype, hadvertised 0x60 _ rfl, hread 0x10 ((hcodes 0x10).mpr (.inr rfl)) rfl⟩

end DdcControl.Scanner
