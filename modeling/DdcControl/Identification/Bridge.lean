import DdcControl.Identification.Edid
import DdcControl.Capabilities.Readings

/-!
# Identification data in C

`ddccontrol_edid_parse` hands a block that was read to C in arrays of fixed sizes, and
`ddcci_parse_edid_buf` keeps them in a `struct monitor`; the texts are read up to a NUL.

## The model

An array is the list of its elements. The buffer is a `Block`, of which no more than the
bytes of a block may be read. What is printed is left out.

## What is proved

`ddcciParseEdidBuf_exact` — a monitor reads as the block says, or as if nothing were known.
-/

namespace DdcControl.Identification

open Capabilities Daemon Fallible

/-! ### The arrays -/

/-- `EDID_TEXT_LEN`. -/
def edidTextLen : ℕ := 14

/-- `CEdidInfo`. -/
structure CEdidInfo where
  serialNumber : UInt32
  manufactureWeek : ℤ
  manufactureYear : ℤ
  version : ℤ
  revision : ℤ
  maxWidthCm : ℤ
  maxHeightCm : ℤ
  monitorName : List UInt8
  serialAscii : List UInt8
  deriving DecidableEq, Repr

/-- `CEdidResult`. -/
structure CEdidResult where
  pnpid : List UInt8
  digital : UInt8
  edid : List UInt8
  edidLen : ℤ
  info : CEdidInfo
  deriving DecidableEq, Repr

/-- An array of zeros with these bytes at its beginning, as far as it goes. -/
def zeroPadded (n : ℕ) (bytes : List UInt8) : List UInt8 := bytes.take n ++ List.replicate (n - bytes.length) 0

/-- `text_to_c`. -/
def textToC (text : String) : List UInt8 := zeroPadded edidTextLen (utf8 text)

/-- `edid_to_c`. -/
def edidToC (parsed : EdidBlock) : CEdidResult where
  pnpid := zeroPadded 8 (utf8 parsed.pnpId)
  digital := if parsed.digitalInput then 0x80 else 0
  edid := zeroPadded edidBlockLen parsed.raw
  edidLen := parsed.raw.length
  info := {
    serialNumber := parsed.info.serialNumber
    manufactureWeek := parsed.info.manufactureWeek.toNat
    manufactureYear := parsed.info.manufactureYear.toNat
    version := parsed.info.version.toNat
    revision := parsed.info.revision.toNat
    maxWidthCm := parsed.info.maxWidthCm.toNat
    maxHeightCm := parsed.info.maxHeightCm.toNat
    monitorName := textToC parsed.info.monitorName
    serialAscii := textToC parsed.info.serialAscii }

/-- `ddccontrol_edid_parse`: what it returns, and the result after the call. -/
def ddccontrolEdidParse (buf : Block UInt8) (len : ℕ) (result : Block CEdidResult) : Option (ℤ × Block CEdidResult) :=
  if buf.isNone || result.isNone then some (-1, result)
  else do
    let input ← buf.take (min len edidBlockLen)
    match parse input with
    | .error _ => return (-1, result)
    | .ok parsed => do
      let result ← result.store 0 (edidToC parsed)
      return (0, result)

/-- What a `struct monitor` has of its EDID. -/
structure Identity where
  pnpid : List UInt8
  digital : UInt8
  edid : List UInt8
  edidLen : ℤ
  edidInfo : CEdidInfo
  deriving DecidableEq, Repr

/-- `memset`. -/
def Identity.clear (mon : Identity) : Identity where
  pnpid := mon.pnpid
  digital := 0
  edid := zeroPadded edidBlockLen []
  edidLen := 0
  edidInfo := ⟨0, 0, 0, 0, 0, 0, 0, zeroPadded edidTextLen [], zeroPadded edidTextLen []⟩

/-- `ddcci_parse_edid_buf`: what it returns, and the monitor after the call. -/
def ddcciParseEdidBuf (mon : Identity) (buf : Block UInt8) (len : ℤ) : Option (ℤ × Identity) :=
  if buf.isNone || len < 0 then some (-1, mon.clear)
  else do
    let (ret, parsed) ← ddccontrolEdidParse buf len.toNat (.malloc true 1)
    if ret < 0 then return (-1, mon.clear)
    else do
      let parsed ← parsed.load 0
      return (0, ⟨parsed.pnpid, parsed.digital, parsed.edid, parsed.edidLen, parsed.info⟩)

/-- A monitor reads as the block says: its texts are terminated, and its bytes are those kept. -/
structure Identity.Reads (mon : Identity) (block : EdidBlock) : Prop where
  pnpid : 0 ∈ mon.pnpid ∧ cString mon.pnpid = utf8 block.pnpId
  digital : mon.digital ≠ 0 ↔ block.digitalInput = true
  edid : mon.edid.length = edidBlockLen ∧ mon.edidLen ≤ edidBlockLen ∧ mon.edid.take mon.edidLen.toNat = block.raw
  numbers : mon.edidInfo.serialNumber = block.info.serialNumber ∧
    mon.edidInfo.manufactureWeek = block.info.manufactureWeek.toNat ∧
    mon.edidInfo.manufactureYear = block.info.manufactureYear.toNat ∧ mon.edidInfo.version = block.info.version.toNat ∧
    mon.edidInfo.revision = block.info.revision.toNat ∧ mon.edidInfo.maxWidthCm = block.info.maxWidthCm.toNat ∧
    mon.edidInfo.maxHeightCm = block.info.maxHeightCm.toNat
  monitorName : 0 ∈ mon.edidInfo.monitorName ∧ cString mon.edidInfo.monitorName = utf8 block.info.monitorName
  serialAscii : 0 ∈ mon.edidInfo.serialAscii ∧ cString mon.edidInfo.serialAscii = utf8 block.info.serialAscii

/-! ### Texts in arrays -/

/-- A text that is shorter than its array is read back. -/
theorem zeroPadded_text {n : ℕ} {bytes : List UInt8} (hlength : bytes.length < n) (hnul : ∀ byte ∈ bytes, byte ≠ 0) :
    0 ∈ zeroPadded n bytes ∧ cString (zeroPadded n bytes) = bytes := by
  obtain ⟨zeros, hzeros⟩ : ∃ zeros, n - bytes.length = zeros + 1 := ⟨n - bytes.length - 1, by omega⟩
  rw [zeroPadded, List.take_of_length_le (Nat.le_of_lt hlength), hzeros, List.replicate_succ]
  refine ⟨List.mem_append_right _ List.mem_cons_self, ?_⟩
  rw [cString_append hnul]
  exact List.append_nil _

/-- A text of a descriptor: short, and printable. -/
def IsLabel (text : String) : Prop :=
  ∃ bytes : List UInt8, text = asciiText bytes ∧ bytes.length < edidTextLen ∧ ∀ byte ∈ bytes, isPrintable byte = true

theorem isPrintable_bounds {byte : UInt8} (h : isPrintable byte = true) : byte ≠ 0 ∧ byte < 0x80 := by
  simp only [isPrintable, Bool.and_eq_true, decide_eq_true_eq, UInt8.le_iff_toNat_le] at h
  rw [ne_eq, ← UInt8.toNat_inj, UInt8.lt_iff_toNat_lt]
  simp at h ⊢
  omega

theorem textToC_label {text : String} (h : IsLabel text) :
    0 ∈ textToC text ∧ cString (textToC text) = utf8 text := by
  obtain ⟨bytes, rfl, hlength, hprintable⟩ := h
  have hbytes : utf8 (asciiText bytes) = bytes :=
    utf8_asciiText fun byte hmem => (isPrintable_bounds (hprintable byte hmem)).2
  rw [textToC, hbytes]
  exact zeroPadded_text hlength fun byte hmem => (isPrintable_bounds (hprintable byte hmem)).1

theorem isLabel_empty : IsLabel "" := ⟨[], rfl, by decide, by simp⟩

/-- What is read of a descriptor is printable and short. -/
theorem isLabel_parseDescriptorText (input : List UInt8) : IsLabel (parseDescriptorText input) := by
  refine ⟨_, rfl, ?_, fun byte hmem => ?_⟩
  · refine Nat.lt_of_le_of_lt (List.rdropWhile_prefix _ _).length_le ?_
    rw [List.length_map]
    refine Nat.lt_of_le_of_lt (List.takeWhile_prefix _).length_le ?_
    rw [List.length_take]
    exact Nat.lt_of_le_of_lt (Nat.min_le_left _ _) (by decide)
  · obtain ⟨b, -, rfl⟩ := List.mem_map.mp ((List.rdropWhile_prefix _ _).subset hmem)
    split_ifs with hb
    · exact hb
    · decide

theorem isLabel_parseDescriptor (input : List UInt8) {info : EdidInfo}
    (h : IsLabel info.monitorName ∧ IsLabel info.serialAscii) (i : ℕ) :
    IsLabel (parseDescriptor input info i).monitorName ∧ IsLabel (parseDescriptor input info i).serialAscii := by
  unfold parseDescriptor
  dsimp only
  split_ifs
  · exact h
  · exact ⟨isLabel_parseDescriptorText _, h.2⟩
  · exact ⟨h.1, isLabel_parseDescriptorText _⟩
  · exact h

/-- The texts of a block that was read. -/
theorem isLabel_parse {input : List UInt8} {edid : EdidBlock} (h : parse input = .ok edid) :
    IsLabel edid.info.monitorName ∧ IsLabel edid.info.serialAscii := by
  obtain ⟨-, -, rfl⟩ := parse_eq_ok.mp h
  have hnumbers : IsLabel (numbersOf input).monitorName ∧ IsLabel (numbersOf input).serialAscii :=
    ⟨isLabel_empty, isLabel_empty⟩
  dsimp only
  split_ifs
  · have hfold : ∀ (l : List ℕ) (info : EdidInfo), IsLabel info.monitorName ∧ IsLabel info.serialAscii →
        IsLabel (l.foldl (parseDescriptor input) info).monitorName ∧
          IsLabel (l.foldl (parseDescriptor input) info).serialAscii := by
      intro l
      induction l with
      | nil => exact fun _ h => h
      | cons i l ih => exact fun info h => ih _ (isLabel_parseDescriptor input h i)
    exact hfold _ _ hnumbers
  · exact hnumbers

/-! ### The call -/

/-- An identifier is seven bytes of ASCII, none of them NUL, and begins with a letter or a
sign next to the letters. -/
theorem pnpIdOf_ascii (input : List UInt8) :
    ∃ bytes : List UInt8, pnpIdOf input = asciiText bytes ∧ bytes.length = 7 ∧
      (∀ byte ∈ bytes, byte ≠ 0 ∧ byte < 0x80) ∧ ∀ byte ∈ bytes.head?, 0x40 ≤ byte := by
  obtain ⟨a, b, c, low, high, ha, hb, hc, htext⟩ := pnpIdOf_eq input
  obtain ⟨digits, hlength, hdigits, hspelled, hascii⟩ := identifier_ascii ha hb hc low high
  have hall : ∀ n < 32, UInt8.ofNat n + 64 ≠ 0 ∧ 0x40 ≤ UInt8.ofNat n + 64 := by decide +kernel
  have hletter : ∀ x : UInt8, x.toNat < 32 → x + 64 ≠ 0 ∧ 0x40 ≤ x + 64 := by
    intro x hx
    have h := hall x.toNat hx
    rwa [UInt8.ofNat_toNat] at h
  refine ⟨_, htext.trans hspelled, by simp [hlength], fun byte hmem => ⟨?_, hascii byte hmem⟩, fun byte hmem => ?_⟩
  · rcases List.mem_append.mp hmem with hmem | hmem
    · simp only [List.mem_cons, List.not_mem_nil, or_false] at hmem
      rcases hmem with rfl | rfl | rfl
      · exact (hletter a ha).1
      · exact (hletter b hb).1
      · exact (hletter c hc).1
    · have hhex := hdigits byte hmem
      rintro rfl
      cases hhex
  · cases hmem
    exact (hletter a ha).2

/-- What is handed to C reads as the block says. -/
theorem edidToC_reads {input : List UInt8} {edid : EdidBlock} (h : parse input = .ok edid) :
    Identity.Reads ⟨(edidToC edid).pnpid, (edidToC edid).digital, (edidToC edid).edid, (edidToC edid).edidLen,
      (edidToC edid).info⟩ edid := by
  have hlabels := isLabel_parse h
  have hraw : edid.raw.length ≤ edidBlockLen := by
    rw [(parse_raw h).1]
    exact List.length_take_le ..
  have hpnpid : edid.pnpId = pnpIdOf input := by
    obtain ⟨-, -, rfl⟩ := parse_eq_ok.mp h
    rfl
  obtain ⟨bytes, htext, hlength, hbytes, -⟩ := pnpIdOf_ascii input
  have hutf8 : utf8 edid.pnpId = bytes := by
    rw [hpnpid, htext, utf8_asciiText fun byte hmem => (hbytes byte hmem).2]
  refine ⟨?_, ?_, ⟨?_, ?_, ?_⟩, ⟨rfl, rfl, rfl, rfl, rfl, rfl, rfl⟩, textToC_label hlabels.1,
    textToC_label hlabels.2⟩
  · rw [← hutf8] at hlength hbytes
    exact zeroPadded_text (n := 8) (hlength ▸ by decide) fun byte hmem => (hbytes byte hmem).1
  · cases hdigital : edid.digitalInput <;> simp [edidToC, hdigital]
  · simp only [edidToC, zeroPadded, List.length_append, List.length_take, List.length_replicate]
    omega
  · exact Int.ofNat_le.mpr hraw
  · show ((zeroPadded edidBlockLen edid.raw).take (edid.raw.length : ℤ).toNat) = edid.raw
    rw [zeroPadded, List.take_of_length_le hraw, Int.toNat_natCast, List.take_left]

theorem parse_invalidHeader {input : List UInt8} (hlength : ¬input.length < edidMinParseLen)
    (hheader : input.take 8 ≠ edidHeader) : parse input = .error .invalidHeader := by
  unfold parse
  rw [decide_eq_false hlength, decide_eq_true hheader]
  rfl

theorem parse_take (input : List UInt8) : parse (input.take edidBlockLen) = parse input := by
  cases h : parse input with
  | ok edid =>
    rw [← (parse_raw h).1]
    exact (parse_raw h).2
  | error e =>
    have hshort : (input.take edidBlockLen).length < edidMinParseLen ↔ input.length < edidMinParseLen := by
      rw [List.length_take]
      unfold edidBlockLen edidMinParseLen
      omega
    have hheader : (input.take edidBlockLen).take 8 = input.take 8 := List.take_take ..
    have hnot : ¬(edidMinParseLen ≤ input.length ∧ input.take 8 = edidHeader) := by
      rintro ⟨hlong, hmatch⟩
      rw [parse_eq_ok.mpr ⟨hlong, hmatch, rfl⟩] at h
      cases h
    rw [← h]
    by_cases hlength : input.length < edidMinParseLen
    · rw [List.take_of_length_le (Nat.le_of_lt (Nat.lt_trans hlength (by decide)))]
    · have hmatch : input.take 8 ≠ edidHeader := fun hmatch => hnot ⟨Nat.not_lt.mp hlength, hmatch⟩
      rw [parse_invalidHeader hlength hmatch,
        parse_invalidHeader (fun hlt => hlength (hshort.mp hlt)) fun heq => hmatch (hheader ▸ heq)]

/-- **A monitor reads as the block says**, whatever it was before; where the block is not
one, nothing is known, and its identifier stays. -/
theorem ddcciParseEdidBuf_exact (mon : Identity) {buf : Block UInt8} {input : List UInt8}
    (hbuf : buf.Holds (input.map some)) :
    ∃ ret mon', ddcciParseEdidBuf mon buf input.length = some (ret, mon') ∧
      (∀ block, parse input = .ok block → ret = 0 ∧ mon'.Reads block) ∧
      ∀ e, parse input = .error e → ret = -1 ∧ mon' = mon.clear := by
  obtain ⟨rest, rfl⟩ := hbuf.eq_append
  have htake : Block.take (some (input.map some ++ rest)) (min input.length edidBlockLen) =
      some (input.take edidBlockLen) := by
    have hsplit : input.map some ++ rest =
        (input.take edidBlockLen).map some ++ ((input.drop edidBlockLen).map some ++ rest) := by
      rw [← List.append_assoc, ← List.map_append, List.take_append_drop]
    rw [hsplit, Nat.min_comm, ← List.length_take]
    exact Block.take_go _ _
  have hcall : ddccontrolEdidParse (some (input.map some ++ rest)) input.length (.malloc true 1) =
      match parse input with
      | .error _ => some (-1, .malloc true 1)
      | .ok parsed => some (0, some [some (edidToC parsed)]) := by
    unfold ddccontrolEdidParse
    rw [htake, ← parse_take input]
    change (match parse (input.take edidBlockLen) with | .error _ => _ | .ok parsed => _) = _
    cases parse (input.take edidBlockLen) <;> rfl
  unfold ddcciParseEdidBuf
  rw [Int.toNat_natCast, hcall, if_neg (by simp)]
  cases h : parse input with
  | error e =>
    refine ⟨_, _, rfl, fun block hblock => ?_, fun _ _ => ⟨rfl, rfl⟩⟩
    cases hblock
  | ok block =>
    refine ⟨_, _, rfl, fun block' hblock => ?_, fun e herror => ?_⟩
    · cases hblock
      exact ⟨rfl, edidToC_reads h⟩
    · cases herror

theorem holds_array (input : List UInt8) : Block.Holds (some (input.map some)) (input.map some) :=
  ⟨_, rfl, Nat.le_refl _, fun _ _ h => h⟩

/-- A monitor that was zeroed. -/
def Identity.blank : Identity := Identity.clear ⟨zeroPadded 8 [], 0, [], 0, ⟨0, 0, 0, 0, 0, 0, 0, [], []⟩⟩

/-- The block of the monitor, in C. -/
theorem dell_reads :
    ∃ ret mon', ddcciParseEdidBuf .blank (some (dellDescription.encode.map some)) dellDescription.encode.length =
        some (ret, mon') ∧
      ret = 0 ∧ cString mon'.pnpid = utf8 "DEL40A0" ∧ cString mon'.edidInfo.monitorName = utf8 "DELL U2723QE" := by
  have hid : dellDescription.id.text = "DEL40A0" := by decide +kernel
  have hname : dellDescription.info.monitorName = "DELL U2723QE" := by decide +kernel
  obtain ⟨ret, mon', hcall, hreads, -⟩ := ddcciParseEdidBuf_exact .blank (holds_array dellDescription.encode)
  obtain ⟨hret, hmon⟩ := hreads _ (parse_encode dellDescription)
  refine ⟨ret, mon', hcall, hret, hmon.pnpid.2.trans (congrArg utf8 hid), hmon.monitorName.2.trans (congrArg utf8 hname)⟩

end DdcControl.Identification
