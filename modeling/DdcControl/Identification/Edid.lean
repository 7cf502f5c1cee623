import DdcControl.Context.MonitorFile
import DdcControl.Daemon.Device
import Mathlib.Data.List.DropRight

/-!
# Identification data of a monitor

A monitor says what it is in a block of 128 bytes: a header, its manufacturer and product,
numbers, and four descriptors, of which two kinds hold a text. `ddccontrol_edid::parse` takes
what the programs use; the checksum is not looked at, and a block may stop before the
descriptors.

## The model

`Description` is what a block is for: an identifier, the numbers, and the four descriptors in
their places, with the bytes between them that are not read. Its texts are printable, do not
end in a blank and fit; `Description.encode` lays them out.

## What is proved

* `parse_describes` — a block is read as what it describes, whatever else is in it, and the
  bytes that are kept are read as the block was.
* `parse_parseEdid` — what the library keeps of a block is part of what is read.
-/

namespace DdcControl.Identification

open Daemon Fallible

/-! ### Reading a block -/

/-- `ParseError`. -/
inductive ParseError where
  | tooShort (actual : ℕ)
  | invalidHeader
  deriving DecidableEq, Repr

/-- `EdidInfo`. -/
structure EdidInfo where
  serialNumber : UInt32
  manufactureWeek : UInt8
  manufactureYear : UInt16
  version : UInt8
  revision : UInt8
  maxWidthCm : UInt8
  maxHeightCm : UInt8
  monitorName : String
  serialAscii : String
  deriving DecidableEq, Repr

/-- `Edid`. -/
structure EdidBlock where
  pnpId : String
  digitalInput : Bool
  raw : List UInt8
  info : EdidInfo
  deriving DecidableEq, Repr

/-- `EDID_MIN_PARSE_LEN`. -/
def edidMinParseLen : ℕ := 0x17

/-- `DESCRIPTOR_START`. -/
def descriptorStart : ℕ := 0x36

/-- `DESCRIPTOR_LEN`. -/
def descriptorLen : ℕ := 18

/-- `DESCRIPTOR_TEXT_LEN`. -/
def descriptorTextLen : ℕ := 13

/-- The text of bytes that are ASCII, `String::from_utf8`. -/
def asciiText (bytes : List UInt8) : String := .ofList (bytes.map fun byte => .ofNat byte.toNat)

/-- The byte is printable ASCII. -/
def isPrintable (byte : UInt8) : Bool := 0x20 ≤ byte && byte ≤ 0x7e

/-- The byte ends a text. -/
def isLineEnd (byte : UInt8) : Bool := byte = 0x0a || byte = 0x0d

/-- `parse_descriptor_text`. -/
def parseDescriptorText (input : List UInt8) : String :=
  let text := ((input.take descriptorTextLen).takeWhile fun byte => !isLineEnd byte).map fun byte =>
    if isPrintable byte then byte else 0x20
  asciiText (text.rdropWhile fun byte => byte = 0x20)

/-- The loop body of `parse_descriptors`. -/
def parseDescriptor (input : List UInt8) (info : EdidInfo) (i : ℕ) : EdidInfo :=
  let descriptor := (input.drop (descriptorStart + i * descriptorLen)).take descriptorLen
  if descriptor.getD 0 0 ≠ 0 || descriptor.getD 1 0 ≠ 0 || descriptor.getD 2 0 ≠ 0 || descriptor.getD 4 0 ≠ 0 then info
  else if descriptor.getD 3 0 = 0xfc then { info with monitorName := parseDescriptorText (descriptor.drop 5) }
  else if descriptor.getD 3 0 = 0xff then { info with serialAscii := parseDescriptorText (descriptor.drop 5) }
  else info

/-- `parse_descriptors`. -/
def parseDescriptors (input : List UInt8) (info : EdidInfo) : EdidInfo := (List.range 4).foldl (parseDescriptor input) info

/-- `u16::from_le_bytes`, `u32::from_le_bytes`. -/
def fromLeBytes (bytes : List UInt8) : ℕ := bytes.foldr (fun byte n => byte.toNat + 256 * n) 0

/-- The seven characters of an identifier. -/
def pnpIdOf (input : List UInt8) : String :=
  let byte (i : ℕ) : UInt8 := input.getD i 0
  let manufacturer := [(byte 8 >>> 2) &&& 0x1f, ((byte 8 &&& 0x03) <<< 3) + (byte 9 >>> 5), byte 9 &&& 0x1f]
  .ofList (manufacturer.map manufacturerLetter ++ productCode (byte 10) (byte 11))

/-- The numbers of a block. -/
def numbersOf (input : List UInt8) : EdidInfo :=
  let byte (i : ℕ) : UInt8 := input.getD i 0
  { serialNumber := .ofNat (fromLeBytes [byte 0x0c, byte 0x0d, byte 0x0e, byte 0x0f])
    manufactureWeek := byte 0x10
    manufactureYear := (byte 0x11).toUInt16 + 1990
    version := byte 0x12
    revision := byte 0x13
    maxWidthCm := byte 0x15
    maxHeightCm := byte 0x16
    monitorName := ""
    serialAscii := "" }

/-- `ddccontrol_edid::parse`. -/
def parse (input : List UInt8) : Except ParseError EdidBlock := do
  reject (input.length < edidMinParseLen) (.tooShort input.length)
  reject (input.take 8 ≠ edidHeader) .invalidHeader
  let info := numbersOf input
  return {
    pnpId := pnpIdOf input
    digitalInput := input.getD 0x14 0 &&& 0x80 ≠ 0
    raw := input.take (min input.length edidBlockLen)
    info := if input.length ≥ edidBlockLen then parseDescriptors input info else info }

/-! ### What a block is for -/

/-- Three letters and a number. -/
structure PnpId where
  first : Fin 26
  second : Fin 26
  third : Fin 26
  product : UInt16
  deriving DecidableEq, Repr

/-- A capital letter. -/
def letter (n : Fin 26) : Char := .ofNat ('A'.toNat + n)

/-- An identifier as a text. -/
def PnpId.text (id : PnpId) : String :=
  .ofList [letter id.first, letter id.second, letter id.third, upperHexDigit (id.product.toNat / 4096),
    upperHexDigit (id.product.toNat / 256 % 16), upperHexDigit (id.product.toNat / 16 % 16),
    upperHexDigit (id.product.toNat % 16)]

/-- An identifier in four bytes: three times five bits, and the number, low byte first. -/
def PnpId.encode (id : PnpId) : List UInt8 :=
  [.ofNat ((id.first + 1) * 4 + (id.second + 1) / 8), .ofNat ((id.second + 1) % 8 * 32 + (id.third + 1)),
    .ofNat (id.product.toNat % 256), .ofNat (id.product.toNat / 256)]

/-- The text of a descriptor, which is printable and does not end in a blank, with what
fills the descriptor. -/
structure Label where
  text : List UInt8
  padding : List UInt8
  length_eq : text.length + padding.length = descriptorTextLen
  printable : ∀ byte ∈ text, isPrintable byte = true
  trimmed : text.getLast? ≠ some 0x20
  ended : ∀ byte ∈ padding.head?, isLineEnd byte = true

/-- The descriptor has one of the two texts. -/
def isTextDescriptor (descriptor : List UInt8) : Bool :=
  descriptor.getD 0 0 = 0 && descriptor.getD 1 0 = 0 && descriptor.getD 2 0 = 0 && descriptor.getD 4 0 = 0 &&
    (descriptor.getD 3 0 = 0xfc || descriptor.getD 3 0 = 0xff)

/-- A descriptor: the name of the monitor, its serial number as a text, or anything else. -/
inductive Slot where
  | name (label : Label)
  | serial (label : Label)
  | other (bytes : List UInt8) (length_eq : bytes.length = descriptorLen) (plain : isTextDescriptor bytes = false)

/-- A descriptor in its bytes. -/
def Slot.encode : Slot → List UInt8
  | .name label => [0, 0, 0, 0xfc, 0] ++ label.text ++ label.padding
  | .serial label => [0, 0, 0, 0xff, 0] ++ label.text ++ label.padding
  | .other bytes _ _ => bytes

/-- What a descriptor adds to what is known of a monitor. -/
def Slot.describe (info : EdidInfo) : Slot → EdidInfo
  | .name label => { info with monitorName := asciiText label.text }
  | .serial label => { info with serialAscii := asciiText label.text }
  | .other _ _ _ => info

/-- What a block says of a monitor, and the bytes in it that are not read. -/
structure Description where
  id : PnpId
  serialNumber : UInt32
  week : UInt8
  yearSince1990 : UInt8
  version : UInt8
  revision : UInt8
  input : UInt8
  widthCm : UInt8
  heightCm : UInt8
  between : List UInt8
  slots : List Slot
  rest : List UInt8
  length_between : between.length = 31
  length_slots : slots.length = 4
  length_rest : 2 ≤ rest.length

/-- Four bytes, the lowest first. -/
def leBytes (n : UInt32) : List UInt8 :=
  [.ofNat (n.toNat % 256), .ofNat (n.toNat / 256 % 256), .ofNat (n.toNat / 65536 % 256), .ofNat (n.toNat / 16777216)]

/-- The bytes before the descriptors. -/
def Description.front (d : Description) : List UInt8 :=
  edidHeader ++ d.id.encode ++ leBytes d.serialNumber ++
    [d.week, d.yearSince1990, d.version, d.revision, d.input, d.widthCm, d.heightCm] ++ d.between

/-- The block of a description. -/
def Description.encode (d : Description) : List UInt8 := d.front ++ (d.slots.flatMap Slot.encode ++ d.rest)

/-- What is read of a monitor. -/
def Description.info (d : Description) : EdidInfo :=
  d.slots.foldl Slot.describe ⟨d.serialNumber, d.week, d.yearSince1990.toUInt16 + 1990, d.version, d.revision,
    d.widthCm, d.heightCm, "", ""⟩

/-! ### Texts -/

/-- A text is read as it is. -/
theorem parseDescriptorText_label (label : Label) :
    parseDescriptorText (label.text ++ label.padding) = asciiText label.text := by
  have hends : ∀ byte ∈ label.text, isLineEnd byte = false := by
    intro byte hmem
    have hprintable := label.printable byte hmem
    simp only [isPrintable, Bool.and_eq_true, decide_eq_true_eq, UInt8.le_iff_toNat_le] at hprintable
    simp only [isLineEnd, Bool.or_eq_false_iff, decide_eq_false_iff_not, ← UInt8.toNat_inj]
    constructor <;> intro h <;> rw [h] at hprintable <;> simp at hprintable
  have htaken : (label.text ++ label.padding).take descriptorTextLen = label.text ++ label.padding :=
    List.take_of_length_le (by rw [List.length_append, label.length_eq])
  have hwhile : (label.text ++ label.padding).takeWhile (fun byte => !isLineEnd byte) = label.text := by
    rw [List.takeWhile_append_of_pos fun byte hmem => by rw [hends byte hmem]; rfl]
    have hpadding : label.padding.takeWhile (fun byte => !isLineEnd byte) = [] := by
      cases hpad : label.padding with
      | nil => rfl
      | cons byte padding =>
        rw [List.takeWhile_cons, label.ended byte (by rw [hpad]; rfl)]
        rfl
    rw [hpadding, List.append_nil]
  have hmap : label.text.map (fun byte => if isPrintable byte then byte else 0x20) = label.text :=
    (List.map_congr_left fun byte hmem => if_pos (label.printable byte hmem)).trans (List.map_id _)
  have htrimmed : label.text.rdropWhile (fun byte => decide (byte = 0x20)) = label.text := by
    rw [List.rdropWhile_eq_self_iff]
    intro hne
    rw [decide_eq_true_eq]
    exact fun h => label.trimmed (by rw [List.getLast?_eq_some_getLast hne, h])
  unfold parseDescriptorText
  rw [htaken, hwhile]
  dsimp only
  rw [hmap, htrimmed]

/-! ### Descriptors -/

theorem length_slotEncode (slot : Slot) : slot.encode.length = descriptorLen := by
  cases slot with
  | name label | serial label =>
    have hlength := label.length_eq
    unfold descriptorTextLen at hlength
    simp only [Slot.encode, List.length_append, List.length_cons, List.length_nil, descriptorLen]
    omega
  | other bytes length_eq plain => exact length_eq

theorem length_front (d : Description) : d.front.length = descriptorStart := by
  simp [Description.front, PnpId.encode, leBytes, edidHeader, d.length_between, descriptorStart]

/-- A descriptor is at its place. -/
theorem slot_at (slots : List Slot) (rest : List UInt8) {i : ℕ} {slot : Slot} (h : slots[i]? = some slot) :
    ((slots.flatMap Slot.encode ++ rest).drop (i * descriptorLen)).take descriptorLen = slot.encode := by
  induction slots generalizing i with
  | nil => cases h
  | cons first slots ih =>
    have hlength := length_slotEncode first
    cases i with
    | zero =>
      cases h
      rw [Nat.zero_mul, List.drop_zero, List.flatMap_cons, List.append_assoc]
      exact List.take_left' hlength
    | succ i =>
      rw [List.flatMap_cons, List.append_assoc, Nat.succ_mul, Nat.add_comm, ← hlength, ← List.drop_drop,
        List.drop_left, hlength]
      exact ih h

/-- A descriptor is read for what it says. -/
theorem parseDescriptor_slot (d : Description) (info : EdidInfo) {i : ℕ} {slot : Slot}
    (h : d.slots[i]? = some slot) : parseDescriptor d.encode info i = slot.describe info := by
  have hdescriptor : (d.encode.drop (descriptorStart + i * descriptorLen)).take descriptorLen = slot.encode := by
    rw [← List.drop_drop, ← length_front d, Description.encode, List.drop_left]
    exact slot_at d.slots d.rest h
  unfold parseDescriptor
  rw [hdescriptor]
  cases slot with
  | name label => exact congrArg (fun text => { info with monitorName := text }) (parseDescriptorText_label label)
  | serial label => exact congrArg (fun text => { info with serialAscii := text }) (parseDescriptorText_label label)
  | other bytes length_eq plain =>
    simp only [isTextDescriptor, Bool.and_eq_false_iff, Bool.or_eq_false_iff, decide_eq_false_iff_not] at plain
    simp only [Slot.encode, Slot.describe, Bool.or_eq_true]
    grind

/-- **The last text of a kind is the one that is read.** -/
theorem parseDescriptors_encode (d : Description) (info : EdidInfo) :
    parseDescriptors d.encode info = d.slots.foldl Slot.describe info := by
  have hslot (i : ℕ) (slot : Slot) (info : EdidInfo) := @parseDescriptor_slot d info i slot
  have hlength := d.length_slots
  generalize hslots : d.slots = slots at hlength hslot
  obtain ⟨first, second, third, fourth, rfl⟩ : ∃ a b c d, slots = [a, b, c, d] := by
    match slots, hlength with
    | [a, b, c, d], _ => exact ⟨a, b, c, d, rfl⟩
  change parseDescriptor _ (parseDescriptor _ (parseDescriptor _ (parseDescriptor _ info 0) 1) 2) 3 = _
  rw [hslot 0 first info rfl, hslot 1 second _ rfl, hslot 2 third _ rfl, hslot 3 fourth _ rfl]
  rfl

/-! ### Numbers -/

/-- The five bits of a letter are found in the two bytes. -/
theorem manufacturer_encode (f s t : Fin 26) :
    ((UInt8.ofNat ((f + 1) * 4 + (s + 1) / 8)) >>> 2) &&& 0x1f = UInt8.ofNat (f + 1) ∧
      ((UInt8.ofNat ((f + 1) * 4 + (s + 1) / 8) &&& 0x03) <<< 3) + (UInt8.ofNat ((s + 1) % 8 * 32 + (t + 1)) >>> 5) =
        UInt8.ofNat (s + 1) ∧
      UInt8.ofNat ((s + 1) % 8 * 32 + (t + 1)) &&& 0x1f = UInt8.ofNat (t + 1) := by
  have hfirst : ∀ f s : Fin 26, ((UInt8.ofNat ((f + 1) * 4 + (s + 1) / 8)) >>> 2) &&& 0x1f = UInt8.ofNat (f + 1) ∧
      (UInt8.ofNat ((f + 1) * 4 + (s + 1) / 8) &&& 0x03) <<< 3 = UInt8.ofNat ((s + 1) / 8 * 8) := by decide +kernel
  have hsecond : ∀ s t : Fin 26, UInt8.ofNat ((s + 1) % 8 * 32 + (t + 1)) >>> 5 = UInt8.ofNat ((s + 1) % 8) ∧
      UInt8.ofNat ((s + 1) % 8 * 32 + (t + 1)) &&& 0x1f = UInt8.ofNat (t + 1) := by decide +kernel
  refine ⟨(hfirst f s).1, ?_, (hsecond s t).2⟩
  rw [(hfirst f s).2, (hsecond s t).1, ← UInt8.ofNat_add, Nat.div_add_mod' ((s : ℕ) + 1) 8]

theorem manufacturerLetter_letter (n : Fin 26) : manufacturerLetter (.ofNat (n + 1)) = letter n := by
  revert n
  decide +kernel

/-- An identifier, spelled as it is read. -/
theorem PnpId.text_eq (id : PnpId) :
    id.text = .ofList ([.ofNat (id.first + 1), .ofNat (id.second + 1), .ofNat (id.third + 1)].map manufacturerLetter ++
      productCode (.ofNat (id.product.toNat % 256)) (.ofNat (id.product.toNat / 256))) := by
  have hproduct := id.product.toNat_lt
  have hlow : id.product.toNat % 256 < 256 := Nat.mod_lt _ (by decide)
  have hhigh : id.product.toNat / 256 < 256 := by omega
  have hdigits : id.product.toNat / 256 / 16 = id.product.toNat / 4096 ∧
      id.product.toNat % 256 / 16 = id.product.toNat / 16 % 16 ∧
      id.product.toNat % 256 % 16 = id.product.toNat % 16 := by omega
  simp only [List.map_cons, List.map_nil, manufacturerLetter_letter, productCode, PnpId.text]
  rw [UInt8.toNat_ofNat_of_lt' hlow, UInt8.toNat_ofNat_of_lt' hhigh, hdigits.1, hdigits.2.1, hdigits.2.2]
  rfl

theorem pnpIdOf_encode (d : Description) : pnpIdOf d.encode = d.id.text := by
  obtain ⟨hfirst, hsecond, hthird⟩ := manufacturer_encode d.id.first d.id.second d.id.third
  rw [PnpId.text_eq, ← hfirst, ← hsecond, ← hthird]
  rfl

theorem fromLeBytes_leBytes (n : UInt32) : UInt32.ofNat (fromLeBytes (leBytes n)) = n := by
  have hn := n.toNat_lt
  have hvalue : fromLeBytes (leBytes n) = n.toNat := by
    simp only [fromLeBytes, leBytes, List.foldr_cons, List.foldr_nil]
    have hbyte : ∀ m < 256, (UInt8.ofNat m).toNat = m := fun m hm => UInt8.toNat_ofNat_of_lt' hm
    rw [hbyte _ (by omega), hbyte _ (by omega), hbyte _ (by omega), hbyte _ (by omega)]
    omega
  rw [hvalue, UInt32.ofNat_toNat]

theorem numbersOf_encode (d : Description) :
    numbersOf d.encode = ⟨d.serialNumber, d.week, d.yearSince1990.toUInt16 + 1990, d.version, d.revision,
      d.widthCm, d.heightCm, "", ""⟩ := by
  have hserial : (numbersOf d.encode).serialNumber = .ofNat (fromLeBytes (leBytes d.serialNumber)) := rfl
  rw [fromLeBytes_leBytes] at hserial
  rw [← hserial]
  rfl

/-- Which blocks are read, and as what. -/
theorem parse_eq_ok {input : List UInt8} {edid : EdidBlock} :
    parse input = .ok edid ↔ edidMinParseLen ≤ input.length ∧ input.take 8 = edidHeader ∧
      edid = ⟨pnpIdOf input, input.getD 0x14 0 &&& 0x80 ≠ 0, input.take edidBlockLen,
        if edidBlockLen ≤ input.length then parseDescriptors input (numbersOf input) else numbersOf input⟩ := by
  have hraw : input.take (min input.length edidBlockLen) = input.take edidBlockLen := by
    rw [Nat.min_comm, ← List.take_take, List.take_length]
  unfold parse
  rw [hraw]
  constructor
  · intro h
    obtain ⟨_, hlength, h⟩ := bind_eq_ok.mp h
    obtain ⟨_, hheader, h⟩ := bind_eq_ok.mp h
    rw [reject_eq_ok, decide_eq_false_iff_not] at hlength hheader
    exact ⟨Nat.not_lt.mp hlength, not_not.mp hheader, (Except.ok.inj h).symm⟩
  · rintro ⟨hlength, hheader, rfl⟩
    rw [decide_eq_false (Nat.not_lt.mpr hlength), hheader]
    rfl

/-- A block is read as what it describes. -/
theorem parse_encode (d : Description) :
    parse d.encode = .ok ⟨d.id.text, d.input &&& 0x80 ≠ 0, d.encode.take edidBlockLen, d.info⟩ := by
  have hlength : edidBlockLen ≤ d.encode.length := by
    have hslots : (d.slots.flatMap Slot.encode).length = 72 := by
      rw [List.length_flatMap, List.map_congr_left fun slot _ => length_slotEncode slot, List.map_const', d.length_slots]
      rfl
    have hrest := d.length_rest
    rw [Description.encode, List.length_append, length_front, List.length_append, hslots]
    unfold descriptorStart edidBlockLen
    omega
  have hinput : d.encode.getD 0x14 0 = d.input := rfl
  refine parse_eq_ok.mpr ⟨Nat.le_trans (by decide) hlength, rfl, ?_⟩
  rw [hinput, pnpIdOf_encode, numbersOf_encode, if_pos hlength, parseDescriptors_encode]
  rfl

/-! ### The bytes that count -/

theorem getD_take {input : List UInt8} {i n : ℕ} (h : i < n) : (input.take n).getD i 0 = input.getD i 0 := by
  rw [List.getD_eq_getElem?_getD, List.getElem?_take_of_lt h, List.getD_eq_getElem?_getD]

theorem pnpIdOf_take (input : List UInt8) : pnpIdOf (input.take edidBlockLen) = pnpIdOf input := by
  unfold pnpIdOf edidBlockLen
  simp only [getD_take (show 8 < 128 by decide), getD_take (show 9 < 128 by decide), getD_take (show 10 < 128 by decide),
    getD_take (show 11 < 128 by decide)]

theorem numbersOf_take (input : List UInt8) : numbersOf (input.take edidBlockLen) = numbersOf input := by
  have hbyte : ∀ i < 0x17, (input.take edidBlockLen).getD i 0 = input.getD i 0 :=
    fun i hi => getD_take (Nat.lt_trans hi (by decide))
  unfold numbersOf
  simp only [hbyte _ (show 0x0c < 0x17 by decide), hbyte _ (show 0x0d < 0x17 by decide),
    hbyte _ (show 0x0e < 0x17 by decide), hbyte _ (show 0x0f < 0x17 by decide), hbyte _ (show 0x10 < 0x17 by decide),
    hbyte _ (show 0x11 < 0x17 by decide), hbyte _ (show 0x12 < 0x17 by decide), hbyte _ (show 0x13 < 0x17 by decide),
    hbyte _ (show 0x15 < 0x17 by decide), hbyte _ (show 0x16 < 0x17 by decide)]

theorem parseDescriptors_take (input : List UInt8) (info : EdidInfo) :
    parseDescriptors (input.take edidBlockLen) info = parseDescriptors input info := by
  have hdescriptor : ∀ i < 4, ∀ info, parseDescriptor (input.take edidBlockLen) info i = parseDescriptor input info i := by
    intro i hi info
    have hinside : descriptorLen ≤ edidBlockLen - (descriptorStart + i * descriptorLen) := by
      unfold descriptorLen edidBlockLen descriptorStart
      omega
    unfold parseDescriptor
    rw [List.drop_take, List.take_take, Nat.min_eq_left hinside]
  change parseDescriptor _ (parseDescriptor _ (parseDescriptor _ (parseDescriptor _ info 0) 1) 2) 3 = _
  rw [hdescriptor 0 (by decide), hdescriptor 1 (by decide), hdescriptor 2 (by decide), hdescriptor 3 (by decide)]
  rfl

/-- **Only the first 128 bytes count**, and those that are kept are read as the block was. -/
theorem parse_raw {input : List UInt8} {edid : EdidBlock} (h : parse input = .ok edid) :
    edid.raw = input.take edidBlockLen ∧ parse edid.raw = .ok edid := by
  obtain ⟨hlength, hheader, rfl⟩ := parse_eq_ok.mp h
  refine ⟨rfl, parse_eq_ok.mpr ⟨?_, ?_, ?_⟩⟩
  · rw [List.length_take]
    exact Nat.le_min.mpr ⟨by decide, hlength⟩
  · exact (List.take_take ..).trans hheader
  · have hlonger : edidBlockLen ≤ (input.take edidBlockLen).length ↔ edidBlockLen ≤ input.length := by
      rw [List.length_take]
      omega
    dsimp only
    rw [pnpIdOf_take, numbersOf_take, parseDescriptors_take, getD_take (show 0x14 < edidBlockLen by decide),
      List.take_take, Nat.min_self]
    simp only [hlonger]

/-- What the library keeps of a block. -/
theorem parse_parseEdid (input : List UInt8) :
    parseEdid input = (parse input).toOption.map fun edid =>
      ⟨edid.pnpId, if edid.digitalInput then 0x80 else 0, edid.raw⟩ := by
  by_cases hread : edidMinParseLen ≤ input.length ∧ input.take 8 = edidHeader
  · rw [parse_eq_ok.mpr ⟨hread.1, hread.2, rfl⟩]
    unfold parseEdid
    rw [if_neg (show ¬input.length < 0x17 from Nat.not_lt.mpr hread.1), if_neg (not_not.mpr hread.2)]
    simp only [Except.toOption, Option.map_some, decide_eq_true_eq]
    rfl
  · have hnone : (parse input).toOption = none := by
      cases h : parse input with
      | error e => rfl
      | ok edid => exact absurd ⟨(parse_eq_ok.mp h).1, (parse_eq_ok.mp h).2.1⟩ hread
    rw [hnone]
    unfold parseEdid
    split_ifs with hlength hheader
    · rfl
    · rfl
    · exact absurd ⟨Nat.not_lt.mp hlength, not_not.mp hheader⟩ hread

/-! ### Identifiers -/

theorem utf8_asciiText {bytes : List UInt8} (h : ∀ byte ∈ bytes, byte < 0x80) : utf8 (asciiText bytes) = bytes := by
  have hchar : ∀ n < 128, String.utf8EncodeChar (.ofNat n) = [UInt8.ofNat n] := by decide +kernel
  rw [utf8_eq, asciiText, String.toList_ofList, List.flatMap_map]
  induction bytes with
  | nil => rfl
  | cons byte bytes ih =>
    have hbyte := UInt8.lt_iff_toNat_lt.mp (h byte List.mem_cons_self)
    rw [List.flatMap_cons, hchar _ hbyte, UInt8.ofNat_toNat, ih fun b hb => h b (List.mem_cons_of_mem _ hb)]
    rfl

theorem upperHexDigit_byte {n : ℕ} (h : n < 16) :
    ∃ digit : UInt8, upperHexDigit n = .ofNat digit.toNat ∧ digit < 0x80 ∧ Context.isAsciiHexdigit digit = true := by
  have hall : ∀ n < 16, upperHexDigit n = .ofNat (UInt8.ofNat (upperHexDigit n).toNat).toNat ∧
      UInt8.ofNat (upperHexDigit n).toNat < 0x80 ∧
      Context.isAsciiHexdigit (UInt8.ofNat (upperHexDigit n).toNat) = true := by decide +kernel
  exact ⟨_, hall n h⟩

/-- The bytes of an identifier: three of five bits each, and four digits. -/
theorem identifier_ascii {a b c : UInt8} (ha : a.toNat < 32) (hb : b.toNat < 32) (hc : c.toNat < 32) (low high : UInt8) :
    ∃ digits : List UInt8, digits.length = 4 ∧ (∀ d ∈ digits, Context.isAsciiHexdigit d = true) ∧
      .ofList ([a, b, c].map manufacturerLetter ++ productCode low high) =
        asciiText ([a + 64, b + 64, c + 64] ++ digits) ∧
      ∀ byte ∈ [a + 64, b + 64, c + 64] ++ digits, byte < 0x80 := by
  have hletter : ∀ n < 32, manufacturerLetter (.ofNat n) = .ofNat (UInt8.ofNat n + 64).toNat ∧
      UInt8.ofNat n + 64 < 0x80 := by decide +kernel
  have hspelled : ∀ x : UInt8, x.toNat < 32 → manufacturerLetter x = .ofNat (x + 64).toNat ∧ x + 64 < 0x80 := by
    intro x hx
    have h := hletter x.toNat hx
    rwa [UInt8.ofNat_toNat] at h
  have hlow := low.toNat_lt
  have hhigh := high.toNat_lt
  obtain ⟨d₁, h₁, hd₁⟩ := upperHexDigit_byte (n := high.toNat / 16) (by omega)
  obtain ⟨d₂, h₂, hd₂⟩ := upperHexDigit_byte (n := high.toNat % 16) (by omega)
  obtain ⟨d₃, h₃, hd₃⟩ := upperHexDigit_byte (n := low.toNat / 16) (by omega)
  obtain ⟨d₄, h₄, hd₄⟩ := upperHexDigit_byte (n := low.toNat % 16) (by omega)
  have hdigits : ∀ d ∈ [d₁, d₂, d₃, d₄], d < 0x80 ∧ Context.isAsciiHexdigit d = true := by
    simpa using ⟨hd₁, hd₂, hd₃, hd₄⟩
  refine ⟨[d₁, d₂, d₃, d₄], rfl, fun d hd => (hdigits d hd).2, ?_, fun byte hmem => ?_⟩
  · simp only [productCode, h₁, h₂, h₃, h₄, List.map_cons, List.map_nil, (hspelled a ha).1, (hspelled b hb).1,
      (hspelled c hc).1]
    rfl
  · rcases List.mem_append.mp hmem with hmem | hmem
    · simp only [List.mem_cons, List.not_mem_nil, or_false] at hmem
      rcases hmem with rfl | rfl | rfl
      · exact (hspelled a ha).2
      · exact (hspelled b hb).2
      · exact (hspelled c hc).2
    · exact (hdigits byte hmem).1

theorem isAsciiUppercase_letter {x : UInt8} (h : x.toNat < 32) :
    Context.isAsciiUppercase (x + 64) = true ↔ ∃ n : Fin 26, x = .ofNat (n + 1) := by
  have hall : ∀ n < 32, Context.isAsciiUppercase (UInt8.ofNat n + 64) = true ↔
      ∃ m : Fin 26, UInt8.ofNat n = .ofNat (m + 1) := by decide +kernel
  have hx := hall x.toNat h
  rwa [UInt8.ofNat_toNat] at hx

theorem fiveBits_lt (x y : UInt8) :
    (x &&& 0x1f).toNat < 32 ∧ (((x &&& 0x03) <<< 3) + (y >>> 5)).toNat < 32 := by
  have hall : ∀ n < 256, (UInt8.ofNat n &&& 0x1f).toNat < 32 ∧ ((UInt8.ofNat n &&& 0x03) <<< 3).toNat ≤ 24 ∧
      (UInt8.ofNat n >>> 5).toNat ≤ 7 := by decide +kernel
  have hx := hall x.toNat x.toNat_lt
  have hy := hall y.toNat y.toNat_lt
  rw [UInt8.ofNat_toNat] at hx hy
  refine ⟨hx.1, ?_⟩
  rw [UInt8.toNat_add]
  omega

/-- What an identifier is read from. -/
theorem pnpIdOf_eq (input : List UInt8) :
    ∃ a b c low high : UInt8, a.toNat < 32 ∧ b.toNat < 32 ∧ c.toNat < 32 ∧
      pnpIdOf input = .ofList ([a, b, c].map manufacturerLetter ++ productCode low high) :=
  ⟨_, _, _, _, _, (fiveBits_lt _ 0).1, (fiveBits_lt _ _).2, (fiveBits_lt _ 0).1, rfl⟩

theorem isValidPnpId_identifier {a b c : UInt8} (ha : a.toNat < 32) (hb : b.toNat < 32) (hc : c.toNat < 32)
    (low high : UInt8) :
    Context.isValidPnpId (.ofList ([a, b, c].map manufacturerLetter ++ productCode low high)) = true ↔
      (∃ n : Fin 26, a = .ofNat (n + 1)) ∧ (∃ n : Fin 26, b = .ofNat (n + 1)) ∧ ∃ n : Fin 26, c = .ofNat (n + 1) := by
  obtain ⟨digits, hlength, hdigits, htext, hascii⟩ := identifier_ascii ha hb hc low high
  have hhex : digits.all Context.isAsciiHexdigit = true := List.all_eq_true.mpr hdigits
  rw [← isAsciiUppercase_letter ha, ← isAsciiUppercase_letter hb, ← isAsciiUppercase_letter hc, htext]
  unfold Context.isValidPnpId
  rw [utf8_asciiText hascii]
  simp [hlength, hhex]

theorem isValidPnpId_text (id : PnpId) : Context.isValidPnpId id.text = true := by
  have hsmall : ∀ n : Fin 26, (UInt8.ofNat (n + 1)).toNat < 32 := by decide
  rw [PnpId.text_eq, isValidPnpId_identifier (hsmall _) (hsmall _) (hsmall _)]
  exact ⟨⟨_, rfl⟩, ⟨_, rfl⟩, ⟨_, rfl⟩⟩

/-- A block has a valid identifier where its letters are letters. -/
theorem isValidPnpId_pnpIdOf (input : List UInt8) :
    Context.isValidPnpId (pnpIdOf input) = true ↔ ∃ id : PnpId, pnpIdOf input = id.text := by
  refine ⟨fun hvalid => ?_, fun ⟨id, hid⟩ => hid ▸ isValidPnpId_text id⟩
  obtain ⟨a, b, c, low, high, ha, hb, hc, htext⟩ := pnpIdOf_eq input
  rw [htext, isValidPnpId_identifier ha hb hc] at hvalid
  obtain ⟨⟨f, rfl⟩, ⟨s, rfl⟩, ⟨t, rfl⟩⟩ := hvalid
  have hlow := low.toNat_lt
  have hhigh := high.toNat_lt
  have hproduct : (UInt16.ofNat (high.toNat * 256 + low.toNat)).toNat = high.toNat * 256 + low.toNat :=
    UInt16.toNat_ofNat_of_lt' (by show _ < 65536; omega)
  have hparts : (high.toNat * 256 + low.toNat) % 256 = low.toNat ∧
      (high.toNat * 256 + low.toNat) / 256 = high.toNat := by omega
  refine ⟨⟨f, s, t, .ofNat (high.toNat * 256 + low.toNat)⟩, ?_⟩
  rw [htext, PnpId.text_eq, hproduct, hparts.1, hparts.2, UInt8.ofNat_toNat, UInt8.ofNat_toNat]

/-- **Blocks and what they describe.** A block is read as what it describes, with a valid
identifier; what is kept of any block is read as the block was, and its identifier is valid
exactly where it is one of three letters and a number. -/
theorem parse_describes :
    (∀ d : Description, parse d.encode = .ok ⟨d.id.text, d.input &&& 0x80 ≠ 0, d.encode.take edidBlockLen, d.info⟩ ∧
        Context.isValidPnpId d.id.text = true) ∧
      ∀ (input : List UInt8) (block : EdidBlock), parse input = .ok block →
        parse block.raw = .ok block ∧
          (Context.isValidPnpId block.pnpId = true ↔ ∃ id : PnpId, block.pnpId = id.text) := by
  refine ⟨fun d => ⟨parse_encode d, isValidPnpId_text d.id⟩, fun input block h => ⟨(parse_raw h).2, ?_⟩⟩
  obtain ⟨-, -, rfl⟩ := parse_eq_ok.mp h
  exact isValidPnpId_pnpIdOf input

/-! ### A monitor -/

/-- The block of a `DEL40A0`, whose name is in its second descriptor. -/
def dellDescription : Description where
  id := ⟨3, 4, 11, 0x40a0⟩
  serialNumber := 0x12345678
  week := 22
  yearSince1990 := 30
  version := 1
  revision := 4
  input := 0xa5
  widthCm := 60
  heightCm := 34
  between := List.replicate 31 0
  slots := [.other (0x56 :: List.replicate 17 0) rfl rfl,
    .name ⟨utf8 "DELL U2723QE", [0x0a], rfl, by decide +kernel, by decide +kernel, by decide +kernel⟩,
    .serial ⟨utf8 "ABC123", [0x0a, 0x20, 0x20, 0x20, 0x20, 0x20, 0x20], rfl, by decide +kernel, by decide +kernel,
      by decide +kernel⟩,
    .other (List.replicate 18 0) rfl rfl]
  rest := [0, 0]
  length_between := rfl
  length_slots := rfl
  length_rest := Nat.le_refl 2

end DdcControl.Identification
