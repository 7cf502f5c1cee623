import Mathlib.Data.List.Induction
import Mathlib.Algebra.Order.Group.Nat
import Mathlib.Tactic.SplitIfs

/-!
# CBOR

The data items of RFC 8949 and their encoding with definite lengths and the shortest
form of every argument. Floating-point numbers are carried by their 64 bits and written
in that width.

`Value.encode` writes an item and `decode` reads one, given a bound on the nesting.

## What is proved

* `headBytes_eq`, `eq_headBytes` — a head is the shortest form of its argument, and
  the shortest form is unique.
* `decode_encode` — what is written is read back, and the bytes after it are left.
-/

namespace Cbor

/-! ### Big-endian numbers -/

/-- The `width` low bytes of a number, the highest first. -/
def bigEndian : ℕ → ℕ → List UInt8
  | 0, _ => []
  | width + 1, n => bigEndian width (n / 256) ++ [UInt8.ofNat (n % 256)]

/-- The number big-endian bytes spell. -/
def ofBigEndian (bytes : List UInt8) : ℕ := bytes.foldl (fun n byte => n * 256 + byte.toNat) 0

@[simp] theorem length_bigEndian (width n : ℕ) : (bigEndian width n).length = width := by
  induction width generalizing n with
  | zero => rfl
  | succ width ih => simp [bigEndian, ih]

theorem ofBigEndian_append (bytes : List UInt8) (byte : UInt8) :
    ofBigEndian (bytes ++ [byte]) = ofBigEndian bytes * 256 + byte.toNat := by
  simp [ofBigEndian, List.foldl_append]

/-- Big-endian bytes read back as their number. -/
theorem ofBigEndian_bigEndian {width n : ℕ} (h : n < 256 ^ width) :
    ofBigEndian (bigEndian width n) = n := by
  induction width generalizing n with
  | zero =>
    have : n = 0 := by simpa using h
    rw [this]
    rfl
  | succ width ih =>
    rw [Nat.pow_succ] at h
    rw [bigEndian, ofBigEndian_append, ih (Nat.div_lt_of_lt_mul (by rwa [Nat.mul_comm]))]
    simp only [UInt8.toNat_ofNat']
    omega

theorem ofBigEndian_lt (bytes : List UInt8) : ofBigEndian bytes < 256 ^ bytes.length := by
  induction bytes using List.reverseRecOn with
  | nil => simp [ofBigEndian]
  | append_singleton bytes byte ih =>
    have hbyte := byte.toNat_lt
    rw [ofBigEndian_append, List.length_append, List.length_singleton, Nat.pow_succ]
    omega

/-- Bytes are the big-endian bytes of the number they spell. -/
theorem bigEndian_ofBigEndian (bytes : List UInt8) :
    bigEndian bytes.length (ofBigEndian bytes) = bytes := by
  induction bytes using List.reverseRecOn with
  | nil => rfl
  | append_singleton bytes byte ih =>
    have hbyte := byte.toNat_lt
    have hdiv : (ofBigEndian bytes * 256 + byte.toNat) / 256 = ofBigEndian bytes := by omega
    have hmod : (ofBigEndian bytes * 256 + byte.toNat) % 256 = byte.toNat := by omega
    rw [List.length_append, List.length_singleton, bigEndian, ofBigEndian_append, hdiv, hmod, ih,
      UInt8.ofNat_toNat]

/-! ### Heads -/

/-- The bytes an argument takes after the initial byte, by the initial byte's low five
bits; `none` for the reserved and indefinite ones. -/
def argumentWidth (info : ℕ) : Option ℕ :=
  if info < 24 then some 0
  else if info < 28 then some (2 ^ (info - 24))
  else none

/-- The least argument that needs the width of an initial byte. -/
def leastArgument (info : ℕ) : ℕ :=
  if info < 24 then 0
  else if info = 24 then 24
  else if info = 25 then 2 ^ 8
  else if info = 26 then 2 ^ 16
  else 2 ^ 32

/-- The argument an initial byte and the bytes after it denote. -/
def argumentValue (info : ℕ) (bytes : List UInt8) : ℕ := if info < 24 then info else ofBigEndian bytes

/-- The low five bits of the initial byte of an argument's shortest form. -/
def shortestInfo (n : ℕ) : ℕ :=
  if n < 24 then n
  else if n < 2 ^ 8 then 24
  else if n < 2 ^ 16 then 25
  else if n < 2 ^ 32 then 26
  else 27

/-- The initial byte of an item. -/
def initialByte (major info : ℕ) : UInt8 := UInt8.ofNat (major * 32 + info)

/-- The head of an item: its major type, and its argument in shortest form. -/
def headBytes (major n : ℕ) : List UInt8 :=
  initialByte major (shortestInfo n) :: bigEndian ((argumentWidth (shortestInfo n)).getD 0) n

theorem shortestInfo_lt (n : ℕ) : shortestInfo n < 28 := by
  unfold shortestInfo
  split_ifs <;> omega

theorem initialByte_major {major info : ℕ} (hmajor : major < 8) (hinfo : info < 32) :
    (initialByte major info).toNat / 32 = major := by
  simp only [initialByte, UInt8.toNat_ofNat']
  omega

theorem initialByte_info {major info : ℕ} (hinfo : info < 32) :
    (initialByte major info).toNat % 32 = info := by
  simp only [initialByte, UInt8.toNat_ofNat']
  omega

theorem initialByte_toNat (byte : UInt8) : initialByte (byte.toNat / 32)
    (byte.toNat % 32) = byte := by
  have : byte.toNat / 32 * 32 + byte.toNat % 32 = byte.toNat := by omega
  rw [initialByte, this, UInt8.ofNat_toNat]

/-- What the head of an argument is: a width, that many bytes, and the argument back. -/
theorem headBytes_eq (major : ℕ) {n : ℕ} (hn : n < 2 ^ 64) :
    ∃ width bytes, headBytes major n = initialByte major (shortestInfo n) :: bytes ∧
      argumentWidth (shortestInfo n) = some width ∧ bytes.length = width ∧
      argumentValue (shortestInfo n) bytes = n ∧ leastArgument (shortestInfo n) ≤ n := by
  by_cases h0 : n < 24
  · have hinfo : shortestInfo n = n := by simp [shortestInfo, h0]
    rw [headBytes, hinfo]
    exact ⟨0, [], by simp [argumentWidth, h0, bigEndian], by simp [argumentWidth, h0],
      rfl, by simp [argumentValue, h0],
      by simp [leastArgument, h0]⟩
  · obtain ⟨width, hwidth, hlt, hleast⟩ : ∃ width, argumentWidth (shortestInfo n) = some width ∧ n < 256 ^ width ∧
        leastArgument (shortestInfo n) ≤ n := by
      unfold shortestInfo
      split_ifs with h1 h2 h3
      · exact ⟨1, rfl, by omega, by simp [leastArgument]; omega⟩
      · exact ⟨2, rfl, by omega, by simp [leastArgument]; omega⟩
      · exact ⟨4, rfl, by omega, by simp [leastArgument]; omega⟩
      · exact ⟨8, rfl, by omega, by simp [leastArgument]; omega⟩
    have hinfo : ¬shortestInfo n < 24 := by
      unfold shortestInfo
      split_ifs <;> omega
    refine ⟨width, bigEndian width n, by rw [headBytes, hwidth]; rfl, hwidth,
      length_bigEndian .., ?_, hleast⟩
    rw [argumentValue, if_neg hinfo, ofBigEndian_bigEndian hlt]

/-- An argument that needs a width and fits it has that width's shortest form. -/
theorem shortestInfo_eq {info width n : ℕ} (hinfo : ¬info < 24)
    (hwidth : argumentWidth info = some width) (hleast : leastArgument info ≤ n)
    (hlt : n < 256 ^ width) : shortestInfo n = info ∧ n < 2 ^ 64 := by
  have hcases : info = 24 ∨ info = 25 ∨ info = 26 ∨ info = 27 := by
    by_contra hnot
    rw [argumentWidth, if_neg hinfo, if_neg (by omega)] at hwidth
    cases hwidth
  rcases hcases with rfl | rfl | rfl | rfl <;> cases hwidth <;> simp [leastArgument] at hleast hlt <;>
    unfold shortestInfo <;> (refine ⟨?_, by omega⟩; split_ifs <;> omega)

/-- A head whose argument needs its width is the shortest form of its argument. -/
theorem eq_headBytes {byte : UInt8} {bytes : List UInt8} {width : ℕ}
    (hwidth : argumentWidth (byte.toNat % 32) = some width) (hlen : bytes.length = width)
    (hleast : leastArgument (byte.toNat % 32) ≤ argumentValue (byte.toNat % 32) bytes) :
    byte :: bytes = headBytes (byte.toNat / 32) (argumentValue (byte.toNat % 32) bytes) ∧
      argumentValue (byte.toNat % 32) bytes < 2 ^ 64 := by
  have hlt := ofBigEndian_lt bytes
  have hbytes := bigEndian_ofBigEndian bytes
  rw [hlen] at hlt hbytes
  by_cases h0 : byte.toNat % 32 < 24
  · rw [argumentValue, if_pos h0]
    have hinfo : shortestInfo (byte.toNat % 32) = byte.toNat % 32 := by simp [shortestInfo, h0]
    have hnil : bytes = [] := by
      rw [argumentWidth, if_pos h0, Option.some.injEq] at hwidth
      exact List.length_eq_zero_iff.mp (hlen.trans hwidth.symm)
    refine ⟨?_, by omega⟩
    rw [headBytes, hinfo, initialByte_toNat, argumentWidth, if_pos h0, hnil]
    rfl
  · rw [argumentValue, if_neg h0] at hleast ⊢
    obtain ⟨hinfo, h64⟩ := shortestInfo_eq h0 hwidth hleast hlt
    refine ⟨?_, h64⟩
    rw [headBytes, hinfo, initialByte_toNat, hwidth, Option.getD_some, hbytes]

/-! ### Data items -/

/-- A data item. -/
inductive Value where
  /-- A number `n`. -/
  | unsigned (n : UInt64)
  /-- The number `-1 - n`. -/
  | negative (n : UInt64)
  | bytes (s : List UInt8)
  | text (s : String)
  | array (items : List Value)
  | map (entries : List (Value × Value))
  | tag (n : UInt64) (content : Value)
  | bool (b : Bool)
  | null
  /-- A double-precision number by its bits. -/
  | float (bits : UInt64)

/-- Induction over items: a container inherits from what it contains. -/
@[elab_as_elim]
theorem Value.induction {motive : Value → Prop} (unsigned : ∀ n, motive (.unsigned n))
    (negative : ∀ n, motive (.negative n)) (bytes : ∀ s, motive (.bytes s))
    (text : ∀ s, motive (.text s))
    (array : ∀ items, (∀ v ∈ items, motive v) → motive (.array items))
    (map : ∀ entries, (∀ e ∈ entries, motive e.1 ∧ motive e.2) → motive (.map entries))
    (tag : ∀ n content, motive content → motive (.tag n content)) (bool : ∀ b, motive (.bool b))
    (null : motive .null) (float : ∀ bits, motive (.float bits)) (v : Value) : motive v :=
  Value.rec (motive_2 := fun items => ∀ v ∈ items, motive v)
    (motive_3 := fun entries => ∀ e ∈ entries, motive e.1 ∧ motive e.2)
    (motive_4 := fun e => motive e.1 ∧ motive e.2)
    unsigned negative bytes text array map tag bool null float
    (fun _ h => nomatch h) (fun _ _ hv hvs => List.forall_mem_cons.mpr ⟨hv, hvs⟩)
    (fun _ h => nomatch h) (fun _ _ he hes => List.forall_mem_cons.mpr ⟨he, hes⟩)
    (fun _ _ hk hv => ⟨hk, hv⟩) v

/-- The bytes of a text. -/
def textBytes (s : String) : List UInt8 := s.toByteArray.data.toList

mutual
/-- The encoding of an item. -/
def Value.encode : Value → List UInt8
  | .unsigned n => headBytes 0 n.toNat
  | .negative n => headBytes 1 n.toNat
  | .bytes s => headBytes 2 s.length ++ s
  | .text s => headBytes 3 (textBytes s).length ++ textBytes s
  | .array items => headBytes 4 items.length ++ encodeItems items
  | .map entries => headBytes 5 entries.length ++ encodeEntries entries
  | .tag n content => headBytes 6 n.toNat ++ content.encode
  | .bool b => headBytes 7 (if b then 21 else 20)
  | .null => headBytes 7 22
  | .float bits => initialByte 7 27 :: bigEndian 8 bits.toNat
/-- The encoding of items in a row. -/
def encodeItems : List Value → List UInt8
  | [] => []
  | v :: items => v.encode ++ encodeItems items
/-- The encoding of entries in a row. -/
def encodeEntries : List (Value × Value) → List UInt8
  | [] => []
  | (k, v) :: entries => k.encode ++ v.encode ++ encodeEntries entries
end

theorem encodeItems_eq (items : List Value) : encodeItems items = items.flatMap Value.encode := by
  induction items with
  | nil => rfl
  | cons v items ih => rw [encodeItems, ih, List.flatMap_cons]

theorem encodeEntries_eq (entries : List (Value × Value)) :
    encodeEntries entries = entries.flatMap fun e => e.1.encode ++ e.2.encode := by
  induction entries with
  | nil => rfl
  | cons e entries ih => rw [encodeEntries, ih, List.flatMap_cons]

mutual
/-- The items in an item, itself included. -/
def Value.size : Value → ℕ
  | .array items => sizeItems items + 1
  | .map entries => sizeEntries entries + 1
  | .tag _ content => content.size + 1
  | _ => 1
/-- The items in a row of items. -/
def sizeItems : List Value → ℕ
  | [] => 0
  | v :: items => v.size + sizeItems items
/-- The items in a row of entries. -/
def sizeEntries : List (Value × Value) → ℕ
  | [] => 0
  | (k, v) :: entries => k.size + v.size + sizeEntries entries
end

theorem encode_ne_nil (v : Value) : v.encode ≠ [] := by
  cases v <;> simp [Value.encode, headBytes]

theorem size_pos (v : Value) : 0 < v.size := by
  cases v <;> simp [Value.size]

/-- Items of the core model, without tags and floating-point numbers, nested at most
`room` deep, with lengths a head can state. -/
inductive Value.Plain : ℕ → Value → Prop
  | unsigned {room : ℕ} {n : UInt64} : Plain room (.unsigned n)
  | negative {room : ℕ} {n : UInt64} : Plain room (.negative n)
  | bytes {room : ℕ} {s : List UInt8} : s.length < 2 ^ 64 → Plain room (.bytes s)
  | text {room : ℕ} {s : String} : (textBytes s).length < 2 ^ 64 → Plain room (.text s)
  | array {room : ℕ} {items : List Value} : items.length < 2 ^ 64 → (∀ v ∈ items, Plain room v) →
      Plain (room + 1) (.array items)
  | map {room : ℕ} {entries : List (Value × Value)} : entries.length < 2 ^ 64 → (∀ e ∈ entries, Plain room e.1) →
      (∀ e ∈ entries, Plain room e.2) → Plain (room + 1) (.map entries)
  | bool {room : ℕ} {b : Bool} : Plain room (.bool b)
  | null {room : ℕ} : Plain room .null

theorem Value.Plain.mono {room room' : ℕ} {v : Value} (h : v.Plain room) (hle : room ≤ room') :
    v.Plain room' := by
  induction h generalizing room' with
  | unsigned => exact .unsigned
  | negative => exact .negative
  | bytes hlen => exact .bytes hlen
  | text hlen => exact .text hlen
  | array hlen _ ih =>
    obtain ⟨room', rfl⟩ := Nat.exists_eq_add_one_of_ne_zero (show room' ≠ 0 by omega)
    exact .array hlen fun v hv => ih v hv (by omega)
  | map hlen _ _ ihk ihv =>
    obtain ⟨room', rfl⟩ := Nat.exists_eq_add_one_of_ne_zero (show room' ≠ 0 by omega)
    exact .map hlen (fun e he => ihk e he (by omega)) fun e he => ihv e he (by omega)
  | bool => exact .bool
  | null => exact .null

/-! ### Reading -/

/-- A head: major type, low five bits, argument; and the bytes after it. -/
def readHead : List UInt8 → Option ((ℕ × ℕ × ℕ) × List UInt8)
  | [] => none
  | byte :: rest =>
    (argumentWidth (byte.toNat % 32)).bind fun width =>
      if width ≤ rest.length then
        some ((byte.toNat / 32, byte.toNat % 32, argumentValue (byte.toNat % 32) (rest.take width)), rest.drop width)
      else none

/-- That many bytes. -/
def readBytes (length : ℕ) (rest : List UInt8) : Option (List UInt8 × List UInt8) :=
  if length ≤ rest.length then some (rest.take length, rest.drop length) else none

/-- That many things in a row. -/
def readMany {α : Type} (read : List UInt8 → Option (α × List UInt8)) :
    ℕ → List UInt8 → Option (List α × List UInt8)
  | 0, rest => some ([], rest)
  | count + 1, rest => do
    let (a, rest) ← read rest
    let (as, rest) ← readMany read count rest
    return (a :: as, rest)

/-- A key and its value. -/
def readEntry (read : List UInt8 → Option (Value × List UInt8)) (rest : List UInt8) :
    Option ((Value × Value) × List UInt8) := do
  let (k, rest) ← read rest
  let (v, rest) ← read rest
  return ((k, v), rest)

/-- The item after a head, given a reader for what it contains. -/
def readContent (read : List UInt8 → Option (Value × List UInt8)) (major info n : ℕ) (rest : List UInt8) :
    Option (Value × List UInt8) :=
  match major with
  | 0 => some (.unsigned (UInt64.ofNat n), rest)
  | 1 => some (.negative (UInt64.ofNat n), rest)
  | 2 => (readBytes n rest).map fun (s, rest) => (.bytes s, rest)
  | 3 => do
    let (s, rest) ← readBytes n rest
    let s ← String.fromUTF8? ⟨s.toArray⟩
    return (.text s, rest)
  | 4 => (readMany read n rest).map fun (items, rest) => (.array items, rest)
  | 5 => (readMany (readEntry read) n rest).map fun (entries, rest) => (.map entries, rest)
  | 6 => (read rest).map fun (content, rest) => (.tag (UInt64.ofNat n) content, rest)
  | _ =>
    if info = 20 then some (.bool false, rest)
    else if info = 21 then some (.bool true, rest)
    else if info = 22 then some (.null, rest)
    else if info = 27 then some (.float (UInt64.ofNat n), rest)
    else none

/-- An item nested less than `fuel` deep, and the bytes after it. -/
def decode : ℕ → List UInt8 → Option (Value × List UInt8)
  | 0, _ => none
  | fuel + 1, input => do
    let ((major, info, n), rest) ← readHead input
    readContent (decode fuel) major info n rest

theorem readHead_headBytes {major n : ℕ} (hmajor : major < 8) (hn : n < 2 ^ 64)
    (rest : List UInt8) :
    readHead (headBytes major n ++ rest) = some ((major, shortestInfo n, n), rest) := by
  obtain ⟨width, bytes, hhead, hwidth, hlen, hvalue, -⟩ := headBytes_eq major hn
  have hinfo := shortestInfo_lt n
  rw [hhead, List.cons_append, readHead, initialByte_major hmajor (by omega),
    initialByte_info (by omega), hwidth, Option.bind_some,
    if_pos (by rw [List.length_append]; omega), ← hlen, List.take_left, List.drop_left, hvalue]

theorem readBytes_append (s rest : List UInt8) :
    readBytes s.length (s ++ rest) = some (s, rest) := by
  rw [readBytes, if_pos (by simp), List.take_left, List.drop_left]

/-- The rule of rows: what reads each thing back reads the row back. -/
theorem readMany_flatMap {α : Type} {read : List UInt8 → Option (α × List UInt8)}
    {write : α → List UInt8} {row : List α}
    (h : ∀ a ∈ row, ∀ rest, read (write a ++ rest) = some (a, rest)) (rest : List UInt8) :
    readMany read row.length (row.flatMap write ++ rest) = some (row, rest) := by
  induction row with
  | nil => rfl
  | cons a row ih =>
    rw [List.flatMap_cons, List.append_assoc, List.length_cons, readMany,
      h a (List.mem_cons_self ..)]
    have := ih fun b hb => h b (List.mem_cons_of_mem _ hb)
    simp [this]

/-- A text is read back from its bytes. -/
theorem fromUTF8?_textBytes (s : String) : String.fromUTF8? ⟨(textBytes s).toArray⟩ = some s := by
  have : (⟨(textBytes s).toArray⟩ : ByteArray) = s.toByteArray := by simp [textBytes]
  rw [this, String.fromUTF8?, dif_pos s.isValidUTF8]
  rfl

/-- The bytes a text was read from are its bytes. -/
theorem textBytes_of_fromUTF8? {bytes : List UInt8} {s : String}
    (h : String.fromUTF8? ⟨bytes.toArray⟩ = some s) : textBytes s = bytes := by
  rw [String.fromUTF8?] at h
  split_ifs at h with hvalid
  cases h
  rfl

theorem decode_headBytes {fuel major n : ℕ} (hn : n < 2 ^ 64) (hmajor : major < 8)
    (rest : List UInt8) :
    decode (fuel + 1)
      (headBytes major n ++ rest) = readContent (decode fuel) major (shortestInfo n) n rest := by
  simp [decode, readHead_headBytes hmajor hn]

/-- **What is written is read back**, and the bytes after it are left. -/
theorem decode_encode {room : ℕ} {v : Value} (h : v.Plain room) (rest : List UInt8) :
    decode (room + 1) (v.encode ++ rest) = some (v, rest) := by
  induction h generalizing rest with
  | @unsigned _ n => simp [Value.encode, decode_headBytes, readContent, n.toNat_lt]
  | @negative _ n => simp [Value.encode, decode_headBytes, readContent, n.toNat_lt]
  | bytes hlen => simp [Value.encode, decode_headBytes hlen, readContent, readBytes_append]
  | text hlen => simp [Value.encode, decode_headBytes hlen, readContent, readBytes_append,
    fromUTF8?_textBytes]
  | array hlen _ ih =>
    simp [Value.encode, decode_headBytes hlen, readContent, encodeItems_eq, readMany_flatMap ih]
  | @map room entries hlen _ _ ihk ihv =>
    have hentry : ∀ e ∈ entries, ∀ rest, readEntry (decode (room + 1)) (e.1.encode ++ e.2.encode ++
        rest) = some (e, rest) := by
      intro e he rest
      rw [List.append_assoc, readEntry]
      simp [ihk e he, ihv e he]
    simp [Value.encode, decode_headBytes hlen, readContent, encodeEntries_eq,
      readMany_flatMap hentry]
  | @bool _ b => cases b <;> simp [Value.encode, decode_headBytes, readContent, shortestInfo]
  | null => simp [Value.encode, decode_headBytes, readContent, shortestInfo]

end Cbor
