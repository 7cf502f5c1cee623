import DdcControl.Library.Fallible
import DdcControl.Wire.Deterministic

/-!
# The byte preflight

`preflight` walks the bytes of a database before any general decoder sees them, and
`value` then decodes them. The walk keeps the bytes left and the items counted.

## The model

`Ciborium` is the encoder and decoder the program links: what it writes, piece by
piece, and what it reads, on items of the core model. `Ciborium.reference` is one.
A `usize` has 64 bits. A position cannot overflow, since a file has a limit.

## What is proved

`preflight_eq_ok` — the walk succeeds on the encodings of the deterministic values
within the limits, and on nothing else: of one item, `item_eq_ok`; of the items of a
container, `arrayItems_eq_ok` and `mapEntries_eq_ok`.
-/

namespace DdcControl.Wire

open Cbor Fallible

/-- The CBOR implementation: the pieces `into_writer` writes an item in, and what
`from_reader` makes of bytes. -/
structure Ciborium where
  intoWriter : Value → List (List UInt8)
  fromReader : List UInt8 → Except String Value
  /-- It writes definite lengths and shortest forms. -/
  writes_shortest : ∀ (room : ℕ) (v : Value), v.Plain room → (intoWriter v).flatten = v.encode
  /-- It reads what is so written, nested as deep as its recursion limit allows. -/
  reads_back : ∀ v : Value, v.Plain 128 → fromReader v.encode = .ok v

/-- An implementation. -/
def Ciborium.reference : Ciborium where
  intoWriter v := [v.encode]
  fromReader bytes :=
    match decode 129 bytes with
    | some (v, []) => .ok v
    | _ => .error "Semantic(None, \"invalid type\")"
  writes_shortest _ v _ := List.append_nil v.encode
  reads_back v h := by
    have := decode_encode h []
    rw [List.append_nil] at this
    rw [this]

/-- `Preflight`: the bytes from the position on, and the items counted. -/
structure Preflight where
  rest : List UInt8
  items : ℕ

/-- `Preflight::take`. -/
def Preflight.take (check : Preflight) (length : ℕ) : Except String (List UInt8 × Preflight) :=
  if length ≤ check.rest.length then
    .ok (check.rest.take length, { check with rest := check.rest.drop length })
  else .error "truncated CBOR"

/-- `self.take(1)?[0]`. -/
def Preflight.byte (check : Preflight) : Except String (UInt8 × Preflight) := do
  let (bytes, check) ← check.take 1
  let byte ← orError bytes.head? "truncated CBOR"
  return (byte, check)

/-- The argument of a head, and the least argument of its width. -/
def Preflight.argument (check : Preflight) (info : ℕ) : Except String ((ℕ × ℕ) × Preflight) :=
  if info ≤ 23 then .ok ((info, 0), check)
  else if info = 24 then (check.take 1).map fun (bytes, check) => ((ofBigEndian bytes, 24), check)
  else if info = 25 then (check.take 2).map fun (bytes, check) => ((ofBigEndian bytes, 256), check)
  else if info = 26 then (check.take 4).map fun (bytes, check) => ((ofBigEndian bytes, 65536), check)
  else if info = 27 then (check.take 8).map fun (bytes, check) => ((ofBigEndian bytes, 2 ^ 32), check)
  else .error "CBOR indefinite/reserved length is forbidden"

/-- An argument, which must be in shortest form. -/
def Preflight.shortestArgument (check : Preflight) (info : ℕ) : Except String (ℕ × Preflight) := do
  let ((argument, minimum), check) ← check.argument info
  reject (argument < minimum) "CBOR argument is not shortest form"
  return (argument, check)

/-- A byte string or a text. -/
def Preflight.string (check : Preflight) (major length : ℕ) : Except String Preflight := do
  let maximum := if major = 2 then maxBytes else maxText
  reject (length > maximum) "CBOR string limit exceeded"
  let (bytes, check) ← check.take length
  reject (major = 3 && (String.fromUTF8? ⟨bytes.toArray⟩).isNone) "CBOR invalid UTF-8"
  return check

/-- The loop over the items of an array. -/
def Preflight.arrayItems (item : Preflight → Except String Preflight) : ℕ → Preflight → Except String Preflight
  | 0, check => .ok check
  | length + 1, check => do
    let check ← item check
    arrayItems item length check

/-- The loop over the entries of a map, with the previous key as it is written. -/
def Preflight.mapEntries (item : Preflight → Except String Preflight) :
    ℕ → Option (List UInt8) → Preflight → Except String Preflight
  | 0, _, check => .ok check
  | length + 1, previous, check => do
    let start := check.rest
    let first ← orError start.head? "truncated CBOR map key"
    reject (first.toNat / 32 ≠ 0 && first.toNat / 32 ≠ 3) "CBOR map keys must be unsigned integers or text"
    let check ← item check
    let encoded := start.take (start.length - check.rest.length)
    reject (previous.any fun key => key ≥ encoded) "CBOR duplicate or non-bytewise-ordered map key"
    let check ← item check
    mapEntries item length (some encoded) check

/-- An array or a map, given the check of an item inside. -/
def Preflight.container (item : Preflight → Except String Preflight) (check : Preflight) (major length : ℕ) :
    Except String Preflight := do
  let items := length * (if major = 5 then 2 else 1)
  reject (items > usizeMax) "CBOR length overflow"
  reject (length > maxContainer || items > maxItems - check.items || items > check.rest.length)
    "CBOR container/item limit or truncated container"
  if major = 5 then check.mapEntries item length none else check.arrayItems item length

/-- What follows a head other than a simple value's or a tag's. -/
def Preflight.content (item : Preflight → Except String Preflight) (check : Preflight) (major argument : ℕ) :
    Except String Preflight :=
  if major ≤ 1 then .ok check
  else if major ≤ 3 then check.string major argument
  else check.container item major argument

/-- `Preflight::item`. -/
def Preflight.item (depth : ℕ) (check : Preflight) : Except String Preflight :=
  if depth > maxDepth ∨ check.items ≥ maxItems then .error "CBOR nesting/item limit exceeded"
  else do
    let (head, check) ← Preflight.byte { check with items := check.items + 1 }
    let major := head.toNat / 32
    let info := head.toNat % 32
    if major = 7 then
      if 20 ≤ info ∧ info ≤ 22 then return check
      else throw "CBOR floating point/simple value is forbidden"
    else if major = 6 then throw "CBOR tags are forbidden"
    else do
      let (argument, check) ← check.shortestArgument info
      check.content (Preflight.item (depth + 1)) major argument
termination_by maxDepth + 1 - depth
decreasing_by omega

/-- `preflight`. -/
def preflight (bytes : List UInt8) : Except String Unit := do
  reject (bytes.length > maxFile) "CBOR file limit exceeded"
  let check ← Preflight.item 0 ⟨bytes, 0⟩
  reject (!check.rest.isEmpty) "CBOR extra bytes after root value"

/-- `value`. -/
def value (c : Ciborium) (bytes : List UInt8) : Except String Value := do
  preflight bytes
  (c.fromReader bytes).mapError fun error => "CBOR decode: " ++ error

/-! ### Heads -/

/-- A check took these bytes off, and counted this many items. -/
def Preflight.Takes (check : Preflight) (bytes : List UInt8) (size : ℕ) (check' : Preflight) : Prop :=
  check.rest = bytes ++ check'.rest ∧ check'.items = check.items + size

namespace Preflight

variable {check check' : Preflight}

theorem Takes.trans {middle : Preflight} {bytes bytes' : List UInt8} {size size' : ℕ}
    (h : check.Takes bytes size middle) (h' : middle.Takes bytes' size' check') :
    check.Takes (bytes ++ bytes') (size + size') check' :=
  ⟨by rw [h.1, h'.1, List.append_assoc], by rw [h'.2, h.2, Nat.add_assoc]⟩

/-- What was taken together was taken one after the other. -/
theorem Takes.split {bytes bytes' : List UInt8} {size size' : ℕ}
    (h : check.Takes (bytes ++ bytes') (size + size') check') :
    ∃ middle, check.Takes bytes size middle ∧ middle.Takes bytes' size' check' :=
  ⟨⟨bytes' ++ check'.rest, check.items + size⟩, ⟨by rw [h.1, List.append_assoc], rfl⟩,
    ⟨rfl, by rw [h.2, Nat.add_assoc]⟩⟩

/-- What was taken after a head counted nothing more. -/
theorem Takes.split_head {bytes bytes' : List UInt8} {size : ℕ}
    (h : check.Takes (bytes ++ bytes') size check') :
    ∃ middle, check.Takes bytes size middle ∧ middle.Takes bytes' 0 check' := Takes.split h

theorem take_eq_ok {length : ℕ} {bytes : List UInt8} :
    check.take length = .ok (bytes, check') ↔ bytes.length = length ∧
    check.Takes bytes 0 check' := by
  obtain ⟨rest, items⟩ := check
  obtain ⟨rest', items'⟩ := check'
  unfold take Takes
  constructor
  · intro h
    split_ifs at h with hlen
    cases h
    exact ⟨List.length_take_of_le hlen, (List.take_append_drop length rest).symm, rfl⟩
  · rintro ⟨rfl, hrest, hitems⟩
    simp only at hrest hitems
    rw [if_pos (by simp [hrest]), hrest, hitems, List.take_left, List.drop_left, Nat.add_zero]

theorem byte_eq_ok {byte : UInt8} : check.byte = .ok (byte, check') ↔
    check.Takes [byte] 0 check' := by
  simp only [Preflight.byte, bind_eq_ok, Prod.exists, take_eq_ok, orError_eq_ok]
  constructor
  · rintro ⟨bytes, middle, ⟨hlen, htakes⟩, first, hfirst, h⟩
    cases h
    obtain ⟨b, rfl⟩ := List.length_eq_one_iff.mp hlen
    cases hfirst
    exact htakes
  · rintro htakes
    exact ⟨[byte], check', ⟨rfl, htakes⟩, byte, rfl, rfl⟩

/-- The argument is read by the width its initial byte states. -/
theorem argument_eq_ok {info n minimum : ℕ} :
    check.argument info = .ok ((n, minimum), check') ↔
      ∃ width bytes, argumentWidth info = some width ∧ check.take width = .ok (bytes, check') ∧
        n = argumentValue info bytes ∧ minimum = leastArgument info := by
  have hmap : ∀ width least, (check.take width).map (fun x => ((ofBigEndian x.1, least), x.2)) =
      .ok ((n, minimum), check') ↔ ∃ bytes, check.take width = .ok (bytes, check') ∧ n = ofBigEndian bytes ∧
        minimum = least := by
    intro width least
    cases check.take width with
    | error e => simp [Except.map]
    | ok x => simp [Except.map, Prod.ext_iff]; grind
  unfold argument
  by_cases h0 : info ≤ 23
  · rw [if_pos h0, argumentWidth, if_pos (by omega)]
    have hzero : check.take 0 = .ok ([], check) := take_eq_ok.mpr ⟨rfl, rfl, rfl⟩
    simp [hzero, argumentValue, leastArgument, show info < 24 by omega]
    grind
  · have hlt : ¬info < 24 := by omega
    by_cases h24 : info = 24
    · subst h24; simp [argumentWidth, argumentValue, leastArgument, hmap]
    by_cases h25 : info = 25
    · subst h25; simp [argumentWidth, argumentValue, leastArgument, hmap]
    by_cases h26 : info = 26
    · subst h26; simp [argumentWidth, argumentValue, leastArgument, hmap]
    by_cases h27 : info = 27
    · subst h27; simp [argumentWidth, argumentValue, leastArgument, hmap]
    simp [h0, h24, h25, h26, h27, argumentWidth, hlt, show ¬info < 28 by omega]

/-- **A head is read where it is the shortest form of its argument**, and only there. -/
theorem shortestArgument_eq_ok {byte : UInt8} {n : ℕ} :
    check.shortestArgument (byte.toNat % 32) = .ok (n, check') ↔
      byte :: check.rest = headBytes (byte.toNat / 32) n ++ check'.rest ∧ n < 2 ^ 64 ∧
        check'.items = check.items := by
  unfold shortestArgument
  rw [bind_eq_ok]
  constructor
  · rintro ⟨⟨⟨m, minimum⟩, middle⟩, harg, h⟩
    obtain ⟨width, bytes, hwidth, htake, rfl, rfl⟩ := argument_eq_ok.mp harg
    obtain ⟨hlen, hrest, hitems⟩ := take_eq_ok.mp htake
    obtain ⟨_, hleast, h⟩ := bind_eq_ok.mp h
    cases h
    rw [reject_eq_ok, decide_eq_false_iff_not, Nat.not_lt] at hleast
    obtain ⟨hhead, hlt⟩ := eq_headBytes hwidth hlen hleast
    exact ⟨by rw [hrest, ← hhead]; rfl, hlt, hitems⟩
  · rintro ⟨hrest, hn, hitems⟩
    obtain ⟨width, bytes, hhead, hwidth, hlen, hvalue, hleast⟩ := headBytes_eq (byte.toNat / 32) hn
    rw [hhead, List.cons_append, List.cons.injEq] at hrest
    obtain ⟨hbyte, hrest⟩ := hrest
    have hinfo : byte.toNat % 32 = shortestInfo n := by
      have := shortestInfo_lt n
      rw [hbyte, initialByte_info (by omega)]
    rw [hinfo]
    refine ⟨((n, leastArgument (shortestInfo n)), check'), ?_, ?_⟩
    · exact argument_eq_ok.mpr ⟨width, bytes, hwidth, take_eq_ok.mpr ⟨hlen, hrest, hitems⟩,
        hvalue.symm, rfl⟩
    · rw [bind_eq_ok]
      exact ⟨(), by simpa using hleast, rfl⟩

/-! ### Strings -/

theorem bytes_eq_ok {length : ℕ} :
    check.string 2 length = .ok check' ↔
      length ≤ maxBytes ∧ ∃ s : List UInt8, s.length = length ∧ check.Takes s 0 check' := by
  simp only [string, bind_eq_ok, reject_eq_ok, Prod.exists, take_eq_ok]
  constructor
  · rintro ⟨-, hlen, s, middle, hs, -, -, h⟩
    cases h
    exact ⟨by simpa using hlen, s, hs⟩
  · rintro ⟨hlen, s, hs⟩
    exact ⟨(), by simpa using hlen, s, check', hs, (), rfl, rfl⟩

theorem text_eq_ok {length : ℕ} :
    check.string 3 length = .ok check' ↔
      length ≤ maxText ∧ ∃ s : String, (textBytes s).length = length ∧ check.Takes (textBytes s) 0 check' := by
  simp only [string, bind_eq_ok, reject_eq_ok, Prod.exists, take_eq_ok]
  constructor
  · rintro ⟨-, hlen, bytes, middle, hs, -, hutf8, h⟩
    cases h
    obtain ⟨s, hs'⟩ : ∃ s, String.fromUTF8? ⟨bytes.toArray⟩ = some s := by
      rw [← Option.isSome_iff_exists]
      simpa using hutf8
    have hbytes := textBytes_of_fromUTF8? hs'
    exact ⟨by simpa using hlen, s, hbytes ▸ hs⟩
  · rintro ⟨hlen, s, hs⟩
    exact ⟨(), by simpa using hlen, textBytes s, check', hs, (), by simp [fromUTF8?_textBytes], rfl⟩

/-! ### Containers -/

/-- The major type of an item shows in its first byte. -/
theorem isKey_iff_head {k : Value} {rest : List UInt8} {first : UInt8}
    (h : (k.encode ++ rest).head? = some first) :
    isKey k = true ↔ first.toNat / 32 = 0 ∨ first.toNat / 32 = 3 := by
  have hmajor : ∀ {major n} {after : List UInt8}, major < 8 → (headBytes major n ++ after).head? = some first →
      first.toNat / 32 = major := by
    intro major n after hlt hhead
    have hinfo := shortestInfo_lt n
    rw [headBytes, List.cons_append, List.head?_cons, Option.some.injEq] at hhead
    rw [← hhead, initialByte_major hlt (by omega)]
  have hencode : ∃ major n after, k.encode = headBytes major n ++ after ∧ major < 8 ∧
      (isKey k = true ↔ major = 0 ∨ major = 3) ∨ k.encode = initialByte 7 27 :: after ∧
      isKey k = false := by
    cases k with
    | float bits => exact ⟨0, 0, _, .inr ⟨rfl, rfl⟩⟩
    | unsigned n => exact ⟨0, _, [], .inl ⟨(List.append_nil _).symm, by decide, by simp [isKey]⟩⟩
    | negative n => exact ⟨1, _, [], .inl ⟨(List.append_nil _).symm, by decide, by simp [isKey]⟩⟩
    | bytes s => exact ⟨2, _, _, .inl ⟨rfl, by decide, by simp [isKey]⟩⟩
    | text s => exact ⟨3, _, _, .inl ⟨rfl, by decide, by simp [isKey]⟩⟩
    | array items => exact ⟨4, _, _, .inl ⟨rfl, by decide, by simp [isKey]⟩⟩
    | map entries => exact ⟨5, _, _, .inl ⟨rfl, by decide, by simp [isKey]⟩⟩
    | tag n content => exact ⟨6, _, _, .inl ⟨rfl, by decide, by simp [isKey]⟩⟩
    | bool b => exact ⟨7, _, [], .inl ⟨(List.append_nil _).symm, by decide, by simp [isKey]⟩⟩
    | null => exact ⟨7, _, [], .inl ⟨(List.append_nil _).symm, by decide, by simp [isKey]⟩⟩
  obtain ⟨major, n, after, ⟨hk, hlt, hkey⟩ | ⟨hk, hkey⟩⟩ := hencode
  · rw [hk, List.append_assoc] at h
    rw [hkey, hmajor hlt h]
  · rw [hk, List.cons_append, List.head?_cons, Option.some.injEq] at h
    rw [hkey, ← h, initialByte_major (by decide) (by decide)]
    decide

/-- `item` takes off the deterministic values under `depth` containers. -/
def Reads (item : Preflight → Except String Preflight) (depth : ℕ) : Prop :=
  ∀ check check', item check = .ok check' ↔
    ∃ v, Deterministic depth v ∧ check.Takes v.encode v.size check' ∧ check'.items ≤ maxItems

variable {item : Preflight → Except String Preflight} {depth : ℕ}

theorem arrayItems_eq_ok (hitem : Reads item depth) {length : ℕ} (hmax : check.items ≤ maxItems) :
    arrayItems item length check = .ok check' ↔
      ∃ vs : List Value, vs.length = length ∧ (∀ v ∈ vs, Deterministic depth v) ∧
        check.Takes (encodeItems vs) (sizeItems vs) check' ∧ check'.items ≤ maxItems := by
  induction length generalizing check with
  | zero =>
    constructor
    · intro h
      cases h
      exact ⟨[], rfl, by simp, ⟨rfl, rfl⟩, hmax⟩
    · rintro ⟨vs, hlen, -, ⟨hrest, hitems⟩, -⟩
      rw [List.length_eq_zero_iff] at hlen
      subst hlen
      exact congrArg Except.ok (by cases check; cases check'; simp_all [encodeItems, sizeItems])
  | succ length ih =>
    rw [arrayItems, bind_eq_ok]
    constructor
    · rintro ⟨middle, hhead, htail⟩
      obtain ⟨v, hv, htakes, hmiddle⟩ := (hitem _ _).mp hhead
      obtain ⟨vs, hlen, hvs, htakes', hmax'⟩ := (ih hmiddle).mp htail
      exact ⟨v :: vs, by rw [List.length_cons, hlen], List.forall_mem_cons.mpr ⟨hv, hvs⟩,
        htakes.trans htakes', hmax'⟩
    · rintro ⟨vs, hlen, hvs, htakes, hmax'⟩
      cases vs with
      | nil => cases hlen
      | cons v vs =>
        rw [encodeItems, sizeItems] at htakes
        obtain ⟨middle, hhead, htail⟩ := htakes.split
        have hmiddle : middle.items ≤ maxItems := by have := htail.2; omega
        rw [List.forall_mem_cons] at hvs
        exact ⟨middle, (hitem _ _).mpr ⟨v, hvs.1, hhead, hmiddle⟩,
          (ih hmiddle).mpr ⟨vs, by simpa using hlen, hvs.2, htail, hmax'⟩⟩

theorem mapEntries_eq_ok (hitem : Reads item depth) {length : ℕ} {previous : Option (List UInt8)}
    (hmax : check.items ≤ maxItems) :
    mapEntries item length previous check = .ok check' ↔
      ∃ es : List (Value × Value), es.length = length ∧ (∀ e ∈ es, isKey e.1 = true) ∧
        (∀ e ∈ es, Deterministic depth e.1) ∧ (∀ e ∈ es, Deterministic depth e.2) ∧
        (es.map entryKey).Pairwise (· < ·) ∧ (∀ p ∈ previous, ∀ e ∈ es, p < entryKey e) ∧
        check.Takes (encodeEntries es) (sizeEntries es) check' ∧ check'.items ≤ maxItems := by
  induction length generalizing check previous with
  | zero =>
    constructor
    · intro h
      cases h
      exact ⟨[], rfl, by simp, by simp, by simp, by simp, by simp, ⟨rfl, rfl⟩, hmax⟩
    · rintro ⟨es, hlen, -, -, -, -, -, ⟨hrest, hitems⟩, -⟩
      rw [List.length_eq_zero_iff] at hlen
      subst hlen
      exact congrArg Except.ok (by cases check; cases check'; simp_all [encodeEntries, sizeEntries])
  | succ length ih =>
    simp only [mapEntries, bind_eq_ok, orError_eq_ok, reject_eq_ok]
    constructor
    · rintro ⟨first, hfirst, -, hkind, middle, hkey, -, hprevious, last, hvalue, htail⟩
      obtain ⟨k, hk, htakes, hmiddle⟩ := (hitem _ _).mp hkey
      obtain ⟨v, hv, htakes', hlast⟩ := (hitem _ _).mp hvalue
      have hencoded : check.rest.take (check.rest.length - middle.rest.length) = k.encode := by
        rw [htakes.1, List.length_append, Nat.add_sub_cancel, List.take_left]
      rw [hencoded] at hprevious htail
      obtain ⟨es, hlen, hkinds, hkeys, hvalues, horder, hlt, htakes'', hmax'⟩ := (ih hlast).mp htail
      have hk_lt : ∀ e ∈ es, k.encode < entryKey e := hlt _ rfl
      have hk_isKey : isKey k = true := by
        rw [htakes.1] at hfirst
        rw [isKey_iff_head hfirst]
        simp at hkind
        omega
      have hp_lt : ∀ p ∈ previous, p < k.encode := by
        intro p hp
        cases hp
        simpa using hprevious
      refine ⟨(k, v) :: es, by rw [List.length_cons, hlen],
        List.forall_mem_cons.mpr ⟨hk_isKey, hkinds⟩,
        List.forall_mem_cons.mpr ⟨hk, hkeys⟩, List.forall_mem_cons.mpr ⟨hv, hvalues⟩, ?_, ?_, ?_, hmax'⟩
      · exact List.pairwise_cons.mpr ⟨List.forall_mem_map.mpr hk_lt, horder⟩
      · intro p hp
        exact List.forall_mem_cons.mpr ⟨hp_lt p hp,
          fun e he => List.lt_trans (hp_lt p hp) (hk_lt e he)⟩
      · rw [encodeEntries, sizeEntries]
        exact (htakes.trans htakes').trans htakes''
    · rintro ⟨es, hlen, hkinds, hkeys, hvalues, horder, hlt, htakes, hmax'⟩
      cases es with
      | nil => cases hlen
      | cons e es =>
        obtain ⟨k, v⟩ := e
        rw [encodeEntries, sizeEntries] at htakes
        obtain ⟨last, hentry, htail⟩ := htakes.split
        obtain ⟨middle, hkey, hvalue⟩ := hentry.split
        rw [List.forall_mem_cons] at hkinds hkeys hvalues
        rw [List.map_cons, List.pairwise_cons, List.forall_mem_map] at horder
        have hlast : last.items ≤ maxItems := by have := htail.2; omega
        have hmiddle : middle.items ≤ maxItems := by have := hvalue.2; omega
        have hencoded : check.rest.take (check.rest.length - middle.rest.length) = k.encode := by
          rw [hkey.1, List.length_append, Nat.add_sub_cancel, List.take_left]
        obtain ⟨first, hfirst⟩ : ∃ first, check.rest.head? = some first := by
          rw [← Option.isSome_iff_exists, List.isSome_head?, hkey.1]
          simp [encode_ne_nil]
        have hkind := isKey_iff_head (hkey.1 ▸ hfirst)
        refine ⟨first, hfirst, (), ?_, middle, (hitem _ _).mpr ⟨k, hkeys.1, hkey, hmiddle⟩, (),
          ?_, last,
          (hitem _ _).mpr ⟨v, hvalues.1, hvalue, hlast⟩, ?_⟩
        · have := hkind.mp hkinds.1
          simp
          omega
        · rw [hencoded]
          cases previous with
          | none => rfl
          | some p => simpa [entryKey] using (List.forall_mem_cons.mp (hlt p rfl)).1
        · rw [hencoded]
          exact (ih hlast).mpr ⟨es, by simpa using hlen, hkinds.2, hkeys.2, hvalues.2, horder.2,
            fun p hp => by cases hp; exact horder.1, htail, hmax'⟩

/-- Things in a row that take a byte and count as an item each. -/
theorem length_le_flatMap {α : Type} {write : α → List UInt8} {n : ℕ} {row : List α}
    (h : ∀ a ∈ row, n ≤ (write a).length) : row.length * n ≤ (row.flatMap write).length := by
  induction row with
  | nil => simp
  | cons a row ih =>
    rw [List.forall_mem_cons] at h
    have := ih h.2
    rw [List.flatMap_cons, List.length_append, List.length_cons, Nat.succ_mul]
    omega

theorem length_le_sum {α : Type} {size : α → ℕ} {n : ℕ} {row : List α} (h : ∀ a ∈ row, n ≤ size a) :
    row.length * n ≤ (row.map size).sum := by
  induction row with
  | nil => simp
  | cons a row ih =>
    rw [List.forall_mem_cons] at h
    have := ih h.2
    rw [List.map_cons, List.sum_cons, List.length_cons, Nat.succ_mul]
    omega

theorem array_eq_ok (hitem : Reads item depth) {length : ℕ} (hmax : check.items ≤ maxItems) :
    check.container item 4 length = .ok check' ↔
      length ≤ maxContainer ∧ ∃ vs : List Value, vs.length = length ∧ (∀ v ∈ vs, Deterministic depth v) ∧
        check.Takes (encodeItems vs) (sizeItems vs) check' ∧ check'.items ≤ maxItems := by
  have hcontainer : maxContainer < usizeMax := by decide
  simp only [container, bind_eq_ok, reject_eq_ok, reduceIte, Nat.reduceEqDiff,
    arrayItems_eq_ok hitem hmax]
  simp only [Bool.or_eq_false_iff, decide_eq_false_iff_not, Nat.not_lt, Nat.mul_one]
  constructor
  · rintro ⟨-, -, -, ⟨⟨hlen, -⟩, -⟩, h⟩
    exact ⟨hlen, h⟩
  · rintro ⟨hlen, vs, rfl, hvs, htakes, hmax'⟩
    have hbytes := length_le_flatMap (n := 1) fun v (_ : v ∈ vs) =>
      List.length_pos_iff.mpr (encode_ne_nil v)
    have hsize := length_le_sum (n := 1) fun v (_ : v ∈ vs) => size_pos v
    have hrest := congrArg List.length htakes.1
    have hitems := htakes.2
    rw [encodeItems_eq, List.length_append] at hrest
    rw [sizeItems_eq] at hitems
    exact ⟨(), by omega, (), ⟨⟨hlen, by omega⟩, by omega⟩, vs, rfl, hvs, htakes, hmax'⟩

theorem map_eq_ok (hitem : Reads item depth) {length : ℕ} (hmax : check.items ≤ maxItems) :
    check.container item 5 length = .ok check' ↔
      length ≤ maxContainer ∧ ∃ es : List (Value × Value), es.length = length ∧ (∀ e ∈ es, isKey e.1 = true) ∧
        (∀ e ∈ es, Deterministic depth e.1) ∧ (∀ e ∈ es, Deterministic depth e.2) ∧
        (es.map entryKey).Pairwise (· < ·) ∧ check.Takes (encodeEntries es)
          (sizeEntries es) check' ∧
        check'.items ≤ maxItems := by
  have hcontainer : maxContainer * 2 < usizeMax := by decide
  simp only [container, bind_eq_ok, reject_eq_ok, reduceIte, mapEntries_eq_ok hitem hmax]
  simp only [Bool.or_eq_false_iff, decide_eq_false_iff_not, Nat.not_lt]
  constructor
  · rintro ⟨-, -, -, ⟨⟨hlen, -⟩, -⟩, es, hes, hkinds, hkeys, hvalues, horder, -, h⟩
    exact ⟨hlen, es, hes, hkinds, hkeys, hvalues, horder, h⟩
  · rintro ⟨hlen, es, rfl, hkinds, hkeys, hvalues, horder, htakes, hmax'⟩
    have hbytes : es.length * 2 ≤ (es.flatMap fun e => e.1.encode ++ e.2.encode).length := by
      refine length_le_flatMap fun e _ => ?_
      have hk := List.length_pos_iff.mpr (encode_ne_nil e.1)
      have hv := List.length_pos_iff.mpr (encode_ne_nil e.2)
      rw [List.length_append]
      omega
    have hsize : es.length * 2 ≤ (es.map fun e => e.1.size + e.2.size).sum :=
      length_le_sum fun e _ => Nat.add_le_add (size_pos e.1) (size_pos e.2)
    have hrest := congrArg List.length htakes.1
    have hitems := htakes.2
    rw [encodeEntries_eq, List.length_append] at hrest
    rw [sizeEntries_eq] at hitems
    exact ⟨(), by omega, (), ⟨⟨hlen, by omega⟩, by omega⟩, es, rfl, hkinds, hkeys, hvalues, horder,
      by simp, htakes, hmax'⟩

/-! ### Items -/

/-- An item is a simple value, or a head and what follows it. -/
theorem item_head_iff :
    Preflight.item depth check = .ok check' ↔ depth ≤ maxDepth ∧ check.items < maxItems ∧
      ((∃ info, 20 ≤ info ∧ info ≤ 22 ∧ check.Takes (headBytes 7 info) 1 check') ∨
        ∃ major n middle, major ≤ 5 ∧ n < 2 ^ 64 ∧ check.Takes (headBytes major n) 1 middle ∧
          middle.content (Preflight.item (depth + 1)) major n = .ok check') := by
  have hsimple : ∀ info, info < 24 → headBytes 7 info = [initialByte 7 info] := by
    intro info h
    simp [headBytes, shortestInfo, h, argumentWidth, bigEndian]
  rw [Preflight.item]
  by_cases hlimit : depth > maxDepth ∨ check.items ≥ maxItems
  · rw [if_pos hlimit]
    constructor
    · intro h; cases h
    · rintro ⟨hdepth, hitems, -⟩; omega
  rw [if_neg hlimit, bind_eq_ok]
  constructor
  · rintro ⟨⟨byte, after⟩, htake, h⟩
    obtain ⟨hrest, hitems⟩ := byte_eq_ok.mp htake
    dsimp only at h
    refine ⟨by omega, by omega, ?_⟩
    have hbyte := byte.toNat_lt
    by_cases h7 : byte.toNat / 32 = 7
    · rw [if_pos h7] at h
      by_cases hinfo : 20 ≤ byte.toNat % 32 ∧ byte.toNat % 32 ≤ 22
      · rw [if_pos hinfo] at h
        cases h
        refine .inl ⟨byte.toNat % 32, hinfo.1, hinfo.2, ?_, hitems⟩
        rw [hsimple _ (by omega), ← h7, initialByte_toNat]
        exact hrest
      · rw [if_neg hinfo] at h
        cases h
    rw [if_neg h7] at h
    by_cases h6 : byte.toNat / 32 = 6
    · rw [if_pos h6] at h
      cases h
    · rw [if_neg h6] at h
      obtain ⟨⟨n, middle⟩, hhead, h⟩ := bind_eq_ok.mp h
      obtain ⟨hhead, hn, hcount⟩ := shortestArgument_eq_ok.mp hhead
      exact .inr ⟨byte.toNat / 32, n, middle, by omega, hn,
        ⟨hrest.trans hhead, by rw [hcount, hitems]⟩, h⟩
  · rintro ⟨-, -, ⟨info, hlo, hhi, hrest, hitems⟩ | ⟨major, n, middle, hmajor, hn, ⟨hrest, hitems⟩, h⟩⟩
    · rw [hsimple _ (by omega)] at hrest
      refine ⟨(initialByte 7 info, check'), byte_eq_ok.mpr ⟨hrest, hitems⟩, ?_⟩
      have hmajor := initialByte_major (show 7 < 8 by decide) (show info < 32 by omega)
      have hinfo : (initialByte 7 info).toNat % 32 = info := initialByte_info (by omega)
      dsimp only
      rw [if_pos hmajor, if_pos (hinfo.symm ▸ ⟨hlo, hhi⟩)]
      rfl
    · obtain ⟨byte, bytes, hbytes⟩ := List.exists_cons_of_ne_nil (l := headBytes major n) (by simp [headBytes])
      have hinfo := shortestInfo_lt n
      have hdiv : byte.toNat / 32 = major := by
        rw [headBytes, List.cons.injEq] at hbytes
        rw [← hbytes.1, initialByte_major (by omega) (by omega)]
      refine ⟨(byte, ⟨bytes ++ middle.rest, middle.items⟩), byte_eq_ok.mpr ⟨?_, hitems⟩, ?_⟩
      · rw [hrest, hbytes]
        rfl
      · dsimp only
        rw [if_neg (by rw [hdiv]; omega), if_neg (by rw [hdiv]; omega), bind_eq_ok]
        refine ⟨(n, middle), shortestArgument_eq_ok.mpr ⟨?_, hn, rfl⟩, by rwa [hdiv]⟩
        rw [hdiv, hbytes]
        rfl

/-- **An item is read where the bytes begin with a deterministic value within the
limits**, and only there; its bytes are taken and its items counted. -/
theorem reads_item : Reads (Preflight.item depth) depth := by
  generalize hroom : maxDepth + 1 - depth = room
  induction room generalizing depth with
  | zero =>
    intro check check'
    rw [item_head_iff]
    constructor
    · rintro ⟨hdepth, -⟩; omega
    · rintro ⟨v, hv, -⟩
      have := hv.depth_le
      omega
  | succ room ih =>
    have hinner : Reads (Preflight.item (depth + 1)) (depth + 1) := ih (by omega)
    intro check check'
    rw [item_head_iff]
    constructor
    · rintro ⟨hdepth, hitems, ⟨info, hlo, hhi, htakes⟩ | ⟨major, n, middle, hmajor, hn, hhead, h⟩⟩
      · have hmax' : check'.items ≤ maxItems := by have := htakes.2; omega
        obtain rfl | rfl | rfl : info = 20 ∨ info = 21 ∨ info = 22 := by omega
        · exact ⟨.bool false, .bool hdepth, htakes, hmax'⟩
        · exact ⟨.bool true, .bool hdepth, htakes, hmax'⟩
        · exact ⟨.null, .null hdepth, htakes, hmax'⟩
      · have hmiddle : middle.items ≤ maxItems := by have := hhead.2; omega
        have hnat : (UInt64.ofNat n).toNat = n := UInt64.toNat_ofNat_of_lt' hn
        obtain rfl | rfl | rfl | rfl | rfl | rfl : major = 0 ∨ major = 1 ∨ major = 2 ∨ major = 3 ∨
            major = 4 ∨ major = 5 := by
          omega
        · cases h
          exact ⟨.unsigned (UInt64.ofNat n), .unsigned hdepth, by rwa [Value.encode, hnat], hmiddle⟩
        · cases h
          exact ⟨.negative (UInt64.ofNat n), .negative hdepth, by rwa [Value.encode, hnat], hmiddle⟩
        · obtain ⟨hlen, s, rfl, htakes⟩ := bytes_eq_ok.mp h
          exact ⟨.bytes s, .bytes hdepth hlen, hhead.trans htakes, by have := htakes.2; omega⟩
        · obtain ⟨hlen, s, rfl, htakes⟩ := text_eq_ok.mp h
          exact ⟨.text s, .text hdepth hlen, hhead.trans htakes, by have := htakes.2; omega⟩
        · obtain ⟨hlen, vs, rfl, hvs, htakes, hmax'⟩ := (array_eq_ok hinner hmiddle).mp h
          refine ⟨.array vs, .array hdepth hlen hvs, ?_, hmax'⟩
          rw [Value.size, Nat.add_comm]
          exact hhead.trans htakes
        · obtain ⟨hlen, es, rfl, hkinds, hkeys, hvalues, horder, htakes, hmax'⟩ :=
            (map_eq_ok hinner hmiddle).mp h
          refine ⟨.map es, .map hdepth hlen hkinds hkeys hvalues horder, ?_, hmax'⟩
          rw [Value.size, Nat.add_comm]
          exact hhead.trans htakes
    · rintro ⟨v, hv, htakes, hmax'⟩
      have hitems : check.items < maxItems := by
        have := htakes.2
        have := size_pos v
        omega
      refine ⟨hv.depth_le, hitems, ?_⟩
      cases hv with
      | @unsigned _ n => exact .inr ⟨0, n.toNat, check', by decide, n.toNat_lt, htakes, rfl⟩
      | @negative _ n => exact .inr ⟨1, n.toNat, check', by decide, n.toNat_lt, htakes, rfl⟩
      | @bytes _ s _ hlen =>
        obtain ⟨middle, hhead, htail⟩ := htakes.split_head
        exact .inr ⟨2, s.length, middle, by decide, Nat.lt_of_le_of_lt hlen (by decide), hhead,
          bytes_eq_ok.mpr ⟨hlen, s, rfl, htail⟩⟩
      | @text _ s _ hlen =>
        obtain ⟨middle, hhead, htail⟩ := htakes.split_head
        exact .inr ⟨3, (textBytes s).length, middle, by decide,
          Nat.lt_of_le_of_lt hlen (by decide), hhead,
          text_eq_ok.mpr ⟨hlen, s, rfl, htail⟩⟩
      | @array _ vs _ hlen hvs =>
        rw [Value.size, Nat.add_comm] at htakes
        obtain ⟨middle, hhead, htail⟩ := Takes.split htakes
        have hmiddle : middle.items ≤ maxItems := by have := htail.2; omega
        exact .inr ⟨4, vs.length, middle, by decide, Nat.lt_of_le_of_lt hlen (by decide), hhead,
          (array_eq_ok hinner hmiddle).mpr ⟨hlen, vs, rfl, hvs, htail, hmax'⟩⟩
      | @map _ es _ hlen hkinds hkeys hvalues horder =>
        rw [Value.size, Nat.add_comm] at htakes
        obtain ⟨middle, hhead, htail⟩ := Takes.split htakes
        have hmiddle : middle.items ≤ maxItems := by have := htail.2; omega
        exact .inr ⟨5, es.length, middle, by decide, Nat.lt_of_le_of_lt hlen (by decide), hhead,
          (map_eq_ok hinner hmiddle).mpr ⟨hlen, es, rfl, hkinds, hkeys, hvalues, horder,
            htail, hmax'⟩⟩
      | @bool _ b =>
        refine .inl ⟨if b then 21 else 20, ?_, ?_, htakes⟩ <;> cases b <;> decide
      | null => exact .inl ⟨22, by decide, by decide, htakes⟩

end Preflight

/-- **The preflight accepts the encodings of the deterministic values within the
limits**, and nothing else. -/
theorem preflight_eq_ok {bytes : List UInt8} :
    preflight bytes = .ok () ↔
      ∃ v, Deterministic 0 v ∧ v.size ≤ maxItems ∧ bytes.length ≤ maxFile ∧ bytes = v.encode := by
  simp only [preflight, bind_eq_ok, reject_eq_ok, decide_eq_false_iff_not, Nat.not_lt,
    Preflight.reads_item _ _]
  constructor
  · rintro ⟨-, hfile, check, ⟨v, hv, ⟨hrest, hitems⟩, hmax⟩, hend⟩
    have hnil : check.rest = [] := by simpa using hend
    rw [hnil, List.append_nil] at hrest
    exact ⟨v, hv, by simpa [hitems] using hmax, hfile, hrest⟩
  · rintro ⟨v, hv, hsize, hfile, rfl⟩
    exact ⟨(), hfile, ⟨[], v.size⟩, ⟨v, hv, ⟨(List.append_nil _).symm, (Nat.zero_add _).symm⟩, hsize⟩, rfl⟩

/-- Accepted bytes are read as the value they are the encoding of. -/
theorem value_encode {c : Ciborium} {v : Value} (hv : Deterministic 0 v) (hsize : v.size ≤ maxItems)
    (hfile : v.encode.length ≤ maxFile) : value c v.encode = .ok v := by
  have hplain : v.Plain 128 := hv.plain.mono (by decide)
  rw [value, preflight_eq_ok.mpr ⟨v, hv, hsize, hfile, rfl⟩, c.reads_back v hplain]
  rfl

end DdcControl.Wire
