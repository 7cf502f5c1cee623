import DdcControl.Wire.Fields
import DdcControl.Wire.Preflight

/-!
# The deterministic encoder

`encode` writes a value in the one form the validator accepts: `canonical` checks the
limits and sorts the entries of every map by their written keys, and the result is
written under the file limit.

## What is proved

* `encode_eq_ok` — `encode` succeeds on the values that fit, and writes their sorted form.
* `encode_preflight_image` — the preflight accepts exactly what the encoder writes, the
  value read back is the sorted one, and the order of map entries makes no difference.
-/

namespace DdcControl.Wire

open Cbor Fallible

/-- The limits on an item, which is then counted. -/
def enter (depth items : ℕ) : Except String ℕ := do
  reject (depth > maxDepth || items ≥ maxItems) "CBOR nesting/item limit exceeded"
  return items + 1

/-- An entry with its key as it is written. -/
abbrev WireEntry := List UInt8 × Value × Value

/-- The entries of a map in the order of their written keys, which are distinct. -/
def sortedEntries (result : List WireEntry) : Except String (List (Value × Value)) := do
  let result := sortBy (fun a b => a.1 ≤ b.1) result
  reject ((result.zip result.tail).any fun w => w.1.1 = w.2.1) "CBOR duplicate map key"
  return result.map fun entry => entry.2

mutual
/-- `canonical`, with the items counted so far. -/
def canonical (c : Ciborium) (depth : ℕ) (value : Value) (items : ℕ) : Except String (Value × ℕ) := do
  let items ← enter depth items
  match value with
  | .map entries =>
    reject (entries.length > maxContainer) "CBOR container limit exceeded"
    let (result, items) ← canonicalEntries c (depth + 1) entries items
    let entries ← sortedEntries result
    return (.map entries, items)
  | .array values =>
    reject (values.length > maxContainer) "CBOR container limit exceeded"
    let (values, items) ← canonicalItems c (depth + 1) values items
    return (.array values, items)
  | .bytes s =>
    reject (s.length > maxBytes) "CBOR forbidden value or string limit exceeded"
    return (.bytes s, items)
  | .text s =>
    reject ((textBytes s).length > maxText) "CBOR forbidden value or string limit exceeded"
    return (.text s, items)
  | .unsigned n => return (.unsigned n, items)
  | .negative n => return (.negative n, items)
  | .bool b => return (.bool b, items)
  | .null => return (.null, items)
  | .tag _ _ => throw "CBOR forbidden value or string limit exceeded"
  | .float _ => throw "CBOR forbidden value or string limit exceeded"
/-- `canonical` on the items of an array. -/
def canonicalItems (c : Ciborium) (depth : ℕ) (values : List Value) (items : ℕ) : Except String (List Value × ℕ) :=
  match values with
  | [] => .ok ([], items)
  | value :: values => do
    let (value, items) ← canonical c depth value items
    let (values, items) ← canonicalItems c depth values items
    return (value :: values, items)
/-- `canonical` on the entries of a map. -/
def canonicalEntries (c : Ciborium) (depth : ℕ) (entries : List (Value × Value)) (items : ℕ) :
    Except String (List WireEntry × ℕ) :=
  match entries with
  | [] => .ok ([], items)
  | (key, value) :: entries => do
    reject ((asText key).isNone && (asUint key).isNone) "CBOR map keys must be unsigned integers or text"
    let (key, items) ← canonical c depth key items
    let (value, items) ← canonical c depth value items
    let (entries, items) ← canonicalEntries c depth entries items
    return (((c.intoWriter key).flatten, key, value) :: entries, items)
end

/-- `Bounded::write`. -/
def boundedWrite (out bytes : List UInt8) : Except String (List UInt8) := do
  reject (bytes.length > maxFile - out.length) "CBOR file limit exceeded"
  return out ++ bytes

/-- `encode`. -/
def encode (c : Ciborium) (value : Value) : Except String (List UInt8) := do
  let (value, _) ← canonical c 0 value 0
  (c.intoWriter value).foldlM boundedWrite []

/-! ### What the encoder takes -/

theorem enter_eq_ok {depth items items' : ℕ} :
    enter depth items = .ok items' ↔ depth ≤ maxDepth ∧ items < maxItems ∧ items' = items + 1 := by
  rw [enter, bind_eq_ok]
  simp only [reject_eq_ok, Bool.or_eq_false_iff, decide_eq_false_iff_not, Nat.not_lt, Nat.not_le]
  constructor
  · rintro ⟨-, ⟨hdepth, hitems⟩, h⟩
    cases h
    exact ⟨hdepth, hitems, rfl⟩
  · rintro ⟨hdepth, hitems, rfl⟩
    exact ⟨(), ⟨hdepth, hitems⟩, rfl⟩

/-- In a sorted list, neighbours differ where all members do. -/
theorem adjacent_ne_iff {keys : List (List UInt8)} (h : keys.Pairwise (· ≤ ·)) :
    (keys.zip keys.tail).any (fun w => w.1 = w.2) = false ↔ keys.Nodup := by
  induction keys with
  | nil => simp
  | cons a keys ih =>
    cases keys with
    | nil => simp
    | cons b rest =>
      rw [List.pairwise_cons] at h
      obtain ⟨ha, hrest⟩ := h
      have ih := ih hrest
      rw [List.tail_cons] at ih
      rw [List.tail_cons, List.zip_cons_cons, List.any_cons, Bool.or_eq_false_iff,
        decide_eq_false_iff_not, ih, List.nodup_cons (a := a)]
      refine and_congr_left fun _ => ⟨fun hne hmem => ?_,
        fun hmem heq => hmem (by rw [show a = b from heq]; simp)⟩
      rcases List.mem_cons.mp hmem with rfl | hmem
      · exact hne rfl
      · exact hne (List.le_antisymm (ha b (List.mem_cons_self ..)) ((List.pairwise_cons.mp hrest).1 a hmem))

/-- Entries that carry their written keys are sorted where those are distinct. -/
theorem sortedEntries_eq_ok {entries sorted : List (Value × Value)} :
    sortedEntries (entries.map fun e => (entryKey e, e)) = .ok sorted ↔
      (entries.map entryKey).Nodup ∧ sorted = sortBy keyLe entries := by
  have hsort : sortBy (fun a b => decide (a.1 ≤ b.1)) (entries.map fun e => (entryKey e, e)) =
      (sortBy keyLe entries).map fun e => (entryKey e, e) := by
    refine (map_sortBy ?_ entries).symm
    exact fun _ _ => rfl
  have hkeys : ((sortBy keyLe entries).map entryKey).Pairwise (· ≤ ·) := by
    rw [List.pairwise_map]
    exact (pairwise_sortBy keyLe_trans keyLe_total entries).imp of_decide_eq_true
  have hadjacent := adjacent_ne_iff hkeys
  rw [((sortBy_perm keyLe entries).map entryKey).nodup_iff, ← List.map_tail,
    List.zip_map, List.any_map]
    at hadjacent
  simp only [sortedEntries, hsort, bind_eq_ok, reject_eq_ok]
  rw [← List.map_tail, List.zip_map, List.any_map, List.map_map]
  constructor
  · rintro ⟨-, hdistinct, h⟩
    cases h
    exact ⟨hadjacent.mp hdistinct, List.map_id' _⟩
  · rintro ⟨hdistinct, rfl⟩
    exact ⟨(), hadjacent.mpr hdistinct, congrArg Except.ok (List.map_id' _)⟩

variable {c : Ciborium} {depth items items' : ℕ}

/-- `canonical` takes a value that fits, counts its items and sorts it. -/
def Canonicalises (c : Ciborium) (v : Value) : Prop :=
  ∀ {depth items items' v'}, canonical c depth v items = .ok (v', items') ↔
    Fits depth v ∧ items + v.size ≤ maxItems ∧ v' = sortMaps v ∧ items' = items + v.size

theorem canonicalises_scalar {v : Value}
    (heq : ∀ depth items, canonical c depth v items = (enter depth items >>= fun items => .ok (v, items)))
    (hfits : ∀ depth, depth ≤ maxDepth → Fits depth v) (hsize : v.size = 1)
    (hsort : sortMaps v = v) :
    Canonicalises c v := by
  intro depth items items' v'
  rw [heq, bind_eq_ok, hsize, hsort]
  simp only [enter_eq_ok]
  constructor
  · rintro ⟨_, ⟨hdepth, hitems, rfl⟩, h⟩
    cases h
    exact ⟨hfits depth hdepth, hitems, rfl, rfl⟩
  · rintro ⟨hv, hitems, rfl, rfl⟩
    exact ⟨_, ⟨hv.depth_le, hitems, rfl⟩, rfl⟩

theorem canonicalises_forbidden {v : Value} {e : String}
    (heq : ∀ depth items, canonical c depth v items = (enter depth items >>= fun _ => .error e))
    (hfits : ∀ depth, ¬Fits depth v) : Canonicalises c v := by
  intro depth items items' v'
  rw [heq, bind_eq_ok]
  constructor
  · rintro ⟨_, -, h⟩
    cases h
  · rintro ⟨hv, -⟩
    exact absurd hv (hfits depth)

theorem canonicalItems_eq_ok {values values' : List Value} (h : ∀ v ∈ values, Canonicalises c v)
    (hmax : items ≤ maxItems) :
    canonicalItems c depth values items = .ok (values', items') ↔
      (∀ v ∈ values, Fits depth v) ∧ items + sizeItems values ≤ maxItems ∧
      values' = sortItems values ∧
        items' = items + sizeItems values := by
  induction values generalizing items items' values' with
  | nil =>
    simp only [canonicalItems, sizeItems, sortItems, Except.ok.injEq, Prod.mk.injEq]
    constructor
    · rintro ⟨rfl, rfl⟩
      exact ⟨by simp, hmax, rfl, rfl⟩
    · rintro ⟨-, -, rfl, rfl⟩
      exact ⟨rfl, rfl⟩
  | cons v values ih =>
    rw [List.forall_mem_cons] at h
    simp only [canonicalItems, bind_eq_ok, Prod.exists]
    constructor
    · rintro ⟨w, middle, hhead, values', last, htail, h'⟩
      obtain ⟨hv, hmiddle, rfl, rfl⟩ := h.1.mp hhead
      obtain ⟨hvs, hlast, rfl, rfl⟩ := (ih h.2 hmiddle).mp htail
      cases h'
      exact ⟨List.forall_mem_cons.mpr ⟨hv, hvs⟩, by rw [sizeItems]; omega,
        rfl, by rw [sizeItems]; omega⟩
    · rintro ⟨hfits, hsize, rfl, rfl⟩
      rw [List.forall_mem_cons] at hfits
      rw [sizeItems] at hsize ⊢
      have hmiddle : items + v.size ≤ maxItems := by omega
      exact ⟨_, _, h.1.mpr ⟨hfits.1, hmiddle, rfl, rfl⟩, _, _,
        (ih h.2 hmiddle).mpr ⟨hfits.2, by omega, rfl, rfl⟩, by rw [Nat.add_assoc]; rfl⟩

/-- A key is a text or an unsigned integer. -/
theorem isKey_eq (k : Value) : ((asText k).isNone && (asUint k).isNone) = !isKey k := by
  cases k <;> rfl

/-- The pieces a fitting item is written in are its encoding. -/
theorem flatten_intoWriter {v : Value} (h : Fits depth v) : (c.intoWriter v).flatten = v.encode :=
  c.writes_shortest _ v h.plain

theorem canonicalEntries_eq_ok {entries : List (Value × Value)} {result : List WireEntry}
    (h : ∀ e ∈ entries, Canonicalises c e.1 ∧ Canonicalises c e.2) (hmax : items ≤ maxItems) :
    canonicalEntries c depth entries items = .ok (result, items') ↔
      (∀ e ∈ entries, isKey e.1 = true) ∧ (∀ e ∈ entries, Fits depth e.1) ∧
      (∀ e ∈ entries, Fits depth e.2) ∧
        items + sizeEntries entries ≤ maxItems ∧ result = (sortEntries entries).map (fun e => (entryKey e, e)) ∧
        items' = items + sizeEntries entries := by
  induction entries generalizing items items' result with
  | nil =>
    simp only [canonicalEntries, sizeEntries, sortEntries, Except.ok.injEq,
      Prod.mk.injEq, List.map_nil]
    constructor
    · rintro ⟨rfl, rfl⟩
      exact ⟨by simp, by simp, by simp, hmax, rfl, rfl⟩
    · rintro ⟨-, -, -, -, rfl, rfl⟩
      exact ⟨rfl, rfl⟩
  | cons e entries ih =>
    obtain ⟨k, v⟩ := e
    rw [List.forall_mem_cons] at h
    obtain ⟨⟨hk, hv⟩, hrest⟩ := h
    change Canonicalises c k at hk
    change Canonicalises c v at hv
    have hwire : isKey k = true → Fits depth k → (c.intoWriter (sortMaps k)).flatten = k.encode :=
      fun hkind hfits => by
      rw [sortMaps_key hkind, flatten_intoWriter hfits]
    have hentry : isKey k = true → entryKey (sortMaps k, sortMaps v) = k.encode := fun hkind => by
      rw [entryKey, sortMaps_key hkind]
    simp only [canonicalEntries, bind_eq_ok, Prod.exists, reject_eq_ok, isKey_eq,
      Bool.not_eq_false']
    constructor
    · rintro ⟨-, hkind, k', middle, hkey, v', middle', hvalue, rest, last, htail, h'⟩
      obtain ⟨hfitk, hmiddle, rfl, rfl⟩ := hk.mp hkey
      obtain ⟨hfitv, hmiddle', rfl, rfl⟩ := hv.mp hvalue
      obtain ⟨hkinds, hkeys, hvalues, hlast, rfl, rfl⟩ := (ih hrest hmiddle').mp htail
      cases h'
      refine ⟨List.forall_mem_cons.mpr ⟨hkind, hkinds⟩, List.forall_mem_cons.mpr ⟨hfitk, hkeys⟩,
        List.forall_mem_cons.mpr ⟨hfitv, hvalues⟩, by rw [sizeEntries]; omega, ?_, by rw [sizeEntries]; omega⟩
      rw [sortEntries, List.map_cons, hwire hkind hfitk, hentry hkind]
    · rintro ⟨hkinds, hkeys, hvalues, hsize, rfl, rfl⟩
      rw [List.forall_mem_cons] at hkinds hkeys hvalues
      rw [sizeEntries] at hsize ⊢
      have hmiddle : items + k.size ≤ maxItems := by omega
      have hmiddle' : items + k.size + v.size ≤ maxItems := by omega
      refine ⟨(), hkinds.1, _, _, hk.mpr ⟨hkeys.1, hmiddle, rfl, rfl⟩, _, _,
        hv.mpr ⟨hvalues.1, hmiddle', rfl, rfl⟩, _, _,
        (ih hrest hmiddle').mpr ⟨hkinds.2, hkeys.2, hvalues.2, by omega, rfl, rfl⟩, ?_⟩
      rw [sortEntries, List.map_cons, hwire hkinds.1 hkeys.1, hentry hkinds.1]
      simp only [← Nat.add_assoc]
      rfl

/-- **`canonical` takes the values that fit and sorts their maps.** -/
theorem canonical_eq_ok (v : Value) : Canonicalises c v := by
  induction v using Value.induction with
  | array values ih =>
    intro depth items items' v'
    rw [canonical, bind_eq_ok]
    simp only [enter_eq_ok, bind_eq_ok, reject_eq_ok, decide_eq_false_iff_not, Nat.not_lt,
      Prod.exists, Value.size, Fits, accepted_array_iff]
    constructor
    · rintro ⟨_, ⟨hdepth, hitems, rfl⟩, -, hlen, values', last, hvalues, h⟩
      obtain ⟨hfits, hlast, rfl, rfl⟩ := (canonicalItems_eq_ok ih (by omega)).mp hvalues
      cases h
      exact ⟨⟨hdepth, hlen, hfits⟩, by omega, rfl, by omega⟩
    · rintro ⟨⟨hdepth, hlen, hfits⟩, hsize, rfl, rfl⟩
      refine ⟨_, ⟨hdepth, by omega, rfl⟩, (), hlen, _, _,
        (canonicalItems_eq_ok ih (by omega)).mpr ⟨hfits, by omega, rfl, rfl⟩, ?_⟩
      rw [Nat.add_right_comm]
      rfl
  | map entries ih =>
    intro depth items items' v'
    rw [canonical, bind_eq_ok]
    simp only [enter_eq_ok, bind_eq_ok, reject_eq_ok, decide_eq_false_iff_not, Nat.not_lt,
      Prod.exists, Value.size, Fits, accepted_map_iff]
    constructor
    · rintro ⟨_, ⟨hdepth, hitems, rfl⟩, -, hlen, result, last, hentries, sorted, hsorted, h⟩
      obtain ⟨hkinds, hkeys, hvalues, hlast, rfl, rfl⟩ :=
        (canonicalEntries_eq_ok ih (by omega)).mp hentries
      obtain ⟨hdistinct, rfl⟩ := sortedEntries_eq_ok.mp hsorted
      cases h
      rw [entryKey_sortEntries hkinds] at hdistinct
      exact ⟨⟨hdepth, hlen, hkinds, hkeys, hvalues, hdistinct⟩, by omega, rfl, by omega⟩
    · rintro ⟨⟨hdepth, hlen, hkinds, hkeys, hvalues, hdistinct⟩, hsize, rfl, rfl⟩
      rw [← entryKey_sortEntries hkinds] at hdistinct
      refine ⟨_, ⟨hdepth, by omega, rfl⟩, (), hlen, _, _,
        (canonicalEntries_eq_ok ih (by omega)).mpr ⟨hkinds, hkeys, hvalues, by omega, rfl, rfl⟩, _,
        sortedEntries_eq_ok.mpr ⟨hdistinct, rfl⟩, ?_⟩
      rw [Nat.add_right_comm]
      rfl
  | bytes s =>
    intro depth items items' v'
    rw [canonical, bind_eq_ok]
    simp only [enter_eq_ok, bind_eq_ok, reject_eq_ok, decide_eq_false_iff_not,
      Nat.not_lt, Value.size]
    constructor
    · rintro ⟨_, ⟨hdepth, hitems, rfl⟩, -, hlen, h⟩
      cases h
      exact ⟨.bytes hdepth hlen, hitems, rfl, rfl⟩
    · rintro ⟨hfits, hsize, rfl, rfl⟩
      cases hfits with
      | bytes hdepth hlen => exact ⟨_, ⟨hdepth, hsize, rfl⟩, (), hlen, rfl⟩
  | text s =>
    intro depth items items' v'
    rw [canonical, bind_eq_ok]
    simp only [enter_eq_ok, bind_eq_ok, reject_eq_ok, decide_eq_false_iff_not,
      Nat.not_lt, Value.size]
    constructor
    · rintro ⟨_, ⟨hdepth, hitems, rfl⟩, -, hlen, h⟩
      cases h
      exact ⟨.text hdepth hlen, hitems, rfl, rfl⟩
    · rintro ⟨hfits, hsize, rfl, rfl⟩
      cases hfits with
      | text hdepth hlen => exact ⟨_, ⟨hdepth, hsize, rfl⟩, (), hlen, rfl⟩
  | unsigned n => exact canonicalises_scalar (fun _ _ => rfl) (fun _ => .unsigned) rfl rfl
  | negative n => exact canonicalises_scalar (fun _ _ => rfl) (fun _ => .negative) rfl rfl
  | bool b => exact canonicalises_scalar (fun _ _ => rfl) (fun _ => .bool) rfl rfl
  | null => exact canonicalises_scalar (fun _ _ => rfl) (fun _ => .null) rfl rfl
  | tag n content => exact canonicalises_forbidden (fun _ _ => rfl) fun _ h => by cases h
  | float bits => exact canonicalises_forbidden (fun _ _ => rfl) fun _ h => by cases h

/-! ### What the encoder writes -/

/-- Writing in pieces is writing the whole where that is within the file limit. -/
theorem foldlM_boundedWrite {pieces : List (List UInt8)} {out bytes : List UInt8}
    (h : out.length ≤ maxFile) :
    pieces.foldlM boundedWrite out = .ok bytes ↔ bytes = out ++ pieces.flatten ∧
    bytes.length ≤ maxFile := by
  induction pieces generalizing out with
  | nil =>
    rw [List.flatten_nil, List.append_nil]
    constructor
    · intro hok
      cases hok
      exact ⟨rfl, h⟩
    · rintro ⟨rfl, -⟩
      rfl
  | cons piece pieces ih =>
    rw [List.foldlM_cons, bind_eq_ok, List.flatten_cons]
    simp only [boundedWrite, bind_eq_ok, reject_eq_ok, decide_eq_false_iff_not, Nat.not_lt]
    constructor
    · rintro ⟨_, ⟨-, hpiece, hwrite⟩, hrest⟩
      cases hwrite
      obtain ⟨rfl, hlen⟩ := (ih (by rw [List.length_append]; omega)).mp hrest
      exact ⟨by rw [List.append_assoc], hlen⟩
    · rintro ⟨rfl, hlen⟩
      simp only [List.length_append] at hlen
      exact ⟨out ++ piece, ⟨(), by omega, rfl⟩,
        (ih (by rw [List.length_append]; omega)).mpr
          ⟨by rw [List.append_assoc], by simp only [List.length_append]; omega⟩⟩

/-- **`encode` succeeds on the values that fit, and writes their sorted form.** -/
theorem encode_eq_ok {v : Value} {bytes : List UInt8} :
    encode c v = .ok bytes ↔
      Fits 0 v ∧ v.size ≤ maxItems ∧ bytes.length ≤ maxFile ∧ bytes = (sortMaps v).encode := by
  rw [encode, bind_eq_ok, Prod.exists]
  constructor
  · rintro ⟨w, _, hcanonical, hwrite⟩
    obtain ⟨hfits, hsize, rfl, -⟩ := (canonical_eq_ok v).mp hcanonical
    obtain ⟨rfl, hlen⟩ := (foldlM_boundedWrite (Nat.zero_le _)).mp hwrite
    rw [flatten_intoWriter hfits.sortMaps.fits, List.nil_append] at hlen ⊢
    exact ⟨hfits, by omega, hlen, rfl⟩
  · rintro ⟨hfits, hsize, hlen, rfl⟩
    refine ⟨_, _, (canonical_eq_ok v).mpr ⟨hfits, by omega, rfl, rfl⟩,
      (foldlM_boundedWrite (Nat.zero_le _)).mpr ⟨?_, hlen⟩⟩
    rw [flatten_intoWriter hfits.sortMaps.fits, List.nil_append]

/-- **The validator accepts exactly the encoder's image**: the preflight succeeds on the
bytes some value is encoded as, and only on those; reading such bytes and encoding them
again gives them back; what is read is the encoded value with every map sorted; and
values that differ in the order of map entries alone are encoded alike. -/
theorem encode_preflight_image (c : Ciborium) :
    (∀ bytes, preflight bytes = .ok () ↔ ∃ v, encode c v = .ok bytes) ∧
      (∀ bytes, preflight bytes = .ok () → ∃ v, value c bytes = .ok v ∧ encode c v = .ok bytes) ∧
      (∀ v bytes, encode c v = .ok bytes → value c bytes = .ok (sortMaps v)) ∧
      ∀ v w, Reordered v w →
        (∃ bytes, encode c v = .ok bytes ∧ encode c w = .ok bytes) ∨
          (∃ e, encode c v = .error e) ∧ ∃ e, encode c w = .error e := by
  have hself : ∀ {v : Value}, Deterministic 0 v → v.size ≤ maxItems → v.encode.length ≤ maxFile →
      encode c v = .ok v.encode := by
    intro v hv hsize hfile
    exact encode_eq_ok.mpr ⟨hv.fits, hsize, hfile, by rw [sortMaps_eq_self hv]⟩
  have himage : ∀ {bytes}, preflight bytes = .ok () → ∃ v, value c bytes = .ok v ∧ encode c v = .ok bytes := by
    intro bytes h
    obtain ⟨v, hv, hsize, hfile, rfl⟩ := preflight_eq_ok.mp h
    exact ⟨v, value_encode hv hsize hfile, hself hv hsize hfile⟩
  refine ⟨fun bytes => ⟨fun h => ?_, ?_⟩, fun bytes => himage, ?_, ?_⟩
  · obtain ⟨v, -, hv⟩ := himage h
    exact ⟨v, hv⟩
  · rintro ⟨v, hv⟩
    obtain ⟨hfits, hsize, hfile, rfl⟩ := encode_eq_ok.mp hv
    exact preflight_eq_ok.mpr ⟨sortMaps v, hfits.sortMaps, by rwa [size_sortMaps], hfile, rfl⟩
  · intro v bytes hv
    obtain ⟨hfits, hsize, hfile, rfl⟩ := encode_eq_ok.mp hv
    exact value_encode hfits.sortMaps (by rwa [size_sortMaps]) hfile
  · intro v w hvw
    have hiff : ∀ bytes, encode c v = .ok bytes ↔ encode c w = .ok bytes := by
      intro bytes
      rw [encode_eq_ok, encode_eq_ok, hvw.size_eq]
      constructor
      · rintro ⟨hfits, hrest⟩
        exact ⟨hvw.fits hfits, by rwa [← hvw.sortMaps_eq hfits]⟩
      · rintro ⟨hfits, hrest⟩
        exact ⟨hvw.symm.fits hfits, by rwa [hvw.sortMaps_eq (hvw.symm.fits hfits)]⟩
    cases hv : encode c v with
    | ok bytes => exact .inl ⟨bytes, rfl, (hiff bytes).mp hv⟩
    | error e =>
      cases hw : encode c w with
      | ok bytes => exact absurd ((hiff bytes).mpr hw) (by rw [hv]; exact fun h => nomatch h)
      | error e' => exact .inr ⟨⟨e, rfl⟩, e', rfl⟩

end DdcControl.Wire
