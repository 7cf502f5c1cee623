import DdcControl.Dbgen.Agreement
import DdcControl.Dbgen.Convert
import Mathlib.Data.List.DropRight

/-!
# The records of elements

The converter writes a record for each element, the encoder sorts its maps, and the
decoder reads a node back. Next to it stands the node the loader makes of the same
element. Here the two are compared, one element at a time.

## What is proved

* `sourceAttributes_agree` — an attribute executed at an element means the same in both.
* `Converted.step` — the nodes have one tag, no mark, the same executable attributes, and
  children that come from the same elements: so they agree.
* `owned_ok` — the loader takes an element that was converted, if its numbers are not
  longer than an attribute may be.
-/

namespace DdcControl.Dbgen

open Cbor Fallible Database Wire Context

/-! ### Fields of sorted records -/

/-- Two keys that are one number are one key. -/
theorem eq_of_asUint {k l : Value} {n : ℕ} (hk : asUint k = some n)
    (hl : asUint l = some n) : k = l := by
  cases k <;> cases l <;> simp_all [asUint, ← UInt64.toNat_inj]

/-- A field of a record with distinct keys is the value of its key's entry. -/
theorem optional_eq_some_iff {entries : List (Value × Value)}
    (hkeys : (entries.map entryKey).Nodup) {key : ℕ} {found : Value} :
    optional (.map entries) key = some found ↔ ∃ e ∈ entries, asUint e.1 = some key ∧ e.2 = found := by
  constructor
  · intro h
    obtain ⟨entries', heq, h⟩ := mem_of_optional h
    cases heq
    exact h
  · rintro ⟨e, he, hkey, rfl⟩
    cases hfound : optional (.map entries) key with
    | none =>
      simp only [Wire.optional, asMap, Option.bind_some, List.findSome?_eq_none_iff] at hfound
      have := hfound e he
      rw [if_pos hkey] at this
      cases this
    | some found =>
      obtain ⟨entries', heq, e', he', hkey', rfl⟩ := mem_of_optional hfound
      cases heq
      rw [List.inj_on_of_nodup_map hkeys he' he (by rw [entryKey, entryKey, eq_of_asUint hkey' hkey])]

/-- **Sorting a record sorts its fields.** -/
theorem optional_sortMaps {depth : ℕ} {v : Value} (h : Fits depth v) (key : ℕ) :
    optional (sortMaps v) key = (optional v key).map sortMaps := by
  cases v with
  | map entries =>
    obtain ⟨-, -, hkind, -, -, hkeys⟩ := accepted_map_iff.mp h
    have hperm := sortBy_perm keyLe (sortEntries entries)
    have hsorted : ((sortBy keyLe (sortEntries entries)).map entryKey).Nodup := by
      rw [(hperm.map entryKey).nodup_iff, entryKey_sortEntries hkind]
      exact hkeys
    have hmem : ∀ e, e ∈ sortBy keyLe (sortEntries entries) ↔
        ∃ e' ∈ entries, Prod.map sortMaps sortMaps e' = e := by
      intro e
      rw [hperm.mem_iff, sortEntries_eq, List.mem_map]
    refine Option.ext fun found => ?_
    rw [sortMaps, optional_eq_some_iff hsorted, Option.map_eq_some_iff]
    simp only [optional_eq_some_iff hkeys, hmem]
    constructor
    · rintro ⟨_, ⟨e, he, rfl⟩, hkey, rfl⟩
      rw [Prod.map_fst, sortMaps_key (hkind e he)] at hkey
      exact ⟨e.2, ⟨e, he, hkey, rfl⟩, rfl⟩
    · rintro ⟨_, ⟨e, he, hkey, rfl⟩, rfl⟩
      exact ⟨Prod.map sortMaps sortMaps e, ⟨e, he, rfl⟩, by rwa [Prod.map_fst, sortMaps_key (hkind e he)], rfl⟩
  | _ => rfl

theorem fits_optional {depth : ℕ} {v found : Value} {key : ℕ} (h : Fits depth v)
    (hfound : optional v key = some found) :
    Fits (depth + 1) found := by
  obtain ⟨entries, rfl, e, he, -, rfl⟩ := mem_of_optional hfound
  obtain ⟨-, -, -, -, hvalue, -⟩ := accepted_map_iff.mp h
  exact hvalue e he

theorem fits_item {depth : ℕ} {items : List Value} (h : Fits depth (.array items)) {v : Value}
    (hv : v ∈ items) :
    Fits (depth + 1) v := (accepted_array_iff.mp h).2.2 v hv

theorem fits_text {depth : ℕ} {s : String} (h : Fits depth (.text s)) :
    (utf8 s).length ≤ maxText := by
  cases h with
  | text _ hlen => exact hlen

/-! ### The tables -/

theorem mem_of_numberOf {table : List (ℕ × String)} {name : String} {id : ℕ}
    (h : numberOf table name = some id) :
    (id, name) ∈ table := by
  obtain ⟨entry, hentry, rfl⟩ := Option.map_eq_some_iff.mp h
  have hname := List.find?_some hentry
  simp only [decide_eq_true_eq] at hname
  exact hname ▸ List.mem_of_find?_eq_some hentry

theorem mem_of_nameOf {table : List (ℕ × String)} {name : String} {id : ℕ}
    (h : nameOf table id = some name) :
    (id, name) ∈ table := by
  obtain ⟨entry, hentry, rfl⟩ := Option.map_eq_some_iff.mp h
  have hid := List.find?_some hentry
  simp only [decide_eq_true_eq] at hid
  exact hid ▸ List.mem_of_find?_eq_some hentry

/-- The tables give each number one name and each name one number. -/
theorem nameOf_iff_numberOf {id : ℕ} {name : String} :
    nameOf attributes id = some name ↔ attributeId name = some id := by
  have htable : ∀ entry ∈ attributes, nameOf attributes entry.1 = some entry.2 ∧
      numberOf attributes entry.2 = some entry.1 := by
    decide
  exact ⟨fun h => (htable _ (mem_of_nameOf h)).2, fun h => (htable _ (mem_of_numberOf h)).1⟩

theorem kindName_of_kindId {tag : String} {kind : ℕ} (h : kindId tag = some kind) :
    kindName kind = some tag ∧ kind < 255 := by
  have htable : ∀ entry ∈ kinds, nameOf kinds entry.1 = some entry.2 ∧ entry.1 < 255 := by decide
  exact htable _ (mem_of_numberOf h)

/-! ### Numbers -/

theorem asInteger_ofInteger {n : ℤ} (hlo : -2 ^ 63 ≤ n) (hhi : n < 2 ^ 63) :
    asInteger (ofInteger n) = some n := by
  cases n with
  | ofNat m =>
    rw [Int.ofNat_eq_natCast] at hhi
    have : (UInt64.ofNat m).toNat = m := UInt64.toNat_ofNat_of_lt' (by simp [UInt64.size]; omega)
    simp [ofInteger, asInteger, this]
  | negSucc m =>
    have : (UInt64.ofNat m).toNat = m := UInt64.toNat_ofNat_of_lt' (by simp [UInt64.size]; omega)
    simp only [ofInteger, asInteger, this, Option.some.injEq]
    omega

/-- The bounds of numeric attributes are within 64 bits, and only delays may be negative. -/
theorem attributeIntegerBounds_range {id : ℕ} {low high : ℤ}
    (h : attributeIntegerBounds id = some (low, high)) :
    -2 ^ 63 ≤ low ∧ high < 2 ^ 63 ∧ (id ≠ 7 → 0 ≤ low) := by
  unfold attributeIntegerBounds at h
  split at h <;> cases h <;> omega

/-- The grammar of a numeric attribute skips whitespace of its own. -/
theorem parseInteger_dropWhile (raw : String) :
    parseInteger (String.ofList (raw.toList.dropWhile isAsciiWhitespace)) = parseInteger raw := by
  unfold parseInteger
  rw [String.toList_ofList, List.dropWhile_idempotent]

/-- A number within bounds is read back from its decimal text. -/
theorem sameNumber_toString {id : ℕ} {low high n : ℤ}
    (hbounds : attributeIntegerBounds id = some (low, high)) (hlow : low ≤ n) (hhigh : n ≤ high)
    {raw : String}
    (hraw : if id = 7 then parseIntDecimal raw = some n else parseInteger raw = .ok n) :
    SameNumber id raw (toString n) := by
  obtain ⟨hmin, hmax, hpos⟩ := attributeIntegerBounds_range hbounds
  unfold SameNumber
  by_cases hid : id = 7
  · rw [if_pos hid] at hraw ⊢
    exact ⟨n, hraw, parseIntDecimal_repr (by omega) (by omega)⟩
  · rw [if_neg hid] at hraw ⊢
    obtain ⟨m, rfl⟩ := Int.eq_ofNat_of_zero_le ((hpos hid).trans hlow)
    exact ⟨m, hraw, parseInteger_repr (by omega)⟩

/-- What `source_integer` has read: a number within the attribute's bounds. -/
theorem sourceInteger_ok {raw attr : String} {id : ℕ}
    (hattr : attributeId attr = some id) {v : Value} (h : sourceInteger raw attr = .ok v) :
    ∃ low high n, attributeIntegerBounds id = some (low, high) ∧ low ≤ n ∧ n ≤ high ∧ v = ofInteger n ∧
      if id = 7 then parseIntDecimal raw = some n else parseInteger raw = .ok n := by
  have hdelay : attr = "delay" ↔ id = 7 := by
    constructor
    · rintro rfl
      exact (Option.some.inj hattr).symm
    · rintro rfl
      have : ∀ entry ∈ attributes, entry.1 = 7 → entry.2 = "delay" := by decide
      exact this _ (mem_of_numberOf hattr) rfl
  rw [sourceInteger, hattr] at h
  simp only [bind_eq_ok, Option.bind_some, orError_eq_ok, Prod.exists, reject_eq_ok,
    Bool.not_eq_false', Bool.and_eq_true, decide_eq_true_eq] at h
  obtain ⟨low, high, hbounds, n, hn, _, ⟨hlow, hhigh⟩, h⟩ := h
  cases h
  refine ⟨low, high, n, hbounds, hlow, hhigh, rfl, ?_⟩
  cases hnumber : sourceNumber attr (raw.toList.dropWhile isAsciiWhitespace) with
  | error e => rw [hnumber] at hn; cases hn
  | ok n' =>
    rw [hnumber] at hn
    cases hn
    rw [sourceNumber] at hnumber
    by_cases hid : id = 7
    · rw [if_pos (hdelay.mpr hid), orError_eq_ok] at hnumber
      rw [if_pos hid, parseIntDecimal, hnumber]
    · rw [if_neg (mt hdelay.mp hid), parseInteger_dropWhile] at hnumber
      rw [if_neg hid, hnumber]

theorem bounds_isSome_iff (id : ℕ) : (attributeIntegerBounds id).isSome = true ↔ id = 6 ∨ id = 7 ∨
    id = 8 ∨ id = 12 := by
  unfold attributeIntegerBounds
  split <;> simp_all

/-- **What is written for an executable attribute is read back**: the text, or the number. -/
theorem sourceValue_agrees {attr : XmlAttribute} {id : ℕ} (hattr : attributeId attr.name = some id)
    {v : Value} {s : String} (hv : sourceValue id attr = .ok v) (hs : attributeText id v = .ok s) :
    SameAttribute id (some attr.value) (some s) := by
  unfold SameAttribute
  rw [sourceValue] at hv
  split_ifs at hv with hnumeric
  · obtain ⟨low, high, n, hbounds, hlow, hhigh, rfl, hraw⟩ := sourceInteger_ok hattr hv
    obtain ⟨hmin, hmax, -⟩ := attributeIntegerBounds_range hbounds
    rw [if_pos ((bounds_isSome_iff id).mpr hnumeric)]
    simp only [attributeText, hbounds, bind_eq_ok, integer,
      asInteger_ofInteger (hmin.trans hlow) (hhigh.trans_lt hmax), orError_eq_ok, Option.some.injEq] at hs
    obtain ⟨_, rfl, _, -, hs⟩ := hs
    cases hs
    exact .some (sameNumber_toString hbounds hlow hhigh hraw)
  · cases hv
    rw [if_neg (mt (bounds_isSome_iff id).mp hnumeric)]
    have hnone : attributeIntegerBounds id = none := by
      rw [← Option.not_isSome_iff_eq_none]
      exact mt (bounds_isSome_iff id).mp hnumeric
    simp only [attributeText, hnone, bind_eq_ok, text_eq_ok, Value.text.injEq] at hs
    obtain ⟨_, rfl, _, -, hs⟩ := hs
    cases hs
    rfl

/-! ### Attributes -/

/-- The converter writes each executable attribute, and keeps the others as metadata. -/
theorem sourceAttributes_ok {allowed : List ℕ} {attrs : List XmlAttribute}
    {written inert : List (Value × Value)}
    (h : attrs.foldlM (sourceAttribute allowed) ([], []) = .ok (written, inert)) :
    (∀ e ∈ written, ∃ attr ∈ attrs, ∃ id v, executableId allowed attr = some id ∧ sourceValue id attr = .ok v ∧
        e = (.unsigned (.ofNat id), v)) ∧
      ∀ attr ∈ attrs, match executableId allowed attr with
        | some id => ∃ v, sourceValue id attr = .ok v ∧ (.unsigned (.ofNat id), v) ∈ written
        | none => (.text (inertName attr), .text attr.value) ∈ inert := by
  refine foldlM_history (P := fun done (found : List (Value × Value) × List (Value × Value)) =>
    (∀ e ∈ found.1, ∃ attr ∈ done, ∃ id v, executableId allowed attr = some id ∧ sourceValue id attr = .ok v ∧
        e = (.unsigned (.ofNat id), v)) ∧
      ∀ attr ∈ done, match executableId allowed attr with
        | some id => ∃ v, sourceValue id attr = .ok v ∧ (.unsigned (.ofNat id), v) ∈ found.1
        | none => (.text (inertName attr), .text attr.value) ∈ found.2) ?_ (by simp) h
  rintro done attr ⟨written, inert⟩ ⟨written', inert'⟩ ⟨hfrom, hto⟩ hstep
  unfold sourceAttribute at hstep
  cases hid : executableId allowed attr with
  | some id =>
    rw [hid] at hstep
    obtain ⟨v, hv, hstep⟩ := bind_eq_ok.mp hstep
    cases hstep
    refine ⟨fun e he => ?_, fun attr' hattr' => ?_⟩
    · rcases List.mem_append.mp he with he | he
      · obtain ⟨attr', hattr', h⟩ := hfrom e he
        exact ⟨attr', List.mem_append_left _ hattr', h⟩
      · exact ⟨attr, by simp, id, v, hid, hv, List.mem_singleton.mp he⟩
    · rcases List.mem_append.mp hattr' with hattr' | hattr'
      · have := hto attr' hattr'
        split at this
        · obtain ⟨w, hw, hmem⟩ := this
          exact ⟨w, hw, List.mem_append_left _ hmem⟩
        · exact this
      · rw [List.mem_singleton.mp hattr', hid]
        exact ⟨v, hv, by simp⟩
  | none =>
    rw [hid] at hstep
    cases hstep
    refine ⟨fun e he => ?_, fun attr' hattr' => ?_⟩
    · obtain ⟨attr', hattr', h⟩ := hfrom e he
      exact ⟨attr', List.mem_append_left _ hattr', h⟩
    · rcases List.mem_append.mp hattr' with hattr' | hattr'
      · have := hto attr' hattr'
        split at this
        · exact this
        · exact List.mem_append_left _ this
      · rw [List.mem_singleton.mp hattr', hid]
        exact List.mem_append_right _ (by simp)

/-- The decoder reads the attributes of a record by their numbers. -/
theorem decodeAttributes_ok {tag parent : String} {allowed : List ℕ}
    {entries : List (Value × Value)} {attrs : Std.TreeMap String String}
    (h : entries.foldlM (decodeAttribute tag parent allowed) ∅ = .ok attrs) :
    (∀ (name : String) s, attrs[name]? = some s → ∃ e ∈ entries, ∃ id, asUint e.1 = some id ∧
        nameOf attributes id = some name ∧ attributeText id e.2 = .ok s) ∧
      ∀ e ∈ entries, ∀ id name, asUint e.1 = some id → nameOf attributes id =
        some name → ∃ s, attrs[name]? = some s := by
  refine foldlM_history (P := fun done (attrs : Std.TreeMap String String) =>
    (∀ (name : String) s, attrs[name]? = some s → ∃ e ∈ done, ∃ id, asUint e.1 = some id ∧
        nameOf attributes id = some name ∧ attributeText id e.2 = .ok s) ∧
      ∀ e ∈ done, ∀ id name, asUint e.1 = some id → nameOf attributes id = some name → ∃ s, attrs[name]? = some s)
    (b := ∅) ?_ (by simp) h
  rintro done e attrs attrs' ⟨hfrom, hto⟩ hstep
  obtain ⟨id, hid, hstep⟩ := bind_eq_ok.mp hstep
  rw [uint_eq_ok] at hid
  have hearlier : ∀ (name : String) s, attrs[name]? = some s → ∃ e' ∈ done ++ [e], ∃ id, asUint e'.1 = some id ∧
      nameOf attributes id = some name ∧ attributeText id e'.2 = .ok s := fun name s hs => by
    obtain ⟨e', he', h⟩ := hfrom name s hs
    exact ⟨e', List.mem_append_left _ he', h⟩
  cases hname : nameOf attributes id with
  | none =>
    rw [hname] at hstep
    obtain ⟨_, -, hstep⟩ := bind_eq_ok.mp hstep
    cases hstep
    refine ⟨hearlier, fun e' he' id' name' hid' hname' => ?_⟩
    rcases List.mem_append.mp he' with he' | he'
    · exact hto e' he' id' name' hid' hname'
    · rw [List.mem_singleton.mp he', hid, Option.some.injEq] at hid'
      rw [← hid', hname] at hname'
      cases hname'
  | some name =>
    rw [hname] at hstep
    obtain ⟨_, -, hstep⟩ := bind_eq_ok.mp hstep
    obtain ⟨s, hs, hstep⟩ := bind_eq_ok.mp hstep
    cases hstep
    refine ⟨fun name' s' hs' => ?_, fun e' he' id' name' hid' hname' => ?_⟩
    · rw [Std.TreeMap.getElem?_insert] at hs'
      split_ifs at hs' with heq
      · cases hs'
        obtain rfl := Std.LawfulEqCmp.eq_of_compare heq
        exact ⟨e, by simp, id, hid, hname, hs⟩
      · exact hearlier name' s' hs'
    · rw [Std.TreeMap.getElem?_insert]
      split_ifs with heq
      · exact ⟨s, rfl⟩
      · rcases List.mem_append.mp he' with he' | he'
        · exact hto e' he' id' name' hid' hname'
        · rw [List.mem_singleton.mp he', hid, Option.some.injEq] at hid'
          rw [← hid', hname, Option.some.injEq] at hname'
          exact absurd (by rw [hname']; exact Std.ReflCmp.compare_self) heq

/-- The loader keeps each attribute outside namespaces. -/
theorem ownedAttributes_ok {attributes : List XmlAttribute} {attrs : Std.TreeMap String String}
    (h : attributes.foldlM ownedAttribute ∅ = .ok attrs) :
    (∀ (name : String) s, attrs[name]? = some s → ∃ attr ∈ attributes, attr.ns = none ∧ attr.name = name ∧
        attr.value = s) ∧
      ∀ attr ∈ attributes, attr.ns = none → ∃ s, attrs[attr.name]? = some s := by
  refine foldlM_history (P := fun done (attrs : Std.TreeMap String String) =>
    (∀ (name : String) s, attrs[name]? = some s → ∃ attr ∈ done, attr.ns = none ∧ attr.name = name ∧ attr.value = s) ∧
      ∀ attr ∈ done, attr.ns = none → ∃ s, attrs[attr.name]? = some s)
    (b := ∅) ?_ (by simp) h
  rintro done attr attrs attrs' ⟨hfrom, hto⟩ hstep
  have hearlier : ∀ (name : String) s, attrs[name]? = some s → ∃ attr' ∈ done ++ [attr], attr'.ns = none ∧
      attr'.name = name ∧ attr'.value = s := fun name s hs => by
    obtain ⟨attr', hattr', h⟩ := hfrom name s hs
    exact ⟨attr', List.mem_append_left _ hattr', h⟩
  unfold ownedAttribute at hstep
  split_ifs at hstep with hns
  · cases hstep
    refine ⟨hearlier, fun attr' hattr' hns' => ?_⟩
    rcases List.mem_append.mp hattr' with hattr' | hattr'
    · exact hto attr' hattr' hns'
    · rw [List.mem_singleton.mp hattr'] at hns'
      rw [hns'] at hns
      cases hns
  · obtain ⟨_, -, hstep⟩ := bind_eq_ok.mp hstep
    cases hstep
    refine ⟨fun name s hs => ?_, fun attr' hattr' hns' => ?_⟩
    · rw [Std.TreeMap.getElem?_insert] at hs
      split_ifs at hs with heq
      · cases hs
        exact ⟨attr, by simp, by simpa using hns, Std.LawfulEqCmp.eq_of_compare heq, rfl⟩
      · exact hearlier name s hs
    · rw [Std.TreeMap.getElem?_insert]
      split_ifs with heq
      · exact ⟨_, rfl⟩
      · rcases List.mem_append.mp hattr' with hattr' | hattr'
        · exact hto attr' hattr' hns'
        · rw [List.mem_singleton.mp hattr'] at heq
          exact absurd Std.ReflCmp.compare_self heq

theorem executableId_eq_some {allowed : List ℕ} {attr : XmlAttribute} {id : ℕ} :
    executableId allowed attr = some id ↔ nameOf attributes id = some attr.name ∧ attr.ns = none ∧
    id ∈ allowed := by
  rw [executableId, Option.filter_eq_some_iff, nameOf_iff_numberOf]
  simp

/-- Assigned numbers fit a key. -/
theorem toNat_ofNat_assigned {id : ℕ} {name : String} (h : nameOf attributes id = some name) :
    (UInt64.ofNat id).toNat = id := by
  have htable : ∀ entry ∈ attributes, (UInt64.ofNat entry.1).toNat = entry.1 := by decide
  exact htable _ (mem_of_nameOf h)

theorem sourceValue_sorted {id : ℕ} {attr : XmlAttribute} {v : Value}
    (h : sourceValue id attr = .ok v) :
    sortMaps v = v := by
  unfold sourceValue at h
  split_ifs at h
  · simp only [sourceInteger, bind_eq_ok] at h
    obtain ⟨_, -, number, -, _, -, h⟩ := h
    cases h
    cases number <;> rfl
  · cases h
    rfl

/-- **An attribute executed at an element means the same** to the loader of the element
and to the decoder of its record. -/
theorem sourceAttributes_agree {attrs : List XmlAttribute} {allowed : List ℕ}
    {written inert entries : List (Value × Value)}
    (hwrite : attrs.foldlM (sourceAttribute allowed) ([], []) = .ok (written, inert))
    (hkeys : (written.map entryKey).Nodup) (hentries : ∀ e, e ∈ entries ↔ e ∈ written)
    {tag parent : String} {allowed' : List ℕ} {decoded owned : Std.TreeMap String String}
    (hdecode : entries.foldlM (decodeAttribute tag parent allowed') ∅ = .ok decoded)
    (howned : attrs.foldlM ownedAttribute ∅ = .ok owned) {id : ℕ} (hid : id ∈ allowed)
    {name : String} (hname : nameOf attributes id = some name) :
    SameAttribute id owned[name]? decoded[name]? := by
  obtain ⟨hfrom, hto⟩ := sourceAttributes_ok hwrite
  obtain ⟨hread, hreads⟩ := decodeAttributes_ok hdecode
  obtain ⟨hkept, hkeeps⟩ := ownedAttributes_ok howned
  -- what is decoded under the name was written for an attribute of that name
  have hback : ∀ s, decoded[name]? = some s → ∃ attr ∈ attrs, ∃ v, executableId allowed attr = some id ∧
      sourceValue id attr = .ok v ∧ (.unsigned (.ofNat id), v) ∈ written ∧
      attributeText id v = .ok s := by
    intro s hs
    obtain ⟨e, he, id', hid', hname', htext⟩ := hread name s hs
    obtain ⟨attr, hattr, id'', v, hexec, hv, rfl⟩ := hfrom e ((hentries e).mp he)
    obtain ⟨hname'', -, -⟩ := executableId_eq_some.mp hexec
    rw [asUint, toNat_ofNat_assigned hname'', Option.some.injEq] at hid'
    subst hid'
    obtain rfl : id'' = id := by
      rw [nameOf_iff_numberOf] at hname hname'
      rw [hname, Option.some.injEq] at hname'
      exact hname'.symm
    exact ⟨attr, hattr, v, hexec, hv, (hentries _).mp he, htext⟩
  cases hn : owned[name]? with
  | none =>
    have hm : decoded[name]? = none := by
      refine Option.eq_none_iff_forall_ne_some.mpr fun s hs => ?_
      obtain ⟨attr, hattr, v, hexec, -, -, -⟩ := hback s hs
      obtain ⟨hname', hns, -⟩ := executableId_eq_some.mp hexec
      rw [hname, Option.some.injEq] at hname'
      obtain ⟨t, ht⟩ := hkeeps attr hattr hns
      rw [← hname', hn] at ht
      cases ht
    rw [hm, SameAttribute]
    split
    · exact .none
    · rfl
  | some t =>
    obtain ⟨attr, hattr, hns, rfl, rfl⟩ := hkept name t hn
    have hexec : executableId allowed attr = some id := executableId_eq_some.mpr ⟨hname, hns, hid⟩
    have hwritten := hto attr hattr
    rw [hexec] at hwritten
    obtain ⟨v, hv, hmem⟩ := hwritten
    obtain ⟨s, hs⟩ := hreads _ ((hentries _).mpr hmem) id attr.name
      (congrArg some (toNat_ofNat_assigned hname)) hname
    obtain ⟨-, -, v', -, -, hmem', htext⟩ := hback s hs
    have heq := List.inj_on_of_nodup_map hkeys hmem hmem' rfl
    cases heq
    rw [hs]
    exact sourceValue_agrees (nameOf_iff_numberOf.mp hname) hv htext

/-! ### Metadata -/

/-- The envelope of source metadata. -/
def sourceEnvelope (metadata : List (UInt64 × Value)) : Value :=
  object [(0, .text sourceMetadata), (1, .bool false), (2, object metadata)]

theorem optional_sourceEnvelope (metadata : List (UInt64 × Value)) :
    optional (sourceEnvelope metadata) 2 = some (object metadata) := rfl

theorem optional_sourceRecord_attrs (kind : ℕ) (attrs : List (Value × Value))
    (children : List Value) (metadata : List (UInt64 × Value)) :
    optional (sourceRecord kind attrs children metadata) 1 = some (.map attrs) := rfl

theorem optional_sourceRecord_children (kind : ℕ) (attrs : List (Value × Value))
    (children : List Value) (metadata : List (UInt64 × Value)) :
    optional (sourceRecord kind attrs children metadata) 2 = some (.array children) := rfl

/-- A record has more items than its children. -/
theorem sizeItems_sourceRecord (kind : ℕ) (attrs : List (Value × Value)) (children : List Value)
    (metadata : List (UInt64 × Value)) :
    sizeItems children + 1 < (sourceRecord kind attrs children metadata).size := by
  have := size_optional (optional_sourceRecord_children kind attrs children metadata)
  rwa [Value.size] at this

/-- A record has an extension only for its metadata. -/
theorem optional_sourceRecord_extensions (kind : ℕ) (attrs : List (Value × Value))
    (children : List Value) (metadata : List (UInt64 × Value)) :
    optional (sourceRecord kind attrs children metadata) 3 =
      if metadata.isEmpty then none else some (.array [sourceEnvelope metadata]) := by
  unfold sourceRecord
  split <;> rfl

section Record

variable {room kind : ℕ} {attrs : List (Value × Value)} {children : List Value} {metadata : List (UInt64 × Value)}
  (hfits : Fits room (sourceRecord kind attrs children metadata))
include hfits

theorem fits_sourceEnvelope (hne : metadata.isEmpty = false) :
    Fits (room + 2) (sourceEnvelope metadata) := by
  have hext := optional_sourceRecord_extensions kind attrs children metadata
  rw [hne, if_neg (by decide)] at hext
  exact fits_item (fits_optional hfits hext) (List.mem_singleton_self _)

/-- The extensions of a sorted record. -/
theorem sorted_extensions {extensions : List Value}
    (h : optional (sortMaps (sourceRecord kind attrs children metadata)) 3 = some (.array extensions)) :
    metadata.isEmpty = false ∧ extensions = [sortMaps (sourceEnvelope metadata)] := by
  rw [optional_sortMaps hfits, optional_sourceRecord_extensions] at h
  split_ifs at h with hempty
  · cases h
  · rw [Option.map_some, sortMaps, sortItems_eq, Option.some.injEq, Value.array.injEq] at h
    exact ⟨by simpa using hempty, h.symm⟩

/-- A record requires nothing. -/
theorem not_requiredExtension : ¬RequiredExtension (sortMaps (sourceRecord kind attrs children metadata)) 3 := by
  rintro ⟨extensions, extension, hextensions, hmem, hneeds⟩
  obtain ⟨hne, rfl⟩ := sorted_extensions hfits hextensions
  rw [List.mem_singleton.mp hmem, optional_sortMaps (fits_sourceEnvelope hfits hne)] at hneeds
  cases hneeds

end Record

/-- The tag of an inert element is in its metadata. -/
theorem optional_metadata_tag {depth : ℕ} {tag head tail : String} {inert : List (Value × Value)}
    (h : Fits depth (object (metadata tag 255 inert head tail))) :
    optional (object (metadata tag 255 inert head tail)) 1 = some (.text tag) := by
  obtain ⟨-, -, -, -, -, hkeys⟩ := accepted_map_iff.mp h
  refine (optional_eq_some_iff hkeys).mpr ⟨(.unsigned 1, .text tag),
    List.mem_map.mpr ⟨(1, .text tag), ?_, rfl⟩, rfl, rfl⟩
  unfold metadata
  dsimp only
  split_ifs <;> simp_all

/-- The metadata of an element is empty only where it has no inert attribute and its tag
is known. -/
theorem metadata_isEmpty {tag head tail : String} {kind : ℕ} {inert : List (Value × Value)}
    (h : (metadata tag kind inert head tail).isEmpty = true) : inert = [] ∧ kind ≠ 255 := by
  unfold metadata at h
  dsimp only at h
  split_ifs at h <;> simp_all

/-- The inert attributes of an element are in its metadata. -/
theorem optional_metadata_inert {depth : ℕ} {tag head tail : String} {kind : ℕ}
    {inert : List (Value × Value)} (h : Fits depth (object (metadata tag kind inert head tail)))
    (hne : inert ≠ []) :
    optional (object (metadata tag kind inert head tail)) 0 = some (.map inert) := by
  obtain ⟨-, -, -, -, -, hkeys⟩ := accepted_map_iff.mp h
  refine (optional_eq_some_iff hkeys).mpr ⟨(.unsigned 0, .map inert),
    List.mem_map.mpr ⟨(0, .map inert), ?_, rfl⟩, rfl, rfl⟩
  unfold metadata
  dsimp only
  split_ifs <;> simp_all

/-- **A record is decoded under its element's tag**, known or not. -/
theorem nodeTag_sourceRecord {room : ℕ} {tag head tail : String}
    {attrs inert : List (Value × Value)} {children : List Value}
    (hfits : Fits room (sourceRecord ((kindId tag).getD 255) attrs children
      (metadata tag ((kindId tag).getD 255) inert head tail))) {decoded : String}
    (h : nodeTag (sortMaps (sourceRecord ((kindId tag).getD 255) attrs children
      (metadata tag ((kindId tag).getD 255) inert head tail)))
      ((kindId tag).getD 255) = .ok decoded) :
    decoded = tag := by
  cases hkind : kindId tag with
  | some kind =>
    obtain ⟨hname, hlt⟩ := kindName_of_kindId hkind
    rw [hkind, Option.getD_some, nodeTag, if_neg (by omega), hname] at h
    exact (Except.ok.inj h).symm
  | none =>
    rw [hkind, Option.getD_none] at h hfits
    rw [nodeTag, if_pos rfl] at h
    simp only [bind_eq_ok, field_eq_ok, array_eq_ok, orError_eq_ok, text_eq_ok] at h
    obtain ⟨_, hfield, extensions, rfl, envelope, hfound, payload, hpayload, _, htag, tag',
        rfl, _, -, h⟩ := h
    cases h
    obtain ⟨hne, rfl⟩ := sorted_extensions hfits hfield
    have hmem := List.mem_of_find?_eq_some hfound
    rw [List.mem_singleton.mp hmem, optional_sortMaps (fits_sourceEnvelope hfits hne)] at hpayload
    have hobject := optional_sourceEnvelope (metadata tag 255 inert head tail)
    have hmeta := fits_optional (fits_sourceEnvelope hfits hne) hobject
    rw [hobject, Option.map_some, Option.some.injEq] at hpayload
    rw [← hpayload, optional_sortMaps hmeta, optional_metadata_tag hmeta] at htag
    cases htag
    rfl

/-! ### Elements -/

/-- The records of the children are those of the elements among them. -/
theorem sourceChildren_forall₂ {children : List Xml} {parent : String}
    {options ancestor : Bool} {depth : ℕ} {records : List Value}
    (h : sourceChildren children parent options ancestor depth = .ok records) :
    List.Forall₂ (fun tree record => ∃ after, sourceNode tree after parent options ancestor depth = .ok record)
      (children.filter Xml.isElement) records := by
  induction children generalizing records with
  | nil =>
    cases h
    exact .nil
  | cons child after ih =>
    rw [sourceChildren] at h
    rw [List.filter_cons]
    split_ifs at h ⊢
    · obtain ⟨record, hrecord, h⟩ := bind_eq_ok.mp h
      obtain ⟨rest, hrest, h⟩ := bind_eq_ok.mp h
      cases h
      exact .cons ⟨after, hrecord⟩ (ih hrest)
    · exact ih h

/-- So are the nodes the loader makes of them. -/
theorem ownedChildren_forall₂ {children : List Xml} {depth count count' : ℕ} {nodes : List Node}
    (h : ownedChildren depth children count = .ok (nodes, count')) :
    List.Forall₂ (fun tree node => ∃ count count', owned depth tree count = .ok (node, count'))
      (children.filter Xml.isElement) nodes := by
  induction children generalizing count nodes with
  | nil =>
    cases h
    exact .nil
  | cons child children ih =>
    rw [ownedChildren] at h
    rw [List.filter_cons]
    split_ifs at h ⊢
    · obtain ⟨⟨node, middle⟩, hnode, h⟩ := bind_eq_ok.mp h
      obtain ⟨⟨rest, last⟩, hrest, h⟩ := bind_eq_ok.mp h
      cases h
      exact .cons ⟨count, middle, hnode⟩ (ih hrest)
    · exact ih h

/-- Items of two rows that are related to one row each. -/
theorem forall₂_through {α β γ δ : Type} {P : α → β → Prop} {Q : α → γ → Prop}
    {S : β → δ → Prop} {as : List α} {bs : List β} {cs : List γ} {ds : List δ}
    (hP : List.Forall₂ P as bs) (hQ : List.Forall₂ Q as cs) (hS : List.Forall₂ S bs ds) :
    List.Forall₂ (fun c d => ∃ a b, b ∈ bs ∧ P a b ∧ Q a c ∧ S b d) cs ds := by
  induction hP generalizing cs ds with
  | nil =>
    cases hQ
    cases hS
    exact .nil
  | @cons a b as bs hab _ ih =>
    obtain ⟨c, cs, hac, hcs, rfl⟩ := List.forall₂_cons_left_iff.mp hQ
    obtain ⟨d, ds, hbd, hds, rfl⟩ := List.forall₂_cons_left_iff.mp hS
    refine .cons ⟨a, b, List.mem_cons_self .., hab, hac, hbd⟩ ((ih hcs hds).imp ?_)
    rintro c d ⟨a, b, hmem, h⟩
    exact ⟨a, b, List.mem_cons_of_mem _ hmem, h⟩

theorem fields_eq_ok {value : Value} {entries : List (Value × Value)}
    (h : fields value = .ok entries) :
    value = .map entries := by
  simp only [fields, bind_eq_ok, map_eq_ok] at h
  obtain ⟨entries', rfl, _, -, h⟩ := h
  cases h
  rfl

/-- The number of a tag is that of one the format names, or that of the others. -/
theorem kindId_assigned (tag : String) : (kindId tag).getD 255 ≤ 255 ∧
    ((kindName ((kindId tag).getD 255)).isNone && (kindId tag).getD 255 ≠ 255) = false := by
  cases hid : kindId tag with
  | none => exact ⟨le_rfl, rfl⟩
  | some kind =>
    obtain ⟨hname, hlt⟩ := kindName_of_kindId hid
    rw [Option.getD_some, hname]
    exact ⟨hlt.le, rfl⟩

/-- The attributes that are written have nothing to sort but their order. -/
theorem mem_sourceAttributes {allowed : List ℕ} {attrs : List XmlAttribute}
    {written inert entries : List (Value × Value)}
    (hwrite : attrs.foldlM (sourceAttribute allowed) ([], []) = .ok (written, inert)) {room : ℕ}
    (hfits : Fits room (.map written)) (hentries : fields (sortMaps (.map written)) = .ok entries)
    {e : Value × Value} :
    e ∈ entries ↔ e ∈ written := by
  obtain ⟨-, -, hkeys, -, -, -⟩ := accepted_map_iff.mp hfits
  have hmap := fields_eq_ok hentries
  rw [sortMaps, Value.map.injEq] at hmap
  have hsame : sortEntries written = written := by
    rw [sortEntries_eq]
    conv_rhs => rw [← List.map_id written]
    refine List.map_congr_left fun e he => Prod.ext (sortMaps_key (hkeys e he)) ?_
    obtain ⟨_, -, _, _, -, hvalue, rfl⟩ := (sourceAttributes_ok hwrite).1 e he
    exact sourceValue_sorted hvalue
  rw [← hmap, (sortBy_perm ..).mem_iff, hsame]

/-- A node of the loader and a node of the decoder that come from one element. -/
def Converted (options : Bool) (parent : String) (ancestor : Bool) (n m : Node) : Prop :=
  ∃ tree after depth record room, sourceNode tree after parent options ancestor depth = .ok record ∧ Fits room record ∧
    (∃ depth count count', owned depth tree count = .ok (n, count')) ∧ node (sortMaps record) parent options = .ok m

/-- **Nodes that come from one element agree in one step.** -/
theorem Converted.step {options : Bool} {parent : String} {ancestor : Bool} {n m : Node}
    (h : Converted options parent ancestor n m) :
    AgreesStep options (Converted options) parent ancestor n m := by
  obtain ⟨tree, after, depth, record, room, hsource, hfits,
      ⟨depth', count, count', howned⟩, hnode⟩ := h
  cases tree with
  | text s => simp [sourceNode] at hsource
  | other => simp [sourceNode] at hsource
  | element tag attrs children row =>
    rw [sourceNode] at hsource
    obtain ⟨_, -, hsource⟩ := bind_eq_ok.mp hsource
    obtain ⟨⟨written, inert⟩, hwrite, hsource⟩ := bind_eq_ok.mp hsource
    obtain ⟨records, hrecords, hsource⟩ := bind_eq_ok.mp hsource
    cases hsource
    rw [owned] at howned
    obtain ⟨_, -, howned⟩ := bind_eq_ok.mp howned
    obtain ⟨kept, hkept, howned⟩ := bind_eq_ok.mp howned
    obtain ⟨⟨nodes, last⟩, hnodes, howned⟩ := bind_eq_ok.mp howned
    cases howned
    obtain ⟨_, kind, tag', required, entries, decoded, records', decodedNodes, -, hkind, htag,
        hrequired, hentries,
      hdecoded, hrecords', hdecodedNodes, rfl⟩ := node_eq_ok.mp hnode
    have hkindId : kind = (kindId tag).getD 255 := by
      rw [optional_sortMaps hfits] at hkind
      have hnat : (UInt64.ofNat ((kindId tag).getD 255)).toNat = (kindId tag).getD 255 := by
        have := (kindId_assigned tag).1
        exact UInt64.toNat_ofNat_of_lt' (by simp [UInt64.size]; omega)
      exact (Option.some.inj hkind).symm.trans hnat
    subst hkindId
    obtain rfl := nodeTag_sourceRecord hfits htag
    have hunrequired : required = false := by
      rw [← Bool.not_eq_true, (requiredExtensions_ok hrequired).1]
      exact not_requiredExtension hfits
    have hwritten : Fits (room + 1) (.map written) :=
      fits_optional hfits (optional_sourceRecord_attrs ..)
    obtain ⟨-, -, -, -, -, hkeys⟩ := accepted_map_iff.mp hwritten
    have hmem : ∀ e, e ∈ entries ↔ e ∈ written := by
      obtain ⟨field, hfield, hentries⟩ := bind_eq_ok.mp hentries
      rw [field_eq_ok, optional_sortMaps hfits] at hfield
      cases hfield
      exact fun e => mem_sourceAttributes hwrite hwritten hentries
    refine ⟨rfl, ⟨rfl, by rw [hunrequired, (kindId_assigned _).2]; rfl⟩,
      fun hactive id hid name hname => ?_, ?_⟩
    · have hactive : executablePath tag' parent options ancestor = true := hactive
      rw [if_pos hactive] at hwrite
      exact sourceAttributes_agree hwrite hkeys hmem hdecoded hkept hid hname
    · rw [optional_sortMaps hfits] at hrecords'
      have hsorted : records' = records.map sortMaps := by
        rw [← sortItems_eq]
        exact (Value.array.inj (Option.some.inj hrecords')).symm
      rw [hsorted, List.forall₂_map_left_iff] at hdecodedNodes
      have hrow : Fits (room + 1) (.array records) :=
        fits_optional hfits (optional_sourceRecord_children ..)
      refine (forall₂_through (sourceChildren_forall₂ hrecords) (ownedChildren_forall₂ hnodes) hdecodedNodes).imp ?_
      rintro c d ⟨tree, record, hmem, ⟨after, hsource⟩, ⟨count, count', howned⟩, hnode⟩
      exact ⟨tree, after, _, record, _, hsource, fits_item hrow hmem,
        ⟨_, count, count', howned⟩, hnode⟩

/-- **Nodes that come from one element agree.** -/
theorem Converted.agrees {options : Bool} {parent : String} {ancestor : Bool} {n m : Node}
    (h : Converted options parent ancestor n m) : Agrees options parent ancestor n m :=
  .of_closed (fun _ _ _ _ h => h.step) h

/-! ### The loader takes what was converted -/

/-- No number in the tree is written longer than the loader lets an attribute be. -/
def ShortNumbers : Xml → Prop := Xml.All fun attr =>
  attr.ns = none → attr.name ∈ ["address", "delay", "value", "dbversion"] → (utf8 attr.value).length ≤ maxAttribute

theorem ownedAttributes_isOk {attributes : List XmlAttribute}
    (h : ∀ attr ∈ attributes, attr.ns = none →
      (utf8 attr.name).length ≤ maxAttribute ∧ (utf8 attr.value).length ≤ maxAttribute)
    (attrs : Std.TreeMap String String) :
    ∃ attrs', attributes.foldlM ownedAttribute attrs = .ok attrs' := by
  induction attributes generalizing attrs with
  | nil => exact ⟨attrs, rfl⟩
  | cons attr attributes ih =>
    rw [List.forall_mem_cons] at h
    have hstep : ∃ attrs', ownedAttribute attrs attr = .ok attrs' := by
      unfold ownedAttribute
      split_ifs with hns
      · exact ⟨attrs, rfl⟩
      · obtain ⟨hname, hvalue⟩ := h.1 (by simpa using hns)
        refine ⟨attrs.insert attr.name attr.value, bind_eq_ok.mpr ⟨(), reject_eq_ok.mpr ?_, rfl⟩⟩
        simp only [Bool.or_eq_false_iff, decide_eq_false_iff_not, Nat.not_lt]
        exact ⟨hname, hvalue⟩
    obtain ⟨attrs', hattrs'⟩ := hstep
    obtain ⟨last, hlast⟩ := ih h.2 attrs'
    exact ⟨last, by rw [List.foldlM_cons, bind_eq_ok]; exact ⟨attrs', hattrs', hlast⟩⟩

/-- The names of numeric attributes. -/
theorem name_of_bounds {id : ℕ} {name : String} (hname : nameOf attributes id = some name)
    (hbounds : (attributeIntegerBounds id).isSome = true) :
    name ∈ ["address", "delay", "value", "dbversion"] := by
  have htable : ∀ entry ∈ attributes, (attributeIntegerBounds entry.1).isSome = true →
      entry.2 ∈ ["address", "delay", "value", "dbversion"] := by decide
  exact htable _ (mem_of_nameOf hname) hbounds

/-- **The limits of a database are those of the loader's attributes**, numbers apart. -/
theorem attribute_fits {room kind : ℕ} {tag head tail : String} {allowed : List ℕ}
    {attrs : List XmlAttribute} {written inert : List (Value × Value)} {children : List Value}
    (hfits : Fits room (sourceRecord kind written children (metadata tag kind inert head tail)))
    (hwrite : attrs.foldlM (sourceAttribute allowed) ([], []) = .ok (written, inert))
    {attr : XmlAttribute} (hattr : attr ∈ attrs) (hns : attr.ns = none)
    (hshort : attr.name ∈ ["address", "delay", "value", "dbversion"] → (utf8 attr.value).length ≤ maxAttribute) :
    (utf8 attr.name).length ≤ maxAttribute ∧ (utf8 attr.value).length ≤ maxAttribute := by
  have hto := (sourceAttributes_ok hwrite).2 attr hattr
  cases hid : executableId allowed attr with
  | some id =>
    rw [hid] at hto
    obtain ⟨v, hv, hmem⟩ := hto
    obtain ⟨hname, -, -⟩ := executableId_eq_some.mp hid
    have hnames : ∀ entry ∈ attributes, (utf8 entry.2).length ≤ 16 := by decide +kernel
    refine ⟨(hnames _ (mem_of_nameOf hname)).trans (by decide), ?_⟩
    rw [sourceValue] at hv
    split_ifs at hv with hnumeric
    · exact hshort (name_of_bounds hname ((bounds_isSome_iff id).mpr hnumeric))
    · cases hv
      have hwritten : Fits (room + 1) (.map written) :=
        fits_optional hfits (optional_sourceRecord_attrs ..)
      exact fits_text ((accepted_map_iff.mp hwritten).2.2.2.2.1 _ hmem)
  | none =>
    rw [hid] at hto
    have hne : inert ≠ [] := List.ne_nil_of_mem hto
    have hmetadata : (metadata tag kind inert head tail).isEmpty = false := by
      rw [← Bool.not_eq_true]
      exact fun hempty => hne (metadata_isEmpty hempty).1
    have hobject := fits_optional (fits_sourceEnvelope hfits hmetadata) (optional_sourceEnvelope _)
    obtain ⟨-, -, -, hkey, hvalue, -⟩ :=
      accepted_map_iff.mp (fits_optional hobject (optional_metadata_inert hobject hne))
    have hname := fits_text (hkey _ hto)
    rw [inertName, hns] at hname
    exact ⟨hname, fits_text (hvalue _ hto)⟩

/-- The loader takes an element: it counts at most as many as its record has items. -/
def Taken (parent : String) (options ancestor : Bool) (tree : Xml) : Prop :=
  ∀ after depth record room count, sourceNode tree after parent options ancestor depth = .ok record → Fits room record →
    count + record.size ≤ 4000000 →
      ∃ node count', owned depth tree count = .ok (node, count') ∧ count' ≤ count + record.size

theorem ownedChildren_ok {children : List Xml} {parent : String} {options ancestor : Bool}
    (htaken : ∀ child ∈ children, Taken parent options ancestor child) {depth room count : ℕ}
    {records : List Value} (h : sourceChildren children parent options ancestor depth = .ok records)
    (hfits : ∀ r ∈ records, Fits room r) (hcount : count + sizeItems records ≤ 4000000) :
    ∃ nodes count', ownedChildren depth children count = .ok (nodes, count') ∧
      count' ≤ count + sizeItems records := by
  induction children generalizing records count with
  | nil =>
    cases h
    exact ⟨[], count, rfl, Nat.le_add_right ..⟩
  | cons child after ih =>
    rw [List.forall_mem_cons] at htaken
    rw [sourceChildren] at h
    rw [ownedChildren]
    split_ifs at h ⊢
    · obtain ⟨record, hrecord, h⟩ := bind_eq_ok.mp h
      obtain ⟨rest, hrest, h⟩ := bind_eq_ok.mp h
      cases h
      rw [sizeItems] at hcount ⊢
      rw [List.forall_mem_cons] at hfits
      obtain ⟨node, middle, hnode, hmiddle⟩ := htaken.1 _ _ _ _ count hrecord hfits.1 (by omega)
      have hroom : middle + sizeItems rest ≤ 4000000 := by omega
      obtain ⟨nodes, last, hnodes, hlast⟩ := ih htaken.2 hrest hfits.2 hroom
      refine ⟨node :: nodes, last, ?_, by omega⟩
      simp only [bind_eq_ok, Prod.exists]
      exact ⟨node, middle, hnode, nodes, last, hnodes, rfl⟩
    · exact ih htaken.2 h hfits hcount

/-- **The loader takes every element that was converted**, if its numbers are short. -/
theorem owned_ok {tree : Xml} (hshort : ShortNumbers tree) (parent : String)
    (options ancestor : Bool) :
    Taken parent options ancestor tree := by
  induction hshort generalizing parent ancestor with
  | text =>
    intro after depth record room count h
    simp [sourceNode] at h
  | other =>
    intro after depth record room count h
    simp [sourceNode] at h
  | @element tag attrs children row hattrs _ ih =>
    intro after depth record room count h hfits hcount
    rw [sourceNode] at h
    obtain ⟨_, hdepth, h⟩ := bind_eq_ok.mp h
    obtain ⟨⟨written, inert⟩, hwrite, h⟩ := bind_eq_ok.mp h
    obtain ⟨records, hrecords, h⟩ := bind_eq_ok.mp h
    cases h
    obtain ⟨kept, hkept⟩ := ownedAttributes_isOk (fun attr hattr hns =>
      attribute_fits hfits hwrite hattr hns (hattrs attr hattr hns)) ∅
    have hrow : Fits (room + 1) (.array records) :=
      fits_optional hfits (optional_sourceRecord_children ..)
    have hsize := sizeItems_sourceRecord ((kindId tag).getD 255) written records
      (metadata tag ((kindId tag).getD 255) inert (sourceText children) (sourceText after))
    have hroom : count + 1 + sizeItems records ≤ 4000000 := by omega
    obtain ⟨nodes, last, hnodes, hlast⟩ :=
      ownedChildren_ok (fun child hc => ih child hc _ _) hrecords
      (fun r hr => fits_item hrow hr) hroom
    refine ⟨⟨tag, kept, nodes, row, false⟩, last, ?_, by omega⟩
    rw [owned]
    simp only [bind_eq_ok, Prod.exists, reject_eq_ok, Bool.or_eq_false_iff,
      decide_eq_false_iff_not] at hdepth ⊢
    have hfull : ¬(4000000 ≤ count) := by omega
    exact ⟨(), ⟨hdepth, hfull⟩, kept, hkept, nodes, last, hnodes, rfl⟩

end DdcControl.Dbgen
