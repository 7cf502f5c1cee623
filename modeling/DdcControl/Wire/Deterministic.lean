import DdcControl.Library.Cbor
import Mathlib.Data.List.Nodup
import Mathlib.Data.List.Sort
import Mathlib.Logic.Relation
import Mathlib.Algebra.BigOperators.Group.List.Basic
import Mathlib.Algebra.GroupWithZero.Nat

/-!
# The deterministic subset of CBOR

What a database file may be, said of values and not of bytes: the limits, the kinds of
map keys, and the order of a map's entries. `Accepted keys depth v` is an item under
`depth` containers that respects the limits, in whose maps the written keys satisfy
`keys`. With distinct keys it is a value the encoder takes (`Fits`); with keys in
increasing order it is a value as the validator wants it (`Deterministic`).

## What is proved

* `sortMaps_eq_self`, `Fits.sortMaps` — sorting the entries of every map leaves a
  deterministic value as it is, and makes a fitting value deterministic.
* `Reordered.fits_iff`, `Reordered.sortMaps_eq` — values that differ in the order of map
  entries alone fit together, and have one sorted form.
-/

namespace DdcControl.Wire

open Cbor

/-- `MAX_FILE`. -/
def maxFile : ℕ := 256 * 1024 * 1024

/-- `MAX_TEXT`. -/
def maxText : ℕ := 1024 * 1024

/-- `MAX_BYTES`. -/
def maxBytes : ℕ := 16 * 1024 * 1024

/-- `MAX_ITEMS`. -/
def maxItems : ℕ := 4000000

/-- `MAX_CONTAINER`. -/
def maxContainer : ℕ := 1000000

/-- `MAX_DEPTH`. -/
def maxDepth : ℕ := 64

/-- `usize::MAX`. -/
def usizeMax : ℕ := 2 ^ 64 - 1

/-- A map key: an unsigned integer or a text. -/
def isKey : Value → Bool
  | .unsigned _ => true
  | .text _ => true
  | _ => false

/-- The key of an entry as it is written. -/
def entryKey (entry : Value × Value) : List UInt8 := entry.1.encode

/-- The order of entries by their written keys. -/
def keyLe (a b : Value × Value) : Bool := entryKey a ≤ entryKey b

/-- An item under `depth` containers that respects the limits, in whose maps the written
keys satisfy `keys`. -/
inductive Accepted (keys : List (List UInt8) → Prop) : ℕ → Value → Prop
  | unsigned {depth : ℕ} {n : UInt64} : depth ≤ maxDepth → Accepted keys depth (.unsigned n)
  | negative {depth : ℕ} {n : UInt64} : depth ≤ maxDepth → Accepted keys depth (.negative n)
  | bytes {depth : ℕ} {s : List UInt8} : depth ≤ maxDepth → s.length ≤ maxBytes → Accepted keys depth (.bytes s)
  | text {depth : ℕ} {s : String} : depth ≤ maxDepth → (textBytes s).length ≤ maxText → Accepted keys depth (.text s)
  | array {depth : ℕ} {items : List Value} : depth ≤ maxDepth → items.length ≤ maxContainer →
      (∀ v ∈ items, Accepted keys (depth + 1) v) → Accepted keys depth (.array items)
  | map {depth : ℕ} {entries : List (Value × Value)} : depth ≤ maxDepth → entries.length ≤ maxContainer →
      (∀ e ∈ entries, isKey e.1 = true) → (∀ e ∈ entries, Accepted keys (depth + 1) e.1) →
      (∀ e ∈ entries, Accepted keys (depth + 1) e.2) → keys (entries.map entryKey) →
      Accepted keys depth (.map entries)
  | bool {depth : ℕ} {b : Bool} : depth ≤ maxDepth → Accepted keys depth (.bool b)
  | null {depth : ℕ} : depth ≤ maxDepth → Accepted keys depth .null

/-- An item the encoder takes. -/
abbrev Fits : ℕ → Value → Prop := Accepted List.Nodup

/-- An item in the form the validator wants. -/
abbrev Deterministic : ℕ → Value → Prop := Accepted (List.Pairwise (· < ·))

section Accepted

variable {keys : List (List UInt8) → Prop} {depth : ℕ}

theorem Accepted.depth_le {v : Value} (h : Accepted keys depth v) : depth ≤ maxDepth := by
  cases h <;> assumption

theorem accepted_array_iff {items : List Value} :
    Accepted keys depth (.array items) ↔
      depth ≤ maxDepth ∧ items.length ≤ maxContainer ∧
      ∀ v ∈ items, Accepted keys (depth + 1) v := by
  constructor
  · intro h
    cases h with
    | array hdepth hlen hitems => exact ⟨hdepth, hlen, hitems⟩
  · rintro ⟨hdepth, hlen, hitems⟩
    exact .array hdepth hlen hitems

theorem accepted_map_iff {entries : List (Value × Value)} :
    Accepted keys depth (.map entries) ↔
      depth ≤ maxDepth ∧ entries.length ≤ maxContainer ∧ (∀ e ∈ entries, isKey e.1 = true) ∧
        (∀ e ∈ entries, Accepted keys (depth + 1) e.1) ∧
        (∀ e ∈ entries, Accepted keys (depth + 1) e.2) ∧
        keys (entries.map entryKey) := by
  constructor
  · intro h
    cases h with
    | map hdepth hlen hkind hkey hvalue hkeys => exact ⟨hdepth, hlen, hkind, hkey, hvalue, hkeys⟩
  · rintro ⟨hdepth, hlen, hkind, hkey, hvalue, hkeys⟩
    exact .map hdepth hlen hkind hkey hvalue hkeys

theorem Accepted.mono {keys' : List (List UInt8) → Prop} (hkeys : ∀ l, keys l → keys' l) {v : Value}
    (h : Accepted keys depth v) : Accepted keys' depth v := by
  induction h with
  | unsigned hdepth => exact .unsigned hdepth
  | negative hdepth => exact .negative hdepth
  | bytes hdepth hlen => exact .bytes hdepth hlen
  | text hdepth hlen => exact .text hdepth hlen
  | array hdepth hlen _ ih => exact .array hdepth hlen ih
  | map hdepth hlen hkind _ _ horder ihk ihv => exact .map hdepth hlen hkind ihk ihv (hkeys _ horder)
  | bool hdepth => exact .bool hdepth
  | null hdepth => exact .null hdepth

/-- The limits keep items within what any reader of the core model takes. -/
theorem Accepted.plain {v : Value} (h : Accepted keys depth v) :
    v.Plain (maxDepth + 1 - depth) := by
  have hroom : ∀ {depth}, depth ≤ maxDepth → maxDepth + 1 - depth = maxDepth + 1 - (depth + 1) + 1 := by omega
  have hcontainer : ∀ {n}, n ≤ maxContainer → n < 2 ^ 64 :=
    fun h => Nat.lt_of_le_of_lt h (by decide)
  induction h with
  | unsigned => exact .unsigned
  | negative => exact .negative
  | bytes _ hlen => exact .bytes (Nat.lt_of_le_of_lt hlen (by decide))
  | text _ hlen => exact .text (Nat.lt_of_le_of_lt hlen (by decide))
  | array hdepth hlen _ ih => exact hroom hdepth ▸ .array (hcontainer hlen) ih
  | map hdepth hlen _ _ _ _ ihk ihv => exact hroom hdepth ▸ .map (hcontainer hlen) ihk ihv
  | bool => exact .bool
  | null => exact .null

end Accepted

theorem Deterministic.fits {depth : ℕ} {v : Value} (h : Deterministic depth v) : Fits depth v := by
  refine h.mono fun keys hkeys => List.Pairwise.imp ?_ hkeys
  rintro a _ hlt rfl
  exact List.lt_irrefl a hlt

/-! ### Sorting -/

section Sorting

variable {α β : Type} {le : α → α → Bool}

/-- `slice::sort_by`, which is stable. -/
def sortBy (le : α → α → Bool) (l : List α) : List α := l.insertionSort fun a b => le a b = true

theorem sortBy_perm (le : α → α → Bool) (l : List α) : (sortBy le l).Perm l :=
  List.perm_insertionSort _ l

theorem pairwise_sortBy (htrans : ∀ a b c, le a b = true → le b c = true → le a c = true)
    (htotal : ∀ a b, (le a b || le b a) = true) (l : List α) : (sortBy le l).Pairwise (le · ·) := by
  have : IsTrans α fun a b => le a b = true := ⟨htrans⟩
  have : Std.Total fun a b => le a b = true := ⟨fun a b => by simpa using htotal a b⟩
  exact List.pairwise_insertionSort _ l

theorem sortBy_of_pairwise {l : List α} (h : l.Pairwise (le · ·)) : sortBy le l = l :=
  h.insertionSort_eq

theorem map_sortBy {le' : β → β → Bool} {f : α → β} (hf : ∀ a b, le a b = le' (f a) (f b))
    (l : List α) :
    (sortBy le l).map f = sortBy le' (l.map f) :=
  List.map_insertionSort _ _ f l fun a _ b _ => by rw [hf]

end Sorting

/-! ### Sorting every map -/

mutual
/-- A value with the entries of every map, at every depth, sorted by their written keys. -/
def sortMaps : Value → Value
  | .array items => .array (sortItems items)
  | .map entries => .map (sortBy keyLe (sortEntries entries))
  | .tag n content => .tag n (sortMaps content)
  | v => v
/-- `sortMaps` on a row of items. -/
def sortItems : List Value → List Value
  | [] => []
  | v :: items => sortMaps v :: sortItems items
/-- `sortMaps` on a row of entries. -/
def sortEntries : List (Value × Value) → List (Value × Value)
  | [] => []
  | (k, v) :: entries => (sortMaps k, sortMaps v) :: sortEntries entries
end

theorem sortItems_eq (items : List Value) : sortItems items = items.map sortMaps := by
  induction items with
  | nil => rfl
  | cons v items ih => rw [sortItems, ih, List.map_cons]

theorem sortEntries_eq (entries : List (Value × Value)) :
    sortEntries entries = entries.map (Prod.map sortMaps sortMaps) := by
  induction entries with
  | nil => rfl
  | cons e entries ih => rw [sortEntries, ih, List.map_cons, Prod.map]

theorem sortMaps_key {k : Value} (h : isKey k = true) : sortMaps k = k := by
  cases k <;> first | rfl | cases h

theorem keyLe_trans (a b c : Value × Value) (hab : keyLe a b = true) (hbc : keyLe b c = true) :
    keyLe a c = true := by
  simp only [keyLe, decide_eq_true_eq] at *
  exact List.le_trans hab hbc

theorem keyLe_total (a b : Value × Value) : (keyLe a b || keyLe b a) = true := by
  simpa [keyLe] using List.le_total (entryKey a) (entryKey b)

/-- Sorted entries with distinct keys have increasing keys. -/
theorem pairwise_lt_of_sorted {entries : List (Value × Value)}
    (hsorted : entries.Pairwise (keyLe · ·)) (hnodup : (entries.map entryKey).Nodup) :
    (entries.map entryKey).Pairwise (· < ·) := by
  rw [List.Nodup, List.pairwise_map] at hnodup
  rw [List.pairwise_map]
  refine (hsorted.and hnodup).imp fun ⟨hle, hne⟩ => ?_
  have hle : entryKey _ ≤ entryKey _ := of_decide_eq_true hle
  exact Decidable.byContradiction fun hlt => hne (List.le_antisymm hle (List.not_lt.mp hlt))

/-- Increasing keys are in order. -/
theorem sorted_of_pairwise_lt {entries : List (Value × Value)}
    (h : (entries.map entryKey).Pairwise (· < ·)) :
    entries.Pairwise (keyLe · ·) := by
  rw [List.pairwise_map] at h
  exact h.imp fun hlt => decide_eq_true (List.le_of_lt hlt)

/-- The entries of a fitting map keep their keys. -/
theorem entryKey_sortEntries {entries : List (Value × Value)}
    (h : ∀ e ∈ entries, isKey e.1 = true) :
    (sortEntries entries).map entryKey = entries.map entryKey := by
  rw [sortEntries_eq, List.map_map]
  refine List.map_congr_left fun e he => ?_
  rw [Function.comp_apply, entryKey, Prod.map_fst, sortMaps_key (h e he), entryKey]

/-- **A deterministic value is sorted already.** -/
theorem sortMaps_eq_self {depth : ℕ} {v : Value} (h : Deterministic depth v) : sortMaps v = v := by
  induction h with
  | array _ _ _ ih => rw [sortMaps, sortItems_eq, List.map_congr_left ih, List.map_id']
  | @map _ entries _ _ _ _ _ hkeys ihk ihv =>
    have hsame : sortEntries entries = entries := by
      rw [sortEntries_eq]
      conv_rhs => rw [← List.map_id entries]
      exact List.map_congr_left fun e he => Prod.ext (ihk e he) (ihv e he)
    rw [sortMaps, hsame, sortBy_of_pairwise (sorted_of_pairwise_lt hkeys)]
  | _ => rfl

/-- **Sorting makes a fitting value deterministic.** -/
theorem Fits.sortMaps {depth : ℕ} {v : Value} (h : Fits depth v) :
    Deterministic depth (sortMaps v) := by
  induction h with
  | unsigned hdepth => exact .unsigned hdepth
  | negative hdepth => exact .negative hdepth
  | bytes hdepth hlen => exact .bytes hdepth hlen
  | text hdepth hlen => exact .text hdepth hlen
  | array hdepth hlen _ ih =>
    rw [Wire.sortMaps, sortItems_eq]
    exact .array hdepth (by rwa [List.length_map]) (List.forall_mem_map.mpr ih)
  | @map depth entries hdepth hlen hkind _ _ hkeys ihk ihv =>
    have hperm := sortBy_perm keyLe (sortEntries entries)
    have hentry : ∀ e ∈ sortBy keyLe (sortEntries entries), ∃ e' ∈ entries, e =
        Prod.map Wire.sortMaps Wire.sortMaps e' := by
      intro e he
      rw [hperm.mem_iff, sortEntries_eq, List.mem_map] at he
      obtain ⟨e', he', rfl⟩ := he
      exact ⟨e', he', rfl⟩
    rw [Wire.sortMaps]
    refine .map hdepth ?_ ?_ ?_ ?_ ?_
    · rwa [hperm.length_eq, sortEntries_eq, List.length_map]
    · intro e he
      obtain ⟨e', he', rfl⟩ := hentry e he
      rw [Prod.map_fst, sortMaps_key (hkind e' he')]
      exact hkind e' he'
    · intro e he
      obtain ⟨e', he', rfl⟩ := hentry e he
      exact ihk e' he'
    · intro e he
      obtain ⟨e', he', rfl⟩ := hentry e he
      exact ihv e' he'
    · refine pairwise_lt_of_sorted (pairwise_sortBy keyLe_trans keyLe_total _) ?_
      rw [(hperm.map entryKey).nodup_iff, entryKey_sortEntries hkind]
      exact hkeys
  | bool hdepth => exact .bool hdepth
  | null hdepth => exact .null hdepth

/-! ### Sizes -/

theorem sizeItems_eq (items : List Value) : sizeItems items = (items.map Value.size).sum := by
  induction items with
  | nil => rfl
  | cons v items ih => rw [sizeItems, ih, List.map_cons, List.sum_cons]

theorem sizeEntries_eq (entries : List (Value × Value)) :
    sizeEntries entries = (entries.map fun e => e.1.size + e.2.size).sum := by
  induction entries with
  | nil => rfl
  | cons e entries ih => rw [sizeEntries, ih, List.map_cons, List.sum_cons]

theorem sizeEntries_perm {entries entries' : List (Value × Value)} (h : entries.Perm entries') :
    sizeEntries entries = sizeEntries entries' := by
  rw [sizeEntries_eq, sizeEntries_eq, (h.map _).sum_eq]

theorem size_sortMaps (v : Value) : (sortMaps v).size = v.size := by
  induction v using Value.induction with
  | array items ih =>
    rw [sortMaps, Value.size, Value.size, sortItems_eq, sizeItems_eq, sizeItems_eq, List.map_map]
    exact congrArg (·.sum + 1) (List.map_congr_left ih)
  | map entries ih =>
    rw [sortMaps, Value.size, Value.size, sizeEntries_perm (sortBy_perm ..), sortEntries_eq,
      sizeEntries_eq, sizeEntries_eq, List.map_map]
    exact congrArg (·.sum + 1) (List.map_congr_left fun e he => congrArg₂ (· + ·) (ih e he).1 (ih e he).2)
  | tag n content ih => rw [sortMaps, Value.size, Value.size, ih]
  | _ => rfl

/-! ### Values that differ in the order of map entries -/

/-- The entries of one map, anywhere in a value, in another order. -/
inductive Reorder : Value → Value → Prop
  | entries {entries entries' : List (Value × Value)} : entries.Perm entries' → Reorder (.map entries) (.map entries')
  | item (before after : List Value) {v w : Value} : Reorder v w →
      Reorder (.array (before ++ v :: after)) (.array (before ++ w :: after))
  | key (before after : List (Value × Value)) {k l v : Value} : Reorder k l →
      Reorder (.map (before ++ (k, v) :: after)) (.map (before ++ (l, v) :: after))
  | value (before after : List (Value × Value)) {k v w : Value} : Reorder v w →
      Reorder (.map (before ++ (k, v) :: after)) (.map (before ++ (k, w) :: after))
  | content (n : UInt64) {v w : Value} : Reorder v w → Reorder (.tag n v) (.tag n w)

/-- Values that differ in the order of map entries alone, at any depths. -/
abbrev Reordered : Value → Value → Prop := Relation.ReflTransGen Reorder

theorem Reorder.symm {v w : Value} (h : Reorder v w) : Reorder w v := by
  induction h with
  | entries hperm => exact .entries hperm.symm
  | item before after _ ih => exact .item before after ih
  | key before after _ ih => exact .key before after ih
  | value before after _ ih => exact .value before after ih
  | content n _ ih => exact .content n ih

/-- A key has no map to reorder. -/
theorem Reorder.not_key {v w : Value} (h : Reorder v w) : isKey v = false := by
  cases h <;> rfl

theorem Reorder.size_eq {v w : Value} (h : Reorder v w) : v.size = w.size := by
  induction h with
  | entries hperm => rw [Value.size, Value.size, sizeEntries_perm hperm]
  | item before after _ ih => simp [Value.size, sizeItems_eq, ih]
  | key before after _ ih => simp [Value.size, sizeEntries_eq, ih]
  | value before after _ ih => simp [Value.size, sizeEntries_eq, ih]
  | content n _ ih => rw [Value.size, Value.size, ih]

/-- One item of a row replaced: what holds of every item, and of the new one, holds. -/
theorem forall_mem_replace {α : Type} {P : α → Prop} {before after : List α} {a b : α}
    (h : ∀ c ∈ before ++ a :: after, P c) (hb : P b) : ∀ c ∈ before ++ b :: after, P c := by
  intro c hc
  rcases List.mem_append.mp hc with hc | hc
  · exact h c (List.mem_append_left _ hc)
  · rcases List.mem_cons.mp hc with rfl | hc
    · exact hb
    · exact h c (List.mem_append_right _ (List.mem_cons_of_mem _ hc))

theorem Reorder.fits {v w : Value} (h : Reorder v w) {depth : ℕ} (hfits : Fits depth v) :
    Fits depth w := by
  induction h generalizing depth with
  | entries hperm =>
    obtain ⟨hdepth, hlen, hkind, hkey, hvalue, hkeys⟩ := accepted_map_iff.mp hfits
    exact .map hdepth (hperm.length_eq ▸ hlen) (fun e he => hkind e (hperm.mem_iff.mpr he))
      (fun e he => hkey e (hperm.mem_iff.mpr he)) (fun e he => hvalue e (hperm.mem_iff.mpr he))
      ((hperm.map entryKey).nodup_iff.mp hkeys)
  | @item before after v w _ ih =>
    obtain ⟨hdepth, hlen, hitems⟩ := accepted_array_iff.mp hfits
    exact .array hdepth (by simpa using hlen) (forall_mem_replace hitems (ih (hitems v (by simp))))
  | @key before after k l v hkl _ =>
    obtain ⟨-, -, hkind, -⟩ := accepted_map_iff.mp hfits
    exact absurd (hkind (k, v) (by simp)) (by simp [hkl.not_key])
  | @value before after k v w _ ih =>
    obtain ⟨hdepth, hlen, hkind, hkey, hvalue, hkeys⟩ := accepted_map_iff.mp hfits
    exact .map hdepth (by simpa using hlen) (forall_mem_replace hkind (hkind (k, v) (by simp)))
      (forall_mem_replace hkey (hkey (k, v) (by simp))) (forall_mem_replace hvalue (ih (hvalue (k, v) (by simp))))
      (by simpa [entryKey] using hkeys)
  | content => cases hfits

/-- Permuted entries with distinct keys sort to one list. -/
theorem sortBy_eq_of_perm {entries entries' : List (Value × Value)} (hperm : entries.Perm entries')
    (hkeys : (entries.map entryKey).Nodup) : sortBy keyLe entries = sortBy keyLe entries' := by
  have hsort := pairwise_sortBy keyLe_trans keyLe_total
  refine List.Perm.eq_of_pairwise ?_ (hsort entries) (hsort entries')
    ((sortBy_perm ..).trans (hperm.trans (sortBy_perm ..).symm))
  intro a b ha hb hab hba
  rw [(sortBy_perm ..).mem_iff] at ha hb
  have hkey : entryKey a = entryKey b := List.le_antisymm (of_decide_eq_true hab) (of_decide_eq_true hba)
  exact List.inj_on_of_nodup_map hkeys ha (hperm.mem_iff.mpr hb) hkey

theorem Reorder.sortMaps_eq {v w : Value} (h : Reorder v w) {depth : ℕ} (hfits : Fits depth v) :
    sortMaps v = sortMaps w := by
  induction h generalizing depth with
  | entries hperm =>
    obtain ⟨-, -, hkind, -, -, hkeys⟩ := accepted_map_iff.mp hfits
    rw [sortMaps, sortMaps, sortBy_eq_of_perm]
    · rw [sortEntries_eq, sortEntries_eq]
      exact hperm.map _
    · rwa [entryKey_sortEntries hkind]
  | @item before after v w _ ih =>
    obtain ⟨-, -, hitems⟩ := accepted_array_iff.mp hfits
    simp [sortMaps, sortItems_eq, ih (hitems v (by simp))]
  | @key before after k l v hkl _ =>
    obtain ⟨-, -, hkind, -⟩ := accepted_map_iff.mp hfits
    exact absurd (hkind (k, v) (by simp)) (by simp [hkl.not_key])
  | @value before after k v w _ ih =>
    obtain ⟨-, -, -, -, hvalue, -⟩ := accepted_map_iff.mp hfits
    simp [sortMaps, sortEntries_eq, ih (hvalue (k, v) (by simp))]
  | content => cases hfits

theorem Reordered.symm {v w : Value} (h : Reordered v w) : Reordered w v := by
  induction h with
  | refl => exact .refl
  | tail _ hstep ih => exact .head hstep.symm ih

/-- **Values that differ in the order of map entries fit together.** -/
theorem Reordered.fits {v w : Value} (h : Reordered v w) {depth : ℕ} (hfits : Fits depth v) :
    Fits depth w := by
  induction h with
  | refl => exact hfits
  | tail _ hstep ih => exact hstep.fits ih

theorem Reordered.size_eq {v w : Value} (h : Reordered v w) : v.size = w.size := by
  induction h with
  | refl => rfl
  | tail _ hstep ih => rw [ih, hstep.size_eq]

/-- **They have one sorted form.** -/
theorem Reordered.sortMaps_eq {v w : Value} (h : Reordered v w) {depth : ℕ} (hfits : Fits depth v) :
    sortMaps v = sortMaps w := by
  induction h with
  | refl => rfl
  | tail hbefore hstep ih => rw [ih, hstep.sortMaps_eq (Reordered.fits hbefore hfits)]

end DdcControl.Wire
