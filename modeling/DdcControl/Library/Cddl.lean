import DdcControl.Library.Cbor
import Mathlib.Data.List.Nodup

/-!
# Schemas of CBOR data

The rules of RFC 8610 that describe data items, each as the items that match it: ranges,
strings of a size, arrays, tables, and records, which are maps whose keys are numbers. A
`Member` of a record is `key => rule` or `? key => rule`; a record may go on with
`* n.. => rule`, any keys from `n` on.

A key occurs once in a map. `recordOf_iff` gives a record by its keys: what a key is for is
a function (`ruleAt`).
-/

namespace Cddl

open Cbor

/-- A rule: the items that match. -/
abbrev Rule : Type := Value → Prop

/-- The number `k`. -/
def literal (k : ℕ) : Rule := fun v => ∃ n : UInt64, v = .unsigned n ∧ n.toNat = k

/-- `lo..hi`. -/
def range (lo hi : ℕ) : Rule := fun v => ∃ n : UInt64, v = .unsigned n ∧ lo ≤ n.toNat ∧ n.toNat ≤ hi

/-- `uint`. -/
def uint : Rule := fun v => ∃ n, v = .unsigned n

/-- `int`. -/
def int : Rule := fun v => (∃ n, v = .unsigned n) ∨ ∃ n, v = .negative n

/-- `tstr .size (lo..hi)`: the size is that of the text in UTF-8. -/
def text (lo hi : ℕ) : Rule := fun v => ∃ s, v = .text s ∧ lo ≤ (textBytes s).length ∧ (textBytes s).length ≤ hi

/-- `bstr .size (lo..hi)`. -/
def bytes (lo hi : ℕ) : Rule := fun v => ∃ s, v = .bytes s ∧ lo ≤ s.length ∧ s.length ≤ hi

/-- `bool`. -/
def bool : Rule := fun v => ∃ b, v = .bool b

/-- `r / s`. -/
def either (r s : Rule) : Rule := fun v => r v ∨ s v

/-- `[* r]`. -/
def arrayOf (r : Rule) : Rule := fun v => ∃ items, v = .array items ∧ ∀ item ∈ items, r item

/-- `{ * r => s }`. -/
def tableOf (r s : Rule) : Rule := fun v => ∃ entries, v = .map entries ∧ ∀ e ∈ entries, r e.1 ∧ s e.2

/-- A member of a record. -/
structure Member where
  key : ℕ
  optional : Bool
  rule : Rule

/-- `key: rule`. -/
def one (key : ℕ) (rule : Rule) : Member := ⟨key, false, rule⟩

/-- `? key: rule`. -/
def opt (key : ℕ) (rule : Rule) : Member := ⟨key, true, rule⟩

/-- The record of the members, and, when there is a `rest`, of others from its number on. -/
def recordOf (members : List Member) (rest : Option (ℕ × Rule)) : Rule := fun v =>
  ∃ entries, v = .map entries ∧
    (∀ e ∈ entries, (∃ m ∈ members, literal m.key e.1 ∧ m.rule e.2) ∨
      ∃ r ∈ rest, ∃ k, r.1 ≤ k ∧ literal k e.1 ∧ r.2 e.2) ∧
    ∀ m ∈ members, m.optional = false → ∃ e ∈ entries, literal m.key e.1

/-- What a key is for. -/
def ruleAt : List Member → ℕ → Option Rule
  | [], _ => none
  | m :: members, k => if m.key = k then some m.rule else ruleAt members k

/-- `x` is what `v` holds under the key. -/
def Holds (v : Value) (key : ℕ) (x : Value) : Prop := ∃ entries, v = .map entries ∧ ∃ e ∈ entries, literal key e.1 ∧ e.2 = x

theorem literal_inj {v : Value} {k k' : ℕ} (h : literal k v) (h' : literal k' v) : k = k' := by
  obtain ⟨n, rfl, rfl⟩ := h
  obtain ⟨n', heq, rfl⟩ := h'
  cases heq
  rfl

theorem ruleAt_eq_some {members : List Member} (hkeys : (members.map Member.key).Nodup) {k : ℕ}
    {rule : Rule} :
    ruleAt members k = some rule ↔ ∃ m ∈ members, m.key = k ∧ m.rule = rule := by
  induction members with
  | nil => simp [ruleAt]
  | cons m members ih =>
    obtain ⟨hm, hkeys⟩ := List.nodup_cons.mp hkeys
    rw [ruleAt]
    split_ifs with heq
    · simp only [Option.some.injEq, List.mem_cons]
      constructor
      · rintro rfl
        exact ⟨m, .inl rfl, heq, rfl⟩
      · rintro ⟨m', rfl | hm', hk, hrule⟩
        · exact hrule
        · exact absurd (List.mem_map.mpr ⟨m', hm', hk.trans heq.symm⟩) hm
    · rw [ih hkeys]
      constructor
      · rintro ⟨m', hm', h⟩
        exact ⟨m', List.mem_cons_of_mem _ hm', h⟩
      · rintro ⟨m', hm', hk, hrule⟩
        rcases List.mem_cons.mp hm' with rfl | hm'
        · exact absurd hk heq
        · exact ⟨m', hm', hk, hrule⟩

theorem ruleAt_eq_none {members : List Member} {k : ℕ} :
    ruleAt members k = none ↔ ∀ m ∈ members, m.key ≠ k := by
  induction members with
  | nil => simp [ruleAt]
  | cons m members ih =>
    rw [ruleAt, List.forall_mem_cons]
    split_ifs with heq <;> simp [heq, ih]

/-- A record by its keys: each says what its value is, and those that must occur do. -/
theorem recordOf_iff {members : List Member} (hkeys : (members.map Member.key).Nodup)
    {rest : Option (ℕ × Rule)} (hrest : ∀ r ∈ rest, ∀ m ∈ members, m.key < r.1) {v : Value} :
    recordOf members rest v ↔ ∃ entries, v = .map entries ∧
      (∀ e ∈ entries, ∃ k, literal k e.1 ∧ ((∃ rule, ruleAt members k = some rule ∧ rule e.2) ∨
        (ruleAt members k = none ∧ ∃ r ∈ rest, r.1 ≤ k ∧ r.2 e.2))) ∧
      ∀ m ∈ members, m.optional = false → ∃ e ∈ entries, literal m.key e.1 := by
  have hentry : ∀ e : Value × Value, ((∃ m ∈ members, literal m.key e.1 ∧ m.rule e.2) ∨
      ∃ r ∈ rest, ∃ k, r.1 ≤ k ∧ literal k e.1 ∧ r.2 e.2) ↔
      ∃ k, literal k e.1 ∧ ((∃ rule, ruleAt members k = some rule ∧ rule e.2) ∨
        (ruleAt members k = none ∧ ∃ r ∈ rest, r.1 ≤ k ∧ r.2 e.2)) := by
    intro e
    constructor
    · rintro (⟨m, hm, hkey, hrule⟩ | ⟨r, hr, k, hle, hkey, hrule⟩)
      · exact ⟨m.key, hkey, .inl ⟨m.rule, (ruleAt_eq_some hkeys).mpr ⟨m, hm, rfl, rfl⟩, hrule⟩⟩
      · refine ⟨k, hkey, .inr ⟨ruleAt_eq_none.mpr fun m hm heq => ?_, r, hr, hle, hrule⟩⟩
        have hlt := hrest r hr m hm
        omega
    · rintro ⟨k, hkey, ⟨rule, hrule, hvalue⟩ | ⟨-, r, hr, hle, hvalue⟩⟩
      · obtain ⟨m, hm, rfl, rfl⟩ := (ruleAt_eq_some hkeys).mp hrule
        exact .inl ⟨m, hm, hkey, hvalue⟩
      · exact .inr ⟨r, hr, k, hle, hkey, hvalue⟩
  unfold recordOf
  simp only [hentry]

/-- A closed record by what it holds. -/
theorem recordOf_none_iff {members : List Member}
    (hkeys : (members.map Member.key).Nodup) {v : Value} :
    recordOf members none v ↔ (∃ entries, v = .map entries ∧ ∀ e ∈ entries, ∃ m ∈ members, literal m.key e.1) ∧
      (∀ m ∈ members, ∀ x, Holds v m.key x → m.rule x) ∧
      ∀ m ∈ members, m.optional = false → ∃ x, Holds v m.key x := by
  constructor
  · rintro ⟨entries, rfl, hentries, hrequired⟩
    refine ⟨⟨entries, rfl, fun e he => ?_⟩, ?_, fun m hm hone => ?_⟩
    · obtain ⟨m, hm, hkey, -⟩ | ⟨_, h, -⟩ := hentries e he
      · exact ⟨m, hm, hkey⟩
      · cases h
    · rintro m hm x ⟨_, heq, e, he, hkey, rfl⟩
      cases heq
      obtain ⟨m', hm', hkey', hrule⟩ | ⟨_, h, -⟩ := hentries e he
      · rwa [List.inj_on_of_nodup_map hkeys hm hm' (literal_inj hkey hkey')]
      · cases h
    · obtain ⟨e, he, hkey⟩ := hrequired m hm hone
      exact ⟨e.2, entries, rfl, e, he, hkey, rfl⟩
  · rintro ⟨⟨entries, rfl, hentries⟩, hrules, hrequired⟩
    refine ⟨entries, rfl, fun e he => ?_, fun m hm hone => ?_⟩
    · obtain ⟨m, hm, hkey⟩ := hentries e he
      exact .inl ⟨m, hm, hkey, hrules m hm e.2 ⟨entries, rfl, e, he, hkey, rfl⟩⟩
    · obtain ⟨x, _, heq, e, he, hkey, -⟩ := hrequired m hm hone
      cases heq
      exact ⟨e, he, hkey⟩

/-- An open record by what it holds, where every key before those of the others is a member's. -/
theorem recordOf_some_iff {members : List Member} (hkeys : (members.map Member.key).Nodup)
    {n : ℕ} {r : Rule} (hbefore : ∀ m ∈ members, m.key < n)
    (hcover : ∀ k < n, ∃ m ∈ members, m.key = k) {v : Value} (hr : ∀ k x, Holds v k x → r x) :
    recordOf members (some (n, r)) v ↔ (∃ entries, v = .map entries ∧ ∀ e ∈ entries, ∃ k, literal k e.1) ∧
      (∀ m ∈ members, ∀ x, Holds v m.key x → m.rule x) ∧
      ∀ m ∈ members, m.optional = false → ∃ x, Holds v m.key x := by
  constructor
  · rintro ⟨entries, rfl, hentries, hrequired⟩
    refine ⟨⟨entries, rfl, fun e he => ?_⟩, ?_, fun m hm hone => ?_⟩
    · obtain ⟨m, -, hkey, -⟩ | ⟨_, -, k, -, hkey, -⟩ := hentries e he
      · exact ⟨m.key, hkey⟩
      · exact ⟨k, hkey⟩
    · rintro m hm x ⟨_, heq, e, he, hkey, rfl⟩
      cases heq
      obtain ⟨m', hm', hkey', hrule⟩ | ⟨_, hrest, k, hle, hkey', -⟩ := hentries e he
      · rwa [List.inj_on_of_nodup_map hkeys hm hm' (literal_inj hkey hkey')]
      · cases hrest
        have hlt := hbefore m hm
        rw [literal_inj hkey hkey'] at hlt
        exact absurd hlt (Nat.not_lt.mpr hle)
    · obtain ⟨e, he, hkey⟩ := hrequired m hm hone
      exact ⟨e.2, entries, rfl, e, he, hkey, rfl⟩
  · rintro ⟨⟨entries, rfl, hentries⟩, hrules, hrequired⟩
    refine ⟨entries, rfl, fun e he => ?_, fun m hm hone => ?_⟩
    · obtain ⟨k, hkey⟩ := hentries e he
      rcases Nat.lt_or_ge k n with hlt | hge
      · obtain ⟨m, hm, rfl⟩ := hcover k hlt
        exact .inl ⟨m, hm, hkey, hrules m hm e.2 ⟨entries, rfl, e, he, hkey, rfl⟩⟩
      · exact .inr ⟨_, rfl, k, hge, hkey, hr k e.2 ⟨entries, rfl, e, he, hkey, rfl⟩⟩
    · obtain ⟨x, _, heq, e, he, hkey, -⟩ := hrequired m hm hone
      cases heq
      exact ⟨e, he, hkey⟩

end Cddl
