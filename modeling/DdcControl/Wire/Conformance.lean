import DdcControl.Wire.Format

/-!
# The validator and the schema

`descriptors::extensions` accepts the values that the published schema describes, and no
others (`describedExtensions_conform`). Each check of a descriptor accepts exactly the
data that match its rule (`Checks`); for a record this follows from the fields it knows,
each with its check and its rule (`object_checks`). The recursion through the quirks of a
description goes by the size of the value (`descriptors_check`).

What `value` reads is data (`value_data`), so that the result holds of what a file holds.
-/

namespace DdcControl.Wire

open Cbor Cddl Fallible
open Format (Data Extensions Description)

/-! ### Data -/

theorem literal_iff {v : Value} {k : ℕ} : literal k v ↔ asUint v = some k := by
  cases v <;> simp [literal, asUint]

theorem Format.Data.entry {entries : List (Value × Value)} (h : Data (.map entries)) :
    ∀ e ∈ entries, Data e.2 := by
  cases h with
  | map _ hvalues _ => exact hvalues

theorem Format.Data.key {entries : List (Value × Value)} (h : Data (.map entries)) :
    ∀ e ∈ entries, Data e.1 := by
  cases h with
  | map hkinds _ _ =>
    intro e he
    rcases hkinds e he with ⟨n, hn⟩ | ⟨s, hs, hsize⟩
    · rw [hn]
      exact .unsigned n
    · rw [hs]
      exact .text ⟨s, rfl, hsize⟩

theorem Format.Data.keys {entries : List (Value × Value)} (h : Data (.map entries)) :
    (entries.map Prod.fst).Nodup := by
  cases h with
  | map _ _ hkeys => exact hkeys

/-- A field holds what the map has under its key. -/
theorem optional_eq_some {v x : Value} (hv : Data v) {k : ℕ} :
    optional v k = some x ↔ Holds v k x := by
  constructor
  · intro h
    obtain ⟨entries, rfl, e, he, hkey, hvalue⟩ := mem_of_optional h
    exact ⟨entries, rfl, e, he, literal_iff.mpr hkey, hvalue⟩
  · rintro ⟨entries, rfl, e, he, hkey, rfl⟩
    have hkeys := hv.keys
    clear hv
    simp only [optional, asMap, Option.bind_some]
    induction entries with
    | nil => cases he
    | cons e' entries ih =>
      obtain ⟨hnot, hkeys⟩ := List.nodup_cons.mp hkeys
      rcases List.mem_cons.mp he with rfl | he
      · rw [List.findSome?_cons, if_pos (literal_iff.mp hkey)]
      · have hne : ¬ asUint e'.1 = some k := by
          intro heq
          obtain ⟨n, hn, rfl⟩ := hkey
          obtain ⟨n', hn', heq⟩ := literal_iff.mpr heq
          rw [UInt64.toNat_inj.mp heq] at hn'
          exact hnot (List.mem_map.mpr ⟨e, he, hn.trans hn'.symm⟩)
        rw [List.findSome?_cons, if_neg hne]
        exact ih he hkeys

/-- A key of data holds one value. -/
theorem Format.Data.unique {v x y : Value} (hv : Data v) {k : ℕ} (hx : Holds v k x)
    (hy : Holds v k y) : x = y :=
  Option.some.inj (((optional_eq_some hv).mpr hx).symm.trans ((optional_eq_some hv).mpr hy))

theorem Format.Data.holds {v x : Value} {k : ℕ} (hv : Data v) (h : Holds v k x) : Data x := by
  obtain ⟨entries, rfl, e, he, -, rfl⟩ := h
  exact hv.entry e he

/-- What respects the encoder's limits is data. -/
theorem Accepted.data {depth : ℕ} {v : Value} (h : Fits depth v) : Data v := by
  induction h with
  | unsigned => exact .unsigned _
  | negative => exact .negative _
  | bytes _ hlen => exact .bytes ⟨_, rfl, Nat.zero_le _, hlen⟩
  | text _ hlen => exact .text ⟨_, rfl, Nat.zero_le _, hlen⟩
  | array _ _ _ ih => exact .array ih
  | @map depth entries _ _ hkinds hkeys _ hnodup _ ihvalues =>
    refine .map (fun e he => ?_) ihvalues (.of_map Value.encode (by rwa [List.map_map]))
    have hkind := hkinds e he
    have hfits := hkeys e he
    obtain ⟨key, x⟩ := e
    cases hfits with
    | unsigned => exact .inl ⟨_, rfl⟩
    | text _ hlen => exact .inr ⟨_, rfl, Nat.zero_le _, hlen⟩
    | _ => cases hkind
  | bool => exact .bool _
  | null => exact .null

/-- What `value` reads is data. -/
theorem value_data {c : Ciborium} {bytes : List UInt8} {v : Value}
    (h : value c bytes = .ok v) : Data v := by
  have hpreflight : preflight bytes = .ok () := by
    obtain ⟨_, hpreflight, -⟩ := bind_eq_ok.mp h
    exact hpreflight
  obtain ⟨w, hw, hsize, hfile, rfl⟩ := preflight_eq_ok.mp hpreflight
  rw [value_encode hw hsize hfile] at h
  cases h
  exact hw.fits.data

/-! ### Scalars -/

/-- The check accepts exactly the data that match the rule. -/
def Checks (check : Value → Except String Unit) (rule : Rule) : Prop := ∀ v, Data v → (check v = .ok () ↔ rule v)

theorem txt_checks : Checks txt Format.boundedText := by
  intro v hv
  cases hv with
  | text hsize => exact iff_of_true rfl hsize
  | _ => exact iff_of_false nofun (by simp [Format.boundedText, Cddl.text])

theorem int_checks : Checks int Cddl.int := by
  intro v hv
  cases hv with
  | unsigned n => exact iff_of_true rfl (.inl ⟨n, rfl⟩)
  | negative n => exact iff_of_true rfl (.inr ⟨n, rfl⟩)
  | _ => exact iff_of_false nofun (by simp [Cddl.int])

theorem unsigned_checks : Checks unsigned Cddl.uint := by
  intro v hv
  cases hv with
  | unsigned n => exact iff_of_true rfl ⟨n, rfl⟩
  | _ => exact iff_of_false nofun (by simp [Cddl.uint])

theorem range_checks (lo hi : ℕ) : Checks (range · lo hi) (Cddl.range lo hi) := by
  intro v hv
  cases hv with
  | unsigned n =>
    show (reject (!(lo ≤ n.toNat && n.toNat ≤ hi)) "CBOR descriptor integer out of range" :
      Except String Unit) = .ok () ↔ _
    simp [Cddl.range]
  | _ => exact iff_of_false nofun (by simp [Cddl.range])

/-- An identity is not empty: it has a scheme. -/
theorem textBytes_pos {id : String} (h : validIdentity id = true) : 1 ≤ (textBytes id).length := by
  rcases Nat.eq_zero_or_pos (textBytes id).length with hzero | hpos
  · have hempty : id = "" := by
      rw [← String.utf8ByteSize_eq_zero_iff]
      simpa [textBytes] using hzero
    rw [hempty] at h
    exact absurd h (by decide)
  · exact hpos

theorem identity_checks : Checks identity Format.identity := by
  intro v hv
  cases hv with
  | text hsize =>
    rename_i id
    show (reject (!validIdentity id) "CBOR invalid descriptor identity" : Except String Unit) = .ok () ↔ _
    rw [reject_eq_ok, Bool.not_eq_false']
    constructor
    · intro hvalid
      obtain ⟨_, hid, -, hmax⟩ := hsize
      cases hid
      exact ⟨⟨id, rfl, textBytes_pos hvalid, hmax⟩, id, rfl, hvalid⟩
    · rintro ⟨-, _, hid, hvalid⟩
      cases hid
      exact hvalid
  | _ => exact iff_of_false nofun (by simp [Format.identity])

theorem binary_checks : Checks binary Format.boundedBytes := by
  intro v hv
  cases hv with
  | bytes hsize => exact iff_of_true rfl hsize
  | _ => exact iff_of_false nofun (by simp [Format.boundedBytes, Cddl.bytes])

theorem any_checks : Checks (fun _ => .ok ()) Data := fun _ hv => iff_of_true rfl hv

theorem list_eq_ok {v : Value} {check : Inner v → Except String Unit} :
    list v check = .ok () ↔ ∃ items, v = .array items ∧ ∀ item : Inner v, item.1 ∈ items → check item = .ok () := by
  simp only [list, bind_eq_ok, innerItems_eq_ok, forM_eq_ok]
  constructor
  · rintro ⟨items, hitems, hall⟩
    cases v with
    | array values =>
      rw [asArray, Option.some.injEq] at hitems
      refine ⟨values, rfl, fun item hitem => ?_⟩
      obtain ⟨item', hitem', heq⟩ :=
        List.mem_map.mp (by rw [← hitems]; exact hitem : item.1 ∈ items.map Subtype.val)
      rw [← Subtype.ext heq]
      exact hall item' hitem'
    | _ => cases hitems
  · rintro ⟨items, rfl, hall⟩
    refine ⟨items.attach.map fun item => ⟨item.1, size_item item.2⟩, ?_, ?_⟩
    · simp [asArray]
    · intro item hitem
      obtain ⟨⟨x, hx⟩, -, rfl⟩ := List.mem_map.mp hitem
      exact hall _ hx

theorem list_checks {check : Value → Except String Unit} {rule : Rule} (h : Checks check rule) :
    Checks (fun v => list v fun w => check w.1) (arrayOf rule) := by
  intro v hv
  cases hv with
  | array hitems =>
    rename_i items
    rw [list_eq_ok]
    constructor
    · rintro ⟨_, heq, hall⟩
      cases heq
      exact ⟨items, rfl, fun item hitem => (h item (hitems item hitem)).mp (hall ⟨item, size_item hitem⟩ hitem)⟩
    · rintro ⟨_, heq, hall⟩
      cases heq
      exact ⟨items, rfl, fun item hitem => (h item.1 (hitems item.1 hitem)).mpr (hall item.1 hitem)⟩
  | _ => exact iff_of_false nofun (by simp [arrayOf])

/-! ### Records -/

theorem exists_optional {v : Value} {k : ℕ} :
    (∃ x, optional v k = some x) ↔ ∃ entries, v = .map entries ∧ ∃ e ∈ entries, literal k e.1 := by
  constructor
  · rintro ⟨x, h⟩
    obtain ⟨entries, rfl, e, he, hkey, -⟩ := mem_of_optional h
    exact ⟨entries, rfl, e, he, literal_iff.mpr hkey⟩
  · rintro ⟨entries, rfl, e, he, hkey⟩
    rw [← Option.isSome_iff_exists]
    simp only [optional, asMap, Option.bind_some, List.findSome?_isSome_iff]
    exact ⟨e, he, by rw [if_pos (literal_iff.mp hkey)]; rfl⟩

theorem ignore_eq_ok {α : Type} {x : Except String α} :
    (x >>= fun _ => pure ()) = (.ok () : Except String Unit) ↔ ∃ a, x = .ok a := by
  cases x with
  | error e => exact iff_of_false nofun nofun
  | ok a => exact iff_of_true rfl ⟨a, rfl⟩

theorem forM_ignore_eq_ok {α β : Type} {f : α → Except String β} {l : List α} {u : Unit} :
    (l.forM fun a => f a >>= fun _ => pure ()) = .ok u ↔ ∀ a ∈ l, ∃ b, f a = .ok b :=
  (forM_eq_ok (f := fun a => f a >>= fun _ => pure ())).trans (forall₂_congr fun _ _ => ignore_eq_ok)

theorem fields_eq_ok {v : Value} {entries : List (Value × Value)} :
    fields v = .ok entries ↔ v = .map entries ∧ ∀ e ∈ entries, ∃ k, literal k e.1 := by
  simp only [fields, bind_eq_ok, map_eq_ok, forM_ignore_eq_ok, uint_eq_ok, literal_iff]
  constructor
  · rintro ⟨_, rfl, _, hkeys, h⟩
    cases h
    exact ⟨rfl, hkeys⟩
  · rintro ⟨rfl, hkeys⟩
    exact ⟨entries, rfl, (), hkeys, rfl⟩

theorem map_attach_entries (entries : List (Value × Value)) :
    (entries.attach.map fun e => (e.1.1, (⟨e.1.2, size_entry e.2⟩ : Inner (.map entries)))).map
      (fun e => (e.1, e.2.1)) =
      entries := by
  rw [List.map_map]
  exact List.attach_map_subtype_val entries

theorem innerFields_eq_ok {v : Value} {inner : List (Value × Inner v)} :
    innerFields v = .ok inner ↔ fields v = .ok (inner.map fun e => (e.1, e.2.1)) := by
  rw [fields_eq_ok]
  cases v with
  | map entries =>
    have hattach := map_attach_entries entries
    simp only [innerFields, bind_eq_ok, fields_eq_ok, Value.map.injEq]
    constructor
    · rintro ⟨_, ⟨rfl, hkeys⟩, h⟩
      cases h
      rw [hattach]
      exact ⟨rfl, hkeys⟩
    · rintro ⟨heq, hkeys⟩
      refine ⟨entries, ⟨rfl, by rwa [heq]⟩, congrArg Except.ok ?_⟩
      have hinjective : Function.Injective fun e : Value × Inner (.map entries) =>
          (e.1, e.2.1) := by
        intro e e' heq
        obtain ⟨hkey, hx⟩ := Prod.mk.inj heq
        exact Prod.ext hkey (Subtype.ext hx)
      exact List.map_injective_iff.mpr hinjective (hattach.trans heq)
  | _ => exact iff_of_false nofun (by simp)

theorem entry_eq_ok {v : Value} {checks : ℕ → Option (Inner v → Except String Unit)}
    {extensible : Bool} (e : Value × Inner v) : (do
      let id ← uint e.1
      match checks id with
      | some check => check e.2
      | none => reject (!extensible) "CBOR unassigned field in fixed descriptor" : Except String Unit) = .ok () ↔
    ∃ k, literal k e.1 ∧ ((∃ check, checks k = some check ∧ check e.2 = .ok ()) ∨
      (checks k = none ∧ extensible = true)) := by
  rw [bind_eq_ok]
  refine exists_congr fun k => ?_
  rw [uint_eq_ok, literal_iff]
  refine and_congr_right fun _ => ?_
  cases checks k with
  | none => simp
  | some check => simp

/-- The check of a record: every entry has a key and passes the check for it, and the required keys occur. -/
theorem object_eq_ok {v : Value} {checks : ℕ → Option (Inner v → Except String Unit)}
    {required : List ℕ} {extensible : Bool} :
    object v checks required extensible = .ok () ↔ ∃ entries, v = .map entries ∧
      (∀ e : Value × Inner v, (e.1, e.2.1) ∈ entries → ∃ k, literal k e.1 ∧
        ((∃ check, checks k = some check ∧ check e.2 = .ok ()) ∨ (checks k = none ∧ extensible = true))) ∧
      ∀ k ∈ required, ∃ e ∈ entries, literal k e.1 := by
  simp only [object, bind_eq_ok, forM_ignore_eq_ok, field_eq_ok, exists_optional,
    innerFields_eq_ok, fields_eq_ok]
  constructor
  · rintro ⟨-, hrequired, inner, ⟨hv, -⟩, hchecks⟩
    refine ⟨_, hv, fun e he => ?_, fun k hk => ?_⟩
    · obtain ⟨e', he', heq⟩ := List.mem_map.mp he
      obtain ⟨hkey, hvalue⟩ := Prod.mk.inj heq
      obtain rfl : e' = e := Prod.ext hkey (Subtype.ext hvalue)
      exact (entry_eq_ok e').mp (forM_eq_ok.mp hchecks e' he')
    · obtain ⟨entries, hentries, h⟩ := hrequired k hk
      rw [hv] at hentries
      cases hentries
      exact h
  · rintro ⟨entries, rfl, hchecks, hrequired⟩
    have hattach := map_attach_entries entries
    refine ⟨(), fun k hk => ⟨entries, rfl, hrequired k hk⟩, _,
      ⟨congrArg Value.map hattach.symm, fun e he => ?_⟩, ?_⟩
    · rw [hattach] at he
      obtain ⟨k, hkey, -⟩ := hchecks (e.1, ⟨e.2, size_entry he⟩) he
      exact ⟨k, hkey⟩
    · refine forM_eq_ok.mpr fun e he => (entry_eq_ok e).mpr (hchecks e ?_)
      obtain ⟨⟨entry, hentry⟩, -, rfl⟩ := List.mem_map.mp he
      exact hentry

/-- **A record's check is its rule**, when they agree on what each key is for, on the keys that must occur, and on
whether there may be others: those are then from a number on, and hold any data. -/
theorem object_checks {v : Value} (hv : Data v) {checks : ℕ → Option (Inner v → Except String Unit)}
    {required : List ℕ} {members : List Member} (start : Option ℕ)
    (hrules : ∀ k, Option.Rel (fun check rule => ∀ x : Inner v, Data x.1 → (check x =
      .ok () ↔ rule x.1)) (checks k) (ruleAt members k))
    (hrequired : required = (members.filter fun m => !m.optional).map Member.key)
    (hkeys : (members.map Member.key).Nodup) (hbefore : ∀ n ∈ start, ∀ m ∈ members, m.key < n)
    (hcover : ∀ n ∈ start, ∀ k < n, (ruleAt members k).isSome = true) :
    object v checks required start.isSome = .ok () ↔
      recordOf members (start.map fun n => (n, Data)) v := by
  have hrest : ∀ r ∈ start.map fun n => (n, Data), ∀ m ∈ members, m.key < r.1 := by
    intro r hr
    obtain ⟨n, hn, rfl⟩ := Option.map_eq_some_iff.mp hr
    exact hbefore n hn
  have hothers : ∀ k x, Data x → ruleAt members k = none →
      (start.isSome = true ↔ ∃ r ∈ start.map fun n => (n, Data), r.1 ≤ k ∧ r.2 x) := by
    intro k x hx hnone
    cases start with
    | none => simp
    | some n =>
      have hle : n ≤ k := Nat.le_of_not_lt fun hlt => by
        have hsome := hcover n rfl k hlt
        rw [hnone] at hsome
        exact nomatch hsome
      exact iff_of_true rfl ⟨(n, Data), rfl, hle, hx⟩
  have hcheck : ∀ k (x : Inner v), Data x.1 →
      (((∃ check, checks k = some check ∧ check x = .ok ()) ∨ (checks k = none ∧ start.isSome = true)) ↔
        ((∃ rule, ruleAt members k = some rule ∧ rule x.1) ∨
          (ruleAt members k = none ∧ ∃ r ∈ start.map fun n => (n, Data), r.1 ≤ k ∧ r.2 x.1))) := by
    intro k x hx
    have hrule := hrules k
    cases hc : checks k with
    | none =>
      rw [hc] at hrule
      cases hr : ruleAt members k with
      | none => simp [hothers k x.1 hx hr]
      | some rule => rw [hr] at hrule; cases hrule
    | some check =>
      rw [hc] at hrule
      cases hr : ruleAt members k with
      | none => rw [hr] at hrule; cases hrule
      | some rule =>
        rw [hr] at hrule
        cases hrule with
        | some h => simp [h x hx]
  rw [object_eq_ok, recordOf_iff hkeys hrest, hrequired]
  refine exists_congr fun entries => and_congr_right fun hmap => ?_
  subst hmap
  refine and_congr ?_ ?_
  · constructor
    · intro h e he
      obtain ⟨k, hkey, hk⟩ := h (e.1, ⟨e.2, size_entry he⟩) he
      exact ⟨k, hkey, (hcheck k _ (hv.entry e he)).mp hk⟩
    · intro h e he
      obtain ⟨k, hkey, hk⟩ := h (e.1, e.2.1) he
      exact ⟨k, hkey, (hcheck k e.2 (hv.entry _ he)).mpr hk⟩
  · constructor
    · intro h m hm hone
      exact h m.key (List.mem_map_of_mem (List.mem_filter.mpr ⟨hm, by simp [hone]⟩))
    · intro h k hk
      obtain ⟨m, hm, rfl⟩ := List.mem_map.mp hk
      obtain ⟨hm, hone⟩ := List.mem_filter.mp hm
      exact h m hm (by simpa using hone)

/-! ### Descriptors -/

theorem rational_checks {v : Value} (hv : Data v) : object v (fun
      | 0 => some fun v => int v.1
      | 1 => some fun v => range v.1 1 (2 ^ 64 - 1)
      | _ => none) [0, 1] false = .ok () ↔
        recordOf [one 0 Cddl.int, one 1 (Cddl.range 1 18446744073709551615)] none v :=
  object_checks hv none
    (fun
      | 0 => .some fun x hx => int_checks x.1 hx
      | 1 => .some fun x hx => range_checks 1 _ x.1 hx
      | _ + 2 => .none)
    rfl (by decide) nofun nofun

theorem datum_checks : Checks datum Format.datum := by
  intro v hv
  cases hv with
  | unsigned n => exact iff_of_true rfl (.inl (.inl ⟨n, rfl⟩))
  | negative n => exact iff_of_true rfl (.inl (.inr ⟨n, rfl⟩))
  | text hsize => exact iff_of_true rfl (.inr (.inl hsize))
  | bytes hsize => exact iff_of_true rfl (.inr (.inr (.inl hsize)))
  | bool | null | array | map =>
    refine (rational_checks (by constructor <;> assumption)).trans ⟨fun h => .inr (.inr (.inr h)), ?_⟩
    rintro ((⟨_, h⟩ | ⟨_, h⟩) | ⟨_, h, -⟩ | ⟨_, h, -⟩ | h)
    · cases h
    · cases h
    · cases h
    · cases h
    · exact h

theorem literal_of_range {lo hi : ℕ} {v : Value} (h : Cddl.range lo hi v) :
    ∃ n, literal n v ∧ lo ≤ n ∧ n ≤ hi := by
  obtain ⟨n, hn, hlo, hhi⟩ := h
  exact ⟨n.toNat, ⟨n, hn, rfl⟩, hlo, hhi⟩

/-- What the code checks of a quantity in two steps is what the schema says in two alternatives. -/
theorem quantity_iff {v : Value} (hv : Data v) :
    (recordOf [one 0 (Cddl.range 1 2), opt 1 Format.datum] none v ∧
      ∃ kind, Holds v 0 kind ∧ ∃ n, literal n kind ∧ (n = 1 ↔ ∃ x, Holds v 1 x)) ↔ Format.quantity v := by
  rw [Format.quantity, either, recordOf_none_iff (by decide), recordOf_none_iff (by decide),
    recordOf_none_iff (by decide)]
  simp only [List.forall_mem_cons, List.not_mem_nil, false_imp_iff, implies_true, and_true, one,
    opt, List.exists_mem_cons_iff, or_false, true_imp_iff, Bool.true_eq_false, false_and, exists_false]
  constructor
  · rintro ⟨⟨⟨entries, rfl, hentries⟩, ⟨hrange, hdatum⟩, -⟩, kind, hkind, n, hn, hiff⟩
    obtain ⟨n', hn', hlo, hhi⟩ := literal_of_range (hrange kind hkind)
    obtain rfl := literal_inj hn hn'
    by_cases hone : n = 1
    · exact .inl ⟨⟨entries, rfl, hentries⟩, ⟨fun x hx => hv.unique hkind hx ▸ hone ▸ hn, hdatum⟩,
        ⟨kind, hkind⟩, hiff.mp hone⟩
    · obtain rfl : n = 2 := by omega
      refine .inr ⟨⟨entries, rfl, fun e he => ?_⟩, fun x hx => hv.unique hkind hx ▸ hn, kind, hkind⟩
      rcases hentries e he with hkey | hkey
      · exact hkey
      · exact absurd (hiff.mpr ⟨e.2, entries, rfl, e, he, hkey, rfl⟩) hone
  · rintro (⟨hentries, ⟨hkind, hdatum⟩, ⟨kind, hholds⟩, hsome⟩ | ⟨⟨entries, rfl, hentries⟩, hkind,
      kind, hholds⟩)
    · have hrange : ∀ x, Holds v 0 x → Cddl.range 1 2 x := fun x hx => by
        obtain ⟨n, hn, hone⟩ := hkind x hx
        exact ⟨n, hn, by omega, by omega⟩
      exact ⟨⟨hentries, ⟨hrange, hdatum⟩, kind, hholds⟩, kind, hholds, 1, hkind kind hholds,
        iff_of_true rfl hsome⟩
    · have hrange : ∀ x, Holds (.map entries) 0 x → Cddl.range 1 2 x := fun x hx => by
        obtain ⟨n, hn, htwo⟩ := hkind x hx
        exact ⟨n, hn, by omega, by omega⟩
      have hnone : ∀ x, ¬ Holds (.map entries) 1 x := by
        rintro x ⟨_, heq, e, he, hkey, -⟩
        cases heq
        exact absurd (literal_inj (hentries e he) hkey) (by decide)
      exact ⟨⟨⟨entries, rfl, fun e he => .inl (hentries e he)⟩,
        ⟨hrange, fun x hx => absurd hx (hnone x)⟩, kind, hholds⟩,
        kind, hholds, 2, hkind kind hholds, iff_of_false (by decide) fun ⟨x, hx⟩ => hnone x hx⟩

theorem quantityRecord_checks {v : Value} (hv : Data v) : object v (fun
      | 0 => some fun v => range v.1 1 2
      | 1 => some fun v => datum v.1
      | _ => none) [0] false = .ok () ↔ recordOf [one 0 (Cddl.range 1 2), opt 1 Format.datum] none v :=
  object_checks hv none
    (fun
      | 0 => .some fun x hx => range_checks 1 2 x.1 hx
      | 1 => .some fun x hx => datum_checks x.1 hx
      | _ + 2 => .none)
    rfl (by decide) nofun nofun

theorem quantity_checks : Checks quantity Format.quantity := by
  intro v hv
  rw [← quantity_iff hv, ← quantityRecord_checks hv]
  have hsome : (optional v 1).isSome = true ↔ ∃ x, Holds v 1 x := by
    rw [Option.isSome_iff_exists]
    exact exists_congr fun x => optional_eq_some hv
  simp only [quantity, bind_eq_ok, field_eq_ok, uint_eq_ok, reject_eq_ok, optional_eq_some hv,
    ← literal_iff, decide_eq_false_iff_not, ne_eq, not_not, ← hsome]
  constructor
  · rintro ⟨_, hobject, kind, hkind, n, hn, heq⟩
    exact ⟨hobject, kind, hkind, n, hn, by rw [← heq, decide_eq_true_iff]⟩
  · rintro ⟨hobject, kind, hkind, n, hn, hiff⟩
    exact ⟨(), hobject, kind, hkind, n, hn, by rw [Bool.eq_iff_iff, decide_eq_true_iff, hiff]⟩

theorem choice_checks : Checks choice Format.choice := fun v hv =>
  object_checks hv none
    (fun
      | 0 => .some fun x hx => datum_checks x.1 hx
      | 1 => .some fun x hx => txt_checks x.1 hx
      | _ + 2 => .none)
    rfl (by decide) nofun nofun

theorem bitfield_checks : Checks bitfield Format.bitfield := fun v hv =>
  object_checks hv none
    (fun
      | 0 => .some fun x hx => unsigned_checks x.1 hx
      | 1 => .some fun x hx => range_checks 1 64 x.1 hx
      | 2 => .some fun x hx => list_checks choice_checks x.1 hx
      | 3 => .some fun x hx => txt_checks x.1 hx
      | _ + 4 => .none)
    rfl (by decide) nofun nofun

theorem version_checks : Checks version Format.protocolVersion := fun v hv =>
  object_checks hv none
    (fun
      | 0 => .some fun x hx => identity_checks x.1 hx
      | 1 => .some fun x hx => txt_checks x.1 hx
      | _ + 2 => .none)
    rfl (by decide) nofun nofun

theorem condition_checks : Checks condition Format.condition := fun v hv =>
  object_checks hv none
    (fun
      | 0 => .some fun x hx => identity_checks x.1 hx
      | 1 => .some fun x hx => any_checks x.1 hx
      | _ + 2 => .none)
    rfl (by decide) nofun nofun

theorem opaqueData_checks : Checks opaqueData Format.opaqueDescriptor := fun v hv =>
  object_checks hv none
    (fun
      | 0 => .some fun x hx => identity_checks x.1 hx
      | 1 => .some fun x hx => identity_checks x.1 hx
      | 2 => .some fun x hx => binary_checks x.1 hx
      | _ + 3 => .none)
    rfl (by decide) nofun nofun

theorem operation_checks : Checks operation Format.operation := fun v hv =>
  object_checks hv (some 5)
    (fun
      | 0 => .some fun x hx => unsigned_checks x.1 hx
      | 1 => .some fun x hx => range_checks 0 255 x.1 hx
      | 2 => .some fun x hx => any_checks x.1 hx
      | 3 => .some fun x hx => identity_checks x.1 hx
      | 4 => .some fun x hx => list_checks condition_checks x.1 hx
      | _ + 5 => .none)
    rfl (by decide) (by decide) (by decide)

/-! ### Envelopes -/

theorem fields_isRecord {v : Value} : (∃ entries, fields v = .ok entries) ↔
    ∃ entries, v = .map entries ∧ ∀ e ∈ entries, ∃ k, literal k e.1 :=
  exists_congr fun _ => fields_eq_ok

theorem extension_iff {e : Value} (he : Data e) :
    Format.extension e ↔ (∃ entries, fields e = .ok entries) ∧
    (∃ id, Holds e 0 (.text id) ∧ validIdentity id = true) ∧
      (∃ needs, Holds e 1 (.bool needs)) ∧ ∃ payload, Holds e 2 payload := by
  rw [Format.extension, recordOf_some_iff (by decide) (by decide) (by decide) fun k x => he.holds,
    fields_isRecord]
  simp only [List.forall_mem_cons, List.not_mem_nil, false_imp_iff, implies_true, and_true,
    one, true_imp_iff]
  refine and_congr_right fun _ => ?_
  constructor
  · rintro ⟨⟨hid, hneeds, -⟩, ⟨x, hx⟩, ⟨y, hy⟩, hpayload⟩
    obtain ⟨-, id, rfl, hvalid⟩ := hid x hx
    obtain ⟨needs, rfl⟩ := hneeds y hy
    exact ⟨⟨id, hx, hvalid⟩, ⟨needs, hy⟩, hpayload⟩
  · rintro ⟨⟨id, hid, hvalid⟩, ⟨needs, hneeds⟩, hpayload⟩
    refine ⟨⟨fun x hx => ?_, fun y hy => ⟨needs, he.unique hy hneeds⟩, fun _ hx => he.holds hx⟩,
      ⟨_, hid⟩, ⟨_, hneeds⟩, hpayload⟩
    rw [he.unique hx hid]
    exact (identity_checks _ (he.holds hid)).mp (by
      show (reject (!validIdentity id) "CBOR invalid descriptor identity" : Except String Unit) = .ok ()
      rw [hvalid]
      rfl)

theorem text_boundedText {v : Value} (hv : Data v) : (∃ s, text v = .ok s) ↔ Format.boundedText v :=
  ignore_eq_ok.symm.trans (txt_checks v hv)

/-- What `required_extensions` checks of the payload of a source metadata extension. -/
theorem metadata_iff {payload : Value} (hpayload : Data payload) :
    Format.metadata payload ↔ (∃ entries, fields payload = .ok entries) ∧
      (∃ entries, Holds payload 0 (.map entries) ∧ ∀ e ∈ entries, (∃ s, text e.1 = .ok s) ∧ ∃ s, text e.2 = .ok s) ∧
      ∀ k ∈ [1, 2, 3], ∀ x, Holds payload k x → ∃ s, text x = .ok s := by
  have htexts : ∀ k, (∀ x, Holds payload k x → ∃ s, text x = .ok s) ↔
      ∀ x, Holds payload k x → Format.boundedText x :=
    fun k => forall₂_congr fun x hx => text_boundedText (hpayload.holds hx)
  have htable : ∀ entries, Holds payload 0 (.map entries) →
      ((∀ e ∈ entries, (∃ s, text e.1 = .ok s) ∧ ∃ s, text e.2 = .ok s) ↔
      ∀ e ∈ entries, Format.boundedText e.1 ∧ Format.boundedText e.2) := by
    intro entries hentries
    have hdata := hpayload.holds hentries
    exact forall₂_congr fun e he => and_congr (text_boundedText (hdata.key e he))
      (text_boundedText (hdata.entry e he))
  rw [Format.metadata, recordOf_some_iff (by decide) (by decide) (by decide) fun k x => hpayload.holds, fields_isRecord]
  simp only [List.forall_mem_cons, List.not_mem_nil, false_imp_iff, implies_true, and_true, one,
    opt, true_imp_iff, Bool.true_eq_false, htexts]
  refine and_congr_right fun _ => ?_
  constructor
  · rintro ⟨⟨hnames, hrest⟩, x, hx⟩
    obtain ⟨entries, rfl, hentries⟩ := hnames x hx
    exact ⟨⟨entries, hx, (htable entries hx).mpr hentries⟩, hrest⟩
  · rintro ⟨⟨entries, hx, hentries⟩, hrest⟩
    refine ⟨⟨fun y hy => ?_, hrest⟩, _, hx⟩
    rw [hpayload.unique hy hx]
    exact ⟨entries, rfl, (htable entries hx).mp hentries⟩

theorem metadataEntry_eq_ok {e : Value × Value} : (do
      let _ ← text e.1
      let _ ← text e.2 : Except String Unit) = .ok () ↔ (∃ s, text e.1 = .ok s) ∧
      ∃ s, text e.2 = .ok s := by
  rw [bind_eq_ok, ← exists_and_right]
  exact exists_congr fun s => and_congr_right fun _ => ignore_eq_ok

theorem metadataField_eq_ok {payload : Value} (hpayload : Data payload) {key : ℕ} :
    (match optional payload key with
      | some value => do let _ ← text value
      | none => .ok () : Except String Unit) = .ok () ↔
        ∀ x, Holds payload key x → ∃ s, text x = .ok s := by
  simp only [← optional_eq_some hpayload]
  cases optional payload key with
  | none => exact iff_of_true rfl nofun
  | some value => exact ignore_eq_ok.trans ⟨fun h x hx => Option.some.inj hx ▸ h,
    fun h => h value rfl⟩

theorem metadataCheck_eq_ok {payload : Value} (hpayload : Data payload) {r r' : String × Bool} : (do
      reject r.2 "CBOR source metadata must be optional"
      let _ ← fields payload
      let entries ← field payload 0
      let entries ← map entries
      entries.forM fun (key, value) => do
        let _ ← text key
        let _ ← text value
      [1, 2, 3].forM fun key =>
        match optional payload key with
        | some value => do let _ ← text value
        | none => .ok ()
      return r : Except String (String × Bool)) = .ok r' ↔ r.2 = false ∧
        Format.metadata payload ∧ r = r' := by
  rw [metadata_iff hpayload]
  simp only [bind_eq_ok, reject_eq_ok, field_eq_ok, map_eq_ok, optional_eq_some hpayload]
  constructor
  · rintro ⟨-, hoptional, entries, hfields, _, hholds, names, rfl, u, hnames, w, hrest, h⟩
    cases h
    refine ⟨hoptional, ⟨⟨entries, hfields⟩, ⟨names, hholds, fun e he => ?_⟩, fun k hk => ?_⟩, rfl⟩
    · exact metadataEntry_eq_ok.mp (forM_eq_ok.mp hnames e he)
    · exact (metadataField_eq_ok hpayload).mp (forM_eq_ok.mp hrest k hk)
  · rintro ⟨hoptional, ⟨⟨entries, hfields⟩, ⟨names, hholds, hnames⟩, hrest⟩, rfl⟩
    exact ⟨(), hoptional, entries, hfields, _, hholds, names, rfl,
      (), forM_eq_ok.mpr fun e he => metadataEntry_eq_ok.mpr (hnames e he),
      (), forM_eq_ok.mpr fun k hk => (metadataField_eq_ok hpayload).mpr (hrest k hk), rfl⟩

/-- What an envelope that `required_extensions` accepts says. -/
theorem decodeExtension_eq_ok {e : Value} (he : Data e) {identities : List String} {id : String}
    {needs : Bool} :
    decodeExtension identities e = .ok (id, needs) ↔ Format.extension e ∧ Holds e 0 (.text id) ∧
    id ∉ identities ∧
      Holds e 1 (.bool needs) ∧
      (id = sourceMetadata → needs = false ∧ ∀ payload, Holds e 2 payload → Format.metadata payload) := by
  have hbool : ∀ {x b}, asBool x = some b ↔ x = .bool b := fun {x b} => by cases x <;> simp [asBool]
  unfold decodeExtension
  simp only [bind_eq_ok, field_eq_ok, text_eq_ok, reject_eq_ok, orError_eq_ok, optional_eq_some he,
    hbool, extension_iff he]
  constructor
  · rintro ⟨entries, hfields, _, hid, id', rfl, _, hvalid, _, hneeds, needs', rfl,
      payload, hpayload, h⟩
    obtain ⟨hvalid, hnew⟩ := Bool.or_eq_false_iff.mp hvalid
    rw [Bool.not_eq_false'] at hvalid
    have hnew : id' ∉ identities := by simpa using hnew
    have henvelope : (∃ entries, fields e = .ok entries) ∧
        (∃ id, Holds e 0 (.text id) ∧ validIdentity id = true) ∧
        (∃ needs, Holds e 1 (.bool needs)) ∧ ∃ payload, Holds e 2 payload :=
      ⟨⟨entries, hfields⟩, ⟨id', hid, hvalid⟩, ⟨needs', hneeds⟩, payload, hpayload⟩
    split_ifs at h with hmetadata
    · obtain ⟨hoptional, hmatches, heq⟩ :=
        (metadataCheck_eq_ok (he.holds hpayload) (r := (id', needs'))).mp h
      cases heq
      exact ⟨henvelope, hid, hnew, hneeds, fun _ => ⟨hoptional, fun x hx => he.unique hpayload hx ▸ hmatches⟩⟩
    · cases h
      exact ⟨henvelope, hid, hnew, hneeds, fun heq => absurd heq hmetadata⟩
  · rintro ⟨⟨⟨entries, hfields⟩, ⟨id', hid', hvalid⟩, -, payload, hpayload⟩, hid, hnew,
      hneeds, hmetadata⟩
    cases he.unique hid' hid
    refine ⟨entries, hfields, _, hid, id, rfl, (), ?_, _, hneeds, needs, rfl, payload, hpayload, ?_⟩
    · rw [hvalid]
      simpa using hnew
    · split_ifs with heq
      · obtain ⟨hoptional, hmatches⟩ := hmetadata heq
        exact (metadataCheck_eq_ok (he.holds hpayload) (r := (id, needs))).mpr ⟨hoptional,
          hmatches payload hpayload, rfl⟩
      · rfl

/-- The loop of `required_extensions`: each envelope conforms, and its identity is new. By induction on the
extensions that are left. -/
theorem envelopes_eq_ok {items : List Value} (hitems : ∀ e ∈ items, Data e) {required : Bool}
    {identities : List String} :
    (∃ r, items.foldlM (fun (required, identities) extension => do
        let (id, needs) ← decodeExtension identities extension
        return (required || needs, id :: identities))
          (required, identities) = (.ok r : Except String (Bool × List String))) ↔
      (∀ e ∈ items, Format.extension e ∧ (∀ id, Holds e 0 (.text id) → id ∉ identities) ∧
        (Holds e 0 (.text sourceMetadata) → Holds e 1 (.bool false) ∧
          ∀ payload, Holds e 2 payload → Format.metadata payload)) ∧
      items.Pairwise fun e e' => ∀ id, Holds e 0 id → ¬ Holds e' 0 id := by
  induction items generalizing required identities with
  | nil => exact iff_of_true ⟨_, rfl⟩ ⟨nofun, .nil⟩
  | cons e items ih =>
    obtain ⟨he, hitems⟩ := List.forall_mem_cons.mp hitems
    rw [List.foldlM_cons, List.forall_mem_cons, List.pairwise_cons]
    simp only [bind_eq_ok, Prod.exists, decodeExtension_eq_ok he]
    constructor
    · rintro ⟨required', identities', _, _, ⟨id, needs, ⟨hextension, hid, hnew, hneeds, hmetadata⟩,
        hstate⟩, hloop⟩
      cases hstate
      obtain ⟨hall, hpairwise⟩ := (ih hitems).mp ⟨_, hloop⟩
      have heq : ∀ {id'}, Holds e 0 (.text id') → id' = id :=
        fun h => (Value.text.inj (he.unique h hid))
      refine ⟨⟨⟨hextension, fun id' hid' => heq hid' ▸ hnew, fun h => ?_⟩, fun e' he' => ?_⟩,
        fun e' he' x hx hx' => ?_, hpairwise⟩
      · obtain ⟨rfl, hmatches⟩ := hmetadata (heq h).symm
        exact ⟨hneeds, hmatches⟩
      · obtain ⟨hextension', hnew', hmetadata'⟩ := hall e' he'
        exact ⟨hextension', fun id' hid' hmem => hnew' id' hid' (List.mem_cons_of_mem _ hmem),
          hmetadata'⟩
      · rw [he.unique hx hid] at hx'
        exact (hall e' he').2.1 id hx' (List.mem_cons_self ..)
    · rintro ⟨⟨⟨hextension, hnew, hmetadata⟩, hall⟩, hdistinct, hpairwise⟩
      obtain ⟨-, ⟨id, hid, -⟩, ⟨needs, hneeds⟩, -⟩ := (extension_iff he).mp hextension
      have hnew' : ∀ e' ∈ items, ∀ id', Holds e' 0 (.text id') → id' ∉ id :: identities := by
        intro e' he' id' hid' hmem
        rcases List.mem_cons.mp hmem with rfl | hmem
        · exact hdistinct e' he' _ hid hid'
        · exact (hall e' he').2.1 id' hid' hmem
      obtain ⟨⟨required', identities'⟩, hloop⟩ :=
        (ih hitems).mpr ⟨fun e' he' => ⟨(hall e' he').1, hnew' e' he', (hall e' he').2.2⟩,
          hpairwise⟩
      refine ⟨required', identities', _, _, ⟨id, needs,
        ⟨hextension, hid, hnew id hid, hneeds, fun heq => ?_⟩, rfl⟩, hloop⟩
      obtain ⟨hoptional, hmatches⟩ := hmetadata (heq ▸ hid)
      exact ⟨Value.bool.inj (he.unique hneeds hoptional), hmatches⟩

theorem requiredExtensions_eq_ok {items : List Value} (hitems : ∀ e ∈ items, Data e) :
    (∃ r, requiredExtensions (.map [(.unsigned 0, .array items)]) 0 = .ok r) ↔
      (∀ e ∈ items, Format.extension e) ∧ items.Pairwise (fun e e' => ∀ id, Holds e 0 id → ¬ Holds e' 0 id) ∧
      ∀ e ∈ items, Holds e 0 (.text sourceMetadata) → Holds e 1 (.bool false) ∧
        ∀ payload, Holds e 2 payload → Format.metadata payload := by
  have hrun : (∃ r, requiredExtensions (.map [(.unsigned 0, .array items)]) 0 = .ok r) ↔
      ∃ r, items.foldlM (fun (required, identities) extension => do
        let (id, needs) ← decodeExtension identities extension
        return (required || needs, id :: identities)) (false, []) =
          (.ok r : Except String (Bool × List String)) := by
    constructor
    · rintro ⟨r, h⟩
      obtain ⟨_, hitems, h⟩ := bind_eq_ok.mp h
      cases hitems
      obtain ⟨state, hloop, -⟩ := bind_eq_ok.mp h
      exact ⟨state, hloop⟩
    · rintro ⟨state, hloop⟩
      exact ⟨state.1, bind_eq_ok.mpr ⟨items, rfl, bind_eq_ok.mpr ⟨state, hloop, rfl⟩⟩⟩
  rw [hrun, envelopes_eq_ok hitems]
  constructor
  · rintro ⟨hall, hpairwise⟩
    exact ⟨fun e he => (hall e he).1, hpairwise, fun e he => (hall e he).2.2⟩
  · rintro ⟨hextension, hpairwise, hmetadata⟩
    exact ⟨fun e he => ⟨hextension e he, fun _ _ => List.not_mem_nil, hmetadata e he⟩, hpairwise⟩

/-! ### The recursion -/

theorem arrayOf_extension {v : Value} (h : Extensions v) : arrayOf Format.extension v := by
  cases h with
  | intro hextension => exact ⟨_, rfl, hextension⟩

theorem description_iff {v : Value}
    (hv : Data v) : Description v ↔ Format.descriptionOf Extensions v := by
  have hquirks : Description v ↔ Format.descriptionOf (arrayOf Format.extension) v ∧
      ∀ quirks, Holds v 18 quirks → Extensions quirks := by
    constructor
    · rintro ⟨h, hquirks⟩
      exact ⟨h, hquirks⟩
    · rintro ⟨h, hquirks⟩
      exact .intro h hquirks
  have hdata : ∀ k x, Holds v k x → Data x := fun k x => hv.holds
  rw [hquirks, Format.descriptionOf, recordOf_some_iff (by decide) (by decide) (by decide) hdata,
    Format.descriptionOf, recordOf_some_iff (by decide) (by decide) (by decide) hdata]
  simp only [List.forall_mem_cons, List.not_mem_nil, false_imp_iff, implies_true, and_true, opt,
    Bool.true_eq_false]
  have hquirk : (∀ x, Holds v 18 x → Extensions x) ↔
      (∀ x, Holds v 18 x → arrayOf Format.extension x) ∧ ∀ x, Holds v 18 x → Extensions x :=
    ⟨fun h => ⟨fun x hx => arrayOf_extension (h x hx), h⟩, And.right⟩
  rw [hquirk]
  tauto

/-- What the second loop of `extensions` checks of an envelope, given what it makes of payloads. -/
theorem described_eq_ok {e : Value} (he : Data e) (hextension : Format.extension e)
    (hpayload : ∀ payload, Holds e 2 payload → (description payload = .ok () ↔ Description payload)) : (do
      let id ← field e 0
      let id ← text id
      if id = functionDescription then
        let payload ← innerField e 2
        description payload.1
      else return : Except String Unit) = .ok () ↔
    (Holds e 0 (.text functionDescription) → ∀ payload, Holds e 2 payload → Description payload) := by
  obtain ⟨-, ⟨id, hid, -⟩, -, payload, hholds⟩ := (extension_iff he).mp hextension
  rw [field_eq_ok.mpr ((optional_eq_some he).mpr hid)]
  change (if id = functionDescription then (do
      let payload ← innerField e 2
      description payload.1) else pure () : Except String Unit) = .ok () ↔ _
  split_ifs with heq
  · subst heq
    have hfound := (optional_eq_some he).mpr hholds
    have hinner : innerField e 2 = .ok ⟨payload, size_optional hfound⟩ :=
      innerField_eq_ok.mpr hfound
    rw [hinner]
    refine (hpayload payload hholds).trans ⟨fun h _ x hx => he.unique hholds hx ▸ h,
      fun h => h hid payload hholds⟩
  · exact iff_of_true rfl fun h => absurd (Value.text.inj (he.unique hid h)) heq

/-- The check of a description, given the one of the quirks inside it. -/
theorem description_checks {v : Value} (hv : Data v)
    (hquirks : ∀ x : Inner v, Data x.1 → (describedExtensions x.1 = .ok () ↔ Extensions x.1)) :
    description v = .ok () ↔ Description v :=
  (description.eq_1 v).congr_left.trans <| Iff.trans (b := Format.descriptionOf Extensions v) (object_checks hv (some 20)
    (fun
      | 0 => .some fun x hx => range_checks 1 6 x.1 hx
      | 1 => .some fun x hx => range_checks 0 3 x.1 hx
      | 2 => .some fun x hx => list_checks operation_checks x.1 hx
      | 3 => .some fun x hx => identity_checks x.1 hx
      | 4 => .some fun x hx => range_checks 0 255 x.1 hx
      | 5 => .some fun x hx => identity_checks x.1 hx
      | 6 => .some fun x hx => quantity_checks x.1 hx
      | 7 => .some fun x hx => quantity_checks x.1 hx
      | 8 => .some fun x hx => quantity_checks x.1 hx
      | 9 => .some fun x hx => quantity_checks x.1 hx
      | 10 => .some fun x hx => list_checks choice_checks x.1 hx
      | 11 => .some fun x hx => list_checks bitfield_checks x.1 hx
      | 12 => .some fun x hx => list_checks version_checks x.1 hx
      | 13 => .some fun x hx => txt_checks x.1 hx
      | 14 => .some fun x hx => list_checks (range_checks 0 255) x.1 hx
      | 15 => .some fun x hx => list_checks condition_checks x.1 hx
      | 16 => .some fun x hx => list_checks opaqueData_checks x.1 hx
      | 17 => .some fun x hx => txt_checks x.1 hx
      | 18 => .some fun x hx => hquirks x hx
      | 19 => .some fun x hx => list_checks condition_checks x.1 hx
      | _ + 20 => .none)
    rfl (by decide) (by decide) (by decide)) (description_iff hv).symm

/-- **The validator accepts the published schema, and nothing else**, at any depth of quirks. -/
theorem descriptors_check {v : Value} (hv : Data v) :
    (describedExtensions v = .ok () ↔ Extensions v) ∧ (description v = .ok () ↔ Description v) := by
  induction hn : v.size using Nat.strong_induction_on generalizing v with
  | _ n ih =>
    constructor
    · cases hv with
      | array hitems =>
        rename_i items
        rw [describedExtensions]
        have hpayload : ∀ e ∈ items, ∀ payload, Holds e 2 payload → (description payload = .ok () ↔
            Description payload) := by
          intro e he payload hholds
          have hsize := (size_optional ((optional_eq_some (hitems e he)).mpr hholds)).trans (size_item he)
          exact (ih payload.size (hn ▸ hsize) ((hitems e he).holds hholds) rfl).2
        constructor
        · intro h
          obtain ⟨required, hrequired, h⟩ := bind_eq_ok.mp h
          obtain ⟨inner, hinner, h⟩ := bind_eq_ok.mp h
          obtain ⟨hextension, hpairwise, hmetadata⟩ :=
            (requiredExtensions_eq_ok hitems).mp ⟨required, hrequired⟩
          refine .intro hextension hpairwise hmetadata fun e he => ?_
          rw [innerItems_eq_ok, asArray, Option.some.injEq] at hinner
          obtain ⟨e', he', rfl⟩ := List.mem_map.mp (hinner ▸ he)
          exact (described_eq_ok (hitems _ he) (hextension _ he) (hpayload _ he)).mp (forM_eq_ok.mp h e' he')
        · rintro ⟨hextension, hpairwise, hmetadata, hdescribed⟩
          obtain ⟨required, hrequired⟩ := (requiredExtensions_eq_ok hitems).mpr ⟨hextension,
            hpairwise, hmetadata⟩
          refine bind_eq_ok.mpr ⟨required, hrequired,
            bind_eq_ok.mpr ⟨_, rfl, forM_eq_ok.mpr fun e' he' => ?_⟩⟩
          obtain ⟨⟨e, he⟩, -, rfl⟩ := List.mem_map.mp he'
          exact (described_eq_ok (hitems e he) (hextension e he) (hpayload e he)).mpr (hdescribed e he)
      | _ =>
        rw [describedExtensions]
        constructor
        · intro h
          obtain ⟨_, h, -⟩ := bind_eq_ok.mp h
          cases h
        · intro h
          cases h
    · exact description_checks hv fun x hx => (ih x.1.size (hn ▸ x.2) hx rfl).1

/-- **Descriptor validation accepts exactly the published schema.** -/
theorem describedExtensions_conform {v : Value} (hv : Data v) : describedExtensions v = .ok () ↔ Extensions v :=
  (descriptors_check hv).1

/-- A description with a quantity that the hardware has to be asked for. -/
def discoveredMinimum : Value :=
  .array [.map [(.unsigned 0, .text functionDescription), (.unsigned 1, .bool true),
    (.unsigned 2, .map [(.unsigned 6, .map [(.unsigned 0, .unsigned 2)])])]]

theorem describedExtensions_conform_minimum : describedExtensions discoveredMinimum = .ok () ↔ Extensions discoveredMinimum := by
  have hkey : ∀ n, Format.dataKey (.unsigned n) := fun n => .inl ⟨n, rfl⟩
  have htext : Format.boundedText (.text functionDescription) := ⟨_, rfl, by decide, by decide⟩
  refine describedExtensions_conform (.array ?_)
  simp only [List.forall_mem_singleton]
  refine .map (by simp [hkey]) ?_ (by simp)
  simp only [List.forall_mem_cons, List.not_mem_nil, false_imp_iff, implies_true, and_true]
  exact ⟨.text htext, .bool _, .map (by simp [hkey]) (by
    simp only [List.forall_mem_singleton]
    exact .map (by simp [hkey]) (by simp only [List.forall_mem_singleton]; exact .unsigned 2) (by simp)) (by simp)⟩

end DdcControl.Wire
