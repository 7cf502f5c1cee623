import DdcControl.Dbgen.Conversion
import Mathlib.Data.List.Perm.Basic

/-!
# What the conversion keeps

A record says all of its element but the spelling: the tag, each attribute with its
namespace, the order of the elements under it, and the text around them. An attribute
goes to one of two maps, by where its element stands; that place is the same for two
elements of one record, since it depends on the tags above them.

## What is proved

* `sourceAttributes_eq` — what the two maps of an element hold, in its order.
* `metadata_injective` — source metadata says what it was made of.
* `sourceNode_lossless` — elements with one record are one element, up to spelling.
* `parseSource_lossless` — so are documents, and no name is in both maps of a record.
-/

namespace DdcControl.Dbgen

open Cbor Fallible Database Wire Context

/-! ### Elements that are the same -/

/-- The attributes executed at an element of a tag, in its place. -/
def allowedAt (tag parent : String) (options ancestor : Bool) : List ℕ :=
  if executablePath tag parent options ancestor then executableAttributes tag parent options else []

/-- An attribute of the same name and namespace that says the same: the same number if it
is executed and numeric, otherwise the same text. -/
def SameSource (allowed : List ℕ) (attr attr' : XmlAttribute) : Prop :=
  attr.ns = attr'.ns ∧ attr.name = attr'.name ∧
    match executableId allowed attr with
    | some id => SameAttribute id (some attr.value) (some attr'.value)
    | none => attr.value = attr'.value

/-- Attributes that are the same, in any order. -/
def SameSources (allowed : List ℕ) (attrs attrs' : List XmlAttribute) : Prop :=
  ∃ paired, List.Forall₂ (SameSource allowed) attrs paired ∧ paired.Perm attrs'

/-- The same text, or whitespace both. -/
def SameText (s t : String) : Prop := s = t ∨ hasText s = false ∧ hasText t = false

mutual
/-- Two elements in one place that differ in spelling only. -/
inductive SameElement : String → Bool → Bool → Xml → Xml → Prop
  | element {tag parent : String} {options ancestor : Bool} {attrs attrs' : List XmlAttribute}
      {children children' : List Xml} {row row' : ℕ} :
      SameSources (allowedAt tag parent options ancestor) attrs attrs' →
      SameText (sourceText children) (sourceText children') →
      SameElements tag options (executablePath tag parent options ancestor) children children' →
      SameElement parent options ancestor (.element tag attrs children row) (.element tag attrs' children' row')
/-- The elements among two rows of nodes are the same, one by one, and so are the texts
behind them. -/
inductive SameElements : String → Bool → Bool → List Xml → List Xml → Prop
  | nil {parent : String} {options ancestor : Bool} : SameElements parent options ancestor [] []
  | left {parent : String} {options ancestor : Bool} {child : Xml} {after nodes : List Xml} :
      child.isElement = false → SameElements parent options ancestor after nodes →
      SameElements parent options ancestor (child :: after) nodes
  | right {parent : String} {options ancestor : Bool} {child : Xml} {after nodes : List Xml} :
      child.isElement = false → SameElements parent options ancestor nodes after →
      SameElements parent options ancestor nodes (child :: after)
  | cons {parent : String} {options ancestor : Bool} {child child' : Xml} {after after' : List Xml} :
      SameElement parent options ancestor child child' → SameText (sourceText after) (sourceText after') →
      SameElements parent options ancestor after after' →
      SameElements parent options ancestor (child :: after) (child' :: after')
end

/-- The inert attributes of a record, in its source metadata. -/
def inertAttributes (record : Value) : List (Value × Value) :=
  ((((optional record 3).bind asArray).bind List.head?).bind fun envelope =>
    ((optional envelope 2).bind (optional · 0)).bind asMap).getD []

/-- No name of an attribute is in both maps of the record, nor in both of one below it. -/
inductive Separate : Value → Prop
  | record {record : Value} {attrs : List (Value × Value)} {children : List Value} :
      optional record 1 = some (.map attrs) → optional record 2 = some (.array children) →
      (∀ e ∈ attrs, ∃ id name, asUint e.1 = some id ∧ nameOf attributes id = some name ∧
        ∀ inert ∈ inertAttributes record, inert.1 ≠ .text name) →
      (∀ child ∈ children, Separate child) → Separate record

/-- A name as XML has them, without braces. -/
def XmlName (name : String) : Prop := '\x7b' ∉ name.toList ∧ '\x7d' ∉ name.toList

/-- The attributes of the tree have XML names. -/
abbrev NamedTree : Xml → Prop := Xml.All fun attr => XmlName attr.name

/-! ### Names and numbers -/

theorem inertName_toList (attr : XmlAttribute) :
    (inertName attr).toList = match attr.ns with
      | some ns => '\x7b' :: (ns.toList ++ '\x7d' :: attr.name.toList)
      | none => attr.name.toList := by
  unfold inertName
  cases attr.ns <;> simp [String.toList_append]

/-- Two texts are the same on both sides of their last separator. -/
theorem eq_of_last_eq {α : Type} {a : α} {xs ys xs' ys' : List α} (hy : a ∉ ys) (hy' : a ∉ ys')
    (h : xs ++ a :: ys = xs' ++ a :: ys') : xs = xs' ∧ ys = ys' := by
  rcases List.append_eq_append_iff.mp h with ⟨zs, rfl, hzs⟩ | ⟨zs, rfl, hzs⟩
  · cases zs with
    | nil => simpa using hzs
    | cons z zs =>
      rw [List.cons_append, List.cons.injEq] at hzs
      exact absurd (hzs.2 ▸ List.mem_append_right _ (List.mem_cons_self ..)) hy
  · cases zs with
    | nil => simpa using hzs.symm
    | cons z zs =>
      rw [List.cons_append, List.cons.injEq] at hzs
      exact absurd (hzs.2 ▸ List.mem_append_right _ (List.mem_cons_self ..)) hy'

/-- **An inert name says the namespace and the name.** -/
theorem inertName_injective {attr attr' : XmlAttribute} (hname : XmlName attr.name)
    (hname' : XmlName attr'.name) (h : inertName attr = inertName attr') :
    attr.ns = attr'.ns ∧ attr.name = attr'.name := by
  have h := congrArg String.toList h
  simp only [inertName_toList] at h
  cases hns : attr.ns with
  | none =>
    cases hns' : attr'.ns with
    | none =>
      rw [hns, hns'] at h
      exact ⟨rfl, String.ext h⟩
    | some ns' =>
      simp only [hns, hns'] at h
      exact absurd (by rw [h]; exact List.mem_cons_self ..) hname.1
  | some ns =>
    cases hns' : attr'.ns with
    | none =>
      simp only [hns, hns'] at h
      exact absurd (by rw [← h]; exact List.mem_cons_self ..) hname'.1
    | some ns' =>
      rw [hns, hns'] at h
      obtain ⟨hspace, hlocal⟩ := eq_of_last_eq hname.2 hname'.2 (List.cons.inj h).2
      exact ⟨congrArg some (String.ext hspace), String.ext hlocal⟩

theorem ofInteger_injective {m n : ℤ} (hm : -2 ^ 63 ≤ m ∧ m < 2 ^ 63)
    (hn : -2 ^ 63 ≤ n ∧ n < 2 ^ 63) (h : ofInteger m = ofInteger n) : m = n := by
  have := congrArg asInteger h
  rwa [asInteger_ofInteger hm.1 hm.2, asInteger_ofInteger hn.1 hn.2, Option.some.injEq] at this

/-- **A value says the attribute's text, or its number.** -/
theorem sourceValue_injective {id : ℕ} {attr attr' : XmlAttribute}
    (hattr : attributeId attr.name = some id) (hattr' : attributeId attr'.name = some id)
    {v : Value} (h : sourceValue id attr = .ok v) (h' : sourceValue id attr' = .ok v) :
    SameAttribute id (some attr.value) (some attr'.value) := by
  unfold SameAttribute
  rw [sourceValue] at h h'
  split_ifs at h h' with hnumeric
  · obtain ⟨low, high, n, hbounds, hlow, hhigh, rfl, hraw⟩ := sourceInteger_ok hattr h
    obtain ⟨low', high', n', hbounds', hlow', hhigh', heq, hraw'⟩ := sourceInteger_ok hattr' h'
    rw [hbounds] at hbounds'
    cases hbounds'
    obtain ⟨hmin, hmax, -⟩ := attributeIntegerBounds_range hbounds
    obtain rfl := ofInteger_injective ⟨hmin.trans hlow, hhigh.trans_lt hmax⟩ ⟨hmin.trans hlow',
      hhigh'.trans_lt hmax⟩ heq
    rw [if_pos ((bounds_isSome_iff id).mpr hnumeric)]
    refine .some ?_
    unfold SameNumber
    split_ifs at hraw hraw' ⊢
    · exact ⟨n, hraw, hraw'⟩
    · exact ⟨n, hraw, hraw'⟩
  · rw [if_neg (mt (bounds_isSome_iff id).mp hnumeric)]
    have htext : Value.text attr.value = .text attr'.value := Except.ok.inj (h.trans h'.symm)
    rw [Value.text.inj htext]

/-! ### The two maps of an element -/

/-- **The maps of an element hold its attributes in order**: those that are executed, and
the others. -/
theorem sourceAttributes_eq {allowed : List ℕ} {attrs : List XmlAttribute}
    {written inert : List (Value × Value)}
    (h : attrs.foldlM (sourceAttribute allowed) ([], []) = .ok (written, inert)) :
    List.Forall₂ (fun attr entry => ∃ id v, executableId allowed attr = some id ∧ sourceValue id attr = .ok v ∧
        entry = (.unsigned (.ofNat id), v))
          (attrs.filter fun attr => (executableId allowed attr).isSome) written ∧
      inert = (attrs.filter fun attr => !(executableId allowed attr).isSome).map fun attr =>
        (.text (inertName attr), .text attr.value) := by
  refine foldlM_history (P := fun done (found : List (Value × Value) × List (Value × Value)) =>
    List.Forall₂ (fun attr entry => ∃ id v, executableId allowed attr = some id ∧ sourceValue id attr = .ok v ∧
        entry = (.unsigned (.ofNat id), v)) (done.filter fun attr => (executableId allowed attr).isSome) found.1 ∧
      found.2 = (done.filter fun attr => !(executableId allowed attr).isSome).map fun attr =>
        (.text (inertName attr), .text attr.value)) ?_ ⟨.nil, rfl⟩ h
  rintro done attr ⟨written, inert⟩ ⟨written', inert'⟩ ⟨hwritten, hinert⟩ hstep
  unfold sourceAttribute at hstep
  simp only [List.filter_append, List.filter_singleton]
  cases hid : executableId allowed attr with
  | some id =>
    rw [hid] at hstep
    obtain ⟨v, hv, hstep⟩ := bind_eq_ok.mp hstep
    cases hstep
    simp only [Option.isSome_some, Bool.not_true, cond_true, cond_false, List.append_nil]
    exact ⟨List.rel_append hwritten (.cons ⟨id, v, hid, hv, rfl⟩ .nil), hinert⟩
  | none =>
    rw [hid] at hstep
    cases hstep
    simp only [Option.isSome_none, Bool.not_false, cond_true, cond_false, List.append_nil,
      List.map_append, List.map_singleton]
    exact ⟨hwritten, congrArg (· ++ _) hinert⟩

/-- Keys of assigned numbers are one key for one number. -/
theorem key_injective {id id' : ℕ} {name name' : String} (h : nameOf attributes id = some name)
    (h' : nameOf attributes id' = some name')
    (hkey : (.unsigned (.ofNat id) : Value) = .unsigned (.ofNat id')) : id = id' := by
  rw [← toNat_ofNat_assigned h, ← toNat_ofNat_assigned h', Value.unsigned.inj hkey]

theorem sameSource_of_value {allowed : List ℕ} {attr attr' : XmlAttribute} {entry : Value × Value}
    (h : ∃ id v, executableId allowed attr = some id ∧ sourceValue id attr = .ok v ∧ entry =
    (.unsigned (.ofNat id), v))
    (h' : ∃ id v, executableId allowed attr' = some id ∧ sourceValue id attr' = .ok v ∧
      entry = (.unsigned (.ofNat id), v)) : SameSource allowed attr attr' := by
  obtain ⟨id, v, hid, hv, rfl⟩ := h
  obtain ⟨id', v', hid', hv', heq⟩ := h'
  obtain ⟨hname, hns, -⟩ := executableId_eq_some.mp hid
  obtain ⟨hname', hns', -⟩ := executableId_eq_some.mp hid'
  obtain ⟨hkey, rfl⟩ := Prod.mk.inj heq
  obtain rfl := key_injective hname hname' hkey
  refine ⟨hns.trans hns'.symm, Option.some.inj (hname.symm.trans hname'), ?_⟩
  rw [hid]
  exact sourceValue_injective (nameOf_iff_numberOf.mp hname) (nameOf_iff_numberOf.mp hname') hv hv'

theorem sameSource_of_inert {allowed : List ℕ} {attr attr' : XmlAttribute}
    (hid : executableId allowed attr = none) (hname : XmlName attr.name)
    (hname' : XmlName attr'.name)
    (h : ((.text (inertName attr), .text attr.value) : Value × Value) =
    (.text (inertName attr'), .text attr'.value)) :
    SameSource allowed attr attr' := by
  obtain ⟨hinert, hvalue⟩ := Prod.mk.inj h
  obtain ⟨hns, hlocal⟩ := inertName_injective hname hname' (Value.text.inj hinert)
  refine ⟨hns, hlocal, ?_⟩
  rw [hid]
  exact Value.text.inj hvalue

/-- Two rows that are related to one are related. -/
theorem forall₂_join {α β γ : Type} {R : α → γ → Prop} {S : β → γ → Prop} {T : α → β → Prop}
    {as : List α} {bs : List β} {cs : List γ} (hR : List.Forall₂ R as cs)
    (hS : List.Forall₂ S bs cs) (h : ∀ a b c, R a c → S b c → T a b) : List.Forall₂ T as bs := by
  induction hR generalizing bs with
  | nil =>
    cases hS
    exact .nil
  | cons hac _ ih =>
    obtain ⟨b, bs, hbc, hbs, rfl⟩ := List.forall₂_cons_right_iff.mp hS
    exact .cons (h _ _ _ hac hbc) (ih hbs)

/-- **The two maps say the attributes of their element.** -/
theorem sourceAttributes_injective {allowed : List ℕ} {attrs attrs' : List XmlAttribute}
    (hnames : ∀ attr ∈ attrs, XmlName attr.name) (hnames' : ∀ attr ∈ attrs', XmlName attr.name)
    {written inert : List (Value × Value)}
    (h : attrs.foldlM (sourceAttribute allowed) ([], []) = .ok (written, inert))
    (h' : attrs'.foldlM (sourceAttribute allowed) ([], []) = .ok (written, inert)) :
    SameSources allowed attrs attrs' := by
  obtain ⟨hwritten, rfl⟩ := sourceAttributes_eq h
  obtain ⟨hwritten', hinert⟩ := sourceAttributes_eq h'
  have hexecuted : List.Forall₂ (SameSource allowed) (attrs.filter fun attr => (executableId allowed attr).isSome)
      (attrs'.filter fun attr => (executableId allowed attr).isSome) :=
    forall₂_join hwritten hwritten' fun _ _ _ => sameSource_of_value
  have hkept : List.Forall₂ (SameSource allowed) (attrs.filter fun attr => !(executableId allowed attr).isSome)
      (attrs'.filter fun attr => !(executableId allowed attr).isSome) := by
    rw [← List.forall₂_eq_eq_eq, List.forall₂_map_left_iff, List.forall₂_map_right_iff,
      List.forall₂_iff_zip] at hinert
    refine List.forall₂_iff_zip.mpr ⟨hinert.1, fun {attr attr'} hmem => ?_⟩
    obtain ⟨hleft, hright⟩ := List.of_mem_zip hmem
    obtain ⟨hattr, hid⟩ := List.mem_filter.mp hleft
    exact sameSource_of_inert (by simpa using hid) (hnames attr hattr)
      (hnames' attr' (List.mem_of_mem_filter hright))
      (hinert.2 hmem)
  -- the order within each map is kept, so the two together are the attributes in some order
  obtain ⟨paired, hpaired, hperm⟩ := List.perm_comp_forall₂ (List.filter_append_perm _ attrs).symm
    (List.rel_append hexecuted hkept)
  exact ⟨paired, hpaired, hperm.trans (List.filter_append_perm _ attrs')⟩

/-! ### Metadata -/

theorem lookup_object {metadata metadata' : List (UInt64 × Value)}
    (h : object metadata = object metadata') :
    metadata = metadata' := by
  have hentry : Function.Injective fun (entry : UInt64 × Value) =>
      ((.unsigned entry.1, entry.2) : Value × Value) := by
    rintro ⟨key, value⟩ ⟨key', value'⟩ h
    obtain ⟨hkey, hvalue⟩ := Prod.mk.inj h
    exact Prod.ext (Value.unsigned.inj hkey) hvalue
  exact List.map_injective_iff.mpr hentry (Value.map.inj h)

section Metadata

variable (tag : String) (kind : ℕ) (inert : List (Value × Value)) (head tail : String)

theorem lookup_metadata_inert : ((metadata tag kind inert head tail).lookup 0).getD (.map []) =
    .map inert := by
  unfold metadata
  dsimp only
  split_ifs <;> simp_all [List.lookup_cons]

theorem lookup_metadata_tag :
    (metadata tag kind inert head tail).lookup 1 = if kind = 255 then some (.text tag) else none := by
  unfold metadata
  dsimp only
  split_ifs <;> simp_all [List.lookup_cons]

theorem lookup_metadata_head :
    (metadata tag kind inert head tail).lookup 2 = if hasText head then some (.text head) else none := by
  unfold metadata
  dsimp only
  split_ifs <;> simp_all [List.lookup_cons]

theorem lookup_metadata_tail :
    (metadata tag kind inert head tail).lookup 3 = if hasText tail then some (.text tail) else none := by
  unfold metadata
  dsimp only
  split_ifs <;> simp_all [List.lookup_cons]

end Metadata

/-- Texts that are kept alike are the same text, or whitespace. -/
theorem sameText_of_kept {s t : String}
    (h : (if hasText s then some (Value.text s) else none) = if hasText t then some (.text t) else none) :
    SameText s t := by
  split_ifs at h with hs ht ht
  · exact .inl (Value.text.inj (Option.some.inj h))
  · exact .inr ⟨by simpa using hs, by simpa using ht⟩

/-- **Source metadata says what it was made of**: inert attributes, the tag of an unknown
element, and the texts. -/
theorem metadata_injective {tag tag' head head' tail tail' : String} {kind : ℕ}
    {inert inert' : List (Value × Value)}
    (h : metadata tag kind inert head tail = metadata tag' kind inert' head' tail') :
    inert = inert' ∧ (kind = 255 → tag = tag') ∧ SameText head head' ∧ SameText tail tail' := by
  refine ⟨?_, fun hkind => ?_, sameText_of_kept ?_, sameText_of_kept ?_⟩
  · refine Value.map.inj ?_
    rw [← lookup_metadata_inert tag kind inert head tail, h, lookup_metadata_inert]
  · have htag := lookup_metadata_tag tag kind inert head tail
    rw [h, lookup_metadata_tag, if_pos hkind, if_pos hkind] at htag
    exact (Value.text.inj (Option.some.inj htag)).symm
  · rw [← lookup_metadata_head tag kind inert head tail, h, lookup_metadata_head]
  · rw [← lookup_metadata_tail tag kind inert head tail, h, lookup_metadata_tail]

/-- **A record says its kind, its attributes, its children and its metadata.** -/
theorem sourceRecord_injective {kind kind' : ℕ} (hkind : kind < 256) (hkind' : kind' < 256)
    {attrs attrs' : List (Value × Value)} {children children' : List Value}
    {metadata metadata' : List (UInt64 × Value)}
    (h : sourceRecord kind attrs children metadata = sourceRecord kind' attrs' children' metadata') :
    kind = kind' ∧ attrs = attrs' ∧ children = children' ∧ metadata = metadata' := by
  have hfields : ∀ key, optional (sourceRecord kind attrs children metadata) key =
      optional (sourceRecord kind' attrs' children' metadata') key := fun key => by rw [h]
  have hnumber := Value.unsigned.inj (Option.some.inj (hfields 0))
  refine ⟨?_, Value.map.inj (Option.some.inj (hfields 1)),
    Value.array.inj (Option.some.inj (hfields 2)), ?_⟩
  · have hnat : ∀ {n : ℕ}, n < 256 → (UInt64.ofNat n).toNat = n := fun hn =>
      UInt64.toNat_ofNat_of_lt' (by simp [UInt64.size]; omega)
    rw [← hnat hkind, ← hnat hkind', hnumber]
  · have hextensions := hfields 3
    rw [optional_sourceRecord_extensions, optional_sourceRecord_extensions] at hextensions
    split_ifs at hextensions with hempty hempty' hempty'
    · rw [List.isEmpty_iff.mp hempty, List.isEmpty_iff.mp hempty']
    · have henvelope := (List.cons.inj (Value.array.inj (Option.some.inj hextensions))).1
      have hobject := congrArg (optional · 2) henvelope
      exact lookup_object (Option.some.inj hobject)

/-- Elements of one kind have one tag, if their metadata says it for unknown ones. -/
theorem tag_of_kind {tag tag' : String} (hkind : (kindId tag).getD 255 = (kindId tag').getD 255)
    (htag : (kindId tag).getD 255 = 255 → tag = tag') : tag = tag' := by
  cases h : kindId tag with
  | none => exact htag (by rw [h, Option.getD_none])
  | some kind =>
    obtain ⟨hname, hlt⟩ := kindName_of_kindId h
    cases h' : kindId tag' with
    | none =>
      rw [h, h', Option.getD_some, Option.getD_none] at hkind
      omega
    | some kind' =>
      obtain ⟨hname', -⟩ := kindName_of_kindId h'
      rw [h, h', Option.getD_some, Option.getD_some] at hkind
      rw [hkind, hname'] at hname
      exact (Option.some.inj hname).symm

/-! ### Elements -/

/-- **What the conversion of an element does.** -/
theorem sourceNode_element {tag : String} {attrs : List XmlAttribute}
    {children after : List Xml} {row : ℕ} {parent : String} {options ancestor : Bool} {depth : ℕ}
    {record : Value}
    (h : sourceNode (.element tag attrs children row) after parent options ancestor depth = .ok record) :
    ∃ written inert records,
      attrs.foldlM (sourceAttribute (allowedAt tag parent options ancestor)) ([], []) =
        .ok (written, inert) ∧
      sourceChildren children tag options (executablePath tag parent options ancestor) (depth + 1) =
        .ok records ∧
      record = sourceRecord ((kindId tag).getD 255) written records
        (metadata tag ((kindId tag).getD 255) inert (sourceText children) (sourceText after)) := by
  rw [sourceNode] at h
  obtain ⟨-, -, h⟩ := bind_eq_ok.mp h
  obtain ⟨⟨written, inert⟩, hwritten, h⟩ := bind_eq_ok.mp h
  obtain ⟨records, hrecords, h⟩ := bind_eq_ok.mp h
  exact ⟨written, inert, records, hwritten, hrecords, (Except.ok.inj h).symm⟩

/-- Elements with one record have one tag, and one of everything the record keeps. -/
theorem record_injective {tag tag' head head' tail tail' : String}
    {attrs attrs' inert inert' : List (Value × Value)} {children children' : List Value}
    (h : sourceRecord ((kindId tag).getD 255) attrs children (metadata tag ((kindId tag).getD 255) inert head tail) =
      sourceRecord ((kindId tag').getD 255) attrs' children'
        (metadata tag' ((kindId tag').getD 255) inert' head' tail')) :
    tag = tag' ∧ attrs = attrs' ∧ inert = inert' ∧ children = children' ∧ SameText head head' ∧
    SameText tail tail' := by
  have hlt : ∀ tag, (kindId tag).getD 255 < 256 :=
    fun tag => Nat.lt_succ_of_le (kindId_assigned tag).1
  obtain ⟨hkind, hattrs, hchildren, hmetadata⟩ := sourceRecord_injective (hlt tag) (hlt tag') h
  rw [← hkind] at hmetadata
  obtain ⟨hinert, htag, hhead, htail⟩ := metadata_injective hmetadata
  exact ⟨tag_of_kind hkind htag, hattrs, hinert, hchildren, hhead, htail⟩

/-- Elements with one record have one tag, in whatever places they stand. -/
theorem sourceNode_tag {tree tree' : Xml} {after after' : List Xml} {parent parent' : String}
    {options options' ancestor ancestor' : Bool} {depth depth' : ℕ} {record : Value}
    (h : sourceNode tree after parent options ancestor depth = .ok record)
    (h' : sourceNode tree' after' parent' options' ancestor' depth' = .ok record) :
    tagOf tree = tagOf tree' := by
  match tree, tree' with
  | .text s, _ => simp [sourceNode] at h
  | .other, _ => simp [sourceNode] at h
  | .element .., .text s => simp [sourceNode] at h'
  | .element .., .other => simp [sourceNode] at h'
  | .element tag .., .element tag' .. =>
    obtain ⟨_, _, _, -, -, rfl⟩ := sourceNode_element h
    obtain ⟨_, _, _, -, -, heq⟩ := sourceNode_element h'
    exact congrArg some (record_injective heq).1

mutual
/-- **Elements of one record are one element, up to spelling.** -/
theorem sourceNode_lossless {tree tree' : Xml} (hnames : NamedTree tree) (hnames' : NamedTree tree')
    {after after' : List Xml} {parent : String} {options ancestor : Bool} {depth depth' : ℕ}
    {record : Value} (h : sourceNode tree after parent options ancestor depth = .ok record)
    (h' : sourceNode tree' after' parent options ancestor depth' = .ok record) :
    SameElement parent options ancestor tree tree' ∧ SameText (sourceText after)
      (sourceText after') := by
  match tree, tree' with
  | .text s, _ => simp [sourceNode] at h
  | .other, _ => simp [sourceNode] at h
  | .element .., .text s => simp [sourceNode] at h'
  | .element .., .other => simp [sourceNode] at h'
  | .element tag attrs children row, .element tag' attrs' children' row' =>
    obtain ⟨written, inert, records, hwritten, hrecords, rfl⟩ := sourceNode_element h
    obtain ⟨written', inert', records', hwritten', hrecords', heq⟩ := sourceNode_element h'
    -- one tag, so one place for the attributes and for the elements below
    obtain ⟨rfl, rfl, rfl, rfl, hhead, htail⟩ := record_injective heq
    cases hnames with
    | element hattrs hchildren =>
      cases hnames' with
      | element hattrs' hchildren' =>
        exact ⟨.element (sourceAttributes_injective hattrs hattrs' hwritten hwritten') hhead
          (sourceChildren_lossless hchildren hchildren' hrecords hrecords'), htail⟩
/-- Nodes whose elements have one row of records are the same elements. -/
theorem sourceChildren_lossless {children children' : List Xml}
    (hnames : ∀ child ∈ children, NamedTree child) (hnames' : ∀ child ∈ children', NamedTree child)
    {parent : String} {options ancestor : Bool} {depth depth' : ℕ} {records : List Value}
    (h : sourceChildren children parent options ancestor depth = .ok records)
    (h' : sourceChildren children' parent options ancestor depth' = .ok records) :
    SameElements parent options ancestor children children' := by
  match children, children' with
  | [], [] => exact .nil
  | [], child' :: after' =>
    rw [sourceChildren] at h'
    split_ifs at h' with helement
    · cases h
      simp only [bind_eq_ok] at h'
      obtain ⟨_, -, _, -, h'⟩ := h'
      cases h'
    · exact .right (by simpa using helement)
        (sourceChildren_lossless hnames (List.forall_mem_cons.mp hnames').2 h h')
  | child :: after, children' =>
    rw [List.forall_mem_cons] at hnames
    by_cases helement : child.isElement = true
    · match children' with
      | [] =>
        cases h'
        rw [sourceChildren, if_pos helement] at h
        simp only [bind_eq_ok] at h
        obtain ⟨_, -, _, -, h⟩ := h
        cases h
      | child' :: after' =>
        rw [List.forall_mem_cons] at hnames'
        rw [sourceChildren] at h'
        split_ifs at h' with helement'
        · rw [sourceChildren, if_pos helement] at h
          obtain ⟨record, hrecord, h⟩ := bind_eq_ok.mp h
          obtain ⟨rest, hrest, h⟩ := bind_eq_ok.mp h
          cases h
          obtain ⟨record', hrecord', h'⟩ := bind_eq_ok.mp h'
          obtain ⟨rest', hrest', h'⟩ := bind_eq_ok.mp h'
          cases h'
          obtain ⟨hsame, htail⟩ := sourceNode_lossless hnames.1 hnames'.1 hrecord hrecord'
          exact .cons hsame htail (sourceChildren_lossless hnames.2 hnames'.2 hrest hrest')
        · exact .right (by simpa using helement')
            (sourceChildren_lossless (List.forall_mem_cons.mpr hnames) hnames'.2 h h')
    · rw [sourceChildren, if_neg helement] at h
      exact .left (by simpa using helement) (sourceChildren_lossless hnames.2 hnames' h h')
end

/-! ### One map for each attribute -/

theorem optional_object (metadata : List (UInt64 × Value)) (key : UInt64) :
    optional (object metadata) key.toNat = metadata.lookup key := by
  induction metadata with
  | nil => rfl
  | cons entry metadata ih =>
    obtain ⟨key', value⟩ := entry
    by_cases hkey : key' = key
    · subst hkey
      simp [object, Wire.optional, asMap, asUint]
    · have hne : ¬key'.toNat = key.toNat := mt UInt64.toNat_inj.mp hkey
      rw [List.lookup_cons, beq_false_of_ne (Ne.symm hkey), ← ih]
      simp [object, Wire.optional, asMap, asUint, hne]

theorem inertAttributes_sourceRecord (tag head tail : String) (kind : ℕ)
    (attrs inert : List (Value × Value)) (children : List Value) :
    inertAttributes (sourceRecord kind attrs children (metadata tag kind inert head tail)) = inert := by
  unfold inertAttributes
  rw [optional_sourceRecord_extensions]
  split_ifs with hempty
  · exact (metadata_isEmpty hempty).1.symm
  · change (((optional (object (metadata tag kind inert head tail)) 0).bind asMap).getD []) = inert
    have hlookup := lookup_metadata_inert tag kind inert head tail
    have hfield : optional (object (metadata tag kind inert head tail)) 0 = _ := optional_object _ 0
    rw [hfield]
    cases h : (metadata tag kind inert head tail).lookup 0 with
    | none =>
      rw [h] at hlookup
      exact Value.map.inj hlookup
    | some value =>
      rw [h, Option.getD_some] at hlookup
      rw [hlookup]
      rfl

/-- **An executable attribute has a name that no inert one has.** -/
theorem inertName_ne {allowed : List ℕ} {attr attr' : XmlAttribute} {id : ℕ}
    (hid : executableId allowed attr = some id) (hinert : executableId allowed attr' = none) :
    inertName attr' ≠ attr.name := by
  intro h
  obtain ⟨hname, hns, hmem⟩ := executableId_eq_some.mp hid
  have htext := inertName_toList attr'
  cases hns' : attr'.ns with
  | none =>
    rw [hns', h] at htext
    rw [executableId_eq_some.mpr ⟨hname.trans (congrArg some (String.ext htext)), hns', hmem⟩] at hinert
    cases hinert
  | some ns =>
    rw [hns', h] at htext
    have htable : ∀ entry ∈ attributes, entry.2.toList.head? ≠ some '\x7b' := by decide
    exact htable _ (mem_of_nameOf hname) (by rw [htext]; rfl)

mutual
theorem sourceNode_separate {tree : Xml} {after : List Xml} {parent : String}
    {options ancestor : Bool} {depth : ℕ} {record : Value}
    (h : sourceNode tree after parent options ancestor depth = .ok record) : Separate record := by
  match tree with
  | .text s => simp [sourceNode] at h
  | .other => simp [sourceNode] at h
  | .element tag attrs children row =>
    obtain ⟨written, inert, records, hwrite, hrecords, rfl⟩ := sourceNode_element h
    refine .record (optional_sourceRecord_attrs ..) (optional_sourceRecord_children ..) (fun e he => ?_)
      (sourceChildren_separate hrecords)
    obtain ⟨attr, -, id, v, hid, -, rfl⟩ := (sourceAttributes_ok hwrite).1 e he
    obtain ⟨hname, -, -⟩ := executableId_eq_some.mp hid
    refine ⟨id, attr.name, congrArg some (toNat_ofNat_assigned hname), hname, fun e' he' => ?_⟩
    rw [inertAttributes_sourceRecord, (sourceAttributes_eq hwrite).2, List.mem_map] at he'
    obtain ⟨attr', hattr', rfl⟩ := he'
    exact fun heq => inertName_ne hid (by simpa using (List.mem_filter.mp hattr').2) (Value.text.inj heq)
theorem sourceChildren_separate {children : List Xml} {parent : String}
    {options ancestor : Bool} {depth : ℕ} {records : List Value}
    (h : sourceChildren children parent options ancestor depth = .ok records) :
    ∀ record ∈ records, Separate record := by
  match children with
  | [] =>
    cases h
    exact List.forall_mem_nil _
  | child :: after =>
    rw [sourceChildren] at h
    split_ifs at h
    · obtain ⟨record, hrecord, h⟩ := bind_eq_ok.mp h
      obtain ⟨rest, hrest, h⟩ := bind_eq_ok.mp h
      cases h
      exact List.forall_mem_cons.mpr ⟨sourceNode_separate hrecord, sourceChildren_separate hrest⟩
    · exact sourceChildren_separate h
end

/-! ### Documents -/

/-- The names of attributes in documents are XML names. -/
def SourceReader.Named {x : XmlReader} (s : SourceReader x) : Prop :=
  ∀ bytes tree, s.document bytes = .ok tree → NamedTree tree

/-- **The conversion of a document loses nothing but spelling**: every document with the
same record is the same element tree, up to the spelling of numbers and to blank text;
and no name is both executable and inert in it. -/
theorem parseSource_lossless {x : XmlReader} {s : SourceReader x} (hnames : s.Named) {bytes : List UInt8}
    {expected : String} {record : Value} (h : parseSource s bytes expected = .ok record) :
    ∃ tree, s.document bytes = .ok tree ∧ Separate record ∧
      ∀ bytes' expected', parseSource s bytes' expected' = .ok record →
        ∃ tree', s.document bytes' = .ok tree' ∧ SameElement "" (expected = "options") true tree tree' := by
  have hread : ∀ bytes expected, parseSource s bytes expected = .ok record → ∃ tree, s.document bytes = .ok tree ∧
      tagOf tree = some expected ∧ sourceNode tree [] "" (expected = "options") true 0 =
        .ok record := by
    intro bytes expected h
    obtain ⟨tree, htree, h⟩ := bind_eq_ok.mp h
    obtain ⟨_, htag, h⟩ := bind_eq_ok.mp h
    rw [reject_eq_ok] at htag
    exact ⟨tree, htree, by simpa using htag, h⟩
  obtain ⟨tree, htree, htag, hnode⟩ := hread bytes expected h
  refine ⟨tree, htree, sourceNode_separate hnode, fun bytes' expected' h' => ?_⟩
  obtain ⟨tree', htree', htag', hnode'⟩ := hread bytes' expected' h'
  obtain rfl : expected = expected' := by
    rw [sourceNode_tag hnode hnode', htag'] at htag
    exact (Option.some.inj htag).symm
  exact ⟨tree', htree', (sourceNode_lossless (hnames _ _ htree) (hnames _ _ htree') hnode hnode').1⟩

/-- A profile, and the same in another spelling. -/
def spelledProfile : String :=
  "<monitor name=\"A\" x:lang=\"de\" xmlns:x=\"urn:x\"><controls><control id=\"b\" address=\"0x10\"/></controls></monitor>"

@[inherit_doc spelledProfile]
def respelledProfile : String :=
  "<monitor xmlns:x=\"urn:x\" x:lang=\"de\" name=\"A\">\n<!-- one -->\n<controls><control id=\"b\" address=\"16\"/></controls></monitor>"

/-- Their trees. -/
def spelledTree : Xml :=
  .element "monitor" [⟨none, "name", "A"⟩, ⟨some "urn:x", "lang", "de"⟩]
    [.element "controls" [] [.element "control" [⟨none, "id", "b"⟩, ⟨none, "address", "0x10"⟩] [] 1] 1] 1

@[inherit_doc spelledTree]
def respelledTree : Xml :=
  .element "monitor" [⟨some "urn:x", "lang", "de"⟩, ⟨none, "name", "A"⟩]
    [.text "\n", .other, .text "\n",
      .element "controls" [] [.element "control" [⟨none, "id", "b"⟩, ⟨none, "address", "16"⟩] [] 3] 3] 1

/-- The attributes of the two trees. -/
def spelledAttributes : List XmlAttribute :=
  [⟨none, "name", "A"⟩, ⟨some "urn:x", "lang", "de"⟩, ⟨none, "id", "b"⟩, ⟨none, "address", "0x10"⟩,
    ⟨none, "address", "16"⟩]

theorem spelledTree_all {P : XmlAttribute → Prop} (h : ∀ attr ∈ spelledAttributes, P attr) :
    spelledTree.All P ∧ respelledTree.All P := by
  simp only [spelledAttributes, List.forall_mem_cons, List.not_mem_nil, false_imp_iff, implies_true,
    and_true] at h
  obtain ⟨hname, hlang, hid, hhex, hdecimal⟩ := h
  have hcontrols : ∀ attr row, P attr →
      Xml.All P (.element "controls" [] [.element "control" [⟨none, "id", "b"⟩, attr] [] row] row) :=
    fun attr row hattr => .element (List.forall_mem_nil _) (List.forall_mem_singleton.mpr
      (.element (by simpa using ⟨hid, hattr⟩) (List.forall_mem_nil _)))
  refine ⟨.element (by simpa using ⟨hname, hlang⟩) (List.forall_mem_singleton.mpr (hcontrols _ _ hhex)),
    .element (by simpa using ⟨hlang, hname⟩) ?_⟩
  simpa using ⟨.text, .other, .text, hcontrols _ 3 hdecimal⟩

theorem spelledTree_noNul : spelledTree.NoNul ∧ respelledTree.NoNul :=
  spelledTree_all (P := fun attr => NulFree attr.value) (by unfold NulFree; decide)

/-- A reader of these two documents. -/
def spelledReader : XmlReader where
  document bytes :=
    if bytes = utf8 spelledProfile then .ok spelledTree
    else if bytes = utf8 respelledProfile then .ok respelledTree
    else .error "unknown document"
  root_isElement bytes tree h := by
    split_ifs at h <;> cases h <;> rfl
  noNul bytes tree h := by
    split_ifs at h <;> cases h
    · exact spelledTree_noNul.1
    · exact spelledTree_noNul.2

/-- The producer reads what the loader reads. -/
def spelledSource : SourceReader spelledReader := ⟨spelledReader.document, fun _ _ h => h⟩

theorem spelledSource_document (bytes : List UInt8) : spelledSource.document bytes =
    if bytes = utf8 spelledProfile then .ok spelledTree
    else if bytes = utf8 respelledProfile then .ok respelledTree
    else .error "unknown document" := rfl

/-- **Both spellings are one record**, and the same tree but for the spelling. -/
theorem spelledProfile_lossless : ∃ record, parseSource spelledSource (utf8 spelledProfile) "monitor" = .ok record ∧
    parseSource spelledSource (utf8 respelledProfile) "monitor" = .ok record ∧ Separate record ∧
    SameElement "" false true spelledTree respelledTree := by
  have hnames : spelledSource.Named := by
    intro bytes tree h
    rw [spelledSource_document] at h
    have hall := spelledTree_all (P := fun attr => XmlName attr.name) (by unfold XmlName; decide)
    split_ifs at h <;> cases h
    · exact hall.1
    · exact hall.2
  have hspelled : spelledSource.document (utf8 spelledProfile) = .ok spelledTree := by
    rw [spelledSource_document, if_pos rfl]
  have hdiffer : utf8 respelledProfile ≠ utf8 spelledProfile := by decide +kernel
  have hrespelled : spelledSource.document (utf8 respelledProfile) = .ok respelledTree := by
    rw [spelledSource_document, if_neg hdiffer, if_pos rfl]
  have hsame : parseSource spelledSource (utf8 respelledProfile) "monitor" =
      parseSource spelledSource (utf8 spelledProfile) "monitor" := by
    rw [parseSource, parseSource, hspelled, hrespelled]
    rfl
  have hok : (parseSource spelledSource (utf8 spelledProfile) "monitor").isOk = true := by
    rw [parseSource, hspelled]
    rfl
  obtain ⟨record, h⟩ := exists_of_isOk hok
  obtain ⟨tree, htree, hseparate, hlossless⟩ := parseSource_lossless hnames h
  obtain ⟨tree', htree', hsame'⟩ := hlossless _ _ (hsame.trans h)
  rw [hspelled] at htree
  rw [hrespelled] at htree'
  cases htree
  cases htree'
  exact ⟨record, h, hsame.trans h, hseparate, hsame'⟩

end DdcControl.Dbgen
