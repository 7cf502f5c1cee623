import DdcControl.Wire.Encode
import DdcControl.Wire.References
import DdcControl.Wire.Schema

/-!
# Decoding a database

`decode` turns the bytes of a database into nodes. What a node says is checked against
the schema; what it says beyond this program's understanding is marked `required` where
it cannot be left out: a required extension, or a node kind that is not assigned.

## The model

`Sha256` is the digest the program links. The children of a node are the items of its
field 2, and the recursion goes by their size.
-/

namespace DdcControl.Wire

open Cbor Fallible Database

/-- The digest. -/
structure Sha256 where
  digest : List UInt8 → List UInt8
  length_digest : ∀ bytes, (digest bytes).length = 32

/-- An extension envelope: its identity, and whether it is required. -/
def decodeExtension (identities : List String) (extension : Value) : Except String (String × Bool) := do
  let _ ← fields extension
  let id ← field extension 0
  let id ← text id
  reject (!validIdentity id || identities.contains id) "CBOR invalid or duplicate extension identity"
  let needs ← field extension 1
  let needs ← orError (asBool needs) "CBOR extension requires boolean"
  let payload ← field extension 2
  if id = sourceMetadata then do
    reject needs "CBOR source metadata must be optional"
    let _ ← fields payload
    let entries ← field payload 0
    let entries ← map entries
    entries.forM fun (key, value) => do
      let _ ← text key
      let _ ← text value
    [1, 2, 3].forM fun key =>
      match optional payload key with
      | some value => do let _ ← text value
      | none => .ok ()
    return (id, needs)
  else return (id, needs)

/-- `required_extensions`. -/
def requiredExtensions (value : Value) (key : ℕ) : Except String Bool :=
  match optional value key with
  | none => .ok false
  | some extensions => do
    let extensions ← array extensions
    let (required, _) ← extensions.foldlM (fun (required, identities) extension => do
      let (id, needs) ← decodeExtension identities extension
      return (required || needs, id :: identities)) (false, [])
    return required

/-- The text of an executable attribute. -/
def attributeText (id : ℕ) (value : Value) : Except String String :=
  match attributeIntegerBounds id with
  | some (low, high) => do
    let number ← integer value
    reject (!(low ≤ number && number ≤ high)) ("CBOR attribute " ++ toString id ++ " out of range")
    return toString number
  | none => do
    let string ← text value
    reject (string.toList.contains '\x00') "CBOR NUL in executable text"
    return string

/-- The loop body of `node` for an attribute. -/
def decodeAttribute (tag parent : String) (allowed : List ℕ) (attrs : Std.TreeMap String String)
    (entry : Value × Value) : Except String (Std.TreeMap String String) := do
  let id ← uint entry.1
  match nameOf attributes id with
  | none => do
    reject ((asInteger entry.2).isNone && (asText entry.2).isNone) "CBOR unknown attribute must be integer or text"
    return attrs
  | some name => do
    reject (!allowed.contains id)
      ("CBOR attribute " ++ toString id ++ " is not executable on " ++ parent ++ "/" ++ tag)
    let attr ← attributeText id entry.2
    return attrs.insert name attr

/-- The tag of a node by its kind; an inert node names its own. -/
def nodeTag (value : Value) (kind : ℕ) : Except String String :=
  if kind = 255 then do
    let extensions ← field value 3
    let extensions ← array extensions
    let metadata ← orError
      (extensions.find? fun extension => (optional extension 0).bind asText = some sourceMetadata)
      "CBOR inert source node requires source metadata"
    let payload ← field metadata 2
    let tag ← field payload 1
    let tag ← text tag
    reject (kindId tag).isSome "CBOR inert node impersonates executable kind"
    return tag
  else return (kindName kind).getD "unknown"

/-- `array(field(value, 2)?)?`. -/
def childValues (value : Value) : Except String (List (Inner value)) := do
  let children ← innerField value 2
  let items ← innerItems children.1
  return items.map fun item => ⟨item.1, item.2.trans children.2⟩

/-- `node`. -/
def node (value : Value) (parent : String) (inOptions : Bool) : Except String Node := do
  let _ ← fields value
  let kind ← field value 0
  let kind ← uint kind
  let tag ← nodeTag value kind
  let required ← requiredExtensions value 3
  let required := required || ((kindName kind).isNone && kind ≠ 255)
  let allowed := executableAttributes tag parent inOptions
  let entries ← field value 1
  let entries ← fields entries
  let attrs ← entries.foldlM (decodeAttribute tag parent allowed) ∅
  let children ← childValues value
  let children ← children.mapM fun child => node child.1 tag inOptions
  return ⟨tag, attrs, children, 0, required⟩
termination_by value.size
decreasing_by exact child.2

/-- The rest of a text after a prefix and before a suffix. -/
def stripEnds (start stop text : String) : Option String :=
  (start.toList.isPrefixOf? text.toList).bind fun rest =>
    (stop.toList.isSuffixOf? rest).map String.ofList

/-- The loop body of `manifest`. -/
def decodeSource (output : Std.TreeMap String (List UInt8)) (entry : Value × Value) :
    Except String (Std.TreeMap String (List UInt8)) := do
  let path ← text entry.1
  reject (!(path = "options.xml" || (stripEnds "monitor/" ".xml" path).any profileId))
    "CBOR invalid snapshot source path"
  let hash ← bytes32 entry.2
  return output.insert path hash

/-- `manifest`. -/
def manifest (value : Value) : Except String (Std.TreeMap String (List UInt8)) := do
  let entries ← map value
  let output ← entries.foldlM decodeSource ∅
  reject (!output.contains "options.xml" || output.size > maxProfiles + 1) "CBOR invalid snapshot source manifest"
  return output

/-- `manifest_digest`. -/
def manifestDigest (c : Ciborium) (sha : Sha256) (value : Value) : Except String (List UInt8) := do
  let bytes ← encode c value
  return sha.digest bytes

/-- The loop body of `decode_value` for a profile. -/
def decodeProfile (sources : Std.TreeMap String (List UInt8)) (profiles : Profiles) (entry : Value × Value) :
    Except String Profiles := do
  let id ← text entry.1
  reject (!profileId id) "CBOR invalid profile identity"
  let profile ← node entry.2 "" false
  reject (profile.tag ≠ "monitor") "CBOR monitor root type mismatch"
  reject (!sources.contains ("monitor/" ++ id ++ ".xml")) "CBOR profile absent from source manifest"
  return profiles.insert id profile

/-- `Database`. -/
structure WireDatabase where
  options : Node
  profiles : Profiles
  manifest : Std.TreeMap String (List UInt8)
  snapshot : List UInt8

/-- `profiles.get_mut(&id).unwrap().required = true`. -/
def requireProfile (profiles : Profiles) (id : String) : Profiles :=
  profiles.modify id fun profile => { profile with required := true }

/-- The fields of `decode_value` that say what the file is. -/
def checkHeader (root : Value) : Except String Unit := do
  let _ ← fields root
  let magic ← field root 0
  reject (asBytes magic ≠ some (utf8 "DDCDB")) "CBOR database magic mismatch"
  let version ← field root 1
  let version ← uint version
  reject (version ≠ 1) "CBOR unsupported format version"
  let revision ← field root 2
  let revision ← text revision
  reject revision.isEmpty "CBOR missing database revision"
  let semantics ← field root 3
  let semantics ← uint semantics
  reject (semantics ≠ 3) "CBOR unsupported XML semantics"
  let domain ← field root 4
  let domain ← text domain
  reject (domain ≠ "ddccontrol-db") "CBOR unsupported gettext domain"

/-- The fields of `decode_value` that say what it was made from. -/
def checkSources (c : Ciborium) (sha : Sha256) (root : Value) :
    Except String (Std.TreeMap String (List UInt8) × List UInt8) := do
  let sourceManifest ← field root 8
  let sources ← manifest sourceManifest
  let snapshot ← field root 9
  let snapshot ← bytes32 snapshot
  let digest ← manifestDigest c sha sourceManifest
  reject (snapshot ≠ digest) "CBOR snapshot digest mismatch"
  return (sources, snapshot)

/-- `decode_value`. -/
def decodeValue (c : Ciborium) (sha : Sha256) (root : Value) (consumer : Bool) : Except String WireDatabase := do
  checkHeader root
  let required ← requiredExtensions root 7
  reject (required && consumer) "CBOR unknown required database feature"
  let (sources, snapshot) ← checkSources c sha root
  let options ← field root 5
  let options ← node options "" true
  reject (options.tag ≠ "options") "CBOR options root type mismatch"
  let entries ← field root 6
  let entries ← map entries
  reject (entries.length > maxProfiles) "CBOR profile limit exceeded"
  let profiles ← entries.foldlM (decodeProfile sources) ∅
  reject (sources.size ≠ profiles.size + 1) "CBOR manifest/profile set mismatch"
  let invalid ← orError (invalidReferenceProfiles profiles false) "attempt to subtract with overflow"
  return ⟨options, invalid.foldl requireProfile profiles, sources, snapshot⟩

/-- `decode`. -/
def decode (c : Ciborium) (sha : Sha256) (bytes : List UInt8) : Except String WireDatabase := do
  let root ← value c bytes
  decodeValue c sha root true

/-! ### What was decoded -/

@[simp] theorem text_eq_ok {value : Value} {s : String} : text value = .ok s ↔ value = .text s := by
  cases value <;> simp [text, asText, orError]

@[simp] theorem uint_eq_ok {value : Value} {n : ℕ} :
    uint value = .ok n ↔ asUint value = some n := orError_eq_ok

@[simp] theorem field_eq_ok {value found : Value} {key : ℕ} :
    field value key = .ok found ↔ optional value key = some found := orError_eq_ok

@[simp] theorem array_eq_ok {value : Value} {items : List Value} :
    array value = .ok items ↔ value = .array items := by
  cases value <;> simp [array, asArray, orError]

@[simp] theorem map_eq_ok {value : Value} {entries : List (Value × Value)} :
    map value = .ok entries ↔ value = .map entries := by
  cases value <;> simp [map, asMap, orError]

theorem childValues_eq_ok {value : Value} {children : List (Inner value)} :
    childValues value = .ok children ↔ optional value 2 = some (.array (children.map Subtype.val)) := by
  simp only [childValues, bind_eq_ok, innerField_eq_ok, innerItems_eq_ok]
  constructor
  · rintro ⟨⟨found, hsize⟩, hfound, items, hitems, h⟩
    cases h
    cases found with
    | array values =>
      rw [asArray, Option.some.injEq] at hitems
      rw [hfound, List.map_map]
      exact congrArg (fun items => some (Value.array items)) hitems
    | _ => cases hitems
  · intro h
    have hsize := size_optional h
    have hattach : children.attach.map (fun child => child.1.1) = children.map Subtype.val :=
      List.attach_map_val
    refine ⟨⟨_, hsize⟩, h, children.attach.map fun child => ⟨child.1.1,
      size_item (List.mem_map_of_mem child.2)⟩, ?_, ?_⟩
    · rw [asArray, List.map_map]
      exact congrArg some hattach.symm
    · refine congrArg Except.ok ?_
      rw [List.map_map]
      exact List.attach_map_subtype_val children

theorem exists_childValues {value : Value} {children : List Value}
    (h : optional value 2 = some (.array children)) :
    ∃ inner, childValues value = .ok inner ∧ inner.map Subtype.val = children := by
  refine ⟨children.attach.map fun child => ⟨child.1, (size_item child.2).trans (size_optional h)⟩,
    ?_, ?_⟩
  · rw [childValues_eq_ok, h, List.map_map]
    exact congrArg (fun items => some (Value.array items)) (List.attach_map_subtype_val children).symm
  · rw [List.map_map]
    exact List.attach_map_subtype_val children

/-- A well-formed envelope: a valid identity, the mark and a payload. -/
structure IsEnvelope (extension : Value) : Prop where
  identity : ∃ id, optional extension 0 = some (.text id) ∧ validIdentity id = true
  needs : ∃ needs, optional extension 1 = some (.bool needs)
  payload : ∃ payload, optional extension 2 = some payload

theorem decodeExtension_ok {identities : List String} {extension : Value} {id : String}
    {needs : Bool} (h : decodeExtension identities extension = .ok (id, needs)) :
    IsEnvelope extension ∧ optional extension 1 = some (.bool needs) := by
  simp only [decodeExtension, bind_eq_ok, field_eq_ok, text_eq_ok, reject_eq_ok, orError_eq_ok] at h
  obtain ⟨_, -, _, hid, id', rfl, -, hvalid, flag, hflag, needs', hneeds, payload, hpayload, h⟩ := h
  have hbool : flag = .bool needs' := by
    cases flag <;> simp_all [asBool]
  have hneeds' : needs' = needs := by
    split_ifs at h
    · simp only [bind_eq_ok] at h
      obtain ⟨-, -, -, -, -, -, -, -, -, -, -, -, h⟩ := h
      cases h
      rfl
    · cases h
      rfl
  subst hbool hneeds'
  simp only [Bool.or_eq_false_iff, Bool.not_eq_false'] at hvalid
  exact ⟨⟨⟨id', hid, hvalid.1⟩, ⟨needs', hflag⟩, ⟨payload, hpayload⟩⟩, hflag⟩

/-- A required extension among the extensions of a record. -/
def RequiredExtension (value : Value) (key : ℕ) : Prop :=
  ∃ extensions extension, optional value key = some (.array extensions) ∧ extension ∈ extensions ∧
    optional extension 1 = some (.bool true)

/-- **`required_extensions` answers whether there is one**; each extension is well formed. -/
theorem requiredExtensions_ok {value : Value} {key : ℕ} {required : Bool}
    (h : requiredExtensions value key = .ok required) :
    (required = true ↔ RequiredExtension value key) ∧
      ∀ extensions, optional value key = some (.array extensions) →
        ∀ extension ∈ extensions, IsEnvelope extension := by
  unfold requiredExtensions at h
  cases hfound : optional value key with
  | none =>
    rw [hfound] at h
    cases h
    simp [RequiredExtension, hfound]
  | some found =>
    simp only [hfound, bind_eq_ok, array_eq_ok, Prod.exists] at h
    obtain ⟨extensions, rfl, required', identities, hloop, h⟩ := h
    cases h
    have hinv := foldlM_history (P := fun done (state : Bool × List String) =>
      (state.1 = true ↔ ∃ extension ∈ done, optional extension 1 = some (.bool true)) ∧
        ∀ extension ∈ done, IsEnvelope extension) ?_ (by simp) hloop
    · refine ⟨?_, ?_⟩
      · rw [hinv.1, RequiredExtension]
        simp only [hfound, Option.some.injEq, Value.array.injEq]
        constructor
        · rintro ⟨extension, hmem, hneeds⟩
          exact ⟨extensions, extension, rfl, hmem, hneeds⟩
        · rintro ⟨_, extension, rfl, hmem, hneeds⟩
          exact ⟨extension, hmem, hneeds⟩
      · intro extensions' heq
        cases heq
        exact hinv.2
    · intro done extension state state' ⟨hiff, hall⟩ hstep
      obtain ⟨⟨id, needs⟩, hext, hstep⟩ := bind_eq_ok.mp hstep
      cases hstep
      obtain ⟨hwell, hneeds⟩ := decodeExtension_ok hext
      refine ⟨?_, ?_⟩
      · simp only [Bool.or_eq_true, hiff, List.mem_append, List.mem_singleton,
          or_and_right, exists_or, exists_eq_left, hneeds, Option.some.injEq, Value.bool.injEq]
      · intro e he
        rcases List.mem_append.mp he with he | he
        · exact hall e he
        · rw [List.mem_singleton.mp he]
          exact hwell

/-- **What a decoded node is**, by the fields of its record. -/
theorem node_eq_ok {value : Value} {parent : String} {inOptions : Bool} {decoded : Node} :
    node value parent inOptions = .ok decoded ↔
      ∃ fs kind tag required entries attrs children nodes, fields value = .ok fs ∧
        (optional value 0).bind asUint = some kind ∧ nodeTag value kind = .ok tag ∧
        requiredExtensions value 3 = .ok required ∧ (field value 1 >>= fields) = .ok entries ∧
        entries.foldlM (decodeAttribute tag parent (executableAttributes tag parent inOptions)) ∅ = .ok attrs ∧
        optional value 2 = some (.array children) ∧
        List.Forall₂ (fun child n => node child tag inOptions = .ok n) children nodes ∧
        decoded = ⟨tag, attrs, nodes, 0, required || ((kindName kind).isNone && kind ≠ 255)⟩ := by
  rw [node]
  simp only [bind_eq_ok, field_eq_ok, uint_eq_ok, mapM_eq_ok, childValues_eq_ok]
  constructor
  · rintro ⟨fs, hfs, k, hk, kind, hkind, tag, htag, required, hrequired, e, he, entries, hentries,
      attrs, hattrs,
      children, hchildren, nodes, hnodes, h⟩
    cases h
    refine ⟨fs, kind, tag, required, entries, attrs, _, nodes, hfs, by rw [hk]; exact hkind,
      htag, hrequired,
      ⟨e, he, hentries⟩, hattrs, hchildren, ?_, rfl⟩
    rw [List.forall₂_map_left_iff]
    exact hnodes
  · rintro ⟨fs, kind, tag, required, entries, attrs, children, nodes, hfs, hkind, htag, hrequired,
      ⟨e, he, hentries⟩,
      hattrs, hchildren, hnodes, rfl⟩
    obtain ⟨k, hk, hkind⟩ := Option.bind_eq_some_iff.mp hkind
    obtain ⟨inner, hinner, rfl⟩ := exists_childValues hchildren
    rw [List.forall₂_map_left_iff] at hnodes
    exact ⟨fs, hfs, k, hk, kind, hkind, tag, htag, required, hrequired, e, he, entries, hentries,
      attrs, hattrs, inner,
      hchildren, nodes, hnodes, rfl⟩

/-- The profiles of a database are its records, decoded. -/
theorem decodeProfiles_ok {sources : Std.TreeMap String (List UInt8)}
    {entries : List (Value × Value)} {profiles : Profiles}
    (h : entries.foldlM (decodeProfile sources) ∅ = .ok profiles) :
    (∀ (id : String) profile, profiles[id]? = some profile → profile.tag = "monitor" ∧ profileId id = true ∧
      ∃ entry ∈ entries, node entry.2 "" false = .ok profile) ∧
      ∀ entry ∈ entries, ∃ profile, node entry.2 "" false = .ok profile := by
  refine foldlM_history (P := fun done profiles => (∀ (id : String) profile, profiles[id]? = some profile →
    profile.tag = "monitor" ∧ profileId id = true ∧
    ∃ entry ∈ done, node entry.2 "" false = .ok profile) ∧
      ∀ entry ∈ done, ∃ profile, node entry.2 "" false = .ok profile) ?_ (by simp) h
  intro done entry profiles profiles' ⟨hprofiles, hdone⟩ hstep
  simp only [decodeProfile, bind_eq_ok, reject_eq_ok] at hstep
  obtain ⟨id, -, -, hid, decoded, hdecoded, -, htag, -, -, hstep⟩ := hstep
  cases hstep
  refine ⟨?_, ?_⟩
  · intro id' profile hprofile
    rw [Std.TreeMap.getElem?_insert] at hprofile
    split_ifs at hprofile with heq
    · cases hprofile
      rw [← Std.LawfulEqCmp.eq_of_compare heq]
      exact ⟨by simpa using htag, by simpa using hid, entry, by simp, hdecoded⟩
    · obtain ⟨htag', hid', entry', hmem, hnode⟩ := hprofiles id' profile hprofile
      exact ⟨htag', hid', entry', List.mem_append_left _ hmem, hnode⟩
  · intro entry' hmem
    rcases List.mem_append.mp hmem with hmem | hmem
    · exact hdone entry' hmem
    · rw [List.mem_singleton.mp hmem]
      exact ⟨decoded, hdecoded⟩

/-- Marking profiles changes no children. -/
theorem sameChildren_requireProfile (ids : List String) (profiles : Profiles) :
    SameChildren profiles (ids.foldl requireProfile profiles) := by
  induction ids generalizing profiles with
  | nil => exact fun _ => rfl
  | cons id ids ih =>
    intro id'
    rw [List.foldl_cons, ← ih (requireProfile profiles id) id', requireProfile,
      Std.TreeMap.getElem?_modify]
    split_ifs with heq
    · rw [Std.LawfulEqCmp.eq_of_compare heq, Option.map_map]
      rfl
    · rfl

/-- What a decoded database is: its options and profiles are decoded records, and the
profiles whose includes cannot be resolved are marked. -/
structure DecodedFrom (root : Value) (consumer : Bool) (db : WireDatabase) : Prop where
  extensions : ∃ required, requiredExtensions root 7 = .ok required ∧ (required && consumer) = false
  options : ∃ options, optional root 5 = some options ∧ node options "" true = .ok db.options
  manifest : ∃ sources, optional root 8 = some sources
  profiles : ∃ entries profiles invalid sources, optional root 6 = some (.map entries) ∧
    entries.foldlM (decodeProfile sources) ∅ = .ok profiles ∧
    invalidReferenceProfiles profiles false = some invalid ∧ db.profiles = invalid.foldl requireProfile profiles

theorem decodeValue_ok {c : Ciborium} {sha : Sha256} {root : Value} {consumer : Bool}
    {db : WireDatabase} (h : decodeValue c sha root consumer = .ok db) :
    DecodedFrom root consumer db := by
  simp only [decodeValue, checkSources, bind_eq_ok, reject_eq_ok, field_eq_ok, map_eq_ok,
    orError_eq_ok] at h
  obtain ⟨-, -, required, hrequired, -, hconsumer, sources, ⟨sourceManifest, hmanifest, -⟩, options,
      hoptions, decoded,
    hdecoded, -, -, entries, hentries, entries', rfl, -, -, profiles, hprofiles, -, -, invalid, hinvalid, h⟩ := h
  cases h
  exact ⟨⟨required, hrequired, hconsumer⟩, ⟨options, hoptions, hdecoded⟩,
    ⟨sourceManifest, hmanifest⟩,
    entries', profiles, invalid, sources.1, hentries, hprofiles, hinvalid, rfl⟩

/-- A database without required extensions of its own is decoded for a consumer as for a
tool. -/
theorem decodeValue_consumer {c : Ciborium} {sha : Sha256} {root : Value}
    (h : requiredExtensions root 7 = .ok false) :
    decodeValue c sha root true = decodeValue c sha root false := by
  rw [decodeValue, decodeValue, h]
  rfl

end DdcControl.Wire
