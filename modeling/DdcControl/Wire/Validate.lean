import DdcControl.Library.Sha2
import DdcControl.Wire.Descriptors

/-!
# Validation and the authority to fall back

`validate` accepts a database for tooling: it keeps every field, required extensions
included, where `decode` would refuse to run. `fallbackManifest` decides whether the
XML sources may stand in for a database when the database file is missing: the source
manifest if they may, `false` if something necessary would be lost.

## What is proved

`fallbackManifest_sound` — for a validated database, where the manifest is returned the
consumer decodes the database and no node in it is marked required; and wherever a
required extension or an unassigned node kind occurs, `false` is returned.
-/

namespace DdcControl.Wire

open Cbor Fallible Database

/-- `extensions_at`. -/
def extensionsAt (value : Value) (key : ℕ) : Except String Unit :=
  match optional value key with
  | some extensions => describedExtensions extensions
  | none => .ok ()

/-- `node` of `validate`. -/
def validateNode (value : Value) (parent : String) (options ancestor : Bool) : Except String Unit := do
  let kind ← field value 0
  let kind ← uint kind
  let tag := (kindName kind).getD "unknown"
  let active := executablePath tag parent options ancestor
  if active then pure ()
  else do
    let attrs ← field value 1
    let attrs ← fields attrs
    reject (attrs.any fun entry => (asUint entry.1).any (· < 16)) "CBOR executable attribute in inactive branch"
  extensionsAt value 3
  let children ← childValues value
  children.forM fun child => validateNode child.1 tag options active
termination_by value.size
decreasing_by exact child.2

/-- `validate`. -/
def validate (c : Ciborium) (sha : Sha256) (bytes : List UInt8) : Except String Value := do
  let root ← value c bytes
  let db ← decodeValue c sha root false
  reject db.profiles.isEmpty "CBOR database has no profiles"
  let invalid ← orError (invalidReferenceProfiles db.profiles true) "attempt to subtract with overflow"
  reject (!invalid.isEmpty) ("CBOR missing/cyclic/excessive include: " ++ ", ".intercalate invalid)
  extensionsAt root 7
  let options ← field root 5
  validateNode options "" true true
  let profiles ← field root 6
  let profiles ← map profiles
  profiles.forM fun (_, profile) => validateNode profile "" false true
  return root

/-- `unknown_node`. -/
def unknownNode (value : Value) : Except String Bool := do
  let kind ← field value 0
  let kind ← uint kind
  if (kindName kind).isNone && kind ≠ 255 then return true
  else do
    let children ← childValues value
    children.anyM fun child => unknownNode child.1
termination_by value.size
decreasing_by exact child.2

/-- An extension envelope that is required, by its shape. -/
def requiredEnvelope (value : Value) : Bool :=
  ((optional value 0).bind asText).any validIdentity && (optional value 1).bind asBool = some true &&
    (optional value 2).isSome

mutual
/-- `necessary`. -/
def necessary : Value → Bool
  | .map entries => requiredEnvelope (.map entries) || necessaryEntries entries
  | .array values => necessaryItems values
  | _ => false
/-- `values.iter().any(necessary)`. -/
def necessaryItems : List Value → Bool
  | [] => false
  | value :: values => necessary value || necessaryItems values
/-- `entries.iter().any(|(_, v)| necessary(v))`. -/
def necessaryEntries : List (Value × Value) → Bool
  | [] => false
  | (_, value) :: entries => necessary value || necessaryEntries entries
end

/-- `fallback_manifest`. -/
def fallbackManifest (root : Value) : Except String Value :=
  if necessary root then .ok (.bool false)
  else do
    let options ← field root 5
    let unknown ← unknownNode options
    if unknown then return .bool false
    else do
      let profiles ← field root 6
      let profiles ← map profiles
      let unknown ← profiles.anyM fun (_, profile) => unknownNode profile
      if unknown then return .bool false
      else field root 8

/-- The loop body of `verify_manifest`. -/
def verifySource (sha : Sha256) (files : Std.TreeMap String (List UInt8)) (entry : String × List UInt8) :
    Except String Unit := do
  let source ← orError files[entry.1]? "XML snapshot missing file"
  reject (sha.digest source ≠ entry.2) ("XML snapshot mismatch: " ++ entry.1)

/-- `verify_manifest`. -/
def verifyManifest (c : Ciborium) (sha : Sha256) (bytes : List UInt8) (files : Std.TreeMap String (List UInt8)) :
    Except String Unit := do
  let decoded ← value c bytes
  reject (asBool decoded = some false) "XML fallback prohibited: this snapshot requires CBOR semantics"
  let expected ← manifest decoded
  reject (expected.size ≠ files.size) "XML snapshot file set mismatch"
  expected.toList.forM (verifySource sha files)

/-! ### What is necessary -/

/-- Something a consumer cannot leave out, on a node or below it: a required extension,
or a kind that is not assigned. -/
inductive NecessaryNode : Value → Prop
  | extension {value : Value} : RequiredExtension value 3 → NecessaryNode value
  | kind {value : Value} {kind : ℕ} : (optional value 0).bind asUint = some kind → kindName kind = none →
      kind ≠ 255 → NecessaryNode value
  | child {value child : Value} {children : List Value} : optional value 2 = some (.array children) →
      child ∈ children → NecessaryNode child → NecessaryNode value

/-- Something a consumer cannot leave out, anywhere in a database. -/
def NecessaryDatabase (root : Value) : Prop :=
  RequiredExtension root 7 ∨ (∃ options, optional root 5 = some options ∧ NecessaryNode options) ∨
    ∃ entries, optional root 6 = some (.map entries) ∧ ∃ entry ∈ entries, NecessaryNode entry.2

theorem necessaryItems_eq (values : List Value) : necessaryItems values = values.any necessary := by
  induction values with
  | nil => rfl
  | cons value values ih => rw [necessaryItems, List.any_cons, ih]

theorem necessaryEntries_eq (entries : List (Value × Value)) :
    necessaryEntries entries = entries.any fun entry => necessary entry.2 := by
  induction entries with
  | nil => rfl
  | cons entry entries ih => rw [necessaryEntries, List.any_cons, ih]

/-- The search goes through the values of a map. -/
theorem necessary_entry {entries : List (Value × Value)} {entry : Value × Value}
    (hmem : entry ∈ entries) (h : necessary entry.2 = true) : necessary (.map entries) = true := by
  rw [necessary, necessaryEntries_eq, Bool.or_eq_true, List.any_eq_true]
  exact .inr ⟨entry, hmem, h⟩

/-- The search goes through the items of an array. -/
theorem necessary_item {values : List Value} {value : Value} (hmem : value ∈ values)
    (h : necessary value = true) :
    necessary (.array values) = true := by
  rw [necessary, necessaryItems_eq, List.any_eq_true]
  exact ⟨value, hmem, h⟩

theorem necessary_optional {value found : Value} {key : ℕ}
    (hfound : optional value key = some found) (h : necessary found = true) :
    necessary value = true := by
  obtain ⟨entries, rfl, entry, hmem, -, rfl⟩ := mem_of_optional hfound
  exact necessary_entry hmem h

/-- **The search finds every required extension the decoder takes for one.** -/
theorem necessary_of_requiredExtension {value : Value} {key : ℕ} {required : Bool}
    (hdecoded : requiredExtensions value key = .ok required) (h : RequiredExtension value key) :
    necessary value = true := by
  obtain ⟨extensions, extension, hfound, hmem, hneeds⟩ := h
  obtain ⟨⟨id, hid, hvalid⟩, -, payload, hpayload⟩ :=
    (requiredExtensions_ok hdecoded).2 extensions hfound extension hmem
  refine necessary_optional hfound (necessary_item hmem ?_)
  obtain ⟨entries, rfl, -⟩ := mem_of_optional hneeds
  rw [necessary, requiredEnvelope, hid, hneeds, hpayload]
  simp [asText, asBool, hvalid]

/-- **A decoded node is marked where something in its record is necessary.** -/
theorem node_hasRequired {value : Value} {parent : String} {inOptions : Bool} {decoded : Node}
    (h : node value parent inOptions = .ok decoded) :
    decoded.hasRequired = true ↔ NecessaryNode value := by
  generalize hsize : value.size = size
  induction size using Nat.strong_induction_on generalizing value parent decoded with
  | _ size ih =>
    obtain ⟨fs, kind, tag, required, entries, attrs, children, nodes, -, hkind, -, hrequired, -, -,
        hchildren, hnodes,
      rfl⟩ := node_eq_ok.mp h
    have hinner : ∀ child ∈ children, child.size < size := fun child hc => by
      have := size_item hc
      have := size_optional hchildren
      omega
    have hpair : ∀ child ∈ children, ∃ n ∈ nodes, node child tag inOptions = .ok n := by
      intro child hc
      obtain ⟨i, hi, rfl⟩ := List.getElem_of_mem hc
      exact ⟨_, List.getElem_mem (hnodes.length_eq ▸ hi), hnodes.get hi (hnodes.length_eq ▸ hi)⟩
    have hpair' : ∀ n ∈ nodes, ∃ child ∈ children, node child tag inOptions = .ok n := by
      intro n hn
      obtain ⟨i, hi, rfl⟩ := List.getElem_of_mem hn
      exact ⟨_, List.getElem_mem (hnodes.length_eq ▸ hi), hnodes.get (hnodes.length_eq ▸ hi) hi⟩
    rw [Node.hasRequired_eq]
    simp only [Bool.or_eq_true, Bool.and_eq_true, List.any_eq_true, Option.isNone_iff_eq_none,
      decide_eq_true_eq, (requiredExtensions_ok hrequired).1]
    constructor
    · rintro ((hext | ⟨hname, h255⟩) | ⟨n, hn, hreq⟩)
      · exact .extension hext
      · exact .kind hkind hname h255
      · obtain ⟨child, hc, hnode⟩ := hpair' n hn
        exact .child hchildren hc ((ih _ (hinner child hc) hnode rfl).mp hreq)
    · rintro (hext | ⟨hkind', hname, h255⟩ | ⟨hchildren', hc, hnec⟩)
      · exact .inl (.inl hext)
      · rw [hkind, Option.some.injEq] at hkind'
        subst hkind'
        exact .inl (.inr ⟨hname, h255⟩)
      · rw [hchildren, Option.some.injEq, Value.array.injEq] at hchildren'
        subst hchildren'
        obtain ⟨n, hn, hnode⟩ := hpair _ hc
        exact .inr ⟨n, hn, (ih _ (hinner _ hc) hnode rfl).mpr hnec⟩

/-- **On a decoded node the fallback's search ends**, and together with the search for
envelopes it covers what is necessary. -/
theorem unknownNode_covers {value : Value} {parent : String} {inOptions : Bool} {decoded : Node}
    (h : node value parent inOptions = .ok decoded) :
    ∃ unknown, unknownNode value = .ok unknown ∧
      (NecessaryNode value → unknown = true ∨ necessary value = true) := by
  generalize hsize : value.size = size
  induction size using Nat.strong_induction_on generalizing value parent decoded with
  | _ size ih =>
    obtain ⟨fs, kind, tag, required, entries, attrs, children, nodes, -, hkind, -, hrequired, -, -,
        hchildren, hnodes,
      rfl⟩ := node_eq_ok.mp h
    have hinner : ∀ child ∈ children, ∃ unknown, unknownNode child = .ok unknown ∧
        (NecessaryNode child → unknown = true ∨ necessary child = true) := by
      intro child hc
      have hlt := size_item hc
      have hlt' := size_optional hchildren
      obtain ⟨i, hi, rfl⟩ := List.getElem_of_mem hc
      exact ih _ (by omega) (hnodes.get hi (hnodes.length_eq ▸ hi)) rfl
    obtain ⟨k, hk, hkind'⟩ := Option.bind_eq_some_iff.mp hkind
    obtain ⟨inner, hvalues, rfl⟩ := exists_childValues hchildren
    by_cases hunknown : (kindName kind).isNone && kind ≠ 255
    · refine ⟨true, ?_, fun _ => .inl rfl⟩
      rw [unknownNode]
      simp only [bind_eq_ok, field_eq_ok, uint_eq_ok]
      exact ⟨k, hk, kind, hkind', by rw [if_pos hunknown]; rfl⟩
    · obtain ⟨unknown, hany, hiff⟩ :=
        anyM_eq_ok (f := fun child : Inner value => unknownNode child.1) (l := inner) (by
        intro child hmem
        obtain ⟨b, hb, -⟩ := hinner child.1 (List.mem_map_of_mem hmem)
        exact ⟨b, hb⟩)
      refine ⟨unknown, ?_, ?_⟩
      · rw [unknownNode]
        simp only [bind_eq_ok, field_eq_ok, uint_eq_ok]
        refine ⟨k, hk, kind, hkind', ?_⟩
        rw [if_neg hunknown, bind_eq_ok]
        exact ⟨inner, hvalues, hany⟩
      · rintro (hext | ⟨hkind'', hname, h255⟩ | ⟨hchildren', hc, hnec⟩)
        · exact .inr (necessary_of_requiredExtension hrequired hext)
        · rw [hkind, Option.some.injEq] at hkind''
          subst hkind''
          exact absurd (by simp [hname, h255]) hunknown
        · rw [hchildren, Option.some.injEq, Value.array.injEq] at hchildren'
          subst hchildren'
          obtain ⟨b, hb, hcover⟩ := hinner _ hc
          obtain ⟨child, hmem, rfl⟩ := List.mem_map.mp hc
          rcases hcover hnec with rfl | hnecessary
          · exact .inl (hiff.mpr ⟨child, hmem, hb⟩)
          · exact .inr (necessary_optional hchildren (necessary_item hc hnecessary))

/-! ### The fallback -/

variable {c : Ciborium} {sha : Sha256}

/-- What validation has established of a value before it is returned. -/
theorem validate_ok {bytes : List UInt8} {root : Value} (h : validate c sha bytes = .ok root) :
    value c bytes = .ok root ∧ ∃ db, decodeValue c sha root false = .ok db ∧
      invalidReferenceProfiles db.profiles true = some [] := by
  simp only [validate, bind_eq_ok, reject_eq_ok, orError_eq_ok, Bool.not_eq_false',
    List.isEmpty_iff] at h
  obtain ⟨root', hvalue, db, hdb, -, -, _, hinvalid, -, rfl, -, -, options, -, -, -, profiles, -,
      entries, -, -, -, h⟩ := h
  cases h
  exact ⟨hvalue, db, hdb, hinvalid⟩

/-- Validated references leave no profile marked. -/
theorem profiles_unmarked {root : Value} {db : WireDatabase} (hdb : DecodedFrom root false db)
    (hinvalid : invalidReferenceProfiles db.profiles true = some []) :
    ∃ entries sources, optional root 6 = some (.map entries) ∧
      entries.foldlM (decodeProfile sources) ∅ = .ok db.profiles := by
  obtain ⟨entries, profiles, invalid, sources, hentries, hprofiles, hfree, hmarked⟩ := hdb.profiles
  obtain ⟨ids, hids, hiff⟩ := invalidReferenceProfiles_eq_some profiles false
  obtain ⟨ids', hids', hiff'⟩ := invalidReferenceProfiles_eq_some db.profiles true
  rw [hids, Option.some.injEq] at hfree
  rw [hids', Option.some.injEq] at hinvalid
  subst hfree hinvalid
  have hsame : SameChildren profiles db.profiles :=
    hmarked ▸ sameChildren_requireProfile ids profiles
  have hnil : ids = [] := by
    refine List.eq_nil_iff_forall_not_mem.mpr fun id hid => ?_
    obtain ⟨hmem, hunresolvable⟩ := (hiff id).mp hid
    exact List.not_mem_nil ((hiff' id).mpr ⟨hsame.mem hmem, (hsame.unresolvable hunresolvable).bounded⟩)
  subst hnil
  exact ⟨entries, sources, hentries, hmarked ▸ hprofiles⟩

/-- A node no part of which is necessary has no mark anywhere. -/
theorem within_unmarked {value : Value} {parent : String} {inOptions : Bool} {decoded n : Node}
    (h : node value parent inOptions = .ok decoded) (hnec : ¬NecessaryNode value)
    (hn : n.Within decoded) :
    n.required = false := by
  rw [← Bool.not_eq_true]
  intro hreq
  exact hnec ((node_hasRequired h).mp (Node.hasRequired_iff.mpr ⟨n, hn, hreq⟩))

/-- **XML fallback is authorised only when nothing necessary is lost.** For a validated
database the answer is a value. Where it is not `false`, it is field 8, the consumer
decodes the database, and no node of the options or of a profile is marked required.
Wherever a required extension or an unassigned kind occurs, it is `false`. -/
theorem fallbackManifest_sound {bytes : List UInt8} {root : Value} (h : validate c sha bytes = .ok root) :
    ∃ answer, fallbackManifest root = .ok answer ∧
      (answer ≠ .bool false → field root 8 = .ok answer ∧ ∃ db, decode c sha bytes = .ok db ∧
        (∀ n : Node, n.Within db.options → n.required = false) ∧
        ∀ (id : String) profile, db.profiles[id]? = some profile → ∀ n : Node, n.Within profile → n.required = false) ∧
      (NecessaryDatabase root → answer = .bool false) := by
  obtain ⟨hvalue, db, hdb, hinvalid⟩ := validate_ok h
  have hfrom := decodeValue_ok hdb
  obtain ⟨required, hrequired, -⟩ := hfrom.extensions
  obtain ⟨options, hoptions, hnode⟩ := hfrom.options
  obtain ⟨sources, hsources⟩ := hfrom.manifest
  obtain ⟨entries, table, hentries, hprofiles⟩ := profiles_unmarked hfrom hinvalid
  obtain ⟨hrecords, hdecoded⟩ := decodeProfiles_ok hprofiles
  by_cases hnecessary : necessary root = true
  · exact ⟨.bool false, by rw [fallbackManifest, if_pos hnecessary],
      fun hne => absurd rfl hne, fun _ => rfl⟩
  have hroot : ¬RequiredExtension root 7 := fun hext =>
    hnecessary (necessary_of_requiredExtension hrequired hext)
  obtain ⟨unknown, hunknown, hcover⟩ := unknownNode_covers hnode
  obtain ⟨unknown', hunknown', hcover'⟩ :=
    anyM_eq_ok (f := fun entry : Value × Value => unknownNode entry.2)
    (l := entries) (by
      intro entry hmem
      obtain ⟨profile, hprofile⟩ := hdecoded entry hmem
      obtain ⟨b, hb, -⟩ := unknownNode_covers hprofile
      exact ⟨b, hb⟩)
  have hsearch : fallbackManifest root =
      if unknown then .ok (.bool false) else if unknown' then .ok (.bool false) else .ok sources := by
    rw [fallbackManifest, if_neg hnecessary, field_eq_ok.mpr hoptions]
    show (unknownNode options >>= _) = _
    rw [hunknown]
    cases unknown with
    | true => rfl
    | false =>
      show (field root 6 >>= _) = _
      rw [field_eq_ok.mpr hentries]
      show (entries.anyM (fun entry => unknownNode entry.2) >>= _) = _
      rw [hunknown']
      cases unknown' with
      | true => rfl
      | false => exact field_eq_ok.mpr hsources
  cases hfound : unknown || unknown' with
  | true =>
    refine ⟨.bool false, ?_, fun hne => absurd rfl hne, fun _ => rfl⟩
    rw [hsearch]
    cases unknown <;> simp_all
  | false =>
    rw [Bool.or_eq_false_iff] at hfound
    obtain ⟨rfl, rfl⟩ := hfound
    have hnec_options : ¬NecessaryNode options := by
      intro hnec
      rcases hcover hnec with hb | hb
      · cases hb
      · exact hnecessary (necessary_optional hoptions hb)
    have hnec_profile : ∀ entry ∈ entries, ¬NecessaryNode entry.2 := by
      intro entry hmem hnec
      obtain ⟨profile, hprofile⟩ := hdecoded entry hmem
      obtain ⟨b, hb, hcover''⟩ := unknownNode_covers hprofile
      rcases hcover'' hnec with rfl | hb'
      · exact absurd (hcover'.mpr ⟨entry, hmem, hb⟩) (by decide)
      · exact hnecessary (necessary_optional hentries (necessary_entry hmem hb'))
    refine ⟨sources, by rw [hsearch]; rfl, fun _ => ⟨field_eq_ok.mpr hsources, db, ?_, ?_, ?_⟩, ?_⟩
    · have hfalse : required = false := by
        rw [← Bool.not_eq_true]
        exact fun htrue => hroot ((requiredExtensions_ok hrequired).1.mp htrue)
      rw [decode, hvalue]
      show decodeValue c sha root true = _
      rw [decodeValue_consumer (hfalse ▸ hrequired), hdb]
    · exact fun n hn => within_unmarked hnode hnec_options hn
    · intro id profile hprofile n hn
      obtain ⟨-, -, entry, hmem, hdec⟩ := hrecords id profile hprofile
      exact within_unmarked hdec (hnec_profile entry hmem) hn
    · rintro (hext | ⟨options', hoptions', hnec⟩ | ⟨entries', hentries', entry, hmem, hnec⟩)
      · exact absurd hext hroot
      · rw [hoptions, Option.some.injEq] at hoptions'
        exact absurd (hoptions' ▸ hnec) hnec_options
      · rw [hentries, Option.some.injEq, Value.map.injEq] at hentries'
        exact absurd hnec (hnec_profile entry (hentries' ▸ hmem))

/-- SHA-256. -/
def sha256 : Sha256 := ⟨Sha2.digest, Sha2.length_digest⟩

/-- A record by its fields. -/
def record (entries : List (UInt64 × Value)) : Value := .map (entries.map fun (key, value) => (.unsigned key, value))

/-- A database with one profile. -/
def sampleRoot : Value :=
  record [(0, .bytes (utf8 "DDCDB")), (1, .unsigned 1), (2, .text "r1"), (3, .unsigned 3), (4, .text "ddccontrol-db"),
    (5, record [(0, .unsigned 0), (1, record [(12, .unsigned 3), (13, .text "2026")]), (2, .array [])]),
    (6, .map [(.text "TST0001", record [(0, .unsigned 5), (1, record [(0, .text "Test")]), (2, .array [])])]),
    (8, .map [(.text "options.xml", .bytes (List.replicate 32 1)),
      (.text "monitor/TST0001.xml", .bytes (List.replicate 32 2))]),
    -- the digest of the encoded manifest
    (9, .bytes [0x89, 0x17, 0xc8, 0x45, 0x3d, 0xff, 0x12, 0x37, 0x89, 0x79, 0xae, 0xac, 0x0c, 0xd7, 0xab, 0x25, 0x79, 0x9a,
      0x0a, 0xf3, 0xa2, 0xc7, 0x7a, 0xc7, 0xc3, 0x71, 0xef, 0x26, 0x4b, 0x4d, 0x4a, 0x34])]

/-- The sample is validated, and its sources may stand in for it. -/
theorem sampleRoot_fallback :
    ∃ root, validate Ciborium.reference sha256 sampleRoot.encode = .ok root ∧
      ∃ answer, fallbackManifest root = .ok answer ∧
        (answer ≠ .bool false → field root 8 = .ok answer ∧
          ∃ db, decode Ciborium.reference sha256 sampleRoot.encode = .ok db ∧
            (∀ n : Node, n.Within db.options → n.required = false) ∧
            ∀ (id : String) profile, db.profiles[id]? = some profile →
              ∀ n : Node, n.Within profile → n.required = false) ∧
        (NecessaryDatabase root → answer = .bool false) := by
  have hvalid : (validate Ciborium.reference sha256 sampleRoot.encode).isOk = true := by decide +kernel
  cases hroot : validate Ciborium.reference sha256 sampleRoot.encode with
  | error e =>
    rw [hroot] at hvalid
    cases hvalid
  | ok root => exact ⟨root, rfl, fallbackManifest_sound hroot⟩

end DdcControl.Wire
