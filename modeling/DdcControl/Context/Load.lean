import DdcControl.Context.Xml
import DdcControl.Database.Allocation
import DdcControl.Wire.Validate

/-!
# Loading a context

`ddcci_init_db` makes the session's context of what it finds in a data directory: the
CBOR database if there is one, else the XML sources, which a snapshot file may pin or
forbid.

## The model

`DataDir` is what reading the directory returns. The XML sources are read twice, and a
load fails where the two reads differ; here they agree.

## What is proved

* `decode_nulFree` — the attributes of a decoded database have no NUL character: texts
  are checked, and integers are written in decimal.
* `loadContext_nulFree` — so no text of a loaded context has one.
-/

namespace DdcControl.Context

open Fallible Database Wire Cbor

/-- What reading a data directory returns: the database, the snapshot manifest, and the
XML sources by their paths, `options.xml` among them. -/
structure DataDir where
  cbor : Except String (Option (List UInt8))
  snapshot : Except String (Option (List UInt8))
  files : Except String (Std.TreeMap String (List UInt8))

/-- The `filter_map` of `load_context` over the sources. -/
def xmlProfile (x : XmlReader) (profiles : Std.TreeMap String (Except String Node)) (source : String × List UInt8) :
    Std.TreeMap String (Except String Node) :=
  match stripEnds "monitor/" ".xml" source.1 with
  | some id => profiles.insert id (parseXml x source.2)
  | none => profiles

/-- The context `load_context` makes of a database. -/
def cborContext (database : WireDatabase) : Except String DbContext := do
  let options ← loadOptionsNode database.options
  return ⟨database.profiles.map fun _ node => .ok node, options, none⟩

/-- The context `load_context` makes of the XML sources. -/
def xmlContext (x : XmlReader) (files : Std.TreeMap String (List UInt8)) : Except String DbContext := do
  let source ← orError files["options.xml"]? "no entry found for key"
  let root ← parseXml x source
  let options ← loadOptionsNode root
  return ⟨files.toList.foldl (xmlProfile x) ∅, options, none⟩

/-- The sources are those a snapshot file pins, if there is one. -/
def checkSnapshot (c : Ciborium) (sha : Sha256) (snapshot : Option (List UInt8))
    (files : Std.TreeMap String (List UInt8)) : Except String Unit :=
  match snapshot with
  | some snapshot => verifyManifest c sha snapshot files
  | none => .ok ()

/-- `load_context`. -/
def loadContext (c : Ciborium) (sha : Sha256) (x : XmlReader) (dir : DataDir) : Except String DbContext := do
  let cbor ← dir.cbor
  match cbor with
  | some bytes => do
    let database ← (decode c sha bytes).mapError fun error =>
      "Invalid or unsupported CBOR database: " ++ error ++ "; XML fallback is disabled for present CBOR."
    cborContext database
  | none => do
    let snapshot ← dir.snapshot
    let files ← dir.files
    checkSnapshot c sha snapshot files
    xmlContext x files

/-! ### A decoded database has no NUL -/

/-- The decimal text of an integer has no NUL character. -/
theorem nulFree_toString (n : ℤ) : NulFree (toString n) := by
  have hdigits : ∀ m, '\x00' ∉ Nat.toDigits 10 m := fun m hmem => by
    have := isDigit_of_mem_toDigits hmem
    contradiction
  cases n with
  | ofNat m =>
    rw [NulFree, Int.ofNat_eq_natCast, toList_repr_ofNat]
    exact hdigits m
  | negSucc m =>
    rw [NulFree, toList_repr_neg, List.mem_cons, not_or]
    exact ⟨by decide, hdigits (m + 1)⟩

theorem attributeText_nulFree {id : ℕ} {value : Value} {s : String}
    (h : attributeText id value = .ok s) : NulFree s := by
  unfold attributeText at h
  split at h
  · obtain ⟨number, -, h⟩ := bind_eq_ok.mp h
    obtain ⟨-, -, h⟩ := bind_eq_ok.mp h
    cases h
    exact nulFree_toString number
  · obtain ⟨string, -, h⟩ := bind_eq_ok.mp h
    obtain ⟨_, hnul, h⟩ := bind_eq_ok.mp h
    cases h
    simpa [NulFree] using reject_eq_ok.mp hnul

theorem decodeAttributes_nulFree {tag parent : String} {allowed : List ℕ}
    {entries : List (Value × Value)} {attrs : Std.TreeMap String String}
    (h : entries.foldlM (decodeAttribute tag parent allowed) ∅ = .ok attrs) :
    ∀ (name : String) (s : String), attrs[name]? = some s → NulFree s := by
  refine foldlM_preserves (P := fun attrs : Std.TreeMap String String =>
    ∀ (name : String) (s : String), attrs[name]? = some s → NulFree s) ?_ (b := ∅) (by simp) h
  intro entry _ attrs attrs' hattrs hstep name s hs
  obtain ⟨id, -, hstep⟩ := bind_eq_ok.mp hstep
  split at hstep
  · obtain ⟨-, -, hstep⟩ := bind_eq_ok.mp hstep
    cases hstep
    exact hattrs name s hs
  · obtain ⟨-, -, hstep⟩ := bind_eq_ok.mp hstep
    obtain ⟨text, htext, hstep⟩ := bind_eq_ok.mp hstep
    cases hstep
    rw [Std.TreeMap.getElem?_insert] at hs
    split_ifs at hs
    · cases hs
      exact attributeText_nulFree htext
    · exact hattrs name s hs

/-- No attribute of a decoded record has a NUL character. -/
theorem node_nulFree {value : Value} {parent : String} {inOptions : Bool} {decoded : Node}
    (h : node value parent inOptions = .ok decoded) : NulFreeNode decoded := by
  induction hsize : value.size using Nat.strong_induction_on generalizing value parent decoded with
  | _ size ih =>
    obtain ⟨_, kind, tag, required, entries, attrs, children, nodes, -, -, -, -, -, hattrs,
        hchildren, hnodes, rfl⟩ :=
      node_eq_ok.mp h
    refine nulFreeNode_iff.mpr ⟨decodeAttributes_nulFree hattrs, fun child hc => ?_⟩
    obtain ⟨record, hrecord, hchild⟩ := exists_of_forall₂ hnodes.flip hc
    exact ih record.size (hsize ▸ (size_item hrecord).trans (size_optional hchildren)) hchild rfl

/-- **A decoded database has no NUL character in its attributes.** -/
theorem decode_nulFree {c : Ciborium} {sha : Sha256} {bytes : List UInt8} {database : WireDatabase}
    (h : decode c sha bytes = .ok database) :
    NulFreeNode database.options ∧
      ∀ (id : String) profile, database.profiles[id]? = some profile → NulFreeNode profile := by
  obtain ⟨root, -, h⟩ := bind_eq_ok.mp h
  have hfrom := decodeValue_ok h
  obtain ⟨_, -, hoptions⟩ := hfrom.options
  obtain ⟨entries, profiles, invalid, sources, -, hprofiles, -, hmarked⟩ := hfrom.profiles
  refine ⟨node_nulFree hoptions, ?_⟩
  rw [hmarked]
  have hplain : ∀ (id : String) profile, profiles[id]? = some profile → NulFreeNode profile :=
    fun id profile hid => by
    obtain ⟨-, -, _, -, hnode⟩ := (decodeProfiles_ok hprofiles).1 id profile hid
    exact node_nulFree hnode
  clear hmarked hprofiles
  induction invalid generalizing profiles with
  | nil => exact hplain
  | cons id ids ih =>
    refine ih _ fun id' profile hid => ?_
    rw [requireProfile, Std.TreeMap.getElem?_modify] at hid
    split_ifs at hid
    · obtain ⟨profile', hprofile', rfl⟩ := Option.map_eq_some_iff.mp hid
      exact (hplain _ _ hprofile').mark
    · exact hplain _ _ hid

/-! ### So has a context -/

theorem cborContext_nulFree {database : WireDatabase} (hoptions : NulFreeNode database.options)
    (hprofiles : ∀ (id : String) profile, database.profiles[id]? = some profile → NulFreeNode profile)
    {context : DbContext} (h : cborContext database = .ok context) : NulFreeContext context := by
  obtain ⟨options, hload, h⟩ := bind_eq_ok.mp h
  cases h
  refine ⟨fun s hs => (loadOptionsNode_texts hload s hs).nulFree hoptions, fun id root hid => ?_,
    fun _ h => nomatch h⟩
  rw [Std.TreeMap.getElem?_map] at hid
  obtain ⟨profile, hprofile, heq⟩ := Option.map_eq_some_iff.mp hid
  cases heq
  exact hprofiles id root hprofile

theorem xmlContext_nulFree {x : XmlReader} {files : Std.TreeMap String (List UInt8)}
    {context : DbContext} (h : xmlContext x files = .ok context) : NulFreeContext context := by
  obtain ⟨source, -, h⟩ := bind_eq_ok.mp h
  obtain ⟨root, hroot, h⟩ := bind_eq_ok.mp h
  obtain ⟨options, hload, h⟩ := bind_eq_ok.mp h
  cases h
  refine ⟨fun s hs => (loadOptionsNode_texts hload s hs).nulFree (parseXml_nulFree hroot), ?_,
    fun _ h => nomatch h⟩
  show ∀ (id : String) root, (files.toList.foldl (xmlProfile x) ∅)[id]? = some (.ok root) → NulFreeNode root
  refine List.foldlRecOn (motive := fun profiles : Std.TreeMap String (Except String Node) =>
    ∀ (id : String) root, profiles[id]? = some (.ok root) → NulFreeNode root) _ _ ?_ ?_
  · intro id root hid
    rw [Std.TreeMap.getElem?_emptyc] at hid
    cases hid
  intro profiles hprofiles source _ id root hid
  unfold xmlProfile at hid
  split at hid
  · rw [Std.TreeMap.getElem?_insert] at hid
    split_ifs at hid
    · exact parseXml_nulFree (Option.some.inj hid)
    · exact hprofiles id root hid
  · exact hprofiles id root hid

/-- **A loaded context has no NUL character in its texts.** -/
theorem loadContext_nulFree {c : Ciborium} {sha : Sha256} {x : XmlReader} {dir : DataDir}
    {context : DbContext} (h : loadContext c sha x dir = .ok context) : NulFreeContext context := by
  obtain ⟨cbor, -, h⟩ := bind_eq_ok.mp h
  split at h
  · rename_i bytes
    obtain ⟨database, hdecode, h⟩ := bind_eq_ok.mp h
    cases hdb : decode c sha bytes with
    | error e => rw [hdb] at hdecode; cases hdecode
    | ok database' =>
      rw [hdb] at hdecode
      cases hdecode
      exact cborContext_nulFree (decode_nulFree hdb).1 (decode_nulFree hdb).2 h
  · obtain ⟨_, -, h⟩ := bind_eq_ok.mp h
    obtain ⟨files, -, h⟩ := bind_eq_ok.mp h
    obtain ⟨_, -, h⟩ := bind_eq_ok.mp h
    exact xmlContext_nulFree h

end DdcControl.Context
