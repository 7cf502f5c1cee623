import DdcControl.Context.MonitorFile
import DdcControl.Dbgen.Preservation
import DdcControl.Dbgen.Records
import DdcControl.Wire.Manifest

/-!
# XML and CBOR databases mean the same

A converted database is decoded into a context that agrees with the one the loader makes
of the XML sources, so every load has one outcome over both. The loader limits the text
of an attribute, and the converter the text it writes, so a number written in a longer
text is converted but not loaded from XML (`longVersion_differs`): the sources are taken
to have none.

## What is proved

`convert_preserves` — a conversion that succeeds is decoded, and loads over the decoded
context and over the XML context have one outcome.
-/

namespace DdcControl.Dbgen

open Cbor Fallible Database Wire Context Capabilities

variable {c : Ciborium} {sha : Sha256} {x : XmlReader} {s : SourceReader x}

/-! ### Profiles -/

/-- The converter writes a record for each source but the options. -/
theorem convertProfiles_ok {files : List (String × List UInt8)} {profiles : List (Value × Value)}
    (h : files.foldlM (convertProfile s) [] = .ok profiles) :
    (∀ e ∈ profiles, ∃ source ∈ files, ∃ id record, stripEnds "monitor/" ".xml" source.1 = some id ∧
        parseSource s source.2 "monitor" = .ok record ∧ e = (.text id, record)) ∧
      ∀ source ∈ files, ∀ id, stripEnds "monitor/" ".xml" source.1 = some id →
        ∃ record, parseSource s source.2 "monitor" = .ok record ∧ (.text id, record) ∈ profiles := by
  refine foldlM_history (P := fun done profiles => (∀ e ∈ profiles, ∃ source ∈ done, ∃ id record,
      stripEnds "monitor/" ".xml" source.1 = some id ∧
      parseSource s source.2 "monitor" = .ok record ∧
        e = (.text id, record)) ∧ ∀ source ∈ done, ∀ id, stripEnds "monitor/" ".xml" source.1 = some id →
        ∃ record, parseSource s source.2 "monitor" = .ok record ∧ (.text id, record) ∈ profiles)
    (fun done source profiles profiles' hP hstep => ?_) (by simp) h
  obtain ⟨hfrom, hto⟩ := hP
  unfold convertProfile at hstep
  split_ifs at hstep with hoptions
  · cases hstep
    refine ⟨fun e he => ?_, fun source' hsource' id hid => ?_⟩
    · obtain ⟨source', hsource', h⟩ := hfrom e he
      exact ⟨source', List.mem_append_left _ hsource', h⟩
    · rcases List.mem_append.mp hsource' with hsource' | hsource'
      · exact hto source' hsource' id hid
      · rw [List.mem_singleton.mp hsource', hoptions,
          show stripEnds "monitor/" ".xml" "options.xml" = none by decide] at hid
        cases hid
  · simp only [bind_eq_ok, orError_eq_ok] at hstep
    obtain ⟨id, hid, record, hrecord, hstep⟩ := hstep
    cases hstep
    have hparse : parseSource s source.2 "monitor" = .ok record := mapError_eq_ok.mp hrecord
    refine ⟨fun e he => ?_, fun source' hsource' id' hid' => ?_⟩
    · rcases List.mem_append.mp he with he | he
      · obtain ⟨source', hsource', h⟩ := hfrom e he
        exact ⟨source', List.mem_append_left _ hsource', h⟩
      · exact ⟨source, by simp, id, record, hid, hparse, List.mem_singleton.mp he⟩
    · rcases List.mem_append.mp hsource' with hsource' | hsource'
      · obtain ⟨record', hrecord', hmem⟩ := hto source' hsource' id' hid'
        exact ⟨record', hrecord', List.mem_append_left _ hmem⟩
      · rw [List.mem_singleton.mp hsource'] at hid' ⊢
        rw [hid, Option.some.injEq] at hid'
        exact ⟨record, hparse, by simp [hid']⟩

/-- The decoder keeps each profile under its id. -/
theorem decodeProfiles_lookup {sources : Std.TreeMap String (List UInt8)}
    {entries : List (Value × Value)} {profiles : Profiles}
    (h : entries.foldlM (decodeProfile sources) ∅ = .ok profiles) :
    (∀ (id : String) p, profiles[id]? = some p → ∃ v, (.text id, v) ∈ entries ∧ node v "" false = .ok p) ∧
      ∀ (id : String) v, (.text id, v) ∈ entries → ∃ p, profiles[id]? = some p := by
  refine foldlM_history (P := fun done (profiles : Profiles) =>
    (∀ (id : String) p, profiles[id]? = some p → ∃ v, (.text id, v) ∈ done ∧ node v "" false = .ok p) ∧
      ∀ (id : String) v, (.text id, v) ∈ done → ∃ p, profiles[id]? = some p) (b := ∅) ?_ (by simp) h
  rintro done ⟨key, v⟩ profiles profiles' ⟨hfrom, hto⟩ hstep
  simp only [decodeProfile, bind_eq_ok, text_eq_ok] at hstep
  obtain ⟨id, rfl, _, -, p, hp, _, -, _, -, hstep⟩ := hstep
  cases hstep
  refine ⟨fun id' p' hp' => ?_, fun id' v' hmem => ?_⟩
  · rw [Std.TreeMap.getElem?_insert] at hp'
    split_ifs at hp' with heq
    · cases hp'
      obtain rfl := Std.LawfulEqCmp.eq_of_compare heq
      exact ⟨v, by simp, hp⟩
    · obtain ⟨v', hmem, hv'⟩ := hfrom id' p' hp'
      exact ⟨v', List.mem_append_left _ hmem, hv'⟩
  · rw [Std.TreeMap.getElem?_insert]
    split_ifs with heq
    · exact ⟨_, rfl⟩
    · rcases List.mem_append.mp hmem with hmem | hmem
      · exact hto id' v' hmem
      · cases List.mem_singleton.mp hmem
        exact absurd Std.ReflCmp.compare_self heq

/-- The loader keeps each profile under its id. -/
theorem xmlProfiles_lookup (x : XmlReader) (files : List (String × List UInt8)) :
    (∀ (id : String) r, (files.foldl (xmlProfile x) ∅)[id]? = some r →
        ∃ source ∈ files, stripEnds "monitor/" ".xml" source.1 = some id ∧ r = parseXml x source.2) ∧
      ∀ source ∈ files, ∀ id, stripEnds "monitor/" ".xml" source.1 = some id →
        ∃ r, (files.foldl (xmlProfile x) ∅)[id]? = some r := by
  induction files using List.reverseRecOn with
  | nil => simp
  | append_singleton files source ih =>
    obtain ⟨hfrom, hto⟩ := ih
    rw [List.foldl_append, List.foldl_cons, List.foldl_nil, xmlProfile]
    cases hid : stripEnds "monitor/" ".xml" source.1 with
    | none =>
      refine ⟨fun id r hr => ?_, fun source' hsource' id hid' => ?_⟩
      · obtain ⟨source', hsource', h⟩ := hfrom id r hr
        exact ⟨source', List.mem_append_left _ hsource', h⟩
      · rcases List.mem_append.mp hsource' with hsource' | hsource'
        · exact hto source' hsource' id hid'
        · rw [List.mem_singleton.mp hsource', hid] at hid'
          cases hid'
    | some id =>
      refine ⟨fun id' r hr => ?_, fun source' hsource' id' hid' => ?_⟩
      · rw [Std.TreeMap.getElem?_insert] at hr
        split_ifs at hr with heq
        · cases hr
          obtain rfl := Std.LawfulEqCmp.eq_of_compare heq
          exact ⟨source, by simp, hid, rfl⟩
        · obtain ⟨source', hsource', h⟩ := hfrom id' r hr
          exact ⟨source', List.mem_append_left _ hsource', h⟩
      · rw [Std.TreeMap.getElem?_insert]
        split_ifs with heq
        · exact ⟨_, rfl⟩
        · rcases List.mem_append.mp hsource' with hsource' | hsource'
          · exact hto source' hsource' id' hid'
          · rw [List.mem_singleton.mp hsource', hid, Option.some.injEq] at hid'
            exact absurd (by rw [hid']; exact Std.ReflCmp.compare_self) heq

/-! ### Documents -/

/-- What the converter reads from the bytes of a document, the loader reads too. -/
theorem parseSource_loaded {bytes : List UInt8} {expected : String} {record : Value} {room : ℕ}
    (h : parseSource s bytes expected = .ok record) (hfits : Fits room record)
    (hsize : record.size ≤ maxItems)
    (hshort : ∀ tree, s.document bytes = .ok tree → ShortNumbers tree) {m : Node}
    (hnode : node (sortMaps record) "" (expected = "options") = .ok m) :
    ∃ n, parseXml x bytes = .ok n ∧ n.tag = expected ∧ Agrees (expected = "options") "" true n m := by
  obtain ⟨tree, htree, h⟩ := bind_eq_ok.mp h
  obtain ⟨_, htag, hsource⟩ := bind_eq_ok.mp h
  obtain ⟨n, count, howned, -⟩ := owned_ok (hshort tree htree) "" _ true [] 0 record room 0 hsource hfits
    (by rw [Nat.zero_add]; exact hsize)
  have hconverted : Converted (expected = "options") "" true n m :=
    ⟨tree, [], 0, record, room, hsource, hfits, ⟨0, 0, count, howned⟩, hnode⟩
  refine ⟨n, ?_, ?_, hconverted.agrees⟩
  · simp only [parseXml, s.faithful bytes tree htree, bind_eq_ok]
    exact ⟨tree, rfl, (n, count), howned, rfl⟩
  · rw [reject_eq_ok, decide_eq_false_iff_not, not_not] at htag
    cases tree with
    | element tag attrs children row =>
      rw [owned] at howned
      obtain ⟨_, -, howned⟩ := bind_eq_ok.mp howned
      obtain ⟨_, -, howned⟩ := bind_eq_ok.mp howned
      obtain ⟨⟨_, _⟩, -, howned⟩ := bind_eq_ok.mp howned
      cases howned
      exact Option.some.inj htag
    | text => cases htag
    | other => cases htag

/-! ### Databases -/

/-- No source has a number written longer than the loader lets an attribute be. -/
def ShortSources (s : SourceReader x) (files : SourceFiles) : Prop :=
  ∀ (path : String) bytes, files[path]? = some bytes → ∀ tree, s.document bytes = .ok tree → ShortNumbers tree

/-- A conversion that succeeds: what it read, and the database it made of it, which is
returned with every map sorted, as it was encoded and validated. -/
structure Conversion (c : Ciborium) (sha : Sha256) (s : SourceReader x) (dir : SourceDir) (root : Value) where
  files : SourceFiles
  source : List UInt8
  options : Value
  profiles : List (Value × Value)
  revision : String
  snapshot : List UInt8
  wire : List UInt8
  read : sources dir = .ok files
  found : files["options.xml"]? = some source
  parsed : parseSource s source "options" = .ok options
  converted : files.toList.foldlM (convertProfile s) [] = .ok profiles
  fits : Fits 0 (database revision options profiles (sourceManifest sha files) snapshot)
  size : (database revision options profiles (sourceManifest sha files) snapshot).size ≤ maxItems
  sorted : root = sortMaps (database revision options profiles (sourceManifest sha files) snapshot)
  encoded : encode c root = .ok wire
  valid : validate c sha wire = .ok root

theorem convert_ok {dir : SourceDir} {revision : Option String} {root : Value}
    (h : convert c sha s dir revision = .ok root) : Nonempty (Conversion c sha s dir root) := by
  simp only [convert, bind_eq_ok, orError_eq_ok] at h
  obtain ⟨files, hfiles, source, hsource, options, hoptions, revision', -, profiles, hprofiles,
      snapshot, -, wire, hwire,
    hvalid⟩ := h
  have hparse : parseSource s source "options" = .ok options := mapError_eq_ok.mp hoptions
  obtain ⟨hfits, hsize, hfile, hbytes⟩ := encode_eq_ok.mp hwire
  have hvalue : value c wire =
      .ok (sortMaps (database revision' options profiles (sourceManifest sha files) snapshot)) := by
    rw [hbytes]
    exact value_encode hfits.sortMaps (by rwa [size_sortMaps]) (hbytes ▸ hfile)
  have hroot : root = sortMaps (database revision' options profiles (sourceManifest sha files) snapshot) := by
    rw [(validate_ok hvalid).1] at hvalue
    exact Except.ok.inj hvalue
  have hencode : encode c root = .ok wire := by
    rw [encode_eq_ok, hroot, size_sortMaps, sortMaps_eq_self hfits.sortMaps]
    exact ⟨hfits.sortMaps.fits, hsize, hfile, hbytes⟩
  exact ⟨⟨files, source, options, profiles, revision', snapshot, wire, hfiles, hsource, hparse,
    hprofiles, hfits, hsize,
    hroot, hencode, hvalid⟩⟩

section Conversion

variable {dir : SourceDir} {root : Value} (v : Conversion c sha s dir root)

theorem Conversion.optional (key : ℕ) :
    Wire.optional root key = (Wire.optional (database v.revision v.options v.profiles
    (sourceManifest sha v.files) v.snapshot) key).map sortMaps :=
  (congrArg (Wire.optional · key) v.sorted).trans (optional_sortMaps v.fits key)

/-- The decoded database is made of the converted records. -/
theorem Conversion.decoded : ∃ db entries, Wire.decode c sha v.wire = .ok db ∧
    node (sortMaps v.options) "" true = .ok db.options ∧
      (sortBy keyLe (sortEntries v.profiles)).foldlM (decodeProfile entries) ∅ = .ok db.profiles := by
  obtain ⟨hvalue, db, hdb, hinvalid⟩ := validate_ok v.valid
  have hfrom := decodeValue_ok hdb
  obtain ⟨options, hoptions, hnode⟩ := hfrom.options
  obtain ⟨profiles, entries, hprofiles, hfold⟩ := profiles_unmarked hfrom hinvalid
  rw [v.optional 5] at hoptions
  rw [v.optional 6] at hprofiles
  cases hoptions
  cases hprofiles
  refine ⟨db, entries, ?_, hnode, hfold⟩
  have hextensions : requiredExtensions root 7 = .ok false := by
    rw [requiredExtensions, v.optional 7]
    rfl
  rw [Wire.decode, hvalue]
  show decodeValue c sha root true = _
  rw [decodeValue_consumer hextensions, hdb]

/-- The converted options and profiles are within the limits. -/
theorem Conversion.fits_options : Fits 1 v.options ∧ v.options.size ≤ maxItems := by
  have h : Wire.optional (database v.revision v.options v.profiles (sourceManifest sha v.files) v.snapshot) 5 =
      some v.options := rfl
  exact ⟨fits_optional v.fits h, (size_optional h).le.trans v.size⟩

theorem Conversion.fits_profile {entry : Value × Value} (hentry : entry ∈ v.profiles) :
    Fits 2 entry.2 ∧ entry.2.size ≤ maxItems := by
  have h : Wire.optional (database v.revision v.options v.profiles (sourceManifest sha v.files) v.snapshot) 6 =
      some (.map v.profiles) := rfl
  exact ⟨(accepted_map_iff.mp (fits_optional v.fits h)).2.2.2.2.1 _ hentry,
    ((size_entry hentry).trans (size_optional h)).le.trans v.size⟩

variable (hshort : ShortSources s v.files) {db : WireDatabase}
include hshort

/-- A converted profile is decoded as the loader reads its source. -/
theorem Conversion.profiles_agree {entries : Std.TreeMap String (List UInt8)}
    (hfold : (sortBy keyLe (sortEntries v.profiles)).foldlM (decodeProfile entries) ∅ =
      .ok db.profiles) (id : String) :
    Option.Rel (fun r r' : Except String Node => ∃ n m, r = .ok n ∧ r' = .ok m ∧ Agrees false "" true n m ∧
        n.tag = "monitor")
      (v.files.toList.foldl (xmlProfile x) ∅)[id]? (db.profiles.map fun _ node => Except.ok node)[id]? := by
  obtain ⟨hfrom, hto⟩ := convertProfiles_ok v.converted
  obtain ⟨hdecoded, hkept⟩ := decodeProfiles_lookup hfold
  obtain ⟨hloaded, hheld⟩ := xmlProfiles_lookup x v.files.toList
  -- the records the decoder reads are the converted ones, sorted
  have hmem : ∀ {id : String} {w}, (.text id, w) ∈ sortBy keyLe (sortEntries v.profiles) ↔
      ∃ record, (.text id, record) ∈ v.profiles ∧ w = sortMaps record := by
    intro id w
    rw [(sortBy_perm ..).mem_iff, sortEntries_eq, List.mem_map]
    constructor
    · rintro ⟨⟨k, record⟩, hrecord, heq⟩
      obtain ⟨source, -, id', record', -, -, he⟩ := hfrom _ hrecord
      cases he
      cases heq
      exact ⟨record, hrecord, rfl⟩
    · rintro ⟨record, hrecord, rfl⟩
      exact ⟨_, hrecord, rfl⟩
  rw [Std.TreeMap.getElem?_map]
  cases hx : (v.files.toList.foldl (xmlProfile x) ∅)[id]? with
  | none =>
    cases hy : db.profiles[id]? with
    | none => exact .none
    | some m =>
      obtain ⟨w, hw, -⟩ := hdecoded id m hy
      obtain ⟨record, hrecord, -⟩ := hmem.mp hw
      obtain ⟨source, hsource, id', record', hid', -, he⟩ := hfrom _ hrecord
      cases he
      obtain ⟨r, hr⟩ := hheld source hsource id hid'
      rw [hx] at hr
      cases hr
  | some r =>
    obtain ⟨source, hsource, hid, rfl⟩ := hloaded id r hx
    obtain ⟨record, -, hrecord⟩ := hto source hsource id hid
    obtain ⟨m, hm⟩ := hkept id _ (hmem.mpr ⟨record, hrecord, rfl⟩)
    rw [hm]
    obtain ⟨w, hw, hnode⟩ := hdecoded id m hm
    obtain ⟨record, hrecord, rfl⟩ := hmem.mp hw
    obtain ⟨⟨path, bytes⟩, hsource', id', record', hid', hparse, he⟩ := hfrom _ hrecord
    cases he
    -- two sources of one id are one source
    obtain rfl : source = (path, bytes) := by
      have hpath : source.1 = path := (stripEnds_eq_some.mp hid).trans (stripEnds_eq_some.mp hid').symm
      obtain ⟨path', bytes'⟩ := source
      cases hpath
      have hl := Std.TreeMap.mem_toList_iff_getElem?_eq_some.mp hsource
      have hr := Std.TreeMap.mem_toList_iff_getElem?_eq_some.mp hsource'
      rw [hl, Option.some.injEq] at hr
      rw [hr]
    obtain ⟨hfits, hsize⟩ := v.fits_profile hrecord
    have hbytes := Std.TreeMap.mem_toList_iff_getElem?_eq_some.mp hsource
    obtain ⟨n, hn, htag, hagrees⟩ := parseSource_loaded hparse hfits hsize (hshort path bytes hbytes) hnode
    exact .some ⟨n, m, hn, rfl, hagrees, htag⟩

/-- **The contexts of a converted database and of its sources agree.** -/
theorem Conversion.contexts_agree {entries : Std.TreeMap String (List UInt8)}
    (hnode : node (sortMaps v.options) "" true = .ok db.options)
    (hfold : (sortBy keyLe (sortEntries v.profiles)).foldlM (decodeProfile entries) ∅ = .ok db.profiles) :
    Matches (xmlContext x v.files) (cborContext db) ContextAgrees := by
  obtain ⟨hfits, hsize⟩ := v.fits_options
  obtain ⟨n, hn, htag, hagrees⟩ := parseSource_loaded v.parsed hfits hsize (hshort _ _ v.found) hnode
  have hload : Matches (loadOptionsNode n) (loadOptionsNode db.options) fun o o' =>
      forget o = forget o' ∧ ∀ control ∈ o.controls, control.unavailable = false := by
    have h := loadOptionsNode_agrees hagrees htag
    cases ho : loadOptionsNode n with
    | error e => rw [ho] at h; cases ho' : loadOptionsNode db.options <;> rw [ho'] at h <;> exact h
    | ok o =>
      rw [ho] at h
      cases ho' : loadOptionsNode db.options with
      | error e => rw [ho'] at h; exact h
      | ok o' =>
        rw [ho'] at h
        exact ⟨h, loadOptionsNode_available hagrees.unmarked_left ho⟩
  rw [xmlContext, v.found]
  show Matches (parseXml x v.source >>= _) _ _
  rw [hn]
  refine hload.bind fun o o' ho => ?_
  exact ⟨ho.1, ho.2, v.profiles_agree hshort hfold, rfl, rfl⟩

end Conversion

/-- **XML and CBOR databases mean the same.** A conversion that succeeds encodes a
database that is decoded, and every load over the decoded context and over the context
of the XML sources has one outcome. -/
theorem convert_preserves (translate : String → List UInt8) {dir : SourceDir} {revision : Option String} {root : Value}
    (h : convert c sha s dir revision = .ok root) {files : SourceFiles} (hfiles : sources dir = .ok files)
    (hshort : ShortSources s files) :
    ∃ wire db, encode c root = .ok wire ∧ Wire.decode c sha wire = .ok db ∧
      ∀ pnpname caps faulttolerance,
        createDb translate (cborContext db).toOption pnpname caps faulttolerance =
          createDb translate (xmlContext x files).toOption pnpname caps faulttolerance := by
  obtain ⟨v⟩ := convert_ok h
  obtain rfl : v.files = files := Except.ok.inj (v.read.symm.trans hfiles)
  obtain ⟨db, entries, hdecode, hnode, hfold⟩ := v.decoded
  refine ⟨v.wire, db, v.encoded, hdecode, fun pnpname caps faulttolerance => ?_⟩
  have hmatch := v.contexts_agree hshort hnode hfold
  cases hx : xmlContext x v.files with
  | error e =>
    cases hy : cborContext db with
    | error e' => rfl
    | ok context => rw [hx, hy] at hmatch; exact hmatch.elim
  | ok context =>
    cases hy : cborContext db with
    | error e' => rw [hx, hy] at hmatch; exact hmatch.elim
    | ok context' =>
      rw [hx, hy] at hmatch
      exact (createDb_agrees translate hmatch pnpname caps faulttolerance).symm

/-! ### A long number -/

/-- The producer reads what the loader reads. -/
def versionSource (version : String) (hversion : NulFree version) : SourceReader (versionReader version hversion) :=
  ⟨(versionReader version hversion).document, fun _ _ h => h⟩

/-- The two documents in a directory. -/
def versionDir (version : String) : SourceDir :=
  ⟨.ok (utf8 (optionsText version)), .ok [⟨some "TST0001", .ok (utf8 profileText)⟩]⟩

/-- The files of the directory. -/
def versionFiles (version : String) : SourceFiles :=
  (Std.TreeMap.ofList [("options.xml", utf8 (optionsText version))]).insert "monitor/TST0001.xml" (utf8 profileText)

/-- A record without metadata. -/
def plainRecord (kind : UInt64) (attrs : List (UInt64 × Value)) (children : List Value) : Value :=
  record [(0, .unsigned kind), (1, record attrs), (2, .array children)]

/-- The record of the options. -/
def versionOptions : Value :=
  plainRecord 0 [(12, .unsigned 3), (13, .text "2026")]
    [plainRecord 1 [(0, .text "Picture")] [plainRecord 2 [(0, .text "Colours")]
      [plainRecord 3 [(0, .text "Temperature"), (1, .text "temperature"), (2, .text "list")]
        [plainRecord 4 [(0, .text "Warm"), (1, .text "warm")] [], plainRecord 4 [(0, .text "Cool"), (1, .text "cool")] []]]]]

/-- The record of the profile. -/
def versionProfile : Value :=
  plainRecord 5 [(0, .text "Test"), (5, .text "standard")]
    [plainRecord 6 [(10, .text "(vcp(14(04 05)))")] [], plainRecord 8 []
      [plainRecord 3 [(1, .text "temperature"), (6, .unsigned 20), (7, .unsigned 50)]
        [plainRecord 4 [(1, .text "warm"), (8, .unsigned 4)] [], plainRecord 4 [(1, .text "cool"), (8, .unsigned 5)] []]]]

/-- The manifest of the two documents, of their digests. -/
def versionManifest (options profile : List UInt8) : Value :=
  .map [(.text "monitor/TST0001.xml", .bytes profile), (.text "options.xml", .bytes options)]

/-- The database of the two documents. -/
def versionDatabase (manifest : Value) (snapshot : List UInt8) : Value :=
  database "2026" versionOptions [(.text "TST0001", versionProfile)] manifest snapshot

theorem utf8_optionsText (version : String) :
    utf8 (optionsText version) = utf8 "<options dbversion=\"" ++ utf8 version ++ utf8 groupsText :=
  (utf8_append _ _).trans (congrArg (· ++ _) (utf8_append _ _))

theorem length_optionsText (version : String) :
    (utf8 (optionsText version)).length = (utf8 version).length + 237 := by
  have hbefore : (utf8 "<options dbversion=\"").length = 20 := by decide +kernel
  have hafter : (utf8 groupsText).length = 217 := by decide +kernel
  rw [utf8_optionsText, List.length_append, List.length_append, hbefore, hafter]
  omega

theorem utf8_profileText_ne (version : String) : utf8 profileText ≠ utf8 (optionsText version) := by
  intro h
  have hprofile : (utf8 profileText).take 2 = [0x3c, 0x6d] := by decide +kernel
  have hoptions : (utf8 (optionsText version)).take 2 = [0x3c, 0x6f] := by
    rw [utf8_optionsText, List.append_assoc]
    exact (List.take_append_of_le_length (by decide +kernel)).trans (by decide +kernel)
  rw [h, hoptions] at hprofile
  revert hprofile
  decide

section Version

variable {version : String} (hversion : NulFree version)

theorem sources_versionDir (hlen : (utf8 version).length ≤ maxFile - 512) :
    sources (versionDir version) = .ok (versionFiles version) := by
  have hoptions := length_optionsText version
  have hprofile : (utf8 profileText).length ≤ 220 := by decide +kernel
  have hid : profileId "TST0001" = true := by decide +kernel
  have hroom : 512 ≤ maxFile := by decide
  have hfile : ¬(utf8 (optionsText version)).length > maxFile := by omega
  have hfile' : ¬(utf8 (optionsText version)).length + (utf8 profileText).length > maxFile := by omega
  have hpath : manifestPath "TST0001" = "monitor/TST0001.xml" := by decide +kernel
  simp only [sources, versionDir, bind_eq_ok, reject_eq_ok]
  refine ⟨_, rfl, (), by decide, _, rfl, (), decide_eq_false hfile, ?_⟩
  simp only [List.foldlM_cons, List.foldlM_nil, addSource, bind_eq_ok, reject_eq_ok, orError_eq_ok]
  exact ⟨_, ⟨_, ⟨_, rfl, (), by rw [hid]; rfl, _, rfl, (), decide_eq_false hfile', rfl⟩,
    rfl⟩, by rw [hpath]; rfl⟩

theorem document_options :
    (versionReader version hversion).document (utf8 (optionsText version)) = .ok (optionsTree version) := if_pos rfl

theorem document_profile : (versionReader version hversion).document (utf8 profileText) =
    .ok profileTree := by
  have h : (versionReader version hversion).document (utf8 profileText) =
      if utf8 profileText = utf8 (optionsText version) then .ok (optionsTree version)
      else if utf8 profileText = utf8 profileText then .ok profileTree else .error "unknown document" := rfl
  rw [h, if_neg (utf8_profileText_ne version), if_pos rfl]

theorem parseSource_options (hnumber : sourceInteger version "dbversion" = .ok (.unsigned 3)) :
    parseSource (versionSource version hversion)
      (utf8 (optionsText version)) "options" = .ok versionOptions := by
  have hattr : sourceAttribute [12, 13] ([], []) ⟨none, "dbversion", version⟩ =
      .ok ([(.unsigned 12, .unsigned 3)], []) := by
    show (sourceInteger version "dbversion" >>= _) = _
    rw [hnumber]
    rfl
  have hattrs : ([("dbversion", version), ("date", "2026")].map fun entry =>
        (⟨none, entry.1, entry.2⟩ : XmlAttribute)).foldlM (sourceAttribute [12, 13]) ([], []) =
      .ok ([(.unsigned 12, .unsigned 3), (.unsigned 13, .text "2026")], []) := by
    rw [List.map_cons, List.foldlM_cons, hattr]
    rfl
  have hallowed : (if executablePath "options" "" true true then executableAttributes "options" ""
      true else []) = [12, 13] := by
    decide
  have hgroups : sourceChildren [groupsTree] "options" true (executablePath "options" "" true true) (0 + 1) =
      .ok [plainRecord 1 [(0, .text "Picture")] [plainRecord 2 [(0, .text "Colours")]
        [plainRecord 3 [(0, .text "Temperature"), (1, .text "temperature"), (2, .text "list")]
          [plainRecord 4 [(0, .text "Warm"), (1, .text "warm")] [],
            plainRecord 4 [(0, .text "Cool"), (1, .text "cool")] []]]]] := by rfl
  have hnode : sourceNode (optionsTree version) [] "" true true 0 = .ok versionOptions := by
    rw [optionsTree, lineElement, sourceNode]
    simp only [hallowed, hattrs, hgroups]
    rfl
  simp only [parseSource, bind_eq_ok]
  exact ⟨_, document_options hversion, (), rfl, hnode⟩

theorem parseSource_profile :
    parseSource (versionSource version hversion)
      (utf8 profileText) "monitor" = .ok versionProfile := by
  simp only [parseSource, bind_eq_ok]
  exact ⟨_, document_profile hversion, (), rfl, rfl⟩

theorem convert_versionDir (hlen : (utf8 version).length ≤ maxFile - 512)
    (hnumber : sourceInteger version "dbversion" = .ok (.unsigned 3)) {options snapshot wire : List UInt8}
    (hdigest : sha.digest (utf8 (optionsText version)) = options)
    (hsnapshot : manifestDigest .reference sha (versionManifest options (sha.digest (utf8 profileText))) =
      .ok snapshot) {root : Value}
    (hwire : encode .reference
      (versionDatabase (versionManifest options (sha.digest (utf8 profileText))) snapshot) = .ok wire)
    (hroot : validate .reference sha wire = .ok root) :
    convert .reference sha (versionSource version hversion)
      (versionDir version) none = .ok root := by
  subst hdigest
  simp only [convert, bind_eq_ok, orError_eq_ok]
  refine ⟨_, sources_versionDir hlen, _, rfl, versionOptions, ?_, "2026", rfl,
    [(.text "TST0001", versionProfile)], ?_, snapshot, hsnapshot, wire, hwire, hroot⟩
  · rw [parseSource_options hversion hnumber]
    rfl
  · show List.foldlM (convertProfile _) _ [("monitor/TST0001.xml", utf8 profileText),
      ("options.xml", _)] = _
    simp only [List.foldlM_cons, List.foldlM_nil, bind_eq_ok]
    refine ⟨_, ?_, _, rfl, rfl⟩
    simp only [convertProfile, parseSource_profile]
    rfl

/-- The loader does not take a version longer than its limit. -/
theorem xmlContext_long (hlong : maxAttribute < (utf8 version).length) :
    ∃ e, xmlContext (versionReader version hversion) (versionFiles version) = .error e := by
  obtain ⟨e, hattr⟩ : ∃ e, ownedAttribute ∅ ⟨none, "dbversion", version⟩ = .error e := by
    simp [ownedAttribute, reject, hlong]
  have howned : owned 0 (optionsTree version) 0 = .error e := by
    rw [optionsTree, lineElement, owned]
    show (List.foldlM ownedAttribute ∅ _ >>= _) = _
    rw [List.map_cons, List.foldlM_cons, hattr]
    rfl
  refine ⟨e, ?_⟩
  rw [xmlContext, show (versionFiles version)["options.xml"]? = some (utf8 (optionsText version)) from rfl]
  show (parseXml _ _ >>= _) = _
  rw [parseXml, document_options]
  show ((owned 0 (optionsTree version) 0 >>= _) >>= _) = _
  rw [howned]
  rfl

end Version

/-- The octal number 3 after so many zeroes. -/
def paddedVersion (zeroes : ℕ) : String := String.ofList (List.replicate (zeroes + 2) '0' ++ ['3'])

theorem sourceInteger_paddedVersion (zeroes : ℕ) :
    sourceInteger (paddedVersion zeroes) "dbversion" = .ok (.unsigned 3) := by
  have hall : ∀ n, (List.replicate n '0' ++ ['3']).all (isDigit 8) = true := fun n => by
    induction n with
    | zero => decide
    | succ n ih => exact ih
  have hvalue : ∀ n, digitsValue 8 (List.replicate n '0' ++ ['3']) = 3 := fun n => by
    induction n with
    | zero => decide
    | succ n ih => exact ih
  have hparse : parseInteger (paddedVersion zeroes) = .ok 3 := by
    have hrest : (paddedVersion zeroes).toList.dropWhile isAsciiWhitespace =
        '0' :: '0' :: (List.replicate zeroes '0' ++ ['3']) := by rw [paddedVersion, String.toList_ofList]; rfl
    have hradix : splitRadix (splitSign ('0' :: '0' :: (List.replicate zeroes '0' ++ ['3']))).2 =
        (8, List.replicate (zeroes + 1) '0' ++ ['3']) := rfl
    have hsign : (splitSign ('0' :: '0' :: (List.replicate zeroes '0' ++ ['3']))).1 = false := rfl
    simp only [parseInteger, hrest, hradix, hsign, hall, i64FromDigits, hvalue]
    rfl
  have hbounds : (attributeId "dbversion").bind attributeIntegerBounds = some (3, 3) := by decide +kernel
  simp only [sourceInteger, bind_eq_ok, orError_eq_ok, hbounds]
  refine ⟨_, rfl, 3, ?_, (), rfl, rfl⟩
  rw [sourceNumber, if_neg (by decide), parseInteger_dropWhile, hparse]
  rfl

theorem nulFree_paddedVersion (zeroes : ℕ) : NulFree (paddedVersion zeroes) := by
  rw [NulFree, paddedVersion, String.toList_ofList, List.mem_append, List.mem_replicate]
  rintro (⟨-, h⟩ | h)
  · cases h
  · revert h
    decide

theorem length_paddedVersion (zeroes : ℕ) : (utf8 (paddedVersion zeroes)).length = zeroes + 3 := by
  have hzeroes : ∀ n, ((List.replicate n '0').flatMap String.utf8EncodeChar).length = n :=
    fun n => by
    induction n with
    | zero => rfl
    | succ n ih => rw [List.replicate_succ, List.flatMap_cons, List.length_append, ih,
      Nat.add_comm]; rfl
  rw [utf8_eq, paddedVersion, String.toList_ofList, List.flatMap_append,
    List.length_append, hzeroes]
  rfl

/-- The database of the two documents, of their digests, is encoded, validated and decoded. -/
def convertedMonitor (sha : Sha256) (options profile : List UInt8) : Except String MonitorDb := do
  let snapshot ← manifestDigest .reference sha (versionManifest options profile)
  let wire ← encode .reference (versionDatabase (versionManifest options profile) snapshot)
  let root ← validate .reference sha wire
  let wire ← encode .reference root
  let db ← Wire.decode .reference sha wire
  orError (createDb utf8 (cborContext db).toOption "TST0001" .default false).monitor "not loaded"

/-- Then it is converted from them, and its profile is loaded. -/
theorem convert_loads {version : String} (hversion : NulFree version) (hlen : (utf8 version).length ≤ maxFile - 512)
    (hnumber : sourceInteger version "dbversion" = .ok (.unsigned 3)) {options profile : List UInt8}
    (hoptions : sha.digest (utf8 (optionsText version)) = options) (hprofile : sha.digest (utf8 profileText) = profile)
    (hrun : (convertedMonitor sha options profile).isOk = true) :
    ∃ root wire db monitor, convert .reference sha (versionSource version hversion) (versionDir version) none = .ok root ∧
      encode .reference root = .ok wire ∧ Wire.decode .reference sha wire = .ok db ∧
        (createDb utf8 (cborContext db).toOption "TST0001" .default false).monitor = some monitor := by
  subst hprofile
  obtain ⟨monitor, h⟩ := exists_of_isOk hrun
  simp only [convertedMonitor, bind_eq_ok, orError_eq_ok] at h
  obtain ⟨snapshot, hsnapshot, wire, hwire, root, hroot, wire', hwire', db, hdb, hmonitor⟩ := h
  exact ⟨root, wire', db, monitor, convert_versionDir hversion hlen hnumber hoptions hsnapshot hwire hroot,
    hwire', hdb, hmonitor⟩

/-- The digest of the profile. -/
def profileDigest : List UInt8 :=
  [0xb2, 0x1f, 0x53, 0xfd, 0x4e, 0xff, 0x1c, 0x73, 0x93, 0x92, 0xa8, 0x09, 0xd3, 0xde, 0x3e, 0xd7, 0xba, 0xfc, 0xd7,
    0x3f, 0x07, 0x8b, 0xc3, 0x74, 0x51, 0x61, 0xf0, 0x51, 0x4e, 0x33, 0x52, 0x63]

theorem digest_profileText : Sha2.digest (utf8 profileText) = profileDigest := by decide +kernel

/-- The digest of the options with the shortest padded version. -/
def shortDigest : List UInt8 :=
  [0x6d, 0xd1, 0xf4, 0xa7, 0x4e, 0x07, 0xf1, 0x0a, 0x08, 0x56, 0xe6, 0xdb, 0x4f, 0x9c, 0x7e, 0x55, 0x17, 0x09, 0xc0,
    0x64, 0x41, 0xd9, 0x2f, 0xed, 0x88, 0x37, 0xed, 0x2d, 0x97, 0xc6, 0x29, 0xa5]

/-- The digest of the options with a version that is too long. -/
def longDigest : List UInt8 :=
  [0xdc, 0x19, 0x9c, 0x14, 0x2b, 0xde, 0x62, 0x37, 0x99, 0x98, 0xbb, 0x8b, 0xd8, 0x9a, 0xd3, 0x81, 0x21, 0x0b, 0x0a,
    0xb5, 0xf7, 0x06, 0xf7, 0xf6, 0xf9, 0xb0, 0x8a, 0x1d, 0xb8, 0xdc, 0x2e, 0xef]

/-- SHA-256, on all messages of a moderate length and on those options. -/
def longSha : Sha256 where
  digest message := if message.length ≤ maxAttribute then Sha2.digest message else longDigest
  length_digest message := by
    split_ifs
    · exact Sha2.length_digest message
    · rfl

/-- **A number written too long is converted, but not loaded from XML**: the database has
a profile that the sources it was made from cannot load. -/
theorem longVersion_differs :
    ∃ version hversion root files wire db,
      convert .reference longSha (versionSource version hversion) (versionDir version) none = .ok root ∧
        sources (versionDir version) = .ok files ∧ encode .reference root = .ok wire ∧
        Wire.decode .reference longSha wire = .ok db ∧
        createDb utf8 (cborContext db).toOption "TST0001" .default false ≠
          createDb utf8 (xmlContext (versionReader version hversion) files).toOption "TST0001" .default false := by
  have hlong := length_paddedVersion maxAttribute
  have hlen : (utf8 (paddedVersion maxAttribute)).length ≤ maxFile - 512 := by
    rw [hlong]
    decide
  have hmore : ¬(utf8 (optionsText (paddedVersion maxAttribute))).length ≤ maxAttribute := by
    rw [length_optionsText, hlong]
    omega
  have hoptions : longSha.digest (utf8 (optionsText (paddedVersion maxAttribute))) = longDigest := by
    simp only [longSha, if_neg hmore]
  have hprofile : longSha.digest (utf8 profileText) = profileDigest :=
    (if_pos (by decide +kernel)).trans digest_profileText
  obtain ⟨root, wire, db, monitor, hconvert, hwire, hdb, hmonitor⟩ :=
    convert_loads (nulFree_paddedVersion maxAttribute) hlen (sourceInteger_paddedVersion _) hoptions hprofile
      (by decide +kernel)
  refine ⟨paddedVersion maxAttribute, nulFree_paddedVersion _, root, _, wire, db, hconvert,
    sources_versionDir hlen, hwire, hdb, ?_⟩
  intro heq
  obtain ⟨e, hxml⟩ := xmlContext_long (nulFree_paddedVersion maxAttribute) (by rw [hlong]; omega)
  rw [heq, hxml] at hmonitor
  cases hmonitor

/-- The same documents with a short version are loaded alike. -/
theorem shortVersion_preserved :
    ∃ root wire db monitor,
      convert .reference sha256 (versionSource (paddedVersion 0) (nulFree_paddedVersion 0)) (versionDir (paddedVersion 0))
        none = .ok root ∧ encode .reference root = .ok wire ∧ Wire.decode .reference sha256 wire = .ok db ∧
        (createDb utf8 (cborContext db).toOption "TST0001" .default false).monitor = some monitor ∧
        ∀ pnpname caps faulttolerance,
          createDb utf8 (cborContext db).toOption pnpname caps faulttolerance =
            createDb utf8 (xmlContext (versionReader (paddedVersion 0) (nulFree_paddedVersion 0))
              (versionFiles (paddedVersion 0))).toOption pnpname caps faulttolerance := by
  have hlen : (utf8 (paddedVersion 0)).length ≤ maxFile - 512 := by rw [length_paddedVersion]; decide
  have hoptions : sha256.digest (utf8 (optionsText (paddedVersion 0))) = shortDigest := by decide +kernel
  obtain ⟨root, wire, db, monitor, hconvert, hwire, hdb, hmonitor⟩ :=
    convert_loads (nulFree_paddedVersion 0) hlen (sourceInteger_paddedVersion 0) hoptions digest_profileText
      (by decide +kernel)
  have hshort : ShortSources (versionSource (paddedVersion 0) (nulFree_paddedVersion 0))
      (versionFiles (paddedVersion 0)) := by
    intro path bytes _ tree htree
    have hall := sampleTrees_all (P := fun value => (utf8 value).length ≤ maxAttribute)
      (show (utf8 (paddedVersion 0)).length ≤ maxAttribute by rw [length_paddedVersion]; decide) (by decide +kernel)
    change (if _ then _ else _) = _ at htree
    split_ifs at htree <;> cases htree
    · exact hall.1.mono fun _ h _ _ => h
    · exact hall.2.mono fun _ h _ _ => h
  obtain ⟨wire', db', hwire', hdb', hsame⟩ :=
    convert_preserves utf8 hconvert (sources_versionDir hlen) hshort
  obtain rfl := Except.ok.inj (hwire.symm.trans hwire')
  obtain rfl := Except.ok.inj (hdb.symm.trans hdb')
  exact ⟨root, wire, db, monitor, hconvert, hwire, hdb, hmonitor, hsame⟩

end DdcControl.Dbgen
