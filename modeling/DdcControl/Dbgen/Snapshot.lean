import DdcControl.Dbgen.Conversion

/-!
# The producer and the reader agree on the sources

A converted database names the files it was made from. Where it may be replaced by its
XML sources, the reader checks the files it finds against that manifest.

## What is proved

`snapshot_exact` — the check succeeds on the files of the conversion and on no others, up
to collisions of the digest; and the files that any decoded database names are its
options and its profiles.
-/

namespace DdcControl.Dbgen

open Cbor Fallible Database Wire Context

variable {c : Ciborium} {sha : Sha256} {x : XmlReader} {s : SourceReader x}

/-- Where the database may be replaced by its sources, the answer is the manifest. -/
theorem optional_of_fallback {root answer : Value} (h : fallbackManifest root = .ok answer)
    (hanswer : answer ≠ .bool false) :
    Wire.optional root 8 = some answer := by
  unfold fallbackManifest at h
  split_ifs at h
  · cases h
    exact absurd rfl hanswer
  obtain ⟨_, -, h⟩ := bind_eq_ok.mp h
  obtain ⟨unknown, -, h⟩ := bind_eq_ok.mp h
  split_ifs at h
  · cases h
    exact absurd rfl hanswer
  obtain ⟨_, -, h⟩ := bind_eq_ok.mp h
  obtain ⟨_, -, h⟩ := bind_eq_ok.mp h
  obtain ⟨unknown', -, h⟩ := bind_eq_ok.mp h
  split_ifs at h
  · cases h
    exact absurd rfl hanswer
  · exact field_eq_ok.mp h

/-- The entries of a written manifest are the files and their digests. -/
theorem mem_sourceManifest {files : SourceFiles} {path : String} {hash : List UInt8} :
    (.text path, .bytes hash) ∈ sortBy keyLe (sortEntries (files.toList.map fun (path, bytes) =>
        ((.text path, .bytes (sha.digest bytes)) : Value × Value))) ↔
      ∃ bytes, files[path]? = some bytes ∧ sha.digest bytes = hash := by
  rw [(sortBy_perm ..).mem_iff, sortEntries_eq, List.map_map, List.mem_map]
  constructor
  · rintro ⟨⟨path', bytes⟩, hmem, heq⟩
    cases heq
    exact ⟨bytes, Std.TreeMap.mem_toList_iff_getElem?_eq_some.mp hmem, rfl⟩
  · rintro ⟨bytes, hfound, rfl⟩
    exact ⟨(path, bytes), Std.TreeMap.mem_toList_iff_getElem?_eq_some.mpr hfound, rfl⟩

/-- The manifest of a conversion is read back as the digests of its files. -/
theorem sourceManifest_lookup {files : SourceFiles} {expected : Std.TreeMap String (List UInt8)}
    (h : manifest (sortMaps (sourceManifest sha files)) = .ok expected) (path : String) :
    expected[path]? = files[path]?.map sha.digest := by
  obtain ⟨hfrom, hto, -⟩ := manifest_lookup h
  cases hfound : expected[path]? with
  | some hash =>
    obtain ⟨bytes, hbytes, rfl⟩ := mem_sourceManifest.mp (hfrom path hash hfound)
    rw [hbytes]
    rfl
  | none =>
    cases hbytes : files[path]? with
    | none => rfl
    | some bytes =>
      have hmem := hto path _ (mem_sourceManifest.mpr ⟨bytes, hbytes, rfl⟩)
      rw [Std.TreeMap.mem_iff_isSome_getElem?, hfound] at hmem
      cases hmem

/-- No two files of one path, of the conversion and of the reader, have one digest unless
they are the same. -/
def NoCollision (sha : Sha256) (files found : SourceFiles) : Prop :=
  ∀ (path : String) bytes bytes', files[path]? = some bytes → found[path]? = some bytes' →
    sha.digest bytes = sha.digest bytes' → bytes = bytes'

/-- Files with the digests of others are those others. -/
theorem verify_iff {files found : SourceFiles} {expected : Std.TreeMap String (List UInt8)}
    (hexpected : ∀ path : String, expected[path]? = files[path]?.map sha.digest)
    (hcollision : NoCollision sha files found) :
    (expected.size = found.size ∧ ∀ (path : String) hash, expected[path]? = some hash →
        ∃ bytes, found[path]? = some bytes ∧ sha.digest bytes = hash) ↔
      ∀ path : String, found[path]? = files[path]? := by
  have hsize : expected.size = files.size := size_eq_of_mem_iff fun path => by
    rw [Std.TreeMap.mem_iff_isSome_getElem?, Std.TreeMap.mem_iff_isSome_getElem?, hexpected,
      Option.isSome_map]
  constructor
  · rintro ⟨hcount, hdigests⟩
    refine getElem?_of_covering (fun path bytes hbytes => ?_) (by rw [← hcount, hsize])
    obtain ⟨bytes', hfound, hdigest⟩ := hdigests path (sha.digest bytes) (by rw [hexpected, hbytes]; rfl)
    rw [hcollision path bytes bytes' hbytes hfound hdigest.symm]
    exact hfound
  · intro hsame
    refine ⟨?_, fun path hash hhash => ?_⟩
    · rw [hsize]
      refine size_eq_of_mem_iff fun path => ?_
      rw [Std.TreeMap.mem_iff_isSome_getElem?, Std.TreeMap.mem_iff_isSome_getElem?, hsame]
    · rw [hexpected] at hhash
      obtain ⟨bytes, hbytes, rfl⟩ := Option.map_eq_some_iff.mp hhash
      exact ⟨bytes, (hsame path).trans hbytes, rfl⟩

/-- **The producer and the reader agree on the sources.** The manifest of a conversion that
may be replaced by its sources is encoded, and the reader's check of a set of files against
it succeeds if and only if they are the files of the conversion, path by path and byte by
byte. The files that a decoded database names are `options.xml` and that of each profile. -/
theorem snapshot_exact (c : Ciborium) (sha : Sha256) {x : XmlReader} (s : SourceReader x) :
    (∀ dir revision root answer, convert c sha s dir revision = .ok root → fallbackManifest root = .ok answer →
        answer ≠ .bool false →
        ∃ files bytes, sources dir = .ok files ∧ encode c answer = .ok bytes ∧
          ∀ found : SourceFiles, NoCollision sha files found →
            (verifyManifest c sha bytes found = .ok () ↔ ∀ path : String, found[path]? = files[path]?)) ∧
      ∀ root consumer db, decodeValue c sha root consumer = .ok db →
        "options.xml" ∈ db.manifest ∧ (∀ id, id ∈ db.profiles ↔ manifestPath id ∈ db.manifest) ∧
          ∀ path ∈ db.manifest, path = "options.xml" ∨ ∃ id ∈ db.profiles, path = manifestPath id := by
  refine ⟨fun dir revision root answer hconvert hanswer hne => ?_,
    fun root consumer db hdb => decodeValue_sources hdb⟩
  obtain ⟨v⟩ := convert_ok hconvert
  obtain ⟨-, db, hdb, -⟩ := validate_ok v.valid
  obtain ⟨source, bytes, -, -, hsource, hmanifest, hbytes, -⟩ := decodeValue_manifest hdb
  obtain rfl : source = answer := Option.some.inj (hsource.symm.trans (optional_of_fallback hanswer hne))
  have hfits : Fits 1 (sourceManifest sha v.files) :=
    fits_optional v.fits (show Wire.optional _ 8 = some _ from rfl)
  have hsorted : source = sortMaps (sourceManifest sha v.files) := by
    rw [v.optional 8] at hsource
    exact (Option.some.inj hsource).symm
  have hself : sortMaps source = source := by rw [hsorted, sortMaps_eq_self hfits.sortMaps]
  have hvalue : value c bytes = .ok source := by
    obtain ⟨hfits', hsize, hfile, hencoded⟩ := encode_eq_ok.mp hbytes
    rw [hself] at hencoded
    rw [hencoded]
    exact value_encode (hself ▸ hfits'.sortMaps) hsize (hencoded ▸ hfile)
  refine ⟨v.files, bytes, v.read, hbytes, fun found hcollision => ?_⟩
  rw [verifyManifest_eq_ok hvalue hmanifest]
  exact verify_iff (sourceManifest_lookup (hsorted ▸ hmanifest)) hcollision

/-! ### Two files -/

/-- The two documents have a manifest that says what it was made from. -/
theorem versionDir_exact :
    ∃ root answer files bytes,
      convert .reference sha256 (versionSource "3" nulFree_three) (versionDir "3") none = .ok root ∧
        fallbackManifest root = .ok answer ∧ sources (versionDir "3") = .ok files ∧ encode .reference answer = .ok bytes ∧
        ∀ found : SourceFiles, NoCollision sha256 files found →
          (verifyManifest .reference sha256 bytes found = .ok () ↔ ∀ path : String, found[path]? = files[path]?) := by
  have hrun : (do
      let root ← convert .reference sha256 (versionSource "3" nulFree_three) (versionDir "3") none
      let answer ← fallbackManifest root
      reject (asBool answer = some false) "not authorised" : Except String Unit).isOk = true := by decide +kernel
  obtain ⟨_, h⟩ := exists_of_isOk hrun
  simp only [bind_eq_ok, reject_eq_ok, decide_eq_false_iff_not] at h
  obtain ⟨root, hconvert, answer, hanswer, hne⟩ := h
  obtain ⟨files, bytes, hfiles, hbytes, hexact⟩ :=
    (snapshot_exact .reference sha256 (versionSource "3" nulFree_three)).1
      (versionDir "3") none root answer hconvert
      hanswer (fun heq => hne (by rw [heq]; rfl))
  exact ⟨root, answer, files, bytes, hconvert, hanswer, hfiles, hbytes, hexact⟩

end DdcControl.Dbgen
