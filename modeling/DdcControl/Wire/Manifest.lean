import DdcControl.Wire.Validate

/-!
# The source manifest

A database names the files it was made from, each with its digest: `options.xml`, and one
file for each profile. `verifyManifest` checks a set of files against the manifest.

## What is proved

* `decodeValue_sources` — the files a decoded database names are `options.xml` and those
  of its profiles: each profile has one, and there are no more files than that.
* `manifest_lookup` — a manifest is read back as it was written.
* `verifyManifest_eq_ok` — the check compares the number of the files, and the digest of
  each.
-/

namespace DdcControl.Wire

open Cbor Fallible Database

variable {c : Ciborium} {sha : Sha256}

/-! ### Paths -/

/-- A text between two others is what is left without them. -/
theorem stripEnds_eq_some {start stop text rest : String} :
    stripEnds start stop text = some rest ↔ text = start ++ rest ++ stop := by
  unfold stripEnds
  rw [Option.bind_eq_some_iff]
  constructor
  · rintro ⟨middle, hstart, h⟩
    obtain ⟨rest', hstop, rfl⟩ := Option.map_eq_some_iff.mp h
    rw [List.isPrefixOf?_eq_some_iff_append_eq] at hstart
    rw [List.isSuffixOf?_eq_some_iff_append_eq] at hstop
    refine String.toList_inj.mp ?_
    rw [String.toList_append, String.toList_append, String.toList_ofList, List.append_assoc,
      hstop, hstart]
  · rintro rfl
    refine ⟨rest.toList ++ stop.toList, ?_, ?_⟩
    · rw [List.isPrefixOf?_eq_some_iff_append_eq, String.toList_append, String.toList_append,
        List.append_assoc]
    · rw [Option.map_eq_some_iff]
      exact ⟨rest.toList, List.isSuffixOf?_eq_some_iff_append_eq.mpr rfl, String.ofList_toList⟩

/-- The manifest path of a profile determines it. -/
theorem profilePath_injective : Function.Injective fun id : String =>
    "monitor/" ++ id ++ ".xml" := by
  intro id id' h
  have hid : stripEnds "monitor/" ".xml" ("monitor/" ++ id ++ ".xml") = some id :=
    stripEnds_eq_some.mpr rfl
  have hid' : stripEnds "monitor/" ".xml" ("monitor/" ++ id' ++ ".xml") = some id' :=
    stripEnds_eq_some.mpr rfl
  rw [show "monitor/" ++ id ++ ".xml" = "monitor/" ++ id' ++ ".xml" from h, hid'] at hid
  exact (Option.some.inj hid).symm

/-- It is not that of the options. -/
theorem profilePath_ne (id : String) : "monitor/" ++ id ++ ".xml" ≠ "options.xml" := by
  intro h
  have hid := stripEnds_eq_some.mpr h.symm
  rw [show stripEnds "monitor/" ".xml" "options.xml" = none by decide] at hid
  cases hid

/-! ### Tables -/

/-- A table no larger than a list of its keys has no others. -/
theorem mem_of_covering {α : Type} {t : Std.TreeMap String α} {keys : List String}
    (hnodup : keys.Nodup) (hkeys : ∀ k ∈ keys, k ∈ t) (hsize : t.size ≤ keys.length) {k : String}
    (hk : k ∈ t) : k ∈ keys := by
  have hsub : keys.Subperm t.keys := List.subperm_of_subset hnodup fun k hk =>
    Std.TreeMap.mem_keys.mpr (hkeys k hk)
  have hperm : keys.Perm t.keys := hsub.perm_of_length_le (by rwa [Std.TreeMap.length_keys])
  exact hperm.mem_iff.mpr (Std.TreeMap.mem_keys.mpr hk)

/-- Tables with the same keys have one size. -/
theorem size_eq_of_mem_iff {α β : Type} {t : Std.TreeMap String α} {u : Std.TreeMap String β}
    (h : ∀ k, k ∈ t ↔ k ∈ u) :
    t.size = u.size := by
  rw [← Std.TreeMap.length_keys, ← Std.TreeMap.length_keys]
  refine List.Perm.length_eq
    ((List.perm_ext_iff_of_nodup Std.TreeMap.nodup_keys Std.TreeMap.nodup_keys).mpr fun k => ?_)
  rw [Std.TreeMap.mem_keys, Std.TreeMap.mem_keys, h]

/-- A table that has what another of its size has is that table. -/
theorem getElem?_of_covering {α : Type} {t u : Std.TreeMap String α}
    (hsub : ∀ (k : String) v, t[k]? = some v → u[k]? = some v) (hsize : u.size ≤ t.size)
    (k : String) : u[k]? = t[k]? := by
  have hkeys : ∀ k ∈ t.keys, k ∈ u := by
    intro k hk
    obtain ⟨v, hv⟩ := Option.isSome_iff_exists.mp
      (Std.TreeMap.mem_iff_isSome_getElem?.mp (Std.TreeMap.mem_keys.mp hk))
    exact Std.TreeMap.mem_iff_isSome_getElem?.mpr (by rw [hsub k v hv]; rfl)
  cases ht : t[k]? with
  | some v => exact hsub k v ht
  | none =>
    refine Std.TreeMap.getElem?_eq_none fun hk => ?_
    have hmem := mem_of_covering Std.TreeMap.nodup_keys hkeys (by rwa [Std.TreeMap.length_keys]) hk
    rw [Std.TreeMap.mem_keys, Std.TreeMap.mem_iff_isSome_getElem?, ht] at hmem
    cases hmem

/-! ### Reading a manifest -/

/-- A manifest is read back as it was written. -/
theorem manifest_lookup {entries : List (Value × Value)} {sources : Std.TreeMap String (List UInt8)}
    (h : manifest (.map entries) = .ok sources) :
    (∀ (path : String) hash, sources[path]? = some hash → (.text path, .bytes hash) ∈ entries) ∧
      (∀ (path : String) hash, (.text path, .bytes hash) ∈ entries → path ∈ sources) ∧
      "options.xml" ∈ sources := by
  simp only [manifest, bind_eq_ok, map_eq_ok, reject_eq_ok, Value.map.injEq,
    Bool.or_eq_false_iff] at h
  obtain ⟨_, rfl, sources', hfold, _, ⟨hoptions, -⟩, h⟩ := h
  cases h
  have hinv := foldlM_history (P := fun done (sources : Std.TreeMap String (List UInt8)) =>
    (∀ (path : String) hash, sources[path]? = some hash → (.text path, .bytes hash) ∈ done) ∧
      ∀ (path : String) hash, (.text path, .bytes hash) ∈ done → path ∈ sources) (b := ∅) ?_ (by simp) hfold
  · exact ⟨hinv.1, hinv.2, by simpa using hoptions⟩
  · rintro done entry sources sources' ⟨hfrom, hto⟩ hstep
    simp only [decodeSource, bytes32, bind_eq_ok, text_eq_ok, orError_eq_ok,
      Option.filter_eq_some_iff] at hstep
    obtain ⟨path, hpath, _, -, hash, ⟨hhash, -⟩, hstep⟩ := hstep
    cases hstep
    have hentry : entry = (.text path, .bytes hash) := by
      obtain ⟨key, v⟩ := entry
      cases v <;> simp_all [asBytes]
    subst hentry
    refine ⟨fun path' hash' hfound => ?_, fun path' hash' hmem => ?_⟩
    · rw [Std.TreeMap.getElem?_insert] at hfound
      split_ifs at hfound with heq
      · cases hfound
        rw [Std.LawfulEqCmp.eq_of_compare heq]
        simp
      · exact List.mem_append_left _ (hfrom path' hash' hfound)
    · rw [Std.TreeMap.mem_insert]
      rcases List.mem_append.mp hmem with hmem | hmem
      · exact .inr (hto path' hash' hmem)
      · cases List.mem_singleton.mp hmem
        exact .inl Std.ReflCmp.compare_self

/-! ### The files of a database -/

/-- What a decoded database says of its sources. -/
theorem decodeValue_manifest {root : Value} {consumer : Bool} {db : WireDatabase}
    (h : decodeValue c sha root consumer = .ok db) :
    ∃ (source : Value) (bytes : List UInt8) (entries : List (Value × Value)) (profiles : Profiles),
      optional root 8 = some source ∧ manifest source = .ok db.manifest ∧
      encode c source = .ok bytes ∧ entries.foldlM (decodeProfile db.manifest) ∅ = .ok profiles ∧
      db.manifest.size = profiles.size + 1 ∧
      ∃ invalid : List String, db.profiles = invalid.foldl requireProfile profiles := by
  simp only [decodeValue, checkSources, manifestDigest, bind_eq_ok, reject_eq_ok, field_eq_ok,
    map_eq_ok, orError_eq_ok] at h
  obtain ⟨_, -, _, -, _, -, sources, ⟨source, hsource, sources', hmanifest, _, -, _, -, digest,
      ⟨bytes, hbytes, -⟩, _, -,
    hpair⟩, _, -, _, -, _, -, _, -, entries, -, _, -, profiles, hprofiles, _, hsize, invalid, -, h⟩ := h
  cases hpair
  cases h
  exact ⟨source, bytes, entries, profiles, hsource, hmanifest, hbytes,
    hprofiles, by simpa using hsize, invalid, rfl⟩

/-- Marking profiles keeps their ids. -/
theorem mem_requireProfile (ids : List String) (profiles : Profiles) (id : String) :
    id ∈ ids.foldl requireProfile profiles ↔ id ∈ profiles := by
  have hsame := sameChildren_requireProfile ids profiles id
  rw [Std.TreeMap.mem_iff_isSome_getElem?, Std.TreeMap.mem_iff_isSome_getElem?,
    ← Option.isSome_map (f := Node.children), ← hsame, Option.isSome_map]

/-- Every decoded profile is named among the sources. -/
theorem decodeProfiles_sources {sources : Std.TreeMap String (List UInt8)}
    {entries : List (Value × Value)} {profiles : Profiles}
    (h : entries.foldlM (decodeProfile sources) ∅ = .ok profiles) {id : String}
    (hid : id ∈ profiles) :
    "monitor/" ++ id ++ ".xml" ∈ sources := by
  refine foldlM_history (P := fun _ (profiles : Profiles) =>
    ∀ id ∈ profiles, "monitor/" ++ id ++ ".xml" ∈ sources) (b := ∅) ?_ (by simp) h id hid
  intro done entry profiles profiles' hP hstep
  simp only [decodeProfile, bind_eq_ok, reject_eq_ok] at hstep
  obtain ⟨id, -, _, -, _, -, _, -, _, hsource, hstep⟩ := hstep
  cases hstep
  intro id' hid'
  rcases Std.TreeMap.mem_insert.mp hid' with heq | hmem
  · rw [← Std.LawfulEqCmp.eq_of_compare heq]
    simpa using hsource
  · exact hP id' hmem

/-- **The files a decoded database names are its options and its profiles.** -/
theorem decodeValue_sources {root : Value} {consumer : Bool} {db : WireDatabase}
    (h : decodeValue c sha root consumer = .ok db) :
    "options.xml" ∈ db.manifest ∧ (∀ id, id ∈ db.profiles ↔ "monitor/" ++ id ++ ".xml" ∈ db.manifest) ∧
      ∀ path ∈ db.manifest, path = "options.xml" ∨ ∃ id ∈ db.profiles, path = "monitor/" ++ id ++ ".xml" := by
  obtain ⟨source, -, entries, profiles, -, hmanifest, -, hprofiles, hsize, invalid, hdb⟩ :=
    decodeValue_manifest h
  have hkept (id : String) : id ∈ db.profiles ↔ id ∈ profiles := by rw [hdb, mem_requireProfile]
  have hoptions : "options.xml" ∈ db.manifest := by
    obtain ⟨entries', hentries, -⟩ := bind_eq_ok.mp hmanifest
    rw [map_eq_ok] at hentries
    exact (manifest_lookup (hentries ▸ hmanifest)).2.2
  -- the paths of the options and of the profiles are as many as the files
  have hcover {path : String} (hpath : path ∈ db.manifest) :
      path ∈ "options.xml" :: profiles.keys.map fun id => "monitor/" ++ id ++ ".xml" := by
    refine mem_of_covering ?_ ?_ ?_ hpath
    · refine List.nodup_cons.mpr ⟨?_, (List.nodup_map_iff profilePath_injective).mpr Std.TreeMap.nodup_keys⟩
      rw [List.mem_map]
      rintro ⟨id, -, heq⟩
      exact profilePath_ne id heq
    · intro path hpath
      rcases List.mem_cons.mp hpath with rfl | hpath
      · exact hoptions
      · obtain ⟨id, hid, rfl⟩ := List.mem_map.mp hpath
        exact decodeProfiles_sources hprofiles (Std.TreeMap.mem_keys.mp hid)
    · rw [hsize, List.length_cons, List.length_map, Std.TreeMap.length_keys]
  refine ⟨hoptions, fun id => ⟨fun hid => decodeProfiles_sources hprofiles ((hkept id).mp hid),
    fun hpath => ?_⟩, ?_⟩
  · rcases List.mem_cons.mp (hcover hpath) with heq | hmem
    · exact absurd heq (profilePath_ne id)
    · obtain ⟨id', hid', heq⟩ := List.mem_map.mp hmem
      rw [hkept, ← profilePath_injective heq]
      exact Std.TreeMap.mem_keys.mp hid'
  · intro path hpath
    rcases List.mem_cons.mp (hcover hpath) with heq | hmem
    · exact .inl heq
    · obtain ⟨id, hid, heq⟩ := List.mem_map.mp hmem
      exact .inr ⟨id, (hkept id).mpr (Std.TreeMap.mem_keys.mp hid), heq.symm⟩

/-! ### Checking files -/

/-- The check of a manifest: as many files, and each with its digest. -/
theorem verifyManifest_eq_ok {bytes : List UInt8} {source : Value}
    {expected : Std.TreeMap String (List UInt8)} (hsource : value c bytes = .ok source)
    (hexpected : manifest source = .ok expected) {files : Std.TreeMap String (List UInt8)} :
    verifyManifest c sha bytes files = .ok () ↔
      expected.size = files.size ∧
        ∀ (path : String) hash, expected[path]? = some hash →
          ∃ found, files[path]? = some found ∧ sha.digest found = hash := by
  have hbool : asBool source ≠ some false := by
    obtain ⟨entries, hentries, -⟩ := bind_eq_ok.mp hexpected
    rw [map_eq_ok] at hentries
    subst hentries
    simp [asBool]
  simp only [verifyManifest, hsource, hexpected, bind_eq_ok, reject_eq_ok, Except.ok.injEq,
    exists_eq_left', decide_eq_false_iff_not, not_not, forM_eq_ok, verifySource, orError_eq_ok,
    Prod.forall, Std.TreeMap.mem_toList_iff_getElem?_eq_some, ne_eq]
  simp [hbool]

end DdcControl.Wire
