import DdcControl.Context.Load
import DdcControl.Database.Visits

/-!
# The producer's limits and the loader's

`invalid_reference_profiles` bounds the includes of a database before it is written: none
is missing, no path of them has more than 256 profiles, and no expansion more than a
million. The loader counts a million visits, but stops at a path of more than 16 profiles.

## What is proved

`includes_within` — over a validated database a load misses no profile, visits no more than
the producer counted, and stops for its depth where a path is longer than 16 profiles, and
only there.
-/

namespace DdcControl.Context

open Fallible Database Wire Capabilities

section Includes

variable (translate : String → List UInt8) {profiles : Profiles} {context : DbContext} {mode : LoadMode}

/-- A path of includes from a profile. -/
def IncludePath (profiles : Profiles) (id : String) (path : List String) : Prop :=
  path.head? = some id ∧ path.IsChain (Includes profiles)

theorem IncludePath.cons {id file : String} {path : List String} (h : Includes profiles id file)
    (hpath : IncludePath profiles file path) : IncludePath profiles id (id :: path) := by
  obtain ⟨hhead, hchain⟩ := hpath
  cases path with
  | nil => cases hhead
  | cons next path =>
    cases hhead
    exact ⟨rfl, List.isChain_cons_cons.mpr ⟨h, hchain⟩⟩

/-- A context of these profiles, without an override. -/
structure Holds (context : DbContext) (profiles : Profiles) : Prop where
  profile : ∀ (id : String) profile, profiles[id]? = some profile → context.profiles[id]? = some (.ok profile)
  plain : context.monitorFile = none

/-- A profile whose includes can be resolved within the limits. -/
abbrev Resolvable (profiles : Profiles) (id : String) : Prop := Peeling.Ok (referenceGraph profiles) (referenceLimits true) id

theorem Holds.resolve (h : Holds context profiles) {id : String} {profile : Node}
    (hprofile : profiles[id]? = some profile) (topLevel : Bool) :
    context.resolve id topLevel = .ok profile := by
  rw [DbContext.resolve, DbContext.root?, h.plain, h.profile id profile hprofile]
  rfl

/-- An include of a resolvable profile is of one. -/
theorem Resolvable.include {id file : String} (h : Resolvable profiles id) {profile child : Node}
    (hprofile : profiles[id]? = some profile) (hchild : child ∈ profile.children)
    (htag : child.tag = "include") (hfile : child.attr "file" = some file) :
    Includes profiles id file ∧ file ∈ profiles ∧ Resolvable profiles file := by
  cases h with
  | intro hnone hedges _ _ =>
    have hmem : file ∈ profiles := by
      by_contra hmissing
      refine hnone (none_mem_iff.mpr ⟨profile, hprofile, child, hchild, htag, fun file' hfile' => ?_⟩)
      rwa [← Option.some.inj (hfile.symm.trans hfile')]
    have hincludes : Includes profiles id file := ⟨profile, hprofile, child, hchild,
      htag, hfile, hmem⟩
    exact ⟨hincludes, hmem, hedges file (edge_iff.mpr hincludes)⟩

theorem expansionSize_succ {id : String} {profile : Node}
    (hprofile : profiles[id]? = some profile) (depth : ℕ) :
    expansionSize profiles (depth + 1) id = 1 +
      (profile.children.map (childCost (expansionSize profiles depth))).sum := by
  rw [expansionSize, hprofile, sum_childCost]

/-- The errors a load over a validated database may end with: of depth only if paths may be
long. -/
def Allowed (short : Prop) (e : DbError) : Prop :=
  e.missingProfile = false ∧ e ≠ visitsExceeded ∧ (short → ∀ pnpname, e ≠ levelExceeded pnpname)

theorem allowed_of_limitFree {short : Prop} (e : DbError) (h : LimitFree e) : Allowed short e :=
  ⟨h.1, h.ne_visitsExceeded, fun _ => h.ne_levelExceeded⟩

theorem countVisit_allowed {short : Prop} {pnpname : String} {build : MonitorBuild}
    (hroom : build.includeVisits + 1 ≤ 1000000) :
    Yields (countVisit pnpname build) (fun after => after.includeVisits = build.includeVisits + 1)
      (Allowed short) := by
  have hname : LimitFree (.new ("Invalid monitor profile name (" ++ pnpname ++ ").")) := by
    rw [String.append_assoc]
    exact limitFree_append (by decide) (by decide)
  refine Yields.bind (Yields.reject (Q := fun _ => True) (fun _ => trivial) fun _ => allowed_of_limitFree _ hname)
    fun _ _ _ => ?_
  refine Yields.bind (Yields.reject (Q := fun _ => True) (fun _ => trivial) fun hlimit => ?_) fun _ _ _ => rfl
  have := of_decide_eq_true hlimit
  omega

theorem levelExceeded_allowed {short : Prop} (hdeep : ¬short) (pnpname : String) :
    Allowed short (levelExceeded pnpname) := by
  refine ⟨rfl, fun heq => ?_, fun hshort => absurd hshort hdeep⟩
  have hmessage : (levelExceeded pnpname).message.toList.take 6 =
      visitsExceeded.message.toList.take 6 := by rw [heq]
  rw [levelExceeded, DbError.new, String.append_assoc, String.toList_append] at hmessage
  rw [List.take_append_of_le_length (by decide)] at hmessage
  revert hmessage
  decide

/-! ### What a load visits -/

/-- A load of a resolvable profile counts no more visits than its expansion has nodes, and
ends with an allowed error if with any. -/
theorem createDbProtected_visits (hholds : Holds context profiles) {short : Prop}
    {recursionlevel : ℕ} (hlevel : recursionlevel ≤ 16) {id : String} (hid : id ∈ profiles)
    (hok : Resolvable profiles id)
    (hshort : short → ∀ path, IncludePath profiles id path → path.length + recursionlevel ≤ 16) :
    VisitCosts 1000000 (Allowed short) (createDbProtected translate context mode id recursionlevel)
      (expansionSize profiles (17 - recursionlevel) id) := by
  intro assembly hroom
  induction hdepth : 16 - recursionlevel generalizing recursionlevel id assembly with
  | zero =>
    obtain rfl : recursionlevel = 16 := by omega
    obtain ⟨profile, hprofile⟩ := Option.isSome_iff_exists.mp (Std.TreeMap.mem_iff_isSome_getElem?.mp hid)
    rw [show 17 - 16 = 0 + 1 from rfl, expansionSize_succ hprofile] at hroom
    rw [createDbProtected]
    refine (countVisit_allowed (by omega)).bind fun build _ _ => ?_
    rw [dif_pos (by decide)]
    refine levelExceeded_allowed (fun h => ?_) id
    have := hshort h [id] ⟨rfl, .singleton id⟩
    simp at this
  | succ depth ih =>
    obtain ⟨profile, hprofile⟩ := Option.isSome_iff_exists.mp (Std.TreeMap.mem_iff_isSome_getElem?.mp hid)
    rw [show 17 - recursionlevel = (17 - (recursionlevel + 1)) + 1 by omega,
      expansionSize_succ hprofile] at hroom ⊢
    rw [createDbProtected]
    refine (countVisit_allowed (by omega)).bind fun build _ hbuild => ?_
    rw [dif_neg (by omega), hholds.resolve hprofile]
    have hvisit : ∀ child ∈ profile.children, child.tag = "include" → ∀ file, child.attr "file" = some file →
        VisitCosts 1000000 (Allowed short) (createDbProtected translate context mode file (recursionlevel + 1))
          (expansionSize profiles (17 - (recursionlevel + 1)) file) := by
      intro child hchild htag file hfile assembly hroom
      obtain ⟨hincludes, hmem, hfileOk⟩ := hok.include hprofile hchild htag hfile
      refine ih (by omega) hmem hfileOk (fun h path hpath => ?_) assembly hroom (by omega)
      have hlonger := hshort h (id :: path) (hpath.cons hincludes)
      rw [List.length_cons] at hlonger
      omega
    refine (interpretRoot_visits translate allowed_of_limitFree hvisit ?_).mono
      (fun after hafter => ?_) fun _ he => he
    · show build.includeVisits + _ ≤ _
      rw [hbuild]
      omega
    · show after.build.includeVisits ≤ _
      have : after.build.includeVisits ≤ build.includeVisits + _ := hafter
      rw [hbuild] at this
      omega

/-- A load of a resolvable profile makes no more calls than its expansion has nodes. -/
theorem createDbProtectedCalls_le (hholds : Holds context profiles) {recursionlevel : ℕ}
    (hlevel : recursionlevel ≤ 16) {id : String} (hid : id ∈ profiles)
    (hok : Resolvable profiles id) (assembly : Assembly) :
    createDbProtectedCalls translate context mode id recursionlevel assembly ≤
      expansionSize profiles (17 - recursionlevel) id := by
  induction hdepth : 16 - recursionlevel generalizing recursionlevel id assembly with
  | zero =>
    obtain rfl : recursionlevel = 16 := by omega
    obtain ⟨profile, hprofile⟩ := Option.isSome_iff_exists.mp (Std.TreeMap.mem_iff_isSome_getElem?.mp hid)
    rw [show 17 - 16 = 0 + 1 from rfl, expansionSize_succ hprofile, createDbProtectedCalls]
    refine Nat.add_le_add_left ?_ 1
    split
    · exact Nat.zero_le _
    · exact Nat.zero_le _
  | succ depth ih =>
    obtain ⟨profile, hprofile⟩ := Option.isSome_iff_exists.mp (Std.TreeMap.mem_iff_isSome_getElem?.mp hid)
    rw [show 17 - recursionlevel = (17 - (recursionlevel + 1)) + 1 by omega,
      expansionSize_succ hprofile, createDbProtectedCalls, hholds.resolve hprofile]
    refine Nat.add_le_add_left ?_ 1
    split
    · exact Nat.zero_le _
    rw [dif_neg (by omega)]
    dsimp only
    split
    · exact Nat.zero_le _
    refine walkCalls_le (fun child hchild htag file hfile assembly => ?_) _
    obtain ⟨-, hmem, hfileOk⟩ := hok.include hprofile hchild htag hfile
    exact ih (by omega) hmem hfileOk assembly (by omega)

/-- A load does not succeed over a path that is too long. -/
theorem createDbProtected_deep (hholds : Holds context profiles) {recursionlevel : ℕ} {id : String}
    {path : List String} (hpath : IncludePath profiles id path)
    (hlong : 16 < path.length + recursionlevel) (assembly after : Assembly) :
    createDbProtected translate context mode id recursionlevel assembly ≠ .ok after := by
  induction path generalizing id recursionlevel assembly after with
  | nil => cases hpath.1
  | cons _ rest ih =>
    obtain ⟨hhead, hchain⟩ := hpath
    cases hhead
    intro h
    rw [createDbProtected] at h
    obtain ⟨build, -, h⟩ := bind_eq_ok.mp h
    split at h
    · cases h
    rename_i hlevel
    cases rest with
    | nil =>
      rw [List.length_singleton] at hlong
      omega
    | cons file rest =>
      obtain ⟨hincludes, hrest⟩ := List.isChain_cons_cons.mp hchain
      obtain ⟨profile, hprofile, child, hchild, htag, hfile, -⟩ := hincludes
      rw [hholds.resolve hprofile] at h
      obtain ⟨_, heq, h⟩ := bind_eq_ok.mp h
      cases heq
      obtain ⟨opened, -, h⟩ := bind_eq_ok.mp h
      obtain ⟨walk, hwalk, -⟩ := bind_eq_ok.mp h
      obtain ⟨before, behind, hsplit⟩ := List.append_of_mem hchild
      rw [hsplit] at hwalk
      obtain ⟨walk', walk'', -, hstep, -⟩ := foldlM_split hwalk
      obtain ⟨_, -, hstep⟩ := bind_eq_ok.mp hstep
      rw [if_neg (by rw [htag]; decide), if_pos htag] at hstep
      obtain ⟨file', hfile', hstep⟩ := bind_eq_ok.mp hstep
      rw [requiredAttr, mapError_orError, orError_eq_ok, hfile, Option.some.injEq] at hfile'
      subst hfile'
      obtain ⟨after', hvisit, -⟩ := bind_eq_ok.mp hstep
      refine ih ⟨rfl, hrest⟩ ?_ _ _ hvisit
      rw [List.length_cons] at hlong
      omega

/-! ### Validated databases -/

/-- The size `invalid_reference_profiles` computes for the expansion of a profile: its
`visits` at the end. -/
def computedSize (profiles : Profiles) (id : String) : Option ℕ :=
  let graph := referenceGraph profiles
  (Peeling.peel graph (referenceLimits true) profiles.keys.length (Peeling.start graph)).map fun s => s.visits id

/-- The computed size of a resolvable profile is that of its whole expansion. -/
theorem exists_computedSize {id : String} (hid : id ∈ profiles) (hok : Resolvable profiles id) :
    ∃ size, computedSize profiles id = some size ∧ ∀ depth, expansionSize profiles depth id ≤ size := by
  obtain ⟨s, hpeel, hdone, hpops⟩ := Peeling.peel_ends (referenceGraph profiles) (referenceLimits true)
  obtain ⟨popped, hinv⟩ := Peeling.inv_of_pops _ _ hpops
  have hvalid := (hinv.valid_iff_ok hdone (Std.TreeMap.mem_keys.mpr hid)).mpr hok
  refine ⟨s.visits id, ?_, fun depth => ?_⟩
  · show Option.map _ (Peeling.peel _ _ (referenceGraph profiles).vertices.length _) = _
    rw [hpeel]
    rfl
  · rw [← treeSize_eq depth hid]
    exact (hinv.size_exact rfl id hvalid).treeSize_le _ depth

/-- An expansion of a resolvable profile has no more than a million nodes. -/
theorem Resolvable.size_le {id : String} (hid : id ∈ profiles)
    (hok : Resolvable profiles id) (depth : ℕ) :
    expansionSize profiles depth id ≤ 1000000 := by
  cases hok with
  | intro _ _ _ hbig =>
    rw [← treeSize_eq depth hid]
    exact not_lt.mp fun hlarge => hbig ⟨_, rfl, depth, hlarge⟩

variable {c : Ciborium} {sha : Sha256}

/-- Every profile of a validated database is resolvable. -/
theorem resolvable_of_validate {bytes : List UInt8} {root : Cbor.Value}
    (hvalid : validate c sha bytes = .ok root) {db : WireDatabase}
    (hdb : decodeValue c sha root false = .ok db) {id : String} (hid : id ∈ db.profiles) :
    Resolvable db.profiles id := by
  obtain ⟨-, db', hdb', hinvalid⟩ := validate_ok hvalid
  obtain rfl : db' = db := Except.ok.inj (hdb'.symm.trans hdb)
  obtain ⟨ids, hids, hiff⟩ := invalidReferenceProfiles_eq_some db'.profiles true
  obtain rfl : ids = [] := Option.some.inj (hids.symm.trans hinvalid)
  by_contra hnot
  exact List.not_mem_nil ((hiff id).mpr ⟨hid, (ok_iff hid).mp hnot⟩)

/-- What is decoded of a validated database for the loader is what was validated. -/
theorem decode_of_validate {bytes : List UInt8} {root : Cbor.Value}
    (hvalid : validate c sha bytes = .ok root) {db db' : WireDatabase}
    (hdb : decodeValue c sha root false = .ok db) (hdecode : decode c sha bytes = .ok db') :
    db' = db := by
  obtain ⟨root', hvalue, hdecoded⟩ := bind_eq_ok.mp hdecode
  obtain rfl : root' = root := Except.ok.inj (hvalue.symm.trans (validate_ok hvalid).1)
  obtain ⟨required, hrequired, hconsumer⟩ := (decodeValue_ok hdecoded).extensions
  rw [Bool.and_true] at hconsumer
  subst hconsumer
  rw [decodeValue_consumer hrequired] at hdecoded
  exact Except.ok.inj (hdecoded.symm.trans hdb)

theorem holds_cborContext {db : WireDatabase} {context : DbContext}
    (h : cborContext db = .ok context) :
    Holds context db.profiles := by
  obtain ⟨options, -, h⟩ := bind_eq_ok.mp h
  cases h
  refine ⟨fun id profile hprofile => ?_, rfl⟩
  show (db.profiles.map fun _ node => Except.ok node)[id]? = _
  rw [Std.TreeMap.getElem?_map, hprofile]
  rfl

/-- **The producer's limits are enough for the loader.** A profile of a validated database
is loaded, under any CAPS and in any mode, without an error of a missing profile or of too
many visits, in no more calls than the producer counted for it; without an error of depth
where its include paths have at most 16 profiles; and where one has more, the load fails. -/
theorem includes_within {bytes : List UInt8} {root : Cbor.Value} {db : WireDatabase}
    (hvalid : validate c sha bytes = .ok root) (hdb : decodeValue c sha root false = .ok db) {pnpname : String}
    (hid : pnpname ∈ db.profiles) (caps : Caps) (faulttolerance : Bool) :
    (∀ context, decode c sha bytes >>= cborContext = .ok context →
        (∀ e, assemble translate context pnpname caps faulttolerance = .error e →
          e.missingProfile = false ∧ e ≠ visitsExceeded ∧
            ((∀ path, IncludePath db.profiles pnpname path → path.length ≤ 16) → ∀ file, e ≠ levelExceeded file)) ∧
          ∃ size, computedSize db.profiles pnpname = some size ∧
            assembleCalls translate context pnpname caps faulttolerance ≤ size) ∧
      ∀ path, IncludePath db.profiles pnpname path → 16 < path.length →
        (createDb translate (decode c sha bytes >>= cborContext).toOption pnpname caps faulttolerance).monitor = none := by
  have hok := resolvable_of_validate hvalid hdb hid
  have hcontext : ∀ context, decode c sha bytes >>= cborContext = .ok context → Holds context db.profiles := by
    intro context h
    obtain ⟨db', hdecode, hload⟩ := bind_eq_ok.mp h
    exact decode_of_validate hvalid hdb hdecode ▸ holds_cborContext hload
  refine ⟨fun context h => ⟨fun e he => ?_, ?_⟩, fun path hpath hlong => ?_⟩
  · have hroom : 0 + expansionSize db.profiles 17 pnpname ≤ 1000000 := by
      rw [Nat.zero_add]
      exact Resolvable.size_le hid hok 17
    exact (createDbProtected_visits translate (hcontext context h) (Nat.zero_le 16) hid hok
      (fun hshort => hshort) _ hroom).error he
  · obtain ⟨size, hsize, hbound⟩ := exists_computedSize hid hok
    exact ⟨size, hsize,
      (createDbProtectedCalls_le translate (hcontext context h) (Nat.zero_le 16) hid hok _).trans (hbound 17)⟩
  · cases h : decode c sha bytes >>= cborContext with
    | error e => rfl
    | ok context =>
      refine Option.eq_none_iff_forall_ne_some.mpr fun monitor hmonitor => ?_
      obtain ⟨assembly, hassembly, -⟩ := createDb_eq_some translate hmonitor
      exact createDbProtected_deep translate (hcontext context h) hpath hlong _ _ hassembly

end Includes

/-! ### An include -/

/-- The digest of the manifest of `includingRoot`. -/
def includingDigest : List UInt8 :=
  [0x87, 0xf3, 0xd3, 0xab, 0x9e, 0xde, 0x21, 0xca, 0x3d, 0xa6, 0x0d, 0x84, 0xee, 0x5c, 0x24, 0x47, 0x7d, 0x41, 0x15,
    0x7c, 0x25, 0x70, 0x3c, 0x6a, 0xaf, 0x47, 0x39, 0x7d, 0xa9, 0x20, 0x56, 0x6c]

/-- A database with a profile that includes another. -/
def includingRoot : Cbor.Value :=
  record [(0, .bytes (utf8 "DDCDB")), (1, .unsigned 1), (2, .text "r1"), (3, .unsigned 3), (4, .text "ddccontrol-db"),
    (5, record [(0, .unsigned 0), (1, record [(12, .unsigned 3), (13, .text "2026")]), (2, .array [])]),
    (6, .map [
      (.text "TST0001", record [(0, .unsigned 5), (1, record [(0, .text "Test")]),
        (2, .array [record [(0, .unsigned 7), (1, record [(9, .text "TST0002")]), (2, .array [])]])]),
      (.text "TST0002", record [(0, .unsigned 5), (1, record [(0, .text "Base"), (5, .text "standard")]),
        (2, .array [record [(0, .unsigned 8), (1, .map []), (2, .array [])]])])]),
    (8, .map [(.text "options.xml", .bytes (List.replicate 32 1)), (.text "monitor/TST0001.xml", .bytes (List.replicate 32 2)),
      (.text "monitor/TST0002.xml", .bytes (List.replicate 32 3))]),
    (9, .bytes includingDigest)]

/-- Its including profile is loaded within the limits. -/
theorem includingRoot_within :
    ∃ root db, validate .reference sha256 includingRoot.encode = .ok root ∧
      decodeValue .reference sha256 root false = .ok db ∧ "TST0001" ∈ db.profiles ∧
      (∀ context, decode .reference sha256 includingRoot.encode >>= cborContext = .ok context →
          (∀ e, assemble utf8 context "TST0001" .default false = .error e →
            e.missingProfile = false ∧ e ≠ visitsExceeded ∧
              ((∀ path, IncludePath db.profiles "TST0001" path → path.length ≤ 16) → ∀ file, e ≠ levelExceeded file)) ∧
            ∃ size, computedSize db.profiles "TST0001" = some size ∧
              assembleCalls utf8 context "TST0001" .default false ≤ size) ∧
        ∀ path, IncludePath db.profiles "TST0001" path → 16 < path.length →
          (createDb utf8 (decode .reference sha256 includingRoot.encode >>= cborContext).toOption "TST0001" .default
            false).monitor = none := by
  have hrun : (do
      let root ← validate .reference sha256 includingRoot.encode
      let db ← decodeValue .reference sha256 root false
      reject (!db.profiles.contains "TST0001") "no profile" : Except String Unit).isOk =
        true := by decide +kernel
  obtain ⟨_, h⟩ := exists_of_isOk hrun
  simp only [bind_eq_ok, reject_eq_ok, Bool.not_eq_false'] at h
  obtain ⟨root, hvalid, db, hdb, hid⟩ := h
  have hmem : "TST0001" ∈ db.profiles := Std.TreeMap.contains_iff_mem.mp hid
  exact ⟨root, db, hvalid, hdb, hmem, includes_within utf8 hvalid hdb hmem .default false⟩

/-- Two calls are made, as many as the producer counted. -/
example : (decode .reference sha256 includingRoot.encode >>= cborContext).toOption.map
    (fun context => assembleCalls utf8 context "TST0001" .default false) = some 2 := by decide +kernel

end DdcControl.Context
