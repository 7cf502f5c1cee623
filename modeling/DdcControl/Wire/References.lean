import DdcControl.Database.Options
import DdcControl.Wire.Deterministic
import DdcControl.Library.Peeling

/-!
# Include references

`invalid_reference_profiles` decides, before any profile is interpreted, which ones
cannot be: those whose includes cannot all be resolved within the limits. It peels the
include graph from its leaves.

## The model

The source numbers the profiles and keeps its counters in vectors; here a counter is a
function of the profile's id, and the graph is that of `Peeling`: an entry for each
`include` of a profile, `none` where its file is missing or unknown. A counter that
would go below zero is an outcome of its own, and so is a loop that does not end.

## What is proved

`invalidReferenceProfiles_exact` — neither happens; the answer is the declarative one
of `Unresolvable`; and it is the same for every order in which ready profiles are popped.
-/

namespace DdcControl.Wire

open Database

/-- `MAX_INCLUDE_DEPTH`. -/
def maxIncludeDepth : ℕ := 256

/-- The profiles of a database by id. -/
abbrev Profiles := Std.TreeMap String Node

/-- The profiles a profile includes, an entry for each `include`. -/
def includeTargets (profiles : Profiles) (profile : Node) : List (Option String) :=
  (profile.childrenTagged "include").map fun child => (child.attr "file").filter profiles.contains

/-- The entries of an id's profile. -/
def targetsOf (profiles : Profiles) (id : String) : List (Option String) :=
  match profiles[id]? with
  | some profile => includeTargets profiles profile
  | none => []

theorem mem_of_some_mem_targetsOf {profiles : Profiles} {id file : String}
    (h : some file ∈ targetsOf profiles id) :
    file ∈ profiles := by
  unfold targetsOf at h
  split at h
  · obtain ⟨child, -, hchild⟩ := List.mem_map.mp h
    exact Std.TreeMap.contains_iff_mem.mp (Option.filter_eq_some_iff.mp hchild).2
  · cases h

/-- The include graph. -/
def referenceGraph (profiles : Profiles) : Peeling.Graph String where
  vertices := profiles.keys
  out := targetsOf profiles
  nodup := profiles.nodup_keys
  closed _ _ _ h := Std.TreeMap.mem_keys.mpr (mem_of_some_mem_targetsOf h)

/-- The limits on include paths and, where they are bounded, on visits. -/
def referenceLimits (boundVisits : Bool) : Peeling.Limits where
  height := maxIncludeDepth
  visits := if boundVisits then some maxContainer else none
  cap := usizeMax
  cap_pos := by decide
  visits_lt bound h := by
    cases boundVisits with
    | false => cases h
    | true =>
      cases h
      decide

/-- `invalid_reference_profiles`: `none` is a counter below zero, or no end. -/
def invalidReferenceProfiles (profiles : Profiles) (boundVisits : Bool) : Option (List String) :=
  let graph := referenceGraph profiles
  (Peeling.peel graph (referenceLimits boundVisits) profiles.keys.length (Peeling.start graph)).map fun s =>
    profiles.keys.filter fun id => !s.valid id

/-! ### What the answer means -/

/-- A profile includes another one of the database. -/
def Includes (profiles : Profiles) (id file : String) : Prop :=
  ∃ profile, profiles[id]? = some profile ∧
    ∃ child ∈ profile.children, child.tag = "include" ∧ child.attr "file" = some file ∧ file ∈ profiles

/-- A profile has an `include` without a file, or of a file that is no profile's id. -/
def Dangling (profiles : Profiles) (id : String) : Prop :=
  ∃ profile, profiles[id]? = some profile ∧
    ∃ child ∈ profile.children, child.tag = "include" ∧ ∀ file, child.attr "file" = some file → file ∉ profiles

/-- The nodes of a profile's expansion, cut at a depth: the profile and, for each
`include`, the expansion of the profile it includes. -/
def expansionSize (profiles : Profiles) : ℕ → String → ℕ
  | 0, _ => 0
  | depth + 1, id =>
    match profiles[id]? with
    | none => 0
    | some profile => 1 + ((profile.childrenTagged "include").map fun child =>
        (child.attr "file").elim 0 (expansionSize profiles depth)).sum

/-- The profiles reachable by includes. -/
abbrev Reaches (profiles : Profiles) : String → String → Prop := Relation.ReflTransGen (Includes profiles)

/-- A profile's includes cannot be resolved: it reaches a dangling include or a cycle,
some path of includes from it is too long, or, where visits are bounded, it reaches a
profile whose expansion is too large. -/
def Unresolvable (profiles : Profiles) (boundVisits : Bool) (id : String) : Prop :=
  (∃ other, Reaches profiles id other ∧ Dangling profiles other) ∨
    (∃ other, Reaches profiles id other ∧ Relation.TransGen (Includes profiles) other other) ∨
    (∃ path : List String, path.head? = some id ∧ path.IsChain (Includes profiles) ∧ maxIncludeDepth < path.length) ∨
    boundVisits = true ∧
      ∃ other, Reaches profiles id other ∧ ∃ depth, maxContainer < expansionSize profiles depth other

theorem edge_iff {profiles : Profiles} {id file : String} :
    (referenceGraph profiles).Edge id file ↔ Includes profiles id file := by
  show some file ∈ targetsOf profiles id ↔ _
  unfold targetsOf Includes
  cases profiles[id]? with
  | none => simp
  | some profile =>
    simp only [includeTargets, Node.childrenTagged, List.mem_map, List.mem_filter,
      decide_eq_true_eq, Option.filter_eq_some_iff, Std.TreeMap.contains_iff_mem, Option.some.injEq,
      exists_eq_left']
    constructor
    · rintro ⟨child, ⟨hc, htag⟩, hfile, hmem⟩
      exact ⟨child, hc, htag, hfile, hmem⟩
    · rintro ⟨child, hc, htag, hfile, hmem⟩
      exact ⟨child, ⟨hc, htag⟩, hfile, hmem⟩

theorem edge_eq (profiles : Profiles) : (referenceGraph profiles).Edge = Includes profiles := by
  funext id file
  exact propext edge_iff

theorem none_mem_iff {profiles : Profiles} {id : String} :
    none ∈ (referenceGraph profiles).out id ↔ Dangling profiles id := by
  show none ∈ targetsOf profiles id ↔ _
  unfold targetsOf Dangling
  cases profiles[id]? with
  | none => simp
  | some profile =>
    simp only [includeTargets, Node.childrenTagged, List.mem_map, List.mem_filter,
      decide_eq_true_eq, Option.filter_eq_none_iff, Std.TreeMap.contains_iff_mem, Option.some.injEq,
      exists_eq_left']
    constructor
    · rintro ⟨child, ⟨hc, htag⟩, hfile⟩
      exact ⟨child, hc, htag, hfile⟩
    · rintro ⟨child, hc, htag, hfile⟩
      exact ⟨child, ⟨hc, htag⟩, hfile⟩

/-- The expansion tree of the graph is that of the profiles. -/
theorem treeSize_eq {profiles : Profiles} (depth : ℕ) {id : String} (h : id ∈ profiles) :
    (referenceGraph profiles).treeSize depth id = expansionSize profiles depth id := by
  induction depth generalizing id with
  | zero => rfl
  | succ depth ih =>
    obtain ⟨profile, hprofile⟩ := Option.isSome_iff_exists.mp (Std.TreeMap.mem_iff_isSome_getElem?.mp h)
    rw [Peeling.Graph.treeSize, expansionSize]
    show 1 + ((targetsOf profiles id).map _).sum = _
    rw [targetsOf, hprofile]
    simp only [includeTargets, List.map_map]
    congr 2
    refine List.map_congr_left fun child _ => ?_
    rw [Function.comp_apply]
    cases hfile : child.attr "file" with
    | none => rfl
    | some file =>
      by_cases hmem : file ∈ profiles
      · rw [Option.filter_some, if_pos (Std.TreeMap.contains_iff_mem.mpr hmem)]
        exact ih hmem
      · rw [Option.filter_some, if_neg (fun h => hmem (Std.TreeMap.contains_iff_mem.mp h))]
        show 0 = expansionSize profiles depth file
        cases depth with
        | zero => rfl
        | succ depth => rw [expansionSize, Std.TreeMap.getElem?_eq_none hmem]

theorem reaches_mem {profiles : Profiles} {id other : String} (h : id ∈ profiles)
    (hreach : Reaches profiles id other) :
    other ∈ profiles := by
  induction hreach with
  | refl => exact h
  | tail _ hedge _ =>
    obtain ⟨_, _, _, _, _, _, hmem⟩ := hedge
    exact hmem

/-- The fit profiles of the graph are the resolvable ones. -/
theorem ok_iff {profiles : Profiles} {boundVisits : Bool} {id : String} (h : id ∈ profiles) :
    ¬Peeling.Ok (referenceGraph profiles)
      (referenceLimits boundVisits) id ↔ Unresolvable profiles boundVisits id := by
  rw [Peeling.not_ok_iff, Unresolvable]
  simp only [Peeling.Graph.Reaches, Peeling.Deep, Peeling.Graph.Path, edge_eq,
    none_mem_iff, and_assoc]
  refine or_congr_right (or_congr_right (or_congr_right ?_))
  constructor
  · rintro ⟨other, hreach, bound, hbound, depth, hsize⟩
    cases boundVisits with
    | false => cases hbound
    | true =>
      cases hbound
      exact ⟨rfl, other, hreach, depth, treeSize_eq depth (reaches_mem h hreach) ▸ hsize⟩
  · rintro ⟨rfl, other, hreach, depth, hsize⟩
    exact ⟨other, hreach, maxContainer, rfl, depth,
      (treeSize_eq depth (reaches_mem h hreach)).symm ▸ hsize⟩

/-- The profiles left out when nothing is ready are the unresolvable ones. -/
theorem filter_valid {profiles : Profiles} {boundVisits : Bool} {s : Peeling.State String}
    (h : Relation.ReflTransGen (Peeling.Pops (referenceGraph profiles) (referenceLimits boundVisits))
      (Peeling.start (referenceGraph profiles)) s) (hdone : s.ready = []) {id : String} :
    id ∈ profiles.keys.filter (fun id => !s.valid id) ↔ id ∈ profiles ∧
    Unresolvable profiles boundVisits id := by
  obtain ⟨popped, hinv⟩ := Peeling.inv_of_pops _ _ h
  rw [List.mem_filter, Std.TreeMap.mem_keys, Bool.not_eq_true', ← Bool.not_eq_true]
  refine and_congr_right fun hmem => ?_
  rw [hinv.valid_iff_ok hdone (Std.TreeMap.mem_keys.mpr hmem), ok_iff hmem]

/-- The solver ends, with the unresolvable profiles. -/
theorem invalidReferenceProfiles_eq_some (profiles : Profiles) (boundVisits : Bool) :
    ∃ ids, invalidReferenceProfiles profiles boundVisits = some ids ∧
      ∀ id, id ∈ ids ↔ id ∈ profiles ∧ Unresolvable profiles boundVisits id := by
  obtain ⟨s, hpeel, hdone, hpops⟩ := Peeling.peel_ends (referenceGraph profiles) (referenceLimits boundVisits)
  refine ⟨profiles.keys.filter fun id => !s.valid id, ?_, fun id => filter_valid hpops hdone⟩
  show Option.map _ (Peeling.peel _ _ (referenceGraph profiles).vertices.length _) = _
  rw [hpeel]
  rfl

/-! ### Profiles with the same includes -/

/-- Two maps of profiles differ at most in what is not a child. -/
def SameChildren (profiles profiles' : Profiles) : Prop :=
  ∀ id : String, (profiles[id]?).map Node.children = (profiles'[id]?).map Node.children

theorem SameChildren.symm {profiles profiles' : Profiles} (h : SameChildren profiles profiles') :
    SameChildren profiles' profiles := fun id => (h id).symm

theorem SameChildren.mem {profiles profiles' : Profiles}
    (h : SameChildren profiles profiles') {id : String} (hid : id ∈ profiles) : id ∈ profiles' := by
  rw [Std.TreeMap.mem_iff_isSome_getElem?] at hid ⊢
  have := congrArg Option.isSome (h id)
  rwa [Option.isSome_map, Option.isSome_map, hid, eq_comm] at this

theorem SameChildren.getElem? {profiles profiles' : Profiles}
    (h : SameChildren profiles profiles') {id : String} {profile : Node}
    (hprofile : profiles[id]? = some profile) :
    ∃ profile', profiles'[id]? = some profile' ∧ profile'.children = profile.children := by
  have := h id
  rw [hprofile, Option.map_some, eq_comm, Option.map_eq_some_iff] at this
  exact this

theorem SameChildren.includes {profiles profiles' : Profiles} (h : SameChildren profiles profiles')
    {id file : String} (hedge : Includes profiles id file) : Includes profiles' id file := by
  obtain ⟨profile, hprofile, child, hc, htag, hfile, hmem⟩ := hedge
  obtain ⟨profile', hprofile', hchildren⟩ := h.getElem? hprofile
  exact ⟨profile', hprofile', child, hchildren ▸ hc, htag, hfile, h.mem hmem⟩

theorem SameChildren.dangling {profiles profiles' : Profiles}
    (h : SameChildren profiles profiles') {id : String} (hdangling : Dangling profiles id) :
    Dangling profiles' id := by
  obtain ⟨profile, hprofile, child, hc, htag, hfile⟩ := hdangling
  obtain ⟨profile', hprofile', hchildren⟩ := h.getElem? hprofile
  exact ⟨profile', hprofile', child, hchildren ▸ hc, htag,
    fun file hattr hmem => hfile file hattr (h.symm.mem hmem)⟩

theorem SameChildren.expansionSize_eq {profiles profiles' : Profiles}
    (h : SameChildren profiles profiles') (depth : ℕ) (id : String) :
    expansionSize profiles depth id = expansionSize profiles' depth id := by
  induction depth generalizing id with
  | zero => rfl
  | succ depth ih =>
    rw [expansionSize, expansionSize]
    cases hprofile : profiles[id]? with
    | none =>
      have := h id
      rw [hprofile, Option.map_none, eq_comm, Option.map_eq_none_iff] at this
      rw [this]
    | some profile =>
      obtain ⟨profile', hprofile', hchildren⟩ := h.getElem? hprofile
      have : expansionSize profiles depth = expansionSize profiles' depth := funext ih
      rw [hprofile']
      simp only [Node.childrenTagged, hchildren, this]

/-- A profile's includes are resolved without regard to what is not a child. -/
theorem SameChildren.unresolvable {profiles profiles' : Profiles}
    (h : SameChildren profiles profiles') {boundVisits : Bool} {id : String}
    (hid : Unresolvable profiles boundVisits id) :
    Unresolvable profiles' boundVisits id := by
  have hedge : ∀ id file, Includes profiles id file → Includes profiles' id file :=
    fun _ _ => h.includes
  rcases hid with ⟨other, hreach, hdangling⟩ | ⟨other, hreach, hcycle⟩ | ⟨path, hhead, hchain, hlen⟩ |
    ⟨hbound, other, hreach, depth, hsize⟩
  · exact .inl ⟨other, Relation.ReflTransGen.mono hedge _ _ hreach, h.dangling hdangling⟩
  · exact .inr (.inl ⟨other, Relation.ReflTransGen.mono hedge _ _ hreach, Relation.TransGen.mono hedge _ _ hcycle⟩)
  · exact .inr (.inr (.inl ⟨path, hhead, hchain.imp hedge, hlen⟩))
  · exact .inr (.inr (.inr ⟨hbound, other, Relation.ReflTransGen.mono hedge _ _ hreach,
      depth, by rwa [← h.expansionSize_eq]⟩))

/-- Bounded visits leave out no fewer profiles. -/
theorem Unresolvable.bounded {profiles : Profiles} {id : String}
    (h : Unresolvable profiles false id) :
    Unresolvable profiles true id := by
  rcases h with h | h | h | ⟨hbound, -⟩
  · exact .inl h
  · exact .inr (.inl h)
  · exact .inr (.inr (.inl h))
  · cases hbound

/-- **The include solver is exact and order independent.** It ends without a counter
going below zero; it returns the unresolvable profiles; and every way of popping ready
profiles goes on without a fault until none is ready, and gives the same answer. -/
theorem invalidReferenceProfiles_exact (profiles : Profiles) (boundVisits : Bool) :
    ∃ ids, invalidReferenceProfiles profiles boundVisits = some ids ∧
      (∀ id, id ∈ ids ↔ id ∈ profiles ∧ Unresolvable profiles boundVisits id) ∧
      ∀ s, Relation.ReflTransGen (Peeling.Pops (referenceGraph profiles) (referenceLimits boundVisits))
          (Peeling.start (referenceGraph profiles)) s →
        (∀ id rest, s.ready.Perm (id :: rest) →
          (Peeling.visit (referenceGraph profiles) (referenceLimits boundVisits) id { s with ready := rest }).isSome) ∧
        (s.ready = [] → (profiles.keys.filter fun id => !s.valid id) = ids) := by
  obtain ⟨s, hpeel, hdone, hpops⟩ := Peeling.peel_ends (referenceGraph profiles) (referenceLimits boundVisits)
  refine ⟨profiles.keys.filter fun id => !s.valid id, ?_, fun id => filter_valid hpops hdone,
    fun s' hpops' => ⟨?_, ?_⟩⟩
  · show Option.map _ (Peeling.peel _ _ (referenceGraph profiles).vertices.length _) = _
    rw [hpeel]
    rfl
  · intro id rest hready
    obtain ⟨popped, hinv⟩ := Peeling.inv_of_pops _ _ hpops'
    obtain ⟨s'', hvisit, -⟩ := hinv.visit hready
    rw [hvisit]
    rfl
  · intro hdone'
    refine List.filter_congr fun id hid => ?_
    have hmem := Std.TreeMap.mem_keys.mp hid
    have h := @filter_valid profiles boundVisits s hpops hdone id
    have h' := @filter_valid profiles boundVisits s' hpops' hdone' id
    simp only [List.mem_filter, hid, hmem, true_and] at h h'
    exact Bool.eq_iff_iff.mpr (h'.trans h.symm)

end DdcControl.Wire
