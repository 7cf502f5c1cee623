import DdcControl.Library.LinkedList

/-!
# Deleting a profile

A monitor's profiles are a linked list. `ddcci_delete_profile` unlinks the file of a
profile, looks for the pointer to the profile in the list, makes it point past the
profile and frees the profile; `ddcci_free_profile` frees the profiles after it too.

## The model

Addresses are any type. `unlink` says which files can be unlinked. The walks have fuel,
and a step that reads or frees a profile that is not allocated has no result.

## What is proved

* `ddcciFreeProfile_eq` — freeing a profile frees the list that starts with it.
* `ddcciDeleteProfile_exact` — so a deletion removes exactly the profile when the profile
  is the last of the list, and only then.
-/

namespace DdcControl.Profiles

open LinkedList

/-- `struct profile`, without the link. -/
structure Profile where
  filename : String
  name : String
  pnpid : String
  size : ℕ
  address : List UInt8
  value : List UInt16
  deriving DecidableEq, Repr

section Deletion

variable {A : Type} [DecidableEq A]

/-- `ddcci_free_profile`. -/
def ddcciFreeProfile : ℕ → Heap A Profile → Option A → Option (Heap A Profile)
  | 0, _, _ => none
  | _ + 1, heap, none => some heap
  | fuel + 1, heap, some profile => do
    let cell ← heap profile
    let heap ← if cell.next.isSome then ddcciFreeProfile fuel heap cell.next else some heap
    heap.free profile

/-- The loop of `ddcci_delete_profile`, at a pointer of the list. -/
def deleteFrom (profile : A) : ℕ → Slot A → Memory A Profile → Option (Memory A Profile)
  | 0, _, _ => none
  | fuel + 1, profileptr, monitor =>
    match monitor.read profileptr with
    | none => none
    | some none => monitor.write profileptr (some profile)
    | some (some current) =>
      if current = profile then do
        let cell ← monitor.heap profile
        let monitor ← monitor.write profileptr cell.next
        let heap ← ddcciFreeProfile (fuel + 1) monitor.heap (some profile)
        return { monitor with heap }
      else deleteFrom profile fuel (.next current) monitor

/-- `ddcci_delete_profile`. -/
def ddcciDeleteProfile (unlink : String → Bool) (fuel : ℕ) (profile : A) (monitor : Memory A Profile) :
    Option (Memory A Profile) := do
  let cell ← monitor.heap profile
  if unlink cell.value.filename then deleteFrom profile fuel .head monitor else return monitor

/-! ### What is freed -/

/-- **Freeing a profile frees the list that starts with it.** -/
theorem ddcciFreeProfile_eq {heap : Heap A Profile} {profile : A} {l : List A}
    (h : IsList heap (some profile) (profile :: l)) {fuel : ℕ} (hfuel : l.length < fuel) :
    ddcciFreeProfile fuel heap (some profile) = some (heap.without (profile :: l)) := by
  induction l generalizing profile fuel with
  | nil =>
    obtain ⟨fuel, rfl⟩ := Nat.exists_eq_succ_of_ne_zero (Nat.ne_zero_of_lt hfuel)
    obtain ⟨_, cell, hcell, hend⟩ := segment_cons.mp h
    simp [ddcciFreeProfile, hcell, segment_nil.mp hend, Heap.free_eq hcell, Heap.without_cons]
  | cons next l ih =>
    obtain ⟨fuel, rfl⟩ := Nat.exists_eq_succ_of_ne_zero (Nat.ne_zero_of_lt hfuel)
    obtain ⟨_, cell, hcell, htail⟩ := segment_cons.mp h
    have hfresh : profile ∉ next :: l := (List.nodup_cons.mp (Segment.nodup h)).1
    have hnext : cell.next = some next := (segment_cons.mp htail).1
    rw [hnext] at htail
    have hkept : heap.without (next :: l) profile = some cell := by
      rw [Heap.without_apply, if_neg hfresh, hcell]
    simp [ddcciFreeProfile, hcell, hnext, ih htail (Nat.lt_of_succ_lt_succ hfuel),
      Heap.free_eq hkept, Heap.without_cons profile]

/-! ### The walk -/

/-- The walk passes the profiles that are not the one to delete. -/
theorem deleteFrom_skip {profile : A} {m : Memory A Profile} (before : List A) {mid : List A}
    (rest : List A) (h : IsList m.heap m.head (before ++ (mid ++ rest)))
    (hmid : profile ∉ mid) (fuel : ℕ) :
    deleteFrom profile (fuel + mid.length)
      (lastSlot before) m = deleteFrom profile fuel (lastSlot (before ++ mid)) m := by
  induction mid generalizing before with
  | nil => rw [List.append_nil]; rfl
  | cons x mid ih =>
    obtain ⟨b, hbefore, hrest⟩ := segment_append.mp h
    obtain ⟨rfl, _⟩ := segment_cons.mp hrest
    obtain ⟨hx, hmid⟩ := not_or.mp (mt List.mem_cons.mpr hmid)
    have hnext := ih (before ++ [x]) (by simpa using h) hmid
    rw [lastSlot_concat, List.append_assoc, List.singleton_append] at hnext
    rw [List.length_cons, ← Nat.add_assoc, deleteFrom, hbefore.read_last]
    exact (if_neg (Ne.symm hx)).trans hnext

/-- A profile that is not found is appended. -/
theorem deleteFrom_end {profile : A} {m : Memory A Profile} {l : List A}
    (h : IsList m.heap m.head l) (fuel : ℕ) :
    deleteFrom profile (fuel + 1) (lastSlot l) m = m.write (lastSlot l) (some profile) := by
  rw [deleteFrom, h.read_last]

/-- A profile that is found is passed, and freed with those after it. -/
theorem deleteFrom_found {profile : A} {m : Memory A Profile} {before tail : List A}
    (h : IsList m.heap m.head (before ++ profile :: tail)) {fuel : ℕ} (hfuel : tail.length ≤ fuel) :
    ∃ m', m.write (lastSlot before) tail.head? = some m' ∧
      deleteFrom profile (fuel + 1)
        (lastSlot before) m = some ⟨m'.head, m'.heap.without (profile :: tail)⟩ := by
  obtain ⟨b, hbefore, hrest⟩ := segment_append.mp h
  obtain ⟨rfl, cell, hcell, htail⟩ := segment_cons.mp hrest
  have hnodup := List.nodup_append.mp (Segment.nodup h)
  obtain ⟨m', hwrite, _, _, hframe⟩ := hbefore.write_last hnodup.1 tail.head?
  have hnext : cell.next = tail.head? := by
    cases tail with
    | nil => exact segment_nil.mp htail
    | cons next tail => exact (segment_cons.mp htail).1
  have hlist : IsList m'.heap (some profile) (profile :: tail) :=
    hrest.frame fun x hx => hframe x fun hbefore => hnodup.2.2 x hbefore x hx rfl
  refine ⟨m', hwrite, ?_⟩
  rw [deleteFrom, hbefore.read_last]
  simp [hcell, hnext, hwrite, ddcciFreeProfile_eq hlist (Nat.lt_succ_of_le hfuel)]

/-! ### What a deletion is for -/

/-- The list without the profile: the other profiles are in it, with what they held, and
the profile alone is freed. -/
structure Removed (profile : A) (l : List A) (m m' : Memory A Profile) : Prop where
  list : IsList m'.heap m'.head (l.erase profile)
  contents : ∀ x ∈ l.erase profile, (m'.heap x).map Cell.value = (m.heap x).map Cell.value
  freed : ∀ x, m'.heap x = none ↔ x = profile ∨ m.heap x = none

/-- A deletion removes exactly the profile, if it is in the list. -/
def DeletesExactly (profile : A) (l : List A) (m m' : Memory A Profile) : Prop :=
  (profile ∈ l → Removed profile l m m') ∧ (profile ∉ l → IsList m'.heap m'.head l)

/-- The last profile of a list is removed exactly. -/
theorem removed_last {profile : A} {m : Memory A Profile} {before : List A}
    (h : IsList m.heap m.head (before ++ [profile])) {m' : Memory A Profile}
    (hwrite : m.write (lastSlot before) none = some m') :
    Removed profile (before ++ [profile]) m ⟨m'.head, m'.heap.without [profile]⟩ := by
  obtain ⟨b, hbefore, _⟩ := segment_append.mp h
  have hnodup := List.nodup_append.mp (Segment.nodup h)
  have hfresh : profile ∉ before := fun hmem => hnodup.2.2 profile hmem profile List.mem_cons_self rfl
  have herase : (before ++ [profile]).erase profile = before := by
    rw [List.erase_append_right _ hfresh, List.erase_cons_head, List.append_nil]
  obtain ⟨m'', hwrite', hlist, hvalues, hframe⟩ := hbefore.write_last hnodup.1 none
  obtain rfl : m'' = m' := Option.some.inj (hwrite'.symm.trans hwrite)
  have hkept (x : A) (hx : x ≠ profile) : m''.heap.without [profile] x = m''.heap x := by
    rw [Heap.without_apply, if_neg (by simpa using hx)]
  refine ⟨?_, fun x hx => ?_, fun x => ?_⟩
  · rw [herase]
    exact hlist.frame fun x hx => hkept x (ne_of_mem_of_not_mem hx hfresh)
  · rw [herase] at hx
    show (m''.heap.without [profile] x).map _ = _
    rw [hkept x (ne_of_mem_of_not_mem hx hfresh), hvalues]
  · by_cases hx : x = profile
    · simp [hx, Heap.without]
    · show m''.heap.without [profile] x = none ↔ _
      rw [hkept x hx, ← Option.map_eq_none_iff, hvalues, Option.map_eq_none_iff]
      simp [hx]

/-- A profile that is not the last takes the next with it. -/
theorem not_removed_inner {profile next : A} {m : Memory A Profile} {before tail : List A}
    (h : IsList m.heap m.head (before ++ profile :: next :: tail)) (m' : Memory A Profile) :
    ¬ Removed profile (before ++ profile :: next :: tail) m
      ⟨m'.head, m'.heap.without (profile :: next :: tail)⟩ := by
  intro hremoved
  have hrest := (List.nodup_append.mp (Segment.nodup h)).2.1
  have hnext : next ≠ profile := fun heq => (List.nodup_cons.mp hrest).1 (by simp [heq])
  have hlisted : next ∈ (before ++ profile :: next :: tail).erase profile := by
    rw [List.mem_erase_of_ne hnext]
    simp
  obtain ⟨cell, hcell⟩ := hremoved.list.allocated hlisted
  simp [Heap.without] at hcell

/-- A list that a profile is appended to is not the list it was. -/
theorem not_unchanged_append {profile : A} {m m' : Memory A Profile} {l : List A}
    (h : IsList m.heap m.head l) (hwrite : m.write (lastSlot l) (some profile) = some m') :
    ¬ IsList m'.heap m'.head l := by
  intro hunchanged
  obtain ⟨m'', hwrite', happended, _⟩ := h.write_last (Segment.nodup h) (some profile)
  obtain rfl : m'' = m' := Option.some.inj (hwrite'.symm.trans hwrite)
  exact Option.some_ne_none _ (happended.end_unique hunchanged)

/-- **A deletion removes exactly the profile when the profile is the last of the list**, and
only then: those after it are freed too, and a profile that is not in the list is
appended. -/
theorem ddcciDeleteProfile_exact (unlink : String → Bool) {profile : A} {m : Memory A Profile} {l : List A}
    {cell : Cell A Profile} (hlist : IsList m.heap m.head l) (hcell : m.heap profile = some cell)
    (hunlink : unlink cell.value.filename = true) {fuel : ℕ} (hfuel : l.length < fuel) :
    (∃ m', ddcciDeleteProfile unlink fuel profile m = some m' ∧ DeletesExactly profile l m m') ↔
      l.getLast? = some profile := by
  have hdelete : ddcciDeleteProfile unlink fuel profile m = deleteFrom profile fuel (lastSlot []) m := by
    simp [ddcciDeleteProfile, hcell, hunlink, lastSlot]
  rw [hdelete]
  by_cases hmem : profile ∈ l
  · obtain ⟨before, tail, rfl⟩ := List.append_of_mem hmem
    have hnodup := List.nodup_append.mp (Segment.nodup hlist)
    have hfresh : profile ∉ before := fun hbefore =>
      hnodup.2.2 profile hbefore profile List.mem_cons_self rfl
    rw [List.length_append, List.length_cons] at hfuel
    obtain ⟨extra, rfl⟩ : ∃ extra, fuel = extra + 1 + before.length :=
      ⟨fuel - (1 + before.length), by omega⟩
    have hextra : tail.length ≤ extra := by omega
    obtain ⟨m', hwrite, hfound⟩ := deleteFrom_found hlist hextra
    rw [deleteFrom_skip [] (profile :: tail) hlist hfresh, List.nil_append, hfound]
    cases tail with
    | nil =>
      rw [List.getLast?_concat]
      exact iff_of_true ⟨_, rfl, fun _ => removed_last hlist hwrite, fun h => absurd hmem h⟩ rfl
    | cons next tail =>
      refine iff_of_false ?_ fun hlast => ?_
      · rintro ⟨_, heq, hremoved, _⟩
        cases heq
        exact not_removed_inner hlist m' (hremoved hmem)
      · rw [List.getLast?_append, List.getLast?_cons_cons] at hlast
        have hin : profile ∈ next :: tail := List.mem_of_getLast? (by simpa using hlast)
        exact (List.nodup_cons.mp hnodup.2.1).1 hin
  · obtain ⟨extra, rfl⟩ : ∃ extra, fuel = extra + 1 + l.length := ⟨fuel - (1 + l.length), by omega⟩
    rw [deleteFrom_skip [] [] (by simpa using hlist) hmem, List.nil_append, deleteFrom_end hlist]
    refine iff_of_false ?_ fun hlast => hmem (List.mem_of_getLast? hlast)
    rintro ⟨m', hwrite, _, hunchanged⟩
    exact not_unchanged_append hlist hwrite (hunchanged hmem)

end Deletion

/-! ### Two profiles -/

/-- A monitor with the profiles of two files. -/
def twoProfiles : Memory ℕ Profile where
  head := some 1
  heap
    | 1 => some ⟨⟨"day.xml", "Day", "SAM0001", 1, [0x10], [80]⟩, some 2⟩
    | 2 => some ⟨⟨"night.xml", "Night", "SAM0001", 1, [0x10], [20]⟩, none⟩
    | _ => none

theorem twoProfiles_list : IsList twoProfiles.heap twoProfiles.head [1, 2] :=
  .cons rfl (.cons rfl (.nil none))

/-- Deleting the second leaves the first. -/
theorem deleteSecond_exact :
    (∃ m', ddcciDeleteProfile (fun _ => true) 3 2 twoProfiles = some m' ∧ DeletesExactly 2 [1, 2] twoProfiles m') ↔
      [1, 2].getLast? = some 2 :=
  ddcciDeleteProfile_exact (fun _ => true) twoProfiles_list rfl rfl (by decide)

/-- Deleting the first frees the second, which is still listed. -/
theorem deleteFirst_loses :
    IsList twoProfiles.heap twoProfiles.head [1, 2] ∧
      (ddcciDeleteProfile (fun _ => true) 3 1 twoProfiles).map (fun m => (m.head, (m.heap 2).isSome)) =
        some (some 2, false) ∧
      ¬ ∃ m', ddcciDeleteProfile (fun _ => true) 3 1 twoProfiles = some m' ∧ DeletesExactly 1 [1, 2] twoProfiles m' := by
  have hfreed : (ddcciDeleteProfile (fun _ => true) 3 1 twoProfiles).map (fun m => (m.head, (m.heap 2).isSome)) =
      some (some 2, false) := rfl
  refine ⟨twoProfiles_list, hfreed, ?_⟩
  rintro ⟨m', heq, hremoved, _⟩
  obtain ⟨cell, hcell⟩ := (hremoved (by decide)).list.allocated (show 2 ∈ [1, 2].erase 1 by decide)
  rw [heq] at hfreed
  simp [hcell] at hfreed

end DdcControl.Profiles
