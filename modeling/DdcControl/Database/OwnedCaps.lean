import DdcControl.Database.OwnedTree
import DdcControl.Capabilities.Patch
import Mathlib.Data.List.Nodup

/-!
# CAPS tables in C memory

`CCaps` is the C program's table of capabilities: a slot for each code, null or a pointer to
an entry, which may have an array of values. `ddccontrol_caps_parse` reads the table into a
`Caps`, patches that and writes it back; where an object cannot be allocated it empties the
table.

`ddcci_create_db` works on a copy of its caller's table, and swaps the two tables once it has
a tree.

## What is proved

* `capsFromC_triple`, `replaceCCaps_triple` — the two conversions, so what is written back is
  what is read again.
* `capsParse_triple` — a patch in C memory is a patch of the `Caps`, or the table is emptied.
-/

namespace DdcControl.Database.Memory

open Ownership Ownership.Assertion Capabilities

variable {A : Type} [DecidableEq A]

/-- `CCaps`, without the text, which these functions leave alone. -/
structure CCaps (A : Type) where
  vcp : UInt8 → Option A
  monitorType : ℤ

/-- The codes of a table, in its order. -/
def codes : List UInt8 := (List.range 256).map fun n => .ofNat n

theorem mem_codes (code : UInt8) : code ∈ codes := by
  refine List.mem_map.mpr ⟨code.toNat, List.mem_range.mpr (UInt8.toNat_lt code), ?_⟩
  exact UInt8.ofNat_toNat

theorem nodup_codes : codes.Nodup := by
  refine List.Nodup.map_on (fun m hm n hn h => ?_) List.nodup_range
  have h' := congrArg UInt8.toNat h
  rwa [UInt8.toNat_ofNat', UInt8.toNat_ofNat', Nat.mod_eq_of_lt (List.mem_range.mp hm),
    Nat.mod_eq_of_lt (List.mem_range.mp hn)] at h'

/-! ### Reading a table -/

/-- `monitor_type`, read. -/
def monitorTypeFromC : ℤ → MonitorType
  | 1 => .lcd
  | 2 => .crt
  | _ => .unknown

/-- `monitor_type`, written. -/
def monitorTypeToC : MonitorType → ℤ
  | .unknown => 0
  | .lcd => 1
  | .crt => 2

/-- The values of an entry, read. -/
def valuesFromC (entry : CVcpEntry A) : Program A (Object A) (Option (List UInt16)) :=
  if entry.valuesLen < 0 then return none
  else if entry.valuesLen = 0 then return some []
  else
    match entry.values with
    | none => return some []
    | some values => do
      let content ← readAs Object.toShorts values
      if entry.valuesLen ≤ content.length then return some (content.take entry.valuesLen.toNat) else stuck

/-- An entry, read. -/
def entryFromC (entry : A) : Program A (Object A) VcpEntry := do
  let content ← readAs Object.toEntry entry
  return ⟨← valuesFromC content⟩

/-- The loop of `caps_from_c`. -/
def capsFromCLoop (caps : CCaps A) : List UInt8 → Caps → Program A (Object A) Caps
  | [], rustCaps => return rustCaps
  | code :: rest, rustCaps =>
    match caps.vcp code with
    | none => capsFromCLoop caps rest rustCaps
    | some entry => do
      let entry ← entryFromC entry
      capsFromCLoop caps rest { rustCaps with vcp := Function.update rustCaps.vcp code (some entry) }

/-- `caps_from_c`. -/
def capsFromC (caps : CCaps A) : Program A (Object A) Caps :=
  capsFromCLoop caps codes { Caps.default with monitorType := monitorTypeFromC caps.monitorType }

/-! ### Writing a table -/

/-- One entry of `free_c_vcp_entries`. -/
def freeEntry (entry : A) : Program A (Object A) Unit := do
  let content ← readAs Object.toEntry entry
  free content.values
  free (some entry)

/-- The loop of `free_c_vcp_entries`. -/
def freeCVcpEntriesLoop : List UInt8 → CCaps A → Program A (Object A) (CCaps A)
  | [], caps => return caps
  | code :: rest, caps =>
    match caps.vcp code with
    | none => freeCVcpEntriesLoop rest caps
    | some entry => do
      freeEntry entry
      freeCVcpEntriesLoop rest { caps with vcp := Function.update caps.vcp code none }

/-- `free_c_vcp_entries`. -/
def freeCVcpEntries (caps : CCaps A) : Program A (Object A) (CCaps A) := freeCVcpEntriesLoop codes caps

section Allocating

variable (allocator : Allocator A (Object A))

/-- One entry of `replace_c_caps`, whose fields are written once its values are. -/
def entryToC (values : Option (List UInt16)) : Program A (Object A) (Option A) := do
  match ← malloc allocator .raw with
  | none => return none
  | some cEntry =>
    match values with
    | none =>
      write cEntry (.entry ⟨-1, none⟩)
      return some cEntry
    | some [] =>
      write cEntry (.entry ⟨0, none⟩)
      return some cEntry
    | some (value :: values) =>
      match ← malloc allocator .raw with
      | none =>
        free (some cEntry)
        return none
      | some cValues =>
        write cValues (.shorts (value :: values))
        write cEntry (.entry ⟨asCInt (value :: values).length, some cValues⟩)
        return some cEntry

/-- The loop of `replace_c_caps`, and whether it came to its end. -/
def replaceCCapsLoop (rustCaps : Caps) : List UInt8 → CCaps A → Program A (Object A) (Bool × CCaps A)
  | [], caps => return (true, caps)
  | code :: rest, caps =>
    match rustCaps.vcp code with
    | none => replaceCCapsLoop rustCaps rest caps
    | some entry => do
      match ← entryToC allocator entry.values with
      | none => return (false, caps)
      | some cEntry =>
        replaceCCapsLoop rustCaps rest { caps with vcp := Function.update caps.vcp code (some cEntry) }

/-- `replace_c_caps`. -/
def replaceCCaps (caps : CCaps A) (rustCaps : Caps) : Program A (Object A) (Bool × CCaps A) := do
  let caps ← freeCVcpEntries caps
  replaceCCapsLoop allocator rustCaps codes { caps with monitorType := monitorTypeToC rustCaps.monitorType }

/-- `ddccontrol_caps_parse_inner`, on pointers that are not null. -/
def capsParse (input : String) (caps : CCaps A) (edit : Edit) : Program A (Object A) (ℤ × CCaps A) := do
  let rustCaps ← capsFromC caps
  match rustCaps.apply (utf8 input) edit with
  | .ok (rustCaps, count) =>
    match ← replaceCCaps allocator caps rustCaps with
    | (true, caps) => return (asCInt count, caps)
    | (false, caps) => return (-1, ← freeCVcpEntries caps)
  | .error _ => return (-1, ← freeCVcpEntries caps)

end Allocating

/-! ### What a table owns -/

/-- The values of an entry, with its array. -/
def entryValuesAt (values : Option (List UInt16)) (entry : CVcpEntry A) : Assertion A (Object A) :=
  match entry.values with
  | none => lift (values = if entry.valuesLen < 0 then none else some [])
  | some p => any fun content =>
      lift (entry.valuesLen ≤ (content : List UInt16).length ∧
        values = if entry.valuesLen < 0 then none else some (content.take entry.valuesLen.toNat)) *
      pointsTo p (.shorts content)

/-- An entry, with its values. -/
def entryAt (entry : VcpEntry) (a : A) : Assertion A (Object A) :=
  any fun content : CVcpEntry A => pointsTo a (.entry content) * entryValuesAt entry.values content

/-- A slot of the table. -/
def slotAt : Option VcpEntry → Option A → Assertion A (Object A)
  | none, p => lift (p = none)
  | some entry, p => any fun a => lift (p = some a) * entryAt entry a

/-- The slots of some codes. -/
def slotsAt (vcp : UInt8 → Option VcpEntry) (caps : CCaps A) (l : List UInt8) : Assertion A (Object A) :=
  (l.map fun code => slotAt (vcp code) (caps.vcp code)).prod

/-- A table. -/
def capsAt (rustCaps : Caps) (caps : CCaps A) : Assertion A (Object A) :=
  lift (rustCaps.monitorType = monitorTypeFromC caps.monitorType) * slotsAt rustCaps.vcp caps codes

/-! ### The rules of reading -/

theorem valuesFromC_triple (values : Option (List UInt16)) (entry : CVcpEntry A) :
    Triple (entryValuesAt values entry) (valuesFromC entry)
      fun values' => lift (values' = values) * entryValuesAt values entry := by
  obtain ⟨valuesLen, p⟩ := entry
  cases p with
  | none =>
    rw [entryValuesAt, ← mul_one (lift _)]
    refine Triple.of_lift fun hv => ?_
    have hread : valuesFromC (⟨valuesLen, none⟩ : CVcpEntry A) = pure values := by
      simp only [valuesFromC, hv]
      split_ifs <;> rfl
    rw [hread]
    exact Triple.result fun h hh => lift_mul_apply.mpr ⟨rfl, lift_mul_apply.mpr ⟨hv, hh⟩⟩
  | some p =>
    refine Triple.of_any fun content => Triple.of_lift fun hc => ?_
    obtain ⟨hlength, hv⟩ := hc
    have hown : ∀ h, pointsTo p (Object.shorts content) h →
        (lift (values = values) * entryValuesAt values ⟨valuesLen, some p⟩ : Assertion A (Object A)) h :=
      fun h hh => lift_mul_apply.mpr ⟨rfl, content, lift_mul_apply.mpr ⟨⟨hlength, hv⟩, hh⟩⟩
    simp only [valuesFromC]
    split_ifs with hneg hzero
    · rw [if_pos hneg] at hv
      subst hv
      exact Triple.result hown
    · rw [if_neg hneg, hzero] at hv
      subst hv
      exact Triple.result hown
    · rw [if_neg hneg] at hv
      subst hv
      refine readAs_step Object.toShorts rfl (mul_one _).symm ?_
      rw [mul_one, if_pos hlength]
      exact Triple.result hown

theorem entryFromC_triple (entry : VcpEntry) (a : A) :
    Triple (entryAt entry a) (entryFromC a) fun entry' => lift (entry' = entry) * entryAt entry a := by
  refine Triple.of_any fun content => ?_
  refine readAs_step Object.toEntry rfl rfl ?_
  refine (valuesFromC_triple entry.values content).step _ (mul_comm ..) fun values => ?_
  rw [mul_assoc]
  refine Triple.of_lift fun hv => ?_
  subst hv
  refine Triple.result fun h hh => lift_mul_apply.mpr ⟨rfl, content, ?_⟩
  rwa [mul_comm] at hh

/-- An entry, inserted if there is one. -/
def insertVcp (vcp : UInt8 → Option VcpEntry) (caps : Caps) (code : UInt8) : Caps :=
  match vcp code with
  | none => caps
  | some entry => { caps with vcp := Function.update caps.vcp code (some entry) }

theorem foldl_insertVcp_apply (vcp : UInt8 → Option VcpEntry) (l : List UInt8) (caps : Caps) (code : UInt8) :
    (l.foldl (insertVcp vcp) caps).vcp code =
      if code ∈ l then (vcp code).or (caps.vcp code) else caps.vcp code := by
  induction l generalizing caps with
  | nil => rfl
  | cons c l ih =>
    rw [List.foldl_cons, ih]
    by_cases hc : code = c
    · subst hc
      cases hv : vcp code <;> simp [insertVcp, hv]
    · cases hv : vcp c <;> simp [insertVcp, hv, hc]

theorem foldl_insertVcp_monitorType (vcp : UInt8 → Option VcpEntry) (l : List UInt8) (caps : Caps) :
    (l.foldl (insertVcp vcp) caps).monitorType = caps.monitorType := by
  induction l generalizing caps with
  | nil => rfl
  | cons c l ih =>
    rw [List.foldl_cons, ih, insertVcp]
    cases vcp c <;> rfl

theorem slotsAt_cons (vcp : UInt8 → Option VcpEntry) (caps : CCaps A) (code : UInt8) (l : List UInt8) :
    slotsAt vcp caps (code :: l) = slotAt (vcp code) (caps.vcp code) * slotsAt vcp caps l := by
  rw [slotsAt, List.map_cons, List.prod_cons, slotsAt]

theorem capsFromCLoop_triple (vcp : UInt8 → Option VcpEntry) (caps : CCaps A) (l : List UInt8)
    (rustCaps : Caps) :
    Triple (slotsAt vcp caps l) (capsFromCLoop caps l rustCaps)
      fun rustCaps' => lift (rustCaps' = l.foldl (insertVcp vcp) rustCaps) * slotsAt vcp caps l := by
  induction l generalizing rustCaps with
  | nil => exact Triple.result fun h hh => lift_mul_apply.mpr ⟨rfl, hh⟩
  | cons code l ih =>
    simp only [slotsAt_cons, List.foldl_cons, insertVcp, capsFromCLoop]
    cases vcp code with
    | none =>
      refine Triple.of_lift fun hp => ?_
      rw [hp]
      refine (ih rustCaps).post fun rustCaps' h hh => ?_
      rw [mul_left_comm]
      exact lift_mul_apply.mpr ⟨rfl, hh⟩
    | some entry =>
      rw [slotAt, any_mul]
      refine Triple.of_any fun a => ?_
      rw [mul_assoc]
      refine Triple.of_lift fun hp => ?_
      rw [hp]
      refine (entryFromC_triple entry a).step _ rfl fun entry' => ?_
      rw [mul_assoc]
      refine Triple.of_lift fun he => ?_
      subst he
      refine ((ih _).frame (entryAt entry' a)).consequence (fun h hh => mul_comm (entryAt entry' a) _ ▸ hh)
        fun rustCaps' h hh => ?_
      rw [mul_assoc] at hh
      obtain ⟨hr, hh⟩ := lift_mul_apply.mp hh
      refine lift_mul_apply.mpr ⟨hr, a, ?_⟩
      change (lift (some a = some a) * entryAt entry' a * slotsAt vcp caps l : Assertion A (Object A)) h
      rw [mul_assoc, mul_comm (entryAt entry' a)]
      exact lift_mul_apply.mpr ⟨rfl, hh⟩

/-- **A table is read as what it holds.** -/
theorem capsFromC_triple (rustCaps : Caps) (caps : CCaps A) :
    Triple (capsAt rustCaps caps) (capsFromC caps)
      fun rustCaps' => lift (rustCaps' = rustCaps) * capsAt rustCaps caps := by
  refine Triple.of_lift fun ht => ?_
  refine (capsFromCLoop_triple rustCaps.vcp caps codes _).post fun rustCaps' h hh => ?_
  obtain ⟨hr, hh⟩ := lift_mul_apply.mp hh
  refine lift_mul_apply.mpr ⟨?_, lift_mul_apply.mpr ⟨ht, hh⟩⟩
  obtain ⟨monitorType, vcp⟩ := rustCaps
  have hvcp : rustCaps'.vcp = vcp := by
    funext code
    rw [hr, foldl_insertVcp_apply, if_pos (mem_codes code)]
    exact Option.or_none
  have htype : rustCaps'.monitorType = monitorType := by
    rw [hr, foldl_insertVcp_monitorType]
    exact ht.symm
  cases rustCaps'
  cases hvcp
  cases htype
  rfl

/-! ### The rules of freeing -/

theorem freeEntry_triple (entry : VcpEntry) (a : A) :
    Triple (entryAt entry a) (freeEntry a) fun _ => 1 := by
  refine Triple.of_any fun content => ?_
  refine readAs_step Object.toEntry rfl rfl ?_
  have hvalues : Triple (entryValuesAt entry.values content) (free content.values) fun _ => 1 := by
    rw [entryValuesAt]
    cases content.values with
    | none =>
      rw [← mul_one (lift _)]
      exact Triple.of_lift fun _ => free_null_triple
    | some p => exact Triple.of_any fun values => Triple.of_lift fun _ => free_triple p _
  refine hvalues.release (mul_comm ..) fun _ => ?_
  exact free_triple a _

/-- The table, with the slots of `l` empty. -/
def CCaps.clear (caps : CCaps A) (l : List UInt8) : CCaps A :=
  { caps with vcp := fun code => if code ∈ l then none else caps.vcp code }

theorem freeCVcpEntriesLoop_triple (vcp : UInt8 → Option VcpEntry) (caps : CCaps A) {l : List UInt8}
    (hl : l.Nodup) :
    Triple (slotsAt vcp caps l) (freeCVcpEntriesLoop l caps) fun caps' => lift (caps' = caps.clear l) := by
  induction l generalizing caps with
  | nil => exact Triple.result fun h hh => ⟨by simp [CCaps.clear], hh⟩
  | cons code l ih =>
    obtain ⟨hcode, hl⟩ := List.nodup_cons.mp hl
    simp only [slotsAt_cons, freeCVcpEntriesLoop]
    cases vcp code with
    | none =>
      refine Triple.of_lift fun hp => ?_
      rw [hp]
      refine (ih caps hl).post fun caps' h hh => ⟨hh.1.trans ?_, hh.2⟩
      simp only [CCaps.clear, CCaps.mk.injEq, and_true]
      funext c
      by_cases hc : c = code
      · simp [hc, hp]
      · simp [hc]
    | some entry =>
      rw [slotAt, any_mul]
      refine Triple.of_any fun a => ?_
      rw [mul_assoc]
      refine Triple.of_lift fun hp => ?_
      rw [hp]
      refine (freeEntry_triple entry a).release rfl fun _ => ?_
      have hslots : slotsAt vcp caps l =
          slotsAt vcp { caps with vcp := Function.update caps.vcp code none } l := by
        refine congrArg List.prod (List.map_congr_left fun c hc => ?_)
        dsimp only
        rw [Function.update_of_ne (ne_of_mem_of_not_mem hc hcode)]
      rw [hslots]
      refine (ih _ hl).post fun caps' h hh => ⟨hh.1.trans ?_, hh.2⟩
      simp only [CCaps.clear, CCaps.mk.injEq, and_true]
      funext c
      by_cases hc : c = code
      · simp [hc]
      · simp [hc]

/-- **A table is emptied.** -/
theorem freeCVcpEntries_triple (vcp : UInt8 → Option VcpEntry) (caps : CCaps A) :
    Triple (slotsAt vcp caps codes) (freeCVcpEntries caps)
      fun caps' => lift (caps' = { caps with vcp := fun _ => none }) := by
  refine (freeCVcpEntriesLoop_triple vcp caps nodup_codes).post fun caps' h hh => ⟨hh.1.trans ?_, hh.2⟩
  simp [CCaps.clear, mem_codes]

/-! ### The rules of writing -/

/-- The lists of values have lengths that a `c_int` can hold. -/
def Representable (vcp : UInt8 → Option VcpEntry) : Prop :=
  ∀ code, ∀ entry ∈ vcp code, ∀ values ∈ entry.values, values.length < 2 ^ 31

section Writing

variable {allocator : Allocator A (Object A)}

theorem entryAt_of {entry : VcpEntry} {a : A} {h : Heap A (Object A)} (content : CVcpEntry A)
    (hh : (pointsTo a (Object.entry content) * entryValuesAt entry.values content : Assertion A (Object A)) h) :
    entryAt entry a h :=
  ⟨content, hh⟩

theorem entryToC_obtains {values : Option (List UInt16)} (hlength : ∀ l ∈ values, l.length < 2 ^ 31) :
    Obtains False 1 (entryToC allocator values) fun a => entryAt ⟨values⟩ a := by
  refine (malloc_obtains False allocator _).acquire (fun _ hp => Triple.fail hp) fun a => ?_
  rw [mul_one]
  rcases values with _ | _ | ⟨value, values⟩
  · refine Attempt.after (write_triple a _ _) fun _ => Obtains.result fun h hh => entryAt_of ⟨-1, none⟩ ?_
    rw [mul_comm]
    exact lift_mul_apply.mpr ⟨rfl, hh⟩
  · refine Attempt.after (write_triple a _ _) fun _ => Obtains.result fun h hh => entryAt_of ⟨0, none⟩ ?_
    rw [mul_comm]
    exact lift_mul_apply.mpr ⟨rfl, hh⟩
  · refine (malloc_obtains False allocator _).acquire (fun _ hp => ?_) fun p => ?_
    · exact (free_triple a _).release (mul_one _).symm fun _ => Triple.fail hp
    · refine Attempt.step (write_triple p _ _) _ rfl fun _ => ?_
      refine Attempt.step (write_triple a _ _) _ (mul_comm ..) fun _ => ?_
      have hint := asCInt_eq (hlength _ rfl)
      generalize asCInt (value :: values).length = valuesLen at hint ⊢
      refine Obtains.result fun h hh => entryAt_of ⟨valuesLen, some p⟩ ?_
      rw [mul_comm] at hh ⊢
      obtain ⟨h₁, h₂, hap, rfl, hp, ha⟩ := hh
      refine ⟨h₁, h₂, hap, rfl, ⟨value :: values, lift_mul_apply.mpr ⟨⟨hint.le, ?_⟩, hp⟩⟩, ha⟩
      rw [hint, if_neg (Int.not_lt.mpr (Int.natCast_nonneg _)), Int.toNat_natCast, List.take_length]

theorem slotsAt_none {caps : CCaps A} {l : List UInt8} (hempty : ∀ code ∈ l, caps.vcp code = none) :
    slotsAt (fun _ => none) caps l = 1 := by
  refine List.prod_eq_one fun P hP => ?_
  obtain ⟨code, hcode, rfl⟩ := List.mem_map.mp hP
  rw [slotAt, hempty code hcode, eq_self, lift_true]

theorem slotsAt_update {vcp : UInt8 → Option VcpEntry} (entry : Option VcpEntry) (caps : CCaps A)
    {code : UInt8} {l : List UInt8} (hcode : code ∉ l) :
    slotsAt (Function.update vcp code entry) caps l = slotsAt vcp caps l := by
  refine congrArg List.prod (List.map_congr_left fun c hc => ?_)
  rw [Function.update_of_ne (ne_of_mem_of_not_mem hc hcode)]

/-- What the loop owns at its end: the slots of `l`, with the entries of the capabilities, or
where a request was refused with some. -/
def filledAt (rustCaps : Caps) (caps : CCaps A) (l : List UInt8) (refused : Prop) (result : Bool × CCaps A) :
    Assertion A (Object A) :=
  any fun vcp => lift ((result.1 = true → ∀ code ∈ l, vcp code = rustCaps.vcp code) ∧
    (result.1 = false → refused) ∧ result.2.monitorType = caps.monitorType ∧
    ∀ code ∉ l, result.2.vcp code = caps.vcp code) * slotsAt vcp result.2 l

theorem upward_filledAt (rustCaps : Caps) (caps : CCaps A) (l : List UInt8) : Upward (filledAt rustCaps caps l) := by
  rintro p p' hp result h ⟨vcp, hh⟩
  obtain ⟨⟨hdone, hfail, hframe⟩, hh⟩ := lift_mul_apply.mp hh
  exact ⟨vcp, lift_mul_apply.mpr ⟨⟨hdone, fun hr => hp (hfail hr), hframe⟩, hh⟩⟩

/-- The loop fills the empty slots of `l`; if it ends early, those up to the entry that could
not be allocated. -/
theorem replaceCCapsLoop_triple {rustCaps : Caps} (hrep : Representable rustCaps.vcp) {l : List UInt8}
    (hl : l.Nodup) {caps : CCaps A} (hempty : ∀ code ∈ l, caps.vcp code = none) :
    Attempt 1 (replaceCCapsLoop allocator rustCaps l caps) (filledAt rustCaps caps l) := by
  induction l generalizing caps with
  | nil =>
    refine Triple.attempt (Triple.result fun h hh => ⟨rustCaps.vcp, lift_mul_apply.mpr ⟨?_, hh⟩⟩)
    simp
  | cons code l ih =>
    obtain ⟨hcode, hl⟩ := List.nodup_cons.mp hl
    rw [replaceCCapsLoop]
    cases hv : rustCaps.vcp code with
    | none =>
      refine (ih hl fun c hc => hempty c (List.mem_cons_of_mem code hc)).post fun refused result h hh => ?_
      obtain ⟨vcp, hh⟩ := hh
      obtain ⟨⟨hdone, hfail, htype, hframe⟩, hh⟩ := lift_mul_apply.mp hh
      have hnot : result.2.vcp code = none := (hframe code hcode).trans (hempty code List.mem_cons_self)
      refine ⟨Function.update vcp code none, lift_mul_apply.mpr ⟨⟨fun hr c hc => ?_, hfail, htype, ?_⟩, ?_⟩⟩
      · by_cases h : c = code
        · rw [h, Function.update_self, hv]
        · rw [Function.update_of_ne h, hdone hr c (List.mem_of_ne_of_mem h hc)]
      · exact fun c hc => hframe c fun hmem => hc (List.mem_cons_of_mem code hmem)
      · rw [slotsAt_cons, Function.update_self, hnot, slotsAt_update _ _ hcode]
        exact lift_mul_apply.mpr ⟨rfl, hh⟩
    | some entry =>
      refine Attempt.acquire (upward_filledAt rustCaps caps (code :: l)) (entryToC_obtains (hrep code entry hv))
        (fun refused hp => ?_) fun a => ?_
      · refine Triple.result fun h hh => ⟨fun _ => none, lift_mul_apply.mpr ⟨?_, ?_⟩⟩
        · exact ⟨Bool.noConfusion, fun _ => hp.resolve_left id, rfl, fun _ _ => rfl⟩
        · rwa [slotsAt_none hempty]
      · have hnext : ∀ c ∈ l, Function.update caps.vcp code (some a) c = none := fun c hc =>
          (Function.update_of_ne (ne_of_mem_of_not_mem hc hcode) ..).trans
            (hempty c (List.mem_cons_of_mem code hc))
        refine ((ih hl hnext).frame (entryAt ⟨entry.values⟩ a)).consequence
          (fun h hh => mul_comm (entryAt _ a) 1 ▸ hh) fun refused result h hh => ?_
        rw [filledAt, any_mul] at hh
        obtain ⟨vcp, hh⟩ := hh
        change (lift _ * slotsAt vcp result.2 l * entryAt _ a : Assertion A (Object A)) h at hh
        rw [mul_assoc] at hh
        obtain ⟨⟨hdone, hfail, htype, hframe⟩, hh⟩ := lift_mul_apply.mp hh
        have hslot : result.2.vcp code = some a := (hframe code hcode).trans (Function.update_self ..)
        refine ⟨Function.update vcp code (some entry), lift_mul_apply.mpr ⟨⟨fun hr c hc => ?_, hfail, htype, ?_⟩, ?_⟩⟩
        · by_cases h : c = code
          · rw [h, Function.update_self, hv]
          · rw [Function.update_of_ne h, hdone hr c (List.mem_of_ne_of_mem h hc)]
        · intro c hc
          rw [hframe c fun hmem => hc (List.mem_cons_of_mem code hmem)]
          exact Function.update_of_ne (List.ne_of_not_mem_cons hc) ..
        · rw [slotsAt_cons, Function.update_self, hslot, slotsAt_update _ _ hcode, slotAt, any_mul]
          refine ⟨a, ?_⟩
          change (lift _ * entryAt entry a * slotsAt vcp result.2 l : Assertion A (Object A)) h
          rw [mul_assoc, mul_comm (entryAt entry a)]
          exact lift_mul_apply.mpr ⟨rfl, hh⟩

/-- **A table is written whole, or up to an entry that could not be allocated.** -/
theorem replaceCCaps_triple {rustCaps : Caps} (hrep : Representable rustCaps.vcp)
    (vcp : UInt8 → Option VcpEntry) (caps : CCaps A) :
    Attempt (slotsAt vcp caps codes) (replaceCCaps allocator caps rustCaps) fun refused result =>
      any fun rustCaps' => lift ((result.1 = true → rustCaps' = rustCaps) ∧
        (result.1 = false → refused)) * capsAt rustCaps' result.2 := by
  refine Attempt.after (freeCVcpEntries_triple vcp caps) fun caps' => ?_
  rw [← mul_one (lift _)]
  refine Attempt.of_lift fun hc => ?_
  subst hc
  refine (replaceCCapsLoop_triple hrep nodup_codes fun _ _ => rfl).post fun refused result h hh => ?_
  obtain ⟨vcp', hh⟩ := hh
  obtain ⟨⟨hdone, hfail, htype, -⟩, hh⟩ := lift_mul_apply.mp hh
  refine ⟨⟨rustCaps.monitorType, vcp'⟩, lift_mul_apply.mpr ⟨⟨fun hr => ?_, hfail⟩,
    lift_mul_apply.mpr ⟨?_, hh⟩⟩⟩
  · exact congrArg (Caps.mk _) (funext fun code => hdone hr code (mem_codes code))
  · rw [htype]
    cases rustCaps.monitorType <;> rfl

/-- What a patch in C memory may come to: the patch of the capabilities, or an emptied table,
where a request was `refused` or the text is. -/
def Patched (refused : Prop) (rustCaps : Caps) (input : String) (edit : Edit) (result : ℤ)
    (rustCaps' : Caps) : Prop :=
  (∃ count, rustCaps.apply (utf8 input) edit = .ok (rustCaps', count) ∧ result = asCInt count) ∨
    (result = -1 ∧ rustCaps'.vcp = (fun _ => none) ∧
      (refused ∨ ∃ e, rustCaps.apply (utf8 input) edit = .error e))

/-- The end of a patch that failed. -/
theorem failed_triple {S : ℤ → Caps → Prop} (rustCaps : Caps) (caps : CCaps A)
    (hS : ∀ rustCaps' : Caps, rustCaps'.vcp = (fun _ => none) → S (-1) rustCaps') :
    Triple (capsAt rustCaps caps) (do return (-1, ← freeCVcpEntries caps)) fun result =>
      any fun rustCaps' => lift (S result.1 rustCaps') * capsAt rustCaps' result.2 := by
  refine Triple.of_lift fun _ => (freeCVcpEntries_triple rustCaps.vcp caps).bind fun caps' => ?_
  refine Triple.result fun h hh => ?_
  obtain ⟨rfl, hh⟩ := hh
  refine ⟨⟨monitorTypeFromC caps.monitorType, fun _ => none⟩, lift_mul_apply.mpr ⟨hS _ rfl,
    lift_mul_apply.mpr ⟨rfl, ?_⟩⟩⟩
  rwa [slotsAt_none fun _ _ => rfl]

/-- **A patch in C memory is a patch of the capabilities**, or leaves an empty table because the
text does not parse, or because one of its own requests for memory was refused. -/
theorem capsParse_triple (rustCaps : Caps) (caps : CCaps A) (input : String) (edit : Edit)
    (hrep : ∀ rustCaps' count, rustCaps.apply (utf8 input) edit = .ok (rustCaps', count) →
      Representable rustCaps'.vcp) :
    Attempt (capsAt rustCaps caps) (capsParse allocator input caps edit) fun refused result =>
      any fun rustCaps' => lift (Patched refused rustCaps input edit result.1 rustCaps') *
        capsAt rustCaps' result.2 := by
  refine Attempt.after (capsFromC_triple rustCaps caps) fun rustCaps' => Attempt.of_lift fun hr => ?_
  subst hr
  cases happly : rustCaps'.apply (utf8 input) edit with
  | error e =>
    refine Triple.attempt (failed_triple rustCaps' caps fun _ hempty => ?_)
    exact .inr ⟨rfl, hempty, .inr ⟨e, happly⟩⟩
  | ok applied =>
    obtain ⟨applied, count⟩ := applied
    refine Attempt.of_lift fun _ => ?_
    refine (replaceCCaps_triple (hrep applied count happly) rustCaps'.vcp caps).bind fun refused result => ?_
    refine Attempt.of_any fun written => Attempt.of_lift fun hresult => Triple.attempt ?_
    obtain ⟨_ | _, caps'⟩ := result
    · exact failed_triple written caps' fun _ hempty => .inr ⟨rfl, hempty, .inl (.inl (hresult.2 rfl))⟩
    · rw [hresult.1 rfl]
      have hpatched : Patched (refused ∨ False) rustCaps' input edit (asCInt count) applied :=
        .inl ⟨count, happly, Eq.refl _⟩
      generalize asCInt count = n at hpatched
      exact Triple.result fun h hh => ⟨applied, lift_mul_apply.mpr ⟨hpatched, hh⟩⟩

end Writing

/-- The capabilities with one code. -/
def tenCaps : Caps := { Caps.default with vcp := Function.update Caps.default.vcp 0x10 (some ⟨none⟩) }

theorem apply_ten : Caps.default.apply (utf8 "vcp(10)") .add = .ok (tenCaps, 1) := by
  have hparse : parse (utf8 "vcp(10)") = .ok ⟨none, [⟨0x10, none⟩]⟩ := by decide +kernel
  rw [Caps.apply, hparse]
  rfl

theorem representable_ten : Representable tenCaps.vcp := by
  intro code entry hentry values hvalues
  simp only [tenCaps, Caps.default, Function.update_apply] at hentry
  split_ifs at hentry
  · cases hentry
    cases hvalues
  · cases hentry

/-- What an empty table owns is nothing. -/
theorem capsAt_default : capsAt Caps.default (⟨fun _ => none, 0⟩ : CCaps ℕ) Heap.empty :=
  lift_mul_apply.mpr ⟨rfl, by rw [Caps.default, slotsAt_none fun _ _ => rfl]; rfl⟩

/-- A code is added to an empty table, where no request is refused. -/
theorem capsParse_triple_add :
    ∃ (caps' : CCaps ℕ) (owned : Heap ℕ (Object ℕ)) (requests' : ℕ),
      capsParse (.bump fun _ => false) "vcp(10)" ⟨fun _ => none, 0⟩ .add ⟨Heap.empty, 0, 0⟩ =
        some ((1, caps'), ⟨owned, requests', 0⟩) ∧ capsAt tenCaps caps' owned := by
  have hattempt : Attempt (capsAt Caps.default ⟨fun _ => none, 0⟩)
      (capsParse (.bump fun _ => false) "vcp(10)" (⟨fun _ => none, 0⟩ : CCaps ℕ) .add) _ :=
    capsParse_triple Caps.default _ "vcp(10)" .add fun rustCaps' count h => by
      rw [apply_ten] at h
      cases h
      exact representable_ten
  obtain ⟨⟨result, caps'⟩, owned, requests', refusals', hrun, -, -, rustCaps', hpost⟩ :=
    hattempt Heap.empty Heap.empty 0 0 capsAt_default (Heap.empty_apart _)
  obtain ⟨hpatched, htable⟩ := lift_mul_apply.mp hpost
  rw [Heap.empty_union, Heap.union_empty] at hrun
  have hrefusals : (capsParse (.bump fun _ => false) "vcp(10)" (⟨fun _ => none, 0⟩ : CCaps ℕ) .add
      ⟨Heap.empty, 0, 0⟩).map (fun r => r.2.refusals) = some 0 := by decide +kernel
  rw [hrun, Option.map_some, Option.some.injEq] at hrefusals
  obtain rfl : refusals' = 0 := hrefusals
  rcases hpatched with ⟨count, happly, hresult⟩ | ⟨-, -, hrefused | ⟨e, happly⟩⟩
  · rw [apply_ten] at happly
    cases happly
    obtain rfl : result = 1 := hresult.trans (by decide)
    exact ⟨caps', owned, requests', hrun, htable⟩
  · exact absurd hrefused (lt_irrefl 0)
  · rw [apply_ten] at happly
    cases happly

end DdcControl.Database.Memory
