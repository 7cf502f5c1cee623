import DdcControl.Database.OwnedCaps

/-!
# Publishing a tree with its CAPS

`ddcci_create_db` hands its caller a tree and patches the caller's CAPS to go with it. It
works on a copy of the table in C memory; only once the tree is allocated it swaps the two
tables, and what the caller had is freed in place of the copy.

## The model

How the assembly of a profile uses the table is an `Assembling`: it looks at the table and
applies patches to it, and ends with a build or an error. A patch that does not apply is an
error. `malloc` may refuse any request.

## What is proved

* `createDb_triple` — with a tree the table is patched as the assembly says; without one
  every object is as it was.
-/

namespace DdcControl.Database.Memory

open Ownership Ownership.Assertion Capabilities

/-- How `create_db_protected` uses the table it is given. -/
inductive Assembling where
  | error
  | done (build : MonitorBuild) (groups : List DbGroup)
  | read (next : Caps → Assembling)
  | patch (input : String) (edit : Edit) (next : Assembling)

namespace Assembling

/-- What is assembled from some capabilities. -/
def run : Assembling → Caps → Option (MonitorBuild × List DbGroup × Caps)
  | .error, _ => none
  | .done build groups, caps => some (build, groups, caps)
  | .read next, caps => (next caps).run caps
  | .patch input edit next, caps =>
    match applyCaps input caps edit with
    | none => none
    | some caps => next.run caps

/-- The lists of values of every table on the way have lengths that a `c_int` can hold. -/
def Representable : Assembling → Caps → Prop
  | .error, _ | .done _ _, _ => True
  | .read next, caps => (next caps).Representable caps
  | .patch input edit next, caps => ∀ caps' count, caps.apply (utf8 input) edit = .ok (caps', count) →
      Memory.Representable caps'.vcp ∧ next.Representable caps'

end Assembling

variable {A : Type} [DecidableEq A]

section Calls

variable (allocator : Allocator A (Object A))

/-- The assembly, on a table in C memory. -/
def Assembling.runC : Assembling → CCaps A →
    Program A (Object A) (Option (MonitorBuild × List DbGroup) × CCaps A)
  | .error, caps => return (none, caps)
  | .done build groups, caps => return (some (build, groups), caps)
  | .read next, caps => do
    let rustCaps ← capsFromC caps
    (next rustCaps).runC caps
  | .patch input edit next, caps =>
    -- `CString::new` fails on a NUL
    if input.toList.contains '\x00' then return (none, caps)
    else do
      match ← capsParse allocator input caps edit with
      | (parsed, caps) =>
        if parsed ≤ 0 then return (none, caps) else next.runC caps

/-- `StagedCaps::copy_from`; a copy that is not complete is dropped. -/
def copyFrom (input : CCaps A) : Program A (Object A) (Option (CCaps A)) := do
  let rustCaps ← capsFromC input
  match ← replaceCCaps allocator ⟨fun _ => none, input.monitorType⟩ rustCaps with
  | (true, staged) => return some staged
  | (false, staged) => do
    let _ ← freeCVcpEntries staged
    return none

/-- `create_db_inner`, from the copy of the table on: the tree, and the caller's table. -/
def createDb (fuel : ℕ) (faulttolerance : Bool) (assembling : Assembling) (caps : CCaps A) :
    Program A (Object A) (Option A × CCaps A) := do
  match ← copyFrom allocator caps with
  | none => return (none, caps)
  | some staged =>
    match ← assembling.runC allocator staged with
    | (none, staged) =>
      let _ ← freeCVcpEntries staged
      return (none, caps)
    | (some (build, groups), staged) =>
      match defaultInit faulttolerance build with
      | none =>
        let _ ← freeCVcpEntries staged
        return (none, caps)
      | some build =>
        match ← allocMonitor allocator fuel build (pruneEmptyGroups groups) with
        | none =>
          let _ ← freeCVcpEntries staged
          return (none, caps)
        | some monitor =>
          -- `publish` swaps the tables, so it is the caller's that is dropped
          let _ ← freeCVcpEntries caps
          return (some monitor, staged)

end Calls

/-! ### The copy -/

omit [DecidableEq A] in
theorem readOnly_valuesFromC (entry : CVcpEntry A) : ReadOnly (valuesFromC entry) := by
  unfold valuesFromC
  split_ifs with hneg hzero
  · exact ReadOnly.pure _
  · exact ReadOnly.pure _
  · split
    · exact ReadOnly.pure _
    · refine (ReadOnly.readAs _ _).bind fun content => ?_
      split_ifs
      · exact ReadOnly.pure _
      · exact ReadOnly.stuck

omit [DecidableEq A] in
theorem readOnly_capsFromC (caps : CCaps A) : ReadOnly (capsFromC caps) := by
  have hloop : ∀ l rustCaps, ReadOnly (capsFromCLoop caps l rustCaps) := by
    intro l
    induction l with
    | nil => exact fun rustCaps => ReadOnly.pure _
    | cons code l ih =>
      intro rustCaps
      rw [capsFromCLoop]
      cases caps.vcp code with
      | none => exact ih rustCaps
      | some entry =>
        have hentry : ReadOnly (entryFromC entry) :=
          (ReadOnly.readAs _ _).bind fun content => (readOnly_valuesFromC content).bind fun _ => ReadOnly.pure _
        exact hentry.bind fun _ => ih _
  exact hloop codes _

variable {allocator : Allocator A (Object A)}

/-- A table that is not needed any more. -/
theorem drop_triple {α : Type} {rustCaps : Caps} {caps : CCaps A} {R F : Assertion A (Object A)}
    (hR : R = capsAt rustCaps caps * F) {next : Program A (Object A) α} {Q : α → Assertion A (Object A)}
    (hnext : Triple F next Q) : Triple R (freeCVcpEntries caps >>= fun _ => next) Q := by
  have hfree : Triple (capsAt rustCaps caps) (freeCVcpEntries caps) fun _ => 1 :=
    Triple.of_lift fun _ => (freeCVcpEntries_triple rustCaps.vcp caps).post fun _ _ hh => hh.2
  exact hfree.release hR fun _ => hnext

/-- **The copy holds what the table holds**, which is not touched. -/
theorem copyFrom_triple {rustCaps : Caps} {caps : CCaps A} {owned : Heap A (Object A)}
    (howned : capsAt rustCaps caps owned) (hrep : Representable rustCaps.vcp) :
    Attempt (exactly owned) (copyFrom allocator caps) fun refused staged =>
      orElse refused (capsAt rustCaps) staged * exactly owned := by
  refine Attempt.after ((capsFromC_triple rustCaps caps).exactly (readOnly_capsFromC caps) howned) fun rustCaps' => ?_
  refine Attempt.of_lift fun hr => ?_
  obtain ⟨rfl, -⟩ := lift_mul_apply.mp hr
  have hempty : slotsAt (fun _ => none) (⟨fun _ => none, caps.monitorType⟩ : CCaps A) codes = 1 :=
    slotsAt_none fun _ _ => rfl
  refine (replaceCCaps_triple hrep _ _).framed (exactly owned) (by rw [hempty, one_mul]) fun refused result => ?_
  rw [any_mul]
  refine Attempt.of_any fun written => ?_
  rw [mul_assoc]
  refine Attempt.of_lift fun hresult => Triple.attempt ?_
  obtain ⟨_ | _, staged⟩ := result
  · refine drop_triple rfl (Triple.result fun h hh => ?_)
    exact lift_mul_apply.mpr ⟨.inl (hresult.2 rfl), hh⟩
  · rw [hresult.1 rfl]
    exact Triple.result fun h hh => hh

/-! ### The assembly -/

theorem applyCaps_nul {input : String} (hnul : input.toList.contains '\x00' = true) (caps : Caps) (edit : Edit) :
    applyCaps input caps edit = none := if_pos hnul

/-- A patch that is reported to apply does. -/
theorem Patched.applies {refused : Prop} {rustCaps rustCaps' : Caps} {input : String} {edit : Edit} {parsed : ℤ}
    (h : Patched refused rustCaps input edit parsed rustCaps') (hnul : ¬ input.toList.contains '\x00' = true)
    (hpos : ¬ parsed ≤ 0) : applyCaps input rustCaps edit = some rustCaps' := by
  rcases h with ⟨count, happly, hcount⟩ | ⟨hneg, -⟩
  · rw [hcount] at hpos
    rw [applyCaps, if_neg hnul, happly]
    exact if_neg hpos
  · exact absurd (hneg.trans_le (by decide)) hpos

/-- A patch is reported not to apply where it does not, or a request was refused. -/
theorem Patched.fails {refused : Prop} {rustCaps rustCaps' : Caps} {input : String} {edit : Edit} {parsed : ℤ}
    (h : Patched refused rustCaps input edit parsed rustCaps') (hnul : ¬ input.toList.contains '\x00' = true)
    (hpos : parsed ≤ 0) : refused ∨ applyCaps input rustCaps edit = none := by
  rcases h with ⟨count, happly, hcount⟩ | ⟨-, -, hrefused | ⟨e, happly⟩⟩
  · refine .inr ?_
    rw [hcount] at hpos
    rw [applyCaps, if_neg hnul, happly]
    exact if_pos hpos
  · exact .inl hrefused
  · refine .inr ?_
    rw [applyCaps, if_neg hnul, happly]

/-- What an assembly owns at its end: the table that goes with what it assembled, or some table
where it does not assemble anything, or a request was refused. -/
def assembledAt (assembling : Assembling) (rustCaps : Caps) (refused : Prop)
    (result : Option (MonitorBuild × List DbGroup) × CCaps A) : Assertion A (Object A) :=
  any fun rustCaps' => lift ((∀ build groups, result.1 = some (build, groups) →
      assembling.run rustCaps = some (build, groups, rustCaps')) ∧
    (result.1 = none → refused ∨ assembling.run rustCaps = none)) * capsAt rustCaps' result.2

theorem upward_assembledAt (assembling : Assembling) (rustCaps : Caps) :
    Upward (assembledAt (A := A) assembling rustCaps) := by
  rintro p p' hp result h ⟨rustCaps', hh⟩
  obtain ⟨⟨hdone, hfail⟩, hh⟩ := lift_mul_apply.mp hh
  exact ⟨rustCaps', lift_mul_apply.mpr ⟨⟨hdone, fun hr => (hfail hr).imp_left hp⟩, hh⟩⟩

/-- **An assembly in C memory assembles what it would from the capabilities**, or a request
was refused. -/
theorem Assembling.runC_triple (assembling : Assembling) {rustCaps : Caps} (caps : CCaps A)
    (hrep : assembling.Representable rustCaps) :
    Attempt (capsAt rustCaps caps) (assembling.runC allocator caps) (assembledAt assembling rustCaps) := by
  induction assembling generalizing rustCaps caps with
  | error =>
    refine Triple.attempt (Triple.result fun h hh => ⟨rustCaps, ?_⟩)
    exact lift_mul_apply.mpr ⟨⟨by simp, fun _ => .inr rfl⟩, hh⟩
  | done build groups =>
    refine Triple.attempt (Triple.result fun h hh => ⟨rustCaps, lift_mul_apply.mpr ⟨⟨?_, by simp⟩, hh⟩⟩)
    rintro _ _ heq
    cases heq
    rfl
  | read next ih =>
    refine Attempt.after (capsFromC_triple rustCaps caps) fun rustCaps' => Attempt.of_lift fun hr => ?_
    subst hr
    exact ih rustCaps' caps hrep
  | patch input edit next ih =>
    rw [Assembling.runC]
    split_ifs with hnul
    · refine Triple.attempt (Triple.result fun h hh => ⟨rustCaps, ?_⟩)
      refine lift_mul_apply.mpr ⟨⟨by simp, fun _ => .inr ?_⟩, hh⟩
      rw [Assembling.run, applyCaps_nul hnul]
    · refine (capsParse_triple rustCaps caps input edit fun caps' count h => (hrep caps' count h).1).bind
        fun refused result => ?_
      refine Attempt.of_any fun patched => Attempt.of_lift fun hpatched => ?_
      obtain ⟨parsed, caps'⟩ := result
      change Attempt _ (if parsed ≤ 0 then _ else _) _
      split_ifs with hpos
      · refine Triple.attempt (Triple.result fun h hh => ⟨patched, ?_⟩)
        refine lift_mul_apply.mpr ⟨⟨by simp, fun _ => ?_⟩, hh⟩
        refine (hpatched.fails hnul hpos).imp .inl fun hnone => ?_
        rw [Assembling.run, hnone]
      · have happlies := hpatched.applies hnul hpos
        have hrun : assembledAt (A := A) (.patch input edit next) rustCaps = assembledAt next patched := by
          unfold assembledAt
          rw [Assembling.run, happlies]
        rw [hrun]
        refine (ih caps' ?_).upward (upward_assembledAt next patched) refused
        rcases hpatched with ⟨count, happly, -⟩ | ⟨hneg, -⟩
        · exact (hrep patched count happly).2
        · exact absurd (hneg.trans_le (by decide)) hpos

/-! ### The call -/

/-- What is published from what is assembled. -/
def Assembling.published (faulttolerance : Bool) (assembling : Assembling) (rustCaps : Caps) :
    Option (MonitorDb × Caps) := do
  let (build, groups, rustCaps) ← assembling.run rustCaps
  let build ← defaultInit faulttolerance build
  let monitor ← Database.allocMonitor build (pruneEmptyGroups groups)
  return (monitor, rustCaps)

theorem Assembling.published_eq {assembling : Assembling} {rustCaps rustCaps' : Caps} {build : MonitorBuild}
    {groups : List DbGroup} (hrun : assembling.run rustCaps = some (build, groups, rustCaps'))
    (faulttolerance : Bool) :
    assembling.published faulttolerance rustCaps = (defaultInit faulttolerance build).bind fun build =>
      (Database.allocMonitor build (pruneEmptyGroups groups)).bind fun monitor => some (monitor, rustCaps') := by
  rw [published, hrun]
  rfl

/-- What a call owns when it returns: a tree and the table that goes with it, or the objects
it owned before. -/
def publishedAt (faulttolerance : Bool) (assembling : Assembling) (rustCaps : Caps) (refused : Prop)
    (caps : CCaps A) (owned : Heap A (Object A)) : Option A × CCaps A → Assertion A (Object A)
  | (none, caps') =>
    lift (caps' = caps ∧ (refused ∨ assembling.published faulttolerance rustCaps = none)) * exactly owned
  | (some monitor, caps') => any fun published : MonitorDb × Caps =>
    lift (assembling.published faulttolerance rustCaps = some published) *
      (monitorAt published.1 monitor * capsAt published.2 caps')

theorem upward_publishedAt (faulttolerance : Bool) (assembling : Assembling) (rustCaps : Caps) (caps : CCaps A)
    (owned : Heap A (Object A)) :
    Upward fun refused => publishedAt faulttolerance assembling rustCaps refused caps owned := by
  rintro p p' hp ⟨_ | monitor, caps'⟩ h hh
  · obtain ⟨⟨hsame, hwhy⟩, hh⟩ := lift_mul_apply.mp hh
    exact lift_mul_apply.mpr ⟨⟨hsame, hwhy.imp_left hp⟩, hh⟩
  · exact hh

/-- The caller's table is freed in place of the copy. -/
theorem publish_triple {α : Type} {rustCaps : Caps} {caps : CCaps A} {owned : Heap A (Object A)}
    (howned : capsAt rustCaps caps owned) {P : Assertion A (Object A)} {next : Program A (Object A) α}
    {Q : α → Assertion A (Object A)} (hnext : Triple P next Q) :
    Triple (P * exactly owned) (freeCVcpEntries caps >>= fun _ => next) Q := by
  refine (drop_triple (rfl : capsAt rustCaps caps * P = _) hnext).pre fun h hh => ?_
  rw [mul_comm] at hh
  obtain ⟨h₁, h₂, hap, rfl, hcaller, hP⟩ := hh
  rw [hcaller] at hap ⊢
  exact ⟨owned, h₂, hap, rfl, howned, hP⟩

/-- **A tree and its CAPS are published together or not at all.** -/
theorem createDb_triple {fuel : ℕ} {faulttolerance : Bool} {assembling : Assembling} {rustCaps : Caps}
    {caps : CCaps A} {owned : Heap A (Object A)} (howned : capsAt rustCaps caps owned)
    (hrep : Representable rustCaps.vcp) (hpatches : assembling.Representable rustCaps)
    (hfuel : ∀ build groups rustCaps', assembling.run rustCaps = some (build, groups, rustCaps') →
      breadth (pruneEmptyGroups groups) < fuel) :
    Attempt (exactly owned) (createDb allocator fuel faulttolerance assembling caps) fun refused =>
      publishedAt faulttolerance assembling rustCaps refused caps owned := by
  have hupward := upward_publishedAt faulttolerance assembling rustCaps caps owned
  refine (copyFrom_triple howned hrep).bind fun refused staged => ?_
  cases staged with
  | none =>
    refine Attempt.of_lift fun hp => Triple.attempt (Triple.result fun h hh => ?_)
    exact lift_mul_apply.mpr ⟨⟨rfl, .inl (.inl hp)⟩, hh⟩
  | some staged =>
    refine Attempt.upward ?_ hupward refused
    refine (assembling.runC_triple staged hpatches).framed (exactly owned) rfl fun refused result => ?_
    rw [assembledAt, any_mul]
    refine Attempt.of_any fun rustCaps' => ?_
    rw [mul_assoc]
    refine Attempt.of_lift fun hresult => ?_
    obtain ⟨_ | ⟨build, groups⟩, staged'⟩ := result
    · refine Triple.attempt (drop_triple rfl (Triple.result fun h hh => lift_mul_apply.mpr ⟨⟨rfl, ?_⟩, hh⟩))
      refine (hresult.2 rfl).imp .inl fun hnone => ?_
      rw [Assembling.published, hnone]
      rfl
    · refine Attempt.upward ?_ hupward refused
      have hrun := hresult.1 build groups rfl
      have hpublished := Assembling.published_eq hrun faulttolerance
      change Attempt _ (match defaultInit faulttolerance build with | none => _ | some _ => _) _
      cases hinit : defaultInit faulttolerance build with
      | none =>
        rw [hinit] at hpublished
        refine Triple.attempt (drop_triple rfl (Triple.result fun h hh => ?_))
        exact lift_mul_apply.mpr ⟨⟨rfl, .inr hpublished⟩, hh⟩
      | some build' =>
        rw [hinit, Option.bind_some] at hpublished
        have hnul : ∀ text ∈ (MonitorDb.mk (build'.name.getD []) build'.init (pruneEmptyGroups groups)).texts,
            0 ∈ text → assembling.published faulttolerance rustCaps = none := by
          intro text ht h0
          refine hpublished.trans ?_
          rw [allocMonitor_eq_none ht h0, Option.bind_none]
        refine Attempt.acquire hupward (allocMonitor_obtains (hfuel build groups rustCaps' hrun) hnul)
          (fun refused hp => ?_) fun monitor => ?_
        · exact drop_triple rfl (Triple.result fun h hh => lift_mul_apply.mpr ⟨⟨rfl, hp.symm⟩, hh⟩)
        · rw [← mul_assoc]
          refine Triple.attempt (publish_triple howned (Triple.result fun h hh => ?_))
          obtain ⟨h₁, h₂, hap, rfl, htree, htable⟩ := hh
          rw [allocMonitor_eq_some (monitorAt_nul htree), Option.bind_some] at hpublished
          exact ⟨_, lift_mul_apply.mpr ⟨hpublished, h₁, h₂, hap, rfl, htree, htable⟩⟩

end DdcControl.Database.Memory
