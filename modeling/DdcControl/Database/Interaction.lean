import DdcControl.Database.StagedCaps
import DdcControl.Database.Published

/-!
# How a profile uses the table

`create_db_protected` has the table in C memory as a pointer, and does two things with it:
it looks whether a code is in it, and it calls `apply_caps` on it. So its runs are those of an
`Assembling`: each of its functions is a part of one, whatever comes after it.

## What is proved

* `createDbProtected_uses` — the interpretation of a profile only reads and patches the table.
* `exists_assembling` — so there is an `Assembling` that ends, on every table, as the load does.
* `createDb_atomic` — a call in C memory publishes the tree and the CAPS of the load it
  models, or nothing.
-/

namespace DdcControl.Database.Memory

open Ownership Ownership.Assertion Capabilities Fallible

/-- Where a state of the interpretation has the CAPS. -/
structure CapsOf (σ : Type) where
  get : σ → Caps
  set : σ → Caps → σ
  get_set : ∀ s caps, get (set s caps) = caps
  set_get : ∀ s, set s (get s) = s
  set_set : ∀ s caps caps', set (set s caps) caps' = set s caps'

/-- The CAPS of a table. -/
def CapsOf.table : CapsOf Table :=
  ⟨Table.caps, fun table caps => { table with caps }, fun _ _ => rfl, fun _ => rfl, fun _ _ _ => rfl⟩

/-- The CAPS of the state of a load. -/
def CapsOf.assembly : CapsOf Assembly :=
  ⟨fun assembly => assembly.table.caps, fun assembly caps => { assembly with table.caps := caps },
    fun _ _ => rfl, fun _ => rfl, fun _ _ _ => rfl⟩

/-- The CAPS of the walk over a root. -/
def CapsOf.walk : CapsOf Walk :=
  ⟨fun walk => walk.assembly.table.caps, fun walk caps => { walk with assembly.table.caps := caps },
    fun _ _ => rfl, fun _ => rfl, fun _ _ _ => rfl⟩

section Uses

variable {σ τ υ α : Type} {L : CapsOf σ} {M : CapsOf τ} {N : CapsOf υ}

/-- The step is a part of an `Assembling`, whatever comes after it. -/
def Uses (L : CapsOf σ) (M : CapsOf τ) (step : σ → Except DbError τ) : Prop :=
  ∀ (s : σ) (next : τ → Assembling), ∃ assembling : Assembling, ∀ caps,
    assembling.run caps = (step (L.set s caps)).toOption.bind fun t => (next t).run (M.get t)

/-- A step that leaves the CAPS only reads them. -/
theorem Uses.reads {step : σ → Except DbError τ} (h : ∀ s t, step s = .ok t → M.get t = L.get s) :
    Uses L M step := by
  intro s next
  refine ⟨.read fun caps => match step (L.set s caps) with | .error _ => .error | .ok t => next t, fun caps => ?_⟩
  rw [Assembling.run]
  cases hstep : step (L.set s caps) with
  | error e => rfl
  | ok t =>
    have ht := h _ t hstep
    rw [L.get_set] at ht
    change (next t).run caps = (next t).run (M.get t)
    rw [ht]

/-- The rule of sequencing. -/
theorem Uses.bind {first : σ → Except DbError τ} {second : τ → Except DbError υ} (hfirst : Uses L M first)
    (hsecond : Uses M N second) : Uses L N fun s => first s >>= second := by
  intro s next
  choose rest hrest using fun t => hsecond t next
  obtain ⟨assembling, hrun⟩ := hfirst s rest
  refine ⟨assembling, fun caps => (hrun caps).trans ?_⟩
  change _ = (first (L.set s caps) >>= second).toOption.bind _
  cases first (L.set s caps) with
  | error e => rfl
  | ok t =>
    change (rest t).run (M.get t) = _
    rw [hrest, M.set_get]
    rfl

/-- The rule of checks. -/
theorem Uses.reject (condition : σ → Bool) (e : DbError) {step : σ → Except DbError τ} (h : Uses L M step) :
    Uses L M fun s => Fallible.reject (condition s) e >>= fun _ => step s := by
  have hcheck : Uses L L fun s => Fallible.reject (condition s) e >>= fun _ => pure s := by
    refine Uses.reads fun s t ht => ?_
    obtain ⟨_, -, ht⟩ := bind_eq_ok.mp ht
    cases ht
    rfl
  simpa only [bind_assoc, pure_bind] using hcheck.bind h

/-- The rule of loops. -/
theorem Uses.foldlM {step : σ → α → Except DbError σ} {l : List α}
    (h : ∀ a ∈ l, Uses L L fun s => step s a) : Uses L L fun s => l.foldlM step s := by
  induction l with
  | nil => exact Uses.reads fun s t ht => by cases ht; rfl
  | cons a l ih =>
    have hbind := (h a List.mem_cons_self).bind (ih fun b hb => h b (List.mem_cons_of_mem a hb))
    simpa only [List.foldlM_cons] using hbind

/-- A step on a part of the state. -/
theorem Uses.within {step : τ → Except DbError τ} (h : Uses M M step) (part : σ → τ) (update : σ → τ → σ)
    (hpart : ∀ s caps, part (L.set s caps) = M.set (part s) caps)
    (hupdate : ∀ s caps t, update (L.set s caps) t = update s t)
    (hget : ∀ s t, L.get (update s t) = M.get t) :
    Uses L L fun s => do return update s (← step (part s)) := by
  intro s next
  obtain ⟨assembling, hrun⟩ := h (part s) fun t => next (update s t)
  refine ⟨assembling, fun caps => (hrun caps).trans ?_⟩
  rw [← hpart]
  change _ = (step (part (L.set s caps)) >>= fun t => pure (update (L.set s caps) t)).toOption.bind _
  cases step (part (L.set s caps)) with
  | error e => rfl
  | ok t =>
    change (next (update s t)).run (M.get t) = (next (update _ t)).run (L.get (update _ t))
    rw [hupdate, hget]

end Uses

section Translated

theorem patchCaps_uses (child : Node) (message : String) (edit : Edit) (patch : Option String) :
    Uses .table .table (patchCaps child message edit patch) := by
  cases patch with
  | none => exact Uses.reads fun s t ht => by cases ht; rfl
  | some patch =>
    intro table next
    refine ⟨.patch patch edit (.read fun caps => next { table with caps }), fun caps => ?_⟩
    rw [Assembling.run]
    change _ = (orError (applyCaps patch caps edit) _ >>= _).toOption.bind _
    cases applyCaps patch caps edit <;> rfl

theorem capsElement_uses (child : Node) : Uses .table .table (capsElement child) :=
  ((patchCaps_uses child _ .remove (child.attr "remove")).bind
    (patchCaps_uses child _ .add (child.attr "add"))).reject _ _

variable (translate : String → List UInt8)

theorem controlsBlock_uses (options : OptionsDb) {mode : LoadMode} (hmode : mode.validateAll = false)
    (child : Node) : Uses .table .table (controlsBlock translate options mode child) :=
  Uses.reads fun _ _ h => Table.Steps.caps translate (controlsBlock_steps translate hmode h)

/-- One child of a root, if its includes use the table so. -/
theorem profileChild_uses (context : DbContext) {mode : LoadMode} (hmode : mode.validateAll = false)
    {visit : String → Assembly → Except DbError Assembly}
    (hvisit : ∀ file, Uses .assembly .assembly (visit file)) (child : Node) :
    Uses .walk .walk fun walk => profileChild translate context mode visit walk child := by
  refine Uses.reject _ _ ?_
  split_ifs with hcaps hinclude hcontrols
  · exact (capsElement_uses child).within (fun walk : Walk => walk.assembly.table)
      (fun (walk : Walk) table => { walk with assembly := { walk.assembly with table := table } })
      (fun _ _ => rfl) (fun _ _ _ => rfl) fun _ _ => rfl
  · cases hfile : requiredAttr child "file" with
    | error e => exact Uses.reads fun s t ht => by cases ht
    | ok file =>
      exact (hvisit file).within (fun walk : Walk => walk.assembly)
        (fun (walk : Walk) assembly => { walk with assembly, controlsOrInclude := true })
        (fun _ _ => rfl) (fun _ _ _ => rfl) fun _ _ => rfl
  · refine Uses.reject (fun walk : Walk => walk.seenControls) _ ?_
    exact (controlsBlock_uses translate context.options hmode child).within (fun walk : Walk => walk.assembly.table)
      (fun (walk : Walk) table => ⟨{ walk.assembly with table := table }, true, true⟩)
      (fun _ _ => rfl) (fun _ _ _ => rfl) fun _ _ => rfl
  · exact Uses.reject _ _ (Uses.reads fun s t ht => by cases ht; rfl)

theorem interpretRoot_uses (context : DbContext) {mode : LoadMode} (hmode : mode.validateAll = false)
    {visit : String → Assembly → Except DbError Assembly}
    (hvisit : ∀ file, Uses .assembly .assembly (visit file)) (pnpname : String) (root : Node) :
    Uses .assembly .assembly (interpretRoot translate context mode visit pnpname root) := by
  have hopen : Uses .assembly .walk fun assembly => do
      let build ← openRoot mode pnpname root assembly.build
      return ⟨{ assembly with build := build }, false, false⟩ := by
    refine Uses.reads fun s t ht => ?_
    obtain ⟨build, -, ht⟩ := bind_eq_ok.mp ht
    cases ht
    rfl
  have hclose : Uses .walk .assembly fun walk : Walk => do
      reject (!walk.controlsOrInclude) (.new "document of the wrong type, can't find controls or include.")
      return walk.assembly :=
    Uses.reject _ _ (Uses.reads fun s t ht => by cases ht; rfl)
  have hwalk : Uses .walk .walk fun walk => root.children.foldlM (profileChild translate context mode visit) walk :=
    Uses.foldlM fun child _ => profileChild_uses translate context hmode hvisit child
  have hall := (hopen.bind hwalk).bind hclose
  simp only [bind_assoc, pure_bind] at hall
  exact hall

/-- **The interpretation of a profile only reads and patches the table.** -/
theorem createDbProtected_uses (context : DbContext) (mode : LoadMode) (hmode : mode.validateAll = false)
    (pnpname : String) (recursionlevel : ℕ) (assembly : Assembly) :
    Uses .assembly .assembly (createDbProtected translate context mode pnpname recursionlevel) := by
  induction pnpname, recursionlevel, assembly using createDbProtected.induct with
  | case1 pnpname recursionlevel assembly ih =>
    have hcount : Uses .assembly .assembly fun assembly => do
        return { assembly with build := ← countVisit pnpname assembly.build } := by
      refine Uses.reads fun s t ht => ?_
      obtain ⟨build, -, ht⟩ := bind_eq_ok.mp ht
      cases ht
      rfl
    have hroot : Uses .assembly .assembly fun assembly =>
        if 15 < recursionlevel then
          .error (.new ("Error, include recursion level > 15 (file: " ++ pnpname ++ ")."))
        else context.resolve pnpname (recursionlevel = 0) >>= fun root =>
          interpretRoot translate context mode
            (fun file assembly => createDbProtected translate context mode file (recursionlevel + 1) assembly)
            pnpname root assembly := by
      split_ifs with hlevel
      · exact Uses.reads fun s t ht => by cases ht
      · cases context.resolve pnpname (recursionlevel = 0) with
        | error e => exact Uses.reads fun s t ht => by cases ht
        | ok root =>
          exact interpretRoot_uses translate context hmode (fun file => ih hlevel file assembly) pnpname root
    have hall := hcount.bind hroot
    simp only [bind_assoc, pure_bind] at hall
    convert hall using 1
    funext assembly
    rw [createDbProtected]
    rfl

/-- **The assembly of a profile is an `Assembling`.** -/
theorem exists_assembling (context : DbContext) (pnpname : String) (faulttolerance : Bool) :
    ∃ assembling : Assembling, ∀ caps, assembling.run caps =
      (assemble translate context pnpname caps faulttolerance).toOption.map fun assembly =>
        (assembly.build, assembly.table.groups, assembly.table.caps) := by
  obtain ⟨assembling, hrun⟩ := createDbProtected_uses translate context ⟨_, false⟩ rfl pnpname 0
    (.start translate context.options Caps.default) (.start translate context.options Caps.default)
    fun assembly => .done assembly.build assembly.table.groups
  refine ⟨assembling, fun caps => (hrun caps).trans ?_⟩
  exact Option.map_eq_bind.symm

/-- The CAPS of a load that succeeds are the profile's patches of those it was given. -/
theorem assemble_caps {context : DbContext} {pnpname : String} {caps : Caps} {faulttolerance : Bool}
    {assembly : Assembly} (h : assemble translate context pnpname caps faulttolerance = .ok assembly) :
    assembly.table.caps = capsAfter caps (context.script 16 (pnpname, true)) := by
  refine foldlM_history (P := fun done table => table.caps = capsAfter caps done)
    (fun done op table table' hcaps hrun => ?_) rfl (createDbProtected_run translate h)
  rw [run_caps translate rfl hrun, hcaps, capsAfter, capsAfter, List.foldl_append]
  rfl

end Translated

variable {A : Type} [DecidableEq A]

/-! ### A load -/

/-- What a load publishes. -/
theorem createDb_eq (translate : String → List UInt8) (context : DbContext) (pnpname : String) (caps : Caps)
    (faulttolerance : Bool) {published : Option (MonitorDb × Caps)}
    (h : (assemble translate context pnpname caps faulttolerance).toOption.bind
      (publish (context.tolerates pnpname faulttolerance)) = published) :
    (Database.createDb translate (some context) pnpname caps faulttolerance).monitor = published.map Prod.fst ∧
      (Database.createDb translate (some context) pnpname caps faulttolerance).caps =
        (published.map Prod.snd).getD caps := by
  subst h
  rw [Database.createDb]
  cases assemble translate context pnpname caps faulttolerance with
  | error e => exact ⟨rfl, rfl⟩
  | ok assembly =>
    change _ = (publish _ assembly).map _ ∧ _ = ((publish _ assembly).map _).getD caps
    dsimp only
    cases publish (context.tolerates pnpname faulttolerance) assembly with
    | none => exact ⟨rfl, rfl⟩
    | some published => exact ⟨rfl, rfl⟩

/-- An assembly that ends as `assemble` does publishes what the load does. -/
theorem Assembling.published_assemble {translate : String → List UInt8} {context : DbContext}
    {pnpname : String} {faulttolerance : Bool} {assembling : Assembling} {rustCaps : Caps}
    (h : assembling.run rustCaps =
      (assemble translate context pnpname rustCaps faulttolerance).toOption.map fun assembly =>
        (assembly.build, assembly.table.groups, assembly.table.caps)) (tolerates : Bool) :
    (assemble translate context pnpname rustCaps faulttolerance).toOption.bind (publish tolerates) =
      assembling.published tolerates rustCaps := by
  rw [published, h]
  cases assemble translate context pnpname rustCaps faulttolerance <;> rfl

/-- **A load in C memory publishes what it models, or nothing.** Where the assembly of a
profile ends as `assemble` does, a call has a result whatever requests for memory are
refused. With a tree, the tree and the caller's table are those of the load; without one
the caller's table and every object are as they were, and one of the call's own requests was
refused or the load has no tree. -/
theorem createDb_atomic (allocator : Allocator A (Object A)) (translate : String → List UInt8)
    {context : DbContext} {pnpname : String} {faulttolerance : Bool} {assembling : Assembling}
    {rustCaps : Caps} (caps : CCaps A) (owned rest : Heap A (Object A)) {fuel : ℕ}
    (hassembling : assembling.run rustCaps =
      (assemble translate context pnpname rustCaps faulttolerance).toOption.map fun assembly =>
        (assembly.build, assembly.table.groups, assembly.table.caps))
    (howned : capsAt rustCaps caps owned) (hrest : owned.Apart rest)
    (hrep : Representable rustCaps.vcp) (hpatches : assembling.Representable rustCaps)
    (hfuel : ∀ build groups rustCaps', assembling.run rustCaps = some (build, groups, rustCaps') →
      breadth (pruneEmptyGroups groups) < fuel) (requests refusals : ℕ) :
    ∃ (result : Option A × CCaps A) (heap' : Heap A (Object A)) (requests' refusals' : ℕ),
      createDb allocator fuel (context.tolerates pnpname faulttolerance) assembling caps
        ⟨owned.union rest, requests, refusals⟩ = some (result, ⟨heap', requests', refusals'⟩) ∧
      (result.1 = none → result.2 = caps ∧ heap' = owned.union rest ∧
        (refusals < refusals' ∨
          (Database.createDb translate (some context) pnpname rustCaps faulttolerance).monitor = none)) ∧
      ∀ a, result.1 = some a → ∃ (monitor : MonitorDb) (tree table : Heap A (Object A)),
        (Database.createDb translate (some context) pnpname rustCaps faulttolerance).monitor = some monitor ∧
        monitorAt monitor a tree ∧
        capsAt (Database.createDb translate (some context) pnpname rustCaps faulttolerance).caps result.2 table ∧
        tree.Apart table ∧ (tree.union table).Apart rest ∧ heap' = (tree.union table).union rest := by
  obtain ⟨hmonitor, hcaps⟩ := createDb_eq translate context pnpname rustCaps faulttolerance
    (Assembling.published_assemble hassembling _)
  obtain ⟨⟨_ | a, caps'⟩, owned', requests', refusals', hrun, -, hap, hpost⟩ :=
    createDb_triple howned hrep hpatches hfuel owned rest requests refusals rfl hrest
  · obtain ⟨⟨rfl, hwhy⟩, rfl⟩ := lift_mul_apply.mp hpost
    refine ⟨_, _, requests', refusals', hrun, fun _ => ⟨rfl, rfl, hwhy.imp_right fun hnone => ?_⟩, by simp⟩
    rw [hmonitor, hnone]
    rfl
  · obtain ⟨⟨monitor, published⟩, hpost⟩ := hpost
    obtain ⟨hpublished, tree, table, hap', rfl, htree, htable⟩ := lift_mul_apply.mp hpost
    rw [hpublished] at hmonitor hcaps
    refine ⟨_, _, requests', refusals', hrun, by simp, fun b hb => ⟨monitor, tree, table, hmonitor, ?_, ?_, hap', hap, rfl⟩⟩
    · cases hb
      exact htree
    · rw [hcaps]
      exact htable

/-! ### A load from a table with an entry -/

/-- A table with an entry for the brightness, which has two values. -/
def lightTable : CCaps ℕ := ⟨Function.update (fun _ => none) 0x12 (some 0), 0⟩

/-- What it holds. -/
def lightCaps : Caps := ⟨.unknown, Function.update (fun _ => none) 0x12 (some ⟨some [1, 2]⟩)⟩

/-- Its memory. -/
def lightHeap : Heap ℕ (Object ℕ) := (Heap.single 0 (.entry ⟨2, some 1⟩)).union (Heap.single 1 (.shorts [1, 2]))

theorem capsAt_light : capsAt lightCaps lightTable lightHeap := by
  obtain ⟨pre, post, hsplit⟩ := List.append_of_mem (mem_codes 0x12)
  have hnodup := hsplit ▸ nodup_codes
  have hpre : (0x12 : UInt8) ∉ pre := fun h => List.disjoint_of_nodup_append hnodup h List.mem_cons_self
  have hpost : (0x12 : UInt8) ∉ post := (List.nodup_cons.mp (List.nodup_append.mp hnodup).2.1).1
  have hnone : ∀ l : List UInt8, 0x12 ∉ l → slotsAt lightCaps.vcp lightTable l = 1 := by
    refine fun l hl => (slotsAt_update _ _ hl).trans (slotsAt_none fun code hcode => ?_)
    change Function.update (fun _ => (none : Option ℕ)) 0x12 (some 0) code = none
    exact Function.update_of_ne (ne_of_mem_of_not_mem hcode hl) ..
  have hslots : slotsAt lightCaps.vcp lightTable codes = slotAt (lightCaps.vcp 0x12) (lightTable.vcp 0x12) := by
    rw [hsplit, slotsAt, List.map_append, List.prod_append, ← slotsAt, ← slotsAt, slotsAt_cons, hnone pre hpre,
      hnone post hpost, one_mul, mul_one]
  refine lift_mul_apply.mpr ⟨rfl, ?_⟩
  have hslot : slotAt (lightCaps.vcp 0x12) (lightTable.vcp 0x12) = slotAt (some ⟨some [1, 2]⟩) (some 0) := rfl
  rw [hslots, hslot]
  refine ⟨0, lift_mul_apply.mpr ⟨rfl, ⟨2, some 1⟩, _, _, ?_, rfl, rfl, [1, 2], lift_mul_apply.mpr ⟨?_, rfl⟩⟩⟩
  · exact Heap.single_apart.mpr (Heap.single_of_ne (by decide) _)
  · decide

/-- The assembly of a profile from that table, which it does not patch. -/
def secretAssembling : Assembling :=
  match assemble utf8 secretContext "DEL1234" lightCaps false with
  | .error _ => .error
  | .ok assembly => .done assembly.build assembly.table.groups

theorem run_secretAssembling : secretAssembling.run lightCaps =
    (assemble utf8 secretContext "DEL1234" lightCaps false).toOption.map fun assembly =>
      (assembly.build, assembly.table.groups, assembly.table.caps) := by
  unfold secretAssembling
  cases hassembly : assemble utf8 secretContext "DEL1234" lightCaps false with
  | error e => rfl
  | ok assembly =>
    have hcaps : assembly.table.caps = lightCaps := (assemble_caps utf8 hassembly).trans rfl
    exact congrArg (fun caps => some (assembly.build, assembly.table.groups, caps)) hcaps.symm

/-- Where a request is refused there is no tree, and the table and its entry are as they were. -/
theorem secretContext_atomic :
    ∃ requests' refusals', 0 < refusals' ∧
      createDb (.bump fun n => n == 9) 4 (secretContext.tolerates "DEL1234" false) secretAssembling lightTable
        ⟨lightHeap, 2, 0⟩ = some ((none, lightTable), ⟨lightHeap, requests', refusals'⟩) := by
  have hpatches : secretAssembling.Representable lightCaps := by
    unfold secretAssembling
    split <;> trivial
  have hfuel : ∀ build groups rustCaps', secretAssembling.run lightCaps = some (build, groups, rustCaps') →
      breadth (pruneEmptyGroups groups) < 4 := by
    have hall : (secretAssembling.run lightCaps).all (fun r => decide (breadth (pruneEmptyGroups r.2.1) < 4)) = true := by
      decide +kernel
    intro build groups rustCaps' hrun
    rw [hrun] at hall
    exact of_decide_eq_true hall
  have hrep : Representable lightCaps.vcp := by
    intro code entry hentry values hvalues
    simp only [lightCaps, Function.update_apply] at hentry
    split_ifs at hentry
    · cases hentry
      cases hvalues
      decide
    · cases hentry
  obtain ⟨⟨result, table⟩, heap', requests', refusals', hcall, hnone, -⟩ :=
    createDb_atomic (.bump fun n => n == 9) utf8 lightTable lightHeap Heap.empty run_secretAssembling capsAt_light
      (Heap.empty_apart _).symm hrep hpatches hfuel 2 0
  rw [Heap.union_empty] at hcall hnone
  have hresult : (createDb (.bump fun n => n == 9) 4 (secretContext.tolerates "DEL1234" false) secretAssembling lightTable
      ⟨lightHeap, 2, 0⟩).map (fun r => r.1.1) = some none := by decide +kernel
  rw [hcall, Option.map_some, Option.some.injEq] at hresult
  obtain ⟨rfl, rfl, hrefused | hunpublished⟩ := hnone hresult
  · exact ⟨requests', refusals', hrefused, by rw [hcall, ← hresult]⟩
  · have hloads : (Database.createDb utf8 (some secretContext) "DEL1234" lightCaps false).monitor.isSome = true := by
      decide +kernel
    rw [hunpublished] at hloads
    cases hloads

end DdcControl.Database.Memory
