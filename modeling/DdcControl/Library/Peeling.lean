import Mathlib.Algebra.Order.BigOperators.Group.List
import Mathlib.Algebra.Order.Ring.Nat
import Mathlib.Data.List.Nodup
import Mathlib.Logic.Function.Basic
import Mathlib.Logic.Relation

/-!
# Peeling a multigraph

Topological peeling of a finite directed multigraph with dangling edges: a vertex is
*ready* when each of its out-edges leads to a vertex found valid; a ready vertex is
popped, and unless it exceeds a limit on the length of paths or the size of expansion
trees from it, it is valid and discharges the edges into it. Which ready vertex is
popped is left open.

## What is proved

`Inv` relates a state to the vertices popped so far: counters are what is left to
discharge, heights and visits are computed over discharged edges, and are exact for
valid vertices. Popping any ready vertex keeps it (`Inv.visit`) and cannot fail. So a
peeling ends (`peel_ends`), and, whatever the order, its valid vertices are those that
are `Ok` (`Inv.valid_iff_ok`): every path from them is short, every expansion tree
small, no cycle and no dangling edge reachable (`not_ok_iff`).
-/

namespace Peeling

variable {V : Type*}

/-- A finite multigraph by its out-edges, an entry for each; `none` leads nowhere. -/
structure Graph (V : Type*) where
  vertices : List V
  out : V → List (Option V)
  nodup : vertices.Nodup
  closed : ∀ v ∈ vertices, ∀ w, some w ∈ out v → w ∈ vertices

/-- The limits of a peeling: on the vertices of a path, on the nodes of an expansion
tree if these are bounded, and where sums of nodes saturate. -/
structure Limits where
  height : ℕ
  visits : Option ℕ
  cap : ℕ
  cap_pos : 0 < cap
  visits_lt : ∀ bound ∈ visits, bound < cap

variable (G : Graph V) (L : Limits)

/-! ### What the answer means -/

/-- An edge of the graph. -/
def Graph.Edge (v w : V) : Prop := some w ∈ G.out v

/-- `path` is a path from `v`. -/
def Graph.Path (v : V) (path : List V) : Prop := path.head? = some v ∧ path.IsChain G.Edge

/-- The nodes of the expansion tree of a vertex, cut at a depth; repeated edges count
each time. -/
def Graph.treeSize : ℕ → V → ℕ
  | 0, _ => 0
  | depth + 1, v => 1 + ((G.out v).map fun target => target.elim 0 (Graph.treeSize depth)).sum

/-- Some path from the vertex is longer than the limit. -/
def Deep (v : V) : Prop := ∃ path, G.Path v path ∧ L.height < path.length

/-- The expansion tree of the vertex is larger than the bound, if there is one. -/
def Big (v : V) : Prop := ∃ bound ∈ L.visits, ∃ depth, bound < G.treeSize depth v

/-- A vertex is fit: its edges lead to fit vertices, and it is within the limits. -/
inductive Ok : V → Prop
  | intro {v : V} : none ∉ G.out v → (∀ w, G.Edge v w → Ok w) → ¬Deep G L v → ¬Big G L v → Ok v

/-- The vertices reachable from `v`, itself included. -/
abbrev Graph.Reaches : V → V → Prop := Relation.ReflTransGen G.Edge

/-! ### Paths and trees -/

theorem path_iff {v : V} {path : List V} :
    G.Path v path ↔ path = [v] ∨ ∃ w rest, path = v :: rest ∧ G.Edge v w ∧ G.Path w rest := by
  constructor
  · rintro ⟨hhead, hchain⟩
    cases path with
    | nil => cases hhead
    | cons u rest =>
      cases hhead
      cases rest with
      | nil => exact .inl rfl
      | cons w rest =>
        rw [List.isChain_cons_cons] at hchain
        exact .inr ⟨w, w :: rest, rfl, hchain.1, rfl, hchain.2⟩
  · rintro (rfl | ⟨w, rest, rfl, hedge, hhead, hchain⟩)
    · exact ⟨rfl, .singleton v⟩
    · cases rest with
      | nil => cases hhead
      | cons u rest =>
        cases hhead
        exact ⟨rfl, List.isChain_cons_cons.mpr ⟨hedge, hchain⟩⟩

/-- The longest path from a vertex has `h` vertices. -/
def HasHeight (v : V) (h : ℕ) : Prop := (∃ path, G.Path v path ∧ path.length = h) ∧ ∀ path, G.Path v path → path.length ≤ h

/-- The whole expansion tree of a vertex has `n` nodes. -/
def HasSize (v : V) (n : ℕ) : Prop := ∃ depth, ∀ deeper, depth ≤ deeper → G.treeSize deeper v = n

theorem HasHeight.deep_iff {v : V} {h : ℕ} (hh : HasHeight G v h) : Deep G L v ↔ L.height < h := by
  obtain ⟨⟨path, hpath, hlen⟩, hmax⟩ := hh
  constructor
  · rintro ⟨path', hpath', hlong⟩
    exact hlong.trans_le (hmax path' hpath')
  · intro hlong
    exact ⟨path, hpath, hlen ▸ hlong⟩

theorem treeSize_le_succ (depth : ℕ) (v : V) : G.treeSize depth v ≤ G.treeSize (depth + 1) v := by
  induction depth generalizing v with
  | zero => exact Nat.zero_le _
  | succ depth ih =>
    rw [Graph.treeSize, Graph.treeSize]
    refine Nat.add_le_add_left (List.sum_le_sum fun target _ => ?_) 1
    cases target with
    | none => exact le_rfl
    | some w => exact ih w

theorem treeSize_mono (v : V) : Monotone fun depth => G.treeSize depth v :=
  monotone_nat_of_le_succ fun depth => treeSize_le_succ G depth v

theorem HasSize.treeSize_le {v : V} {n : ℕ} (hn : HasSize G v n) (depth : ℕ) :
    G.treeSize depth v ≤ n := by
  obtain ⟨whole, hwhole⟩ := hn
  exact (treeSize_mono G v (Nat.le_max_right whole depth)).trans_eq (hwhole _ (Nat.le_max_left ..))

theorem HasSize.big_iff {v : V} {n : ℕ} (hn : HasSize G v n) :
    Big G L v ↔ ∃ bound ∈ L.visits, bound < n := by
  refine exists_congr fun bound => and_congr_right fun _ =>
    ⟨fun ⟨deeper, h⟩ => h.trans_le (hn.treeSize_le G deeper), ?_⟩
  obtain ⟨depth, hdepth⟩ := hn
  exact fun h => ⟨depth, (hdepth depth le_rfl).symm ▸ h⟩

/-- The largest number of a list. -/
def sup (l : List ℕ) : ℕ := l.foldr max 0

theorem le_sup {l : List ℕ} {n : ℕ} (h : n ∈ l) : n ≤ sup l := by
  induction l with
  | nil => cases h
  | cons m l ih =>
    show n ≤ max m (sup l)
    rcases List.mem_cons.mp h with rfl | h
    · exact Nat.le_max_left ..
    · exact (ih h).trans (Nat.le_max_right ..)

theorem sup_mem (l : List ℕ) : sup l = 0 ∨ sup l ∈ l := by
  induction l with
  | nil => exact .inl rfl
  | cons m l ih =>
    rw [show sup (m :: l) = max m (sup l) from rfl]
    rcases Nat.le_total m (sup l) with h | h
    · rw [max_eq_right h]
      exact ih.imp id (List.mem_cons_of_mem m)
    · rw [max_eq_left h]
      exact .inr (List.mem_cons_self ..)

/-- The vertices discharged edges lead to, with multiplicity. -/
def Graph.resolved (valid : V → Bool) (u : V) : List V := (G.out u).filterMap fun target => target.filter valid

theorem mem_resolved {valid : V → Bool}
    {u w : V} : w ∈ G.resolved valid u ↔ G.Edge u w ∧ valid w = true := by
  simp only [Graph.resolved, List.mem_filterMap, Option.filter_eq_some_iff, Graph.Edge]
  constructor
  · rintro ⟨target, h, rfl, hv⟩
    exact ⟨h, hv⟩
  · rintro ⟨h, hv⟩
    exact ⟨some w, h, rfl, hv⟩

/-- A vertex whose edges are all discharged is one longer than the longest of their ends. -/
theorem hasHeight_of_resolved {valid : V → Bool} {heights : V → ℕ} {u : V}
    (hall : ∀ w, G.Edge u w → valid w = true)
    (hh : ∀ w, valid w = true → HasHeight G w (heights w)) :
    HasHeight G u (sup ((G.resolved valid u).map heights) + 1) := by
  constructor
  · rcases sup_mem ((G.resolved valid u).map heights) with h | h
    · rw [h]
      exact ⟨[u], (path_iff G).mpr (.inl rfl), rfl⟩
    · obtain ⟨w, hw, heq⟩ := List.mem_map.mp h
      obtain ⟨hedge, hvalid⟩ := (mem_resolved G).mp hw
      obtain ⟨⟨path, hpath, hlen⟩, -⟩ := hh w hvalid
      refine ⟨u :: path, (path_iff G).mpr (.inr ⟨w, path, rfl, hedge, hpath⟩), ?_⟩
      rw [List.length_cons, hlen, heq]
  · intro path hpath
    rcases (path_iff G).mp hpath with rfl | ⟨w, rest, rfl, hedge, hrest⟩
    · exact Nat.le_add_left ..
    · have hvalid := hall w hedge
      have hle := (hh w hvalid).2 rest hrest
      have := le_sup (List.mem_map_of_mem (f := heights) ((mem_resolved G).mpr ⟨hedge, hvalid⟩))
      rw [List.length_cons]
      omega

/-- A common depth at which the trees of finitely many vertices are whole. -/
theorem exists_depth {valid : V → Bool} {visits : V → ℕ}
    (hs : ∀ w, valid w = true → HasSize G w (visits w)) (targets : List (Option V)) :
    ∃ depth, ∀ deeper, depth ≤ deeper → ∀ target ∈ targets, ∀ w, target = some w → valid w = true →
      G.treeSize deeper w = visits w := by
  induction targets with
  | nil => exact ⟨0, fun _ _ _ h => by cases h⟩
  | cons target targets ih =>
    obtain ⟨depth, hdepth⟩ := ih
    obtain ⟨depth', hdepth'⟩ : ∃ depth', ∀ deeper, depth' ≤ deeper → ∀ w, target = some w → valid w = true →
        G.treeSize deeper w = visits w := by
      cases target with
      | none => exact ⟨0, fun _ _ _ h => by cases h⟩
      | some w =>
        cases hv : valid w with
        | false => exact ⟨0, fun _ _ w' h hv' => by cases h; rw [hv] at hv'; cases hv'⟩
        | true =>
          obtain ⟨d, hd⟩ := hs w hv
          exact ⟨d, fun deeper hdeeper w' h _ => by cases h; exact hd deeper hdeeper⟩
    refine ⟨max depth depth', fun deeper hdeeper t ht w htw hv => ?_⟩
    rcases List.mem_cons.mp ht with rfl | ht
    · exact hdepth' deeper (le_of_max_le_right hdeeper) w htw hv
    · exact hdepth deeper (le_of_max_le_left hdeeper) t ht w htw hv

/-- A vertex whose edges are all discharged has one node more than their ends together. -/
theorem hasSize_of_resolved {valid : V → Bool} {visits : V → ℕ} {u : V}
    (hall : ∀ w, G.Edge u w → valid w = true) (hs : ∀ w, valid w = true → HasSize G w (visits w)) :
    HasSize G u (((G.resolved valid u).map visits).sum + 1) := by
  obtain ⟨depth, hdepth⟩ := exists_depth G hs (G.out u)
  refine ⟨depth + 1, fun deeper hdeeper => ?_⟩
  obtain ⟨deeper, rfl⟩ : ∃ d, deeper = d + 1 := ⟨deeper - 1, by omega⟩
  have hsum : ∀ targets : List (Option V), (∀ target ∈ targets, target ∈ G.out u) →
      (targets.map fun target => target.elim 0 (G.treeSize deeper)).sum =
        ((targets.filterMap fun target => target.filter valid).map visits).sum := by
    intro targets
    induction targets with
    | nil => exact fun _ => rfl
    | cons target targets ih =>
      intro hsub
      have ih := ih fun t ht => hsub t (List.mem_cons_of_mem _ ht)
      have hmem := hsub target (List.mem_cons_self ..)
      cases target with
      | none => simpa using ih
      | some w =>
        have hv := hall w hmem
        have hsize := hdepth deeper (by omega) (some w) hmem w rfl hv
        simp only [List.map_cons, List.sum_cons, Option.elim_some, hsize, ih, List.filterMap_cons,
          Option.filter_some, hv, if_true]
  rw [Graph.treeSize, hsum _ fun _ h => h, Nat.add_comm]
  rfl

/-! ### The algorithm -/

section Algorithm

variable [DecidableEq V]

/-- The state of a peeling. -/
structure State (V : Type*) where
  pending : V → ℕ
  heights : V → ℕ
  visits : V → ℕ
  valid : V → Bool
  ready : List V

/-- The sources of the edges into a vertex, with multiplicity. -/
def Graph.parents (w : V) : List V :=
  G.vertices.flatMap fun u => (G.out u).filterMap fun target => if target = some w then some u else none

/-- The start: every edge pending, the vertices without edges ready. -/
def start : State V where
  pending v := (G.out v).length
  heights _ := 1
  visits _ := 1
  valid _ := false
  ready := (G.vertices.filter fun v => (G.out v).length = 0).reverse

/-- One edge from `parent` into the valid `index` is discharged. A counter that is
already zero is a fault. -/
def discharge (index : V) (s : State V) (parent : V) : Option (State V) :=
  if s.pending parent = 0 then none
  else
    let left := s.pending parent - 1
    some { s with
      heights := Function.update s.heights parent (max (s.heights parent) (s.heights index + 1))
      visits := Function.update s.visits parent (min L.cap (s.visits parent + s.visits index))
      pending := Function.update s.pending parent left
      ready := if left = 0 then parent :: s.ready else s.ready }

/-- A vertex exceeds a limit. -/
def exceeds (s : State V) (v : V) : Bool := L.height < s.heights v || L.visits.any fun bound => bound < s.visits v

/-- A vertex is popped. -/
def visit (v : V) (s : State V) : Option (State V) :=
  if exceeds L s v then some s
  else (G.parents v).foldlM (discharge L v) { s with valid := Function.update s.valid v true }

/-- The loop, popping the vertex made ready last. -/
def peel : ℕ → State V → Option (State V)
  | 0, s =>
    match s.ready with
    | [] => some s
    | _ :: _ => none
  | fuel + 1, s =>
    match s.ready with
    | [] => some s
    | v :: rest => (visit G L v { s with ready := rest }).bind (peel fuel)

/-- Popping some ready vertex, whichever. -/
def Pops (s s' : State V) : Prop :=
  ∃ v rest, s.ready.Perm (v :: rest) ∧ visit G L v { s with ready := rest } = some s'

/-! ### One edge, one vertex -/

section Counters

variable (p : V) (parents : List V) (u : V)

/-- One edge is taken off the pending ones, then the rest. -/
theorem pending_cons (pending : V → ℕ) :
    Function.update pending p (pending p - 1) u - parents.count u = pending u - (p :: parents).count u := by
  rw [List.count_cons]
  by_cases hu : u = p
  · subst hu
    simp only [Function.update_self, beq_self_eq_true, if_true]
    omega
  · simp only [Function.update_of_ne hu, beq_eq_false_iff_ne.mpr (Ne.symm hu), Bool.false_eq_true,
      if_false, add_zero]

/-- One edge raises a height, then the rest. -/
theorem heights_cons (heights : V → ℕ) (n : ℕ) :
    (if u ∈ parents then max (Function.update heights p (max (heights p) n) u) n
      else Function.update heights p (max (heights p) n) u) =
      if u ∈ p :: parents then max (heights u) n else heights u := by
  by_cases hu : u = p
  · subst hu
    simp only [Function.update_self, List.mem_cons, true_or, if_true]
    split
    · exact max_eq_left (Nat.le_max_right ..)
    · rfl
  · simp only [Function.update_of_ne hu, List.mem_cons, hu, false_or]

/-- One edge adds the nodes of its end up to the cap, then the rest. -/
theorem visits_cons (visits : V → ℕ) (cap n : ℕ) :
    (if u ∈ parents then min cap (Function.update visits p (min cap (visits p + n)) u + parents.count u * n)
      else Function.update visits p (min cap (visits p + n)) u) =
      if u ∈ p :: parents then min cap (visits u + (p :: parents).count u * n) else visits u := by
  rw [List.count_cons]
  by_cases hu : u = p
  · subst hu
    simp only [Function.update_self, List.mem_cons, true_or, if_true, beq_self_eq_true,
      Nat.add_mul, Nat.one_mul]
    by_cases hmem : u ∈ parents
    · rw [if_pos hmem]
      generalize parents.count u * n = rest
      omega
    · rw [if_neg hmem, List.count_eq_zero_of_not_mem hmem, Nat.zero_mul, Nat.zero_add]
  · simp only [Function.update_of_ne hu, List.mem_cons, hu, false_or,
      beq_eq_false_iff_ne.mpr (Ne.symm hu), Bool.false_eq_true, if_false, add_zero]

/-- One edge makes its source ready when it was the last pending one, then the rest. -/
theorem ready_cons {pending : V → ℕ} (hp : (p :: parents).count p ≤ pending p) :
    (u ∈ parents ∧ Function.update pending p (pending p - 1) u = parents.count u) ∨
        u ∈ (if pending p - 1 = 0 then [p] else []) ↔
      u ∈ p :: parents ∧ pending u = (p :: parents).count u := by
  rw [List.count_cons_self] at hp
  rw [List.count_cons, List.mem_cons]
  by_cases hu : u = p
  · subst hu
    simp only [Function.update_self, true_or, true_and, beq_self_eq_true, if_true]
    by_cases hmem : u ∈ parents
    · have := List.count_pos_iff.mpr hmem
      have hleft : ¬ pending u - 1 = 0 := by omega
      simp only [hmem, true_and, if_neg hleft, List.not_mem_nil, or_false]
      omega
    · rw [List.count_eq_zero_of_not_mem hmem] at hp ⊢
      by_cases hleft : pending u - 1 = 0
      · simp only [hmem, false_and, if_pos hleft, List.mem_singleton, false_or, true_iff]
        omega
      · simp only [hmem, false_and, if_neg hleft, List.not_mem_nil, false_or, false_iff]
        omega
  · have hnot : u ∉ (if pending p - 1 = 0 then [p] else []) := by
      split
      · rwa [List.mem_singleton]
      · exact List.not_mem_nil
    simp only [Function.update_of_ne hu, hu, false_or, beq_eq_false_iff_ne.mpr (Ne.symm hu),
      Bool.false_eq_true, if_false, add_zero, hnot, or_false]

end Counters

/-- What discharging the edges from `parents` into `v` does to each counter. -/
theorem discharge_parents {v : V} (parents : List V) {s : State V} (hv : v ∉ parents)
    (hpending : ∀ u, parents.count u ≤ s.pending u) :
    ∃ s' pushed, parents.foldlM (discharge L v) s = some s' ∧ s'.valid = s.valid ∧
      (∀ u, s'.pending u = s.pending u - parents.count u) ∧
      (∀ u, s'.heights u = if u ∈ parents then max (s.heights u) (s.heights v + 1) else s.heights u) ∧
      (∀ u, s'.visits u = if u ∈ parents then min L.cap (s.visits u + parents.count u * s.visits v) else s.visits u) ∧
      s'.ready = pushed ++ s.ready ∧ pushed.Nodup ∧
      ∀ u, u ∈ pushed ↔ u ∈ parents ∧ s.pending u = parents.count u := by
  induction parents generalizing s with
  | nil => exact ⟨s, [], rfl, rfl, by simp, by simp, by simp, rfl, List.nodup_nil, by simp⟩
  | cons p parents ih =>
    obtain ⟨hvp, hv⟩ := List.ne_and_not_mem_of_not_mem_cons hv
    have hp : 0 < s.pending p := (List.count_pos_iff.mpr (List.mem_cons_self ..)).trans_le (hpending p)
    let s₁ : State V := { s with
      heights := Function.update s.heights p (max (s.heights p) (s.heights v + 1))
      visits := Function.update s.visits p (min L.cap (s.visits p + s.visits v))
      pending := Function.update s.pending p (s.pending p - 1)
      ready := if s.pending p - 1 = 0 then p :: s.ready else s.ready }
    have hs₁ : discharge L v s p = some s₁ := if_neg (by omega)
    have hpending₁ : ∀ u, parents.count u ≤ s₁.pending u := by
      intro u
      have hu := hpending u
      rw [List.count_cons] at hu
      show _ ≤ Function.update s.pending p (s.pending p - 1) u
      rw [Function.update_apply]
      split
      · rename_i h
        subst h
        rw [if_pos (beq_self_eq_true _)] at hu
        omega
      · omega
    obtain ⟨s', pushed, hfold, hvalid, hpend, hheights, hvisits, hready, hnodup, hpushed⟩ :=
      ih hv hpending₁
    have hheightv : s₁.heights v = s.heights v := Function.update_of_ne hvp ..
    have hvisitv : s₁.visits v = s.visits v := Function.update_of_ne hvp ..
    refine ⟨s', pushed ++ (if s.pending p - 1 = 0 then [p] else []), ?_, hvalid, fun u => ?_,
      fun u => ?_, fun u => ?_,
      ?_, ?_, fun u => ?_⟩
    · rw [List.foldlM_cons, hs₁]
      exact hfold
    · exact (hpend u).trans (pending_cons p parents u s.pending)
    · rw [hheights u, hheightv]
      exact heights_cons p parents u s.heights (s.heights v + 1)
    · rw [hvisits u, hvisitv]
      exact visits_cons p parents u s.visits L.cap (s.visits v)
    · rw [hready]
      show pushed ++ (if _ then p :: s.ready else s.ready) = _
      split <;> simp
    · split
      · rename_i hleft
        -- nothing is pending at `p` any more, so no other edge leaves it
        refine hnodup.append (List.nodup_singleton p) fun u hu hup => ?_
        obtain rfl := List.mem_singleton.mp hup
        have hmore := List.count_pos_iff.mpr ((hpushed u).mp hu).1
        have hle := hpending u
        rw [List.count_cons_self] at hle
        omega
      · rwa [List.append_nil]
    · rw [List.mem_append, hpushed u]
      exact ready_cons p parents u (hpending p)

/-! ### Counting edges -/

instance (v w : V) : Decidable (G.Edge v w) := inferInstanceAs (Decidable (some w ∈ G.out v))

/-- The edges of a vertex that are still to be discharged. -/
def waiting (valid : V → Bool) (target : Option V) : Bool := !target.any valid

/-- A vertex is listed among the parents of `w` once for each edge to `w`. -/
theorem count_parents {u w : V} (hu : u ∈ G.vertices) :
    (G.parents w).count u = (G.out u).count (some w) := by
  have hedges : ∀ (u' : V) (targets : List (Option V)),
      (targets.filterMap fun target => if target = some w then some u' else none).count u =
        if u' = u then targets.count (some w) else 0 := by
    intro u' targets
    induction targets with
    | nil => simp
    | cons target targets ih =>
      by_cases ht : target = some w
      · simp only [List.filterMap_cons, ht, if_true, List.count_cons, ih,
          beq_self_eq_true, beq_iff_eq]
        split <;> rfl
      · simp only [List.filterMap_cons, ht, if_false, List.count_cons, ih, beq_iff_eq, add_zero]
  have hvertices : ∀ vertices : List V, vertices.Nodup →
      (vertices.flatMap fun u' => (G.out u').filterMap fun target => if target =
        some w then some u' else none).count u =
        if u ∈ vertices then (G.out u).count (some w) else 0 := by
    intro vertices hnodup
    induction vertices with
    | nil => rfl
    | cons v vertices ih =>
      obtain ⟨hv, hnodup⟩ := List.nodup_cons.mp hnodup
      rw [List.flatMap_cons, List.count_append, hedges, ih hnodup]
      by_cases huv : v = u
      · subst huv
        simp [hv]
      · simp [huv, Ne.symm huv]
  rw [Graph.parents, hvertices G.vertices G.nodup, if_pos hu]

theorem mem_parents {u w : V} : u ∈ G.parents w ↔ u ∈ G.vertices ∧ G.Edge u w := by
  simp only [Graph.parents, List.mem_flatMap, List.mem_filterMap, Graph.Edge,
    Option.ite_none_right_eq_some, Option.some.injEq]
  constructor
  · rintro ⟨_, hu, _, ht, rfl, rfl⟩
    exact ⟨hu, ht⟩
  · rintro ⟨hu, ht⟩
    exact ⟨u, hu, some w, ht, rfl, rfl⟩

/-- Making a vertex valid discharges the edges to it. -/
theorem countP_waiting {valid : V → Bool} {w : V} (hw : valid w = false)
    (targets : List (Option V)) :
    targets.countP (waiting valid) = targets.countP (waiting (Function.update valid w true)) +
      targets.count (some w) := by
  induction targets with
  | nil => rfl
  | cons target targets ih =>
    rw [List.countP_cons, List.countP_cons, List.count_cons, ih]
    cases target with
    | none =>
      simp [waiting]
      omega
    | some u =>
      by_cases hu : u = w
      · subst hu
        simp [waiting, hw]
        omega
      · simp [waiting, hu]
        omega

/-- Making a vertex valid adds it to the ends of the edges to it. -/
theorem sup_resolved {valid : V → Bool} {w : V} (hw : valid w = false) (heights : V → ℕ) (u : V) :
    sup ((G.resolved (Function.update valid w true) u).map heights) =
      if G.Edge u w then max (sup ((G.resolved valid u).map heights)) (heights w)
      else sup ((G.resolved valid u).map heights) := by
  have h : ∀ targets : List (Option V),
      sup ((targets.filterMap fun target => target.filter (Function.update valid w true)).map heights) =
        if some w ∈ targets then
          max (sup ((targets.filterMap fun target => target.filter valid).map heights)) (heights w)
        else sup ((targets.filterMap fun target => target.filter valid).map heights) := by
    intro targets
    induction targets with
    | nil => rfl
    | cons target targets ih =>
      cases target with
      | none => simpa using ih
      | some v =>
        by_cases hv : v = w
        · subst hv
          simp only [List.filterMap_cons, Option.filter_some, Function.update_self, if_true, hw,
            Bool.false_eq_true, if_false, List.map_cons, List.mem_cons, true_or]
          show max (heights v) (sup _) = _
          rw [ih]
          split
          · rw [max_comm, max_assoc, max_self]
          · exact max_comm ..
        · have hmem : some w ∈ some v :: targets ↔ some w ∈ targets := by
            simp [List.mem_cons, Ne.symm hv]
          simp only [List.filterMap_cons, Option.filter_some, Function.update_of_ne hv, hmem]
          cases valid v with
          | false => exact ih
          | true =>
            show max (heights v) (sup _) = if _ then max (max (heights v) (sup _)) _ else max (heights v) (sup _)
            rw [ih]
            split
            · exact (max_assoc ..).symm
            · rfl
  exact h (G.out u)

/-- Making a vertex valid adds its nodes once for each edge to it. -/
theorem sum_resolved {valid : V → Bool} {w : V} (hw : valid w = false) (visits : V → ℕ) (u : V) :
    ((G.resolved (Function.update valid w true) u).map visits).sum =
      ((G.resolved valid u).map visits).sum + (G.out u).count (some w) * visits w := by
  have h : ∀ targets : List (Option V),
      ((targets.filterMap fun target => target.filter (Function.update valid w true)).map visits).sum =
        ((targets.filterMap fun target => target.filter valid).map visits).sum +
          targets.count (some w) * visits w := by
    intro targets
    induction targets with
    | nil => simp
    | cons target targets ih =>
      cases target with
      | none => simpa using ih
      | some v =>
        by_cases hv : v = w
        · subst hv
          simp only [List.filterMap_cons, Option.filter_some, Function.update_self, if_true, hw,
            Bool.false_eq_true, if_false, List.map_cons, List.sum_cons, ih, List.count_cons_self,
            Nat.add_mul, Nat.one_mul]
          omega
        · have hcount : (some v :: targets).count (some w) = targets.count (some w) :=
            List.count_cons_of_ne (by simpa using hv)
          simp only [List.filterMap_cons, Option.filter_some, Function.update_of_ne hv, hcount]
          cases valid v with
          | false => exact ih
          | true =>
            simp only [if_true, List.map_cons, List.sum_cons, ih]
            omega
  exact h (G.out u)

end Algorithm

/-! ### The invariant -/

/-- The invariant of a peeling that has popped `popped`. -/
structure Inv (popped : List V) (s : State V) : Prop where
  nodup : (s.ready ++ popped).Nodup
  zero : ∀ u, u ∈ s.ready ++ popped ↔ u ∈ G.vertices ∧ s.pending u = 0
  valid : ∀ u, s.valid u = true ↔ u ∈ popped ∧ exceeds L s u = false
  pending : ∀ u ∈ G.vertices, s.pending u = (G.out u).countP (waiting s.valid)
  heights : ∀ u ∈ G.vertices, s.heights u = sup ((G.resolved s.valid u).map s.heights) + 1
  visits : ∀ u ∈ G.vertices, s.visits u = min L.cap (((G.resolved s.valid u).map s.visits).sum + 1)
  ok : ∀ u, s.valid u = true → Ok G L u
  height_exact : ∀ u, s.valid u = true → HasHeight G u (s.heights u)
  size_exact : L.visits.isSome = true → ∀ u, s.valid u = true → HasSize G u (s.visits u)

theorem inv_start : Inv G L [] (start G) := by
  have hresolved : ∀ u, G.resolved (fun _ => false) u = [] := by
    intro u
    refine List.eq_nil_iff_forall_not_mem.mpr fun w hw => ?_
    cases ((mem_resolved G).mp hw).2
  refine ⟨?_, fun u => ?_, fun u => ?_, fun u _ => ?_, fun u _ => ?_, fun u _ => ?_, ?_, ?_, ?_⟩
  · rw [List.append_nil]
    exact List.nodup_reverse.mpr (G.nodup.filter _)
  · simp [start]
  · simp [start]
  · refine (List.countP_eq_length.mpr fun target _ => ?_).symm
    cases target <;> rfl
  · show 1 = sup ((G.resolved (fun _ => false) u).map _) + 1
    rw [hresolved]
    rfl
  · show 1 = min L.cap (((G.resolved (fun _ => false) u).map _).sum + 1)
    rw [hresolved]
    have := L.cap_pos
    simp only [List.map_nil, List.sum_nil]
    omega
  all_goals intros; rename_i h; cases h

section Popped

variable {G L} {popped : List V} {s : State V}

/-- A vertex with nothing pending leads to valid vertices only. -/
theorem Inv.targets (h : Inv G L popped s) {u : V} (hu : u ∈ G.vertices) (hzero : s.pending u = 0) :
    none ∉ G.out u ∧ ∀ w, G.Edge u w → s.valid w = true := by
  have hnone := List.countP_eq_zero.mp ((h.pending u hu).symm.trans hzero)
  refine ⟨fun hmem => hnone none hmem rfl, fun w hw => ?_⟩
  have := hnone (some w) hw
  simpa [waiting] using this

/-- A vertex with nothing pending exceeds a limit where its paths or its tree do. -/
theorem Inv.exceeds_iff (h : Inv G L popped s) {u : V} (hu : u ∈ G.vertices)
    (hzero : s.pending u = 0) :
    exceeds L s u = true ↔ Deep G L u ∨ Big G L u := by
  obtain ⟨-, htargets⟩ := h.targets hu hzero
  have hheight := hasHeight_of_resolved G htargets h.height_exact
  rw [← h.heights u hu] at hheight
  rw [hheight.deep_iff, exceeds, Bool.or_eq_true, decide_eq_true_eq]
  refine or_congr_right ?_
  cases hbound : L.visits with
  | none => simp [Big, hbound]
  | some bound =>
    have hsize := hasSize_of_resolved G htargets (h.size_exact (by rw [hbound]; rfl))
    have hcap := L.visits_lt bound hbound
    rw [hsize.big_iff, h.visits u hu, hbound]
    simp only [Option.any_some, decide_eq_true_eq, Option.mem_def, Option.some.injEq,
      exists_eq_left']
    omega

/-- What is exact about a vertex with nothing pending that is within the limits. -/
theorem Inv.within (h : Inv G L popped s) {u : V} (hu : u ∈ G.vertices) (hzero : s.pending u = 0)
    (hexceeds : exceeds L s u = false) :
    Ok G L u ∧ HasHeight G u (s.heights u) ∧ (L.visits.isSome = true → HasSize G u (s.visits u)) := by
  obtain ⟨hnone, htargets⟩ := h.targets hu hzero
  have hnot := mt (h.exceeds_iff hu hzero).mpr (by rw [hexceeds]; exact Bool.false_ne_true)
  rw [not_or] at hnot
  refine ⟨.intro hnone (fun w hw => h.ok w (htargets w hw)) hnot.1 hnot.2, ?_, fun hbounded => ?_⟩
  · rw [h.heights u hu]
    exact hasHeight_of_resolved G htargets h.height_exact
  · obtain ⟨bound, hbound⟩ := Option.isSome_iff_exists.mp hbounded
    have hsize := hasSize_of_resolved G htargets (h.size_exact hbounded)
    have hcap := L.visits_lt bound hbound
    have hle : ¬bound < s.visits u := by
      rw [exceeds, hbound, Bool.or_eq_false_iff] at hexceeds
      simpa using hexceeds.2
    have hvisits := h.visits u hu
    rwa [hvisits, min_eq_right (by omega)]

/-- The vertex on top is one of the graph, with nothing pending, and not valid yet. -/
theorem Inv.top (h : Inv G L popped s) {v : V} {rest : List V} (hready : s.ready.Perm (v :: rest)) :
    v ∈ G.vertices ∧ s.pending v = 0 ∧ s.valid v = false := by
  have hmem : v ∈ s.ready ++ popped := List.mem_append_left _ (hready.mem_iff.mpr (List.mem_cons_self ..))
  obtain ⟨hv, hv0⟩ := (h.zero v).mp hmem
  refine ⟨hv, hv0, ?_⟩
  cases hvalid : s.valid v with
  | false => rfl
  | true =>
    have hdisjoint := (List.nodup_append.mp h.nodup).2.2
    exact absurd rfl (hdisjoint v (hready.mem_iff.mpr (List.mem_cons_self ..)) v ((h.valid v).mp hvalid).1)

/-- Popping a vertex that exceeds a limit keeps the invariant. -/
theorem Inv.skip (h : Inv G L popped s) {v : V} {rest : List V} (hready : s.ready.Perm (v :: rest))
    (hexceeds : exceeds L s v = true) : Inv G L (v :: popped) { s with ready := rest } := by
  have hperm : (rest ++ v :: popped).Perm (s.ready ++ popped) :=
    List.perm_middle.trans (hready.symm.append_right popped)
  refine ⟨hperm.nodup_iff.mpr h.nodup, fun u => ?_, fun u => ?_, h.pending, h.heights, h.visits,
    h.ok, h.height_exact,
    h.size_exact⟩
  · rw [hperm.mem_iff]
    exact h.zero u
  · rw [h.valid u, List.mem_cons]
    constructor
    · exact fun hu => ⟨.inr hu.1, hu.2⟩
    · rintro ⟨rfl | hu, hwithin⟩
      · rw [show exceeds L { s with ready := rest } u = exceeds L s u from rfl, hexceeds] at hwithin
        cases hwithin
      · exact ⟨hu, hwithin⟩

/-- The vertices popped are distinct vertices of the graph. -/
theorem Inv.length_popped (h : Inv G L popped s) : (s.ready ++ popped).length ≤ G.vertices.length :=
  List.Subperm.length_le (List.subperm_of_subset h.nodup fun u hu => ((h.zero u).mp hu).1)

/-- **When nothing is ready, the valid vertices are the fit ones.** -/
theorem Inv.valid_iff_ok (h : Inv G L popped s) (hdone : s.ready = []) {v : V}
    (hv : v ∈ G.vertices) :
    s.valid v = true ↔ Ok G L v := by
  refine ⟨h.ok v, fun hok => ?_⟩
  induction hok with
  | @intro v hnone _ hdeep hbig ih =>
    have hzero : s.pending v = 0 := by
      rw [h.pending v hv, List.countP_eq_zero]
      intro target htarget
      cases target with
      | none => exact absurd htarget hnone
      | some w => simp [waiting, ih w htarget (G.closed v hv w htarget)]
    have hpopped : v ∈ popped := by
      have := (h.zero v).mpr ⟨hv, hzero⟩
      rwa [hdone, List.nil_append] at this
    refine (h.valid v).mpr ⟨hpopped, ?_⟩
    cases hexceeds : exceeds L s v with
    | false => rfl
    | true => exact (((h.exceeds_iff hv hzero).mp hexceeds).elim hdeep hbig).elim

/-! ### Popping a vertex -/

variable [DecidableEq V]

/-- A vertex with nothing pending is no parent of one that is not valid. -/
theorem Inv.not_mem_parents (h : Inv G L popped s) {v : V} (hinvalid : s.valid v = false) {u : V}
    (hu : u ∈ G.vertices) (hu0 : s.pending u = 0) : u ∉ G.parents v := by
  intro hmem
  have hvalid := (h.targets hu hu0).2 v ((mem_parents G).mp hmem).2
  rw [hinvalid] at hvalid
  cases hvalid

/-- The edges into a vertex that is not valid are all pending. -/
theorem Inv.count_parents_le (h : Inv G L popped s) {v : V} (hinvalid : s.valid v = false) (u : V) :
    (G.parents v).count u ≤ s.pending u := by
  by_cases hu : u ∈ G.vertices
  · rw [count_parents G hu, h.pending u hu, countP_waiting hinvalid]
    exact Nat.le_add_left ..
  · rw [List.count_eq_zero_of_not_mem fun hmem => hu ((mem_parents G).mp hmem).1]
    exact Nat.zero_le _

/-- Popping a vertex within the limits does not fault, and keeps the invariant. -/
theorem Inv.discharge (h : Inv G L popped s) {v : V} {rest : List V}
    (hready : s.ready.Perm (v :: rest)) (hexceeds : exceeds L s v = false) :
    ∃ s', (G.parents v).foldlM (Peeling.discharge L v)
        { s with ready := rest, valid := Function.update s.valid v true } = some s' ∧
      Inv G L (v :: popped) s' := by
  have hperm : (rest ++ v :: popped).Perm (s.ready ++ popped) :=
    List.perm_middle.trans (hready.symm.append_right popped)
  have hnodup : (rest ++ v :: popped).Nodup := hperm.nodup_iff.mpr h.nodup
  have hzero : ∀ u, u ∈ rest ++ v :: popped ↔ u ∈ G.vertices ∧ s.pending u = 0 := fun u =>
    hperm.mem_iff.trans (h.zero u)
  obtain ⟨hv, hv0, hinvalid⟩ := h.top hready
  obtain ⟨hok, hheight, hsize⟩ := h.within hv hv0 hexceeds
  have hparent : ∀ u ∈ G.vertices, s.pending u = 0 → u ∉ G.parents v :=
    fun u hu hu0 => h.not_mem_parents hinvalid hu hu0
  have hcount := h.count_parents_le hinvalid
  obtain ⟨s', pushed, hfold, hvalid, hpending, hheights, hvisits, hready', hpnodup, hpushed⟩ :=
    discharge_parents L (G.parents v) (s := { s with ready := rest, valid := Function.update s.valid v true })
      (hparent v hv hv0) hcount
  simp only at hvalid hpending hheights hvisits hready' hpushed
  have hkeep : ∀ u ∈ G.vertices, s.pending u = 0 → s'.heights u = s.heights u ∧ s'.visits u = s.visits u := by
    intro u hu hu0
    have := hparent u hu hu0
    exact ⟨by rw [hheights u, if_neg this], by rw [hvisits u, if_neg this]⟩
  have hvalid_cases : ∀ u, s'.valid u = true → u ∈ G.vertices ∧ s.pending u = 0 ∧ (u = v ∨ s.valid u = true) := by
    intro u hu
    rw [hvalid, Function.update_apply] at hu
    split at hu
    · rename_i heq
      exact ⟨heq ▸ hv, heq ▸ hv0, .inl heq⟩
    · obtain ⟨hmem, hu0⟩ := (h.zero u).mp (List.mem_append_right _ ((h.valid u).mp hu).1)
      exact ⟨hmem, hu0, .inr hu⟩
  have hmap : ∀ (f f' : V → ℕ), (∀ u ∈ G.vertices, s.pending u = 0 → f' u = f u) → ∀ u,
      (G.resolved s'.valid u).map f' = (G.resolved s'.valid u).map f := by
    intro f f' hf u
    refine List.map_congr_left fun w hw => ?_
    obtain ⟨hmem, hw0, -⟩ := hvalid_cases w ((mem_resolved G).mp hw).2
    exact hf w hmem hw0
  refine ⟨s', hfold, ?_, fun u => ?_, fun u => ?_, fun u hu => ?_, fun u hu => ?_, fun u hu => ?_,
    fun u hu => ?_,
    fun u hu => ?_, fun hb u hu => ?_⟩
  · rw [hready', List.append_assoc]
    refine hpnodup.append hnodup fun u hup hur => ?_
    exact hparent u ((hzero u).mp hur).1 ((hzero u).mp hur).2 ((hpushed u).mp hup).1
  · rw [hready', List.append_assoc, List.mem_append, hzero u, hpushed u, hpending u]
    have hle := hcount u
    constructor
    · rintro (⟨hmem, heq⟩ | ⟨hu, hu0⟩)
      · exact ⟨((mem_parents G).mp hmem).1, by omega⟩
      · exact ⟨hu, by omega⟩
    · rintro ⟨hu, hu0⟩
      by_cases hmem : u ∈ G.parents v
      · exact .inl ⟨hmem, by omega⟩
      · rw [List.count_eq_zero_of_not_mem hmem] at hu0
        exact .inr ⟨hu, by omega⟩
  · have hsame : ∀ w ∈ G.vertices, s.pending w = 0 → exceeds L s' w = exceeds L s w := by
      intro w hw hw0
      obtain ⟨h1, h2⟩ := hkeep w hw hw0
      simp only [exceeds, h1, h2]
    rw [hvalid, Function.update_apply, List.mem_cons]
    by_cases huv : u = v
    · subst huv
      simp [hsame u hv hv0, hexceeds]
    · rw [if_neg huv, h.valid u]
      simp only [huv, false_or]
      refine and_congr_right fun hu => ?_
      obtain ⟨hmem, hu0⟩ := (h.zero u).mp (List.mem_append_right _ hu)
      rw [hsame u hmem hu0]
  · rw [hpending u, h.pending u hu, countP_waiting hinvalid, count_parents G hu, hvalid,
      Nat.add_sub_cancel]
  · rw [hmap s.heights s'.heights (fun w hw hw0 => (hkeep w hw hw0).1), hheights u, hvalid,
      sup_resolved G hinvalid, h.heights u hu]
    by_cases hedge : G.Edge u v
    · rw [if_pos hedge, if_pos ((mem_parents G).mpr ⟨hu, hedge⟩), Nat.add_max_add_right]
    · rw [if_neg hedge, if_neg fun hmem => hedge ((mem_parents G).mp hmem).2]
  · rw [hmap s.visits s'.visits (fun w hw hw0 => (hkeep w hw hw0).2), hvisits u, hvalid,
      sum_resolved G hinvalid, h.visits u hu]
    by_cases hmem : u ∈ G.parents v
    · rw [if_pos hmem, count_parents G hu]
      generalize (G.out u).count (some v) * s.visits v = more
      omega
    · rw [if_neg hmem, ← count_parents G hu, List.count_eq_zero_of_not_mem hmem,
        Nat.zero_mul, Nat.add_zero]
  · rcases (hvalid_cases u hu).2.2 with rfl | hu
    · exact hok
    · exact h.ok u hu
  · obtain ⟨hmem, hu0, hcase⟩ := hvalid_cases u hu
    rw [(hkeep u hmem hu0).1]
    rcases hcase with rfl | hu
    · exact hheight
    · exact h.height_exact u hu
  · obtain ⟨hmem, hu0, hcase⟩ := hvalid_cases u hu
    rw [(hkeep u hmem hu0).2]
    rcases hcase with rfl | hu
    · exact hsize hb
    · exact h.size_exact hb u hu

/-- **Popping any ready vertex does not fault, and keeps the invariant.** -/
theorem Inv.visit (h : Inv G L popped s) {v : V} {rest : List V}
    (hready : s.ready.Perm (v :: rest)) :
    ∃ s', Peeling.visit G L v { s with ready := rest } = some s' ∧ Inv G L (v :: popped) s' := by
  unfold Peeling.visit
  cases hexceeds : exceeds L s v with
  | true => exact ⟨_, if_pos hexceeds, h.skip hready hexceeds⟩
  | false =>
    obtain ⟨s', hfold, hinv⟩ := h.discharge hready hexceeds
    exact ⟨s',
      (if_neg (by rw [show exceeds L { s with ready := rest } v = exceeds L s v from rfl, hexceeds]; decide)).trans
      hfold, hinv⟩

end Popped

/-! ### Whole peelings -/

section Whole

variable [DecidableEq V]

/-- The invariant of any peeling. -/
theorem inv_of_pops {s : State V} (h : Relation.ReflTransGen (Pops G L) (start G) s) :
    ∃ popped, Inv G L popped s := by
  induction h with
  | refl => exact ⟨[], inv_start G L⟩
  | tail _ hpop ih =>
    obtain ⟨popped, hinv⟩ := ih
    obtain ⟨v, rest, hready, hvisit⟩ := hpop
    obtain ⟨s', hvisit', hinv'⟩ := hinv.visit hready
    rw [hvisit] at hvisit'
    cases hvisit'
    exact ⟨v :: popped, hinv'⟩

/-- **A peeling ends without a fault**, within a pop for each vertex. -/
theorem peel_ends : ∃ s, peel G L G.vertices.length (start G) = some s ∧ s.ready = [] ∧
    Relation.ReflTransGen (Pops G L) (start G) s := by
  have hpeel : ∀ fuel s popped, Inv G L popped s → Relation.ReflTransGen (Pops G L) (start G) s →
      G.vertices.length ≤ fuel + popped.length →
      ∃ s', peel G L fuel s = some s' ∧ s'.ready = [] ∧ Relation.ReflTransGen (Pops G L) (start G) s' := by
    intro fuel
    induction fuel with
    | zero =>
      intro s popped hinv hpops hfuel
      have hlen := hinv.length_popped
      rw [List.length_append] at hlen
      have hready : s.ready = [] := List.length_eq_zero_iff.mp (by omega)
      exact ⟨s, by rw [peel, hready], hready, hpops⟩
    | succ fuel ih =>
      intro s popped hinv hpops hfuel
      cases hready : s.ready with
      | nil => exact ⟨s, by rw [peel, hready], hready, hpops⟩
      | cons v rest =>
        obtain ⟨s', hvisit, hinv'⟩ := hinv.visit (List.Perm.of_eq hready)
        obtain ⟨s'', hpeel, hdone⟩ := ih s' (v :: popped) hinv' (hpops.tail ⟨v, rest, by rw [hready], hvisit⟩)
          (by rw [List.length_cons]; omega)
        refine ⟨s'', ?_, hdone⟩
        rw [peel, hready]
        simp only [hvisit, Option.bind_some, hpeel]
  exact hpeel _ _ [] (inv_start G L) .refl (by simp)

end Whole

/-! ### Fit vertices -/

/-- A fit vertex reaches fit vertices only. -/
theorem Ok.reaches {G : Graph V} {L : Limits} {v w : V} (h : Ok G L v) (hw : G.Reaches v w) :
    Ok G L w := by
  induction hw with
  | refl => exact h
  | tail _ hedge ih => cases ih with
    | intro _ htargets _ _ => exact htargets _ hedge

/-- A fit vertex is on no cycle. -/
theorem Ok.acyclic {G : Graph V} {L : Limits} {v : V} (h : Ok G L v) :
    ¬Relation.TransGen G.Edge v v := by
  induction h with
  | @intro v _ _ _ _ ih =>
    intro hcycle
    obtain ⟨w, hedge, hback⟩ := Relation.TransGen.head'_iff.mp hcycle
    exact ih w hedge (Relation.TransGen.tail' hback hedge)

/-- A vertex from which every path has at most `n` vertices is fit, if nothing reachable
dangles or is too large. -/
theorem ok_of_short {G : Graph V} {L : Limits} {n : ℕ} {v : V} (hn : n ≤ L.height)
    (hshort : ∀ path, G.Path v path → path.length ≤ n) (hnone : ∀ w, G.Reaches v w → none ∉ G.out w)
    (hbig : ∀ w, G.Reaches v w → ¬Big G L w) : Ok G L v := by
  induction n generalizing v with
  | zero =>
    have := hshort [v] ((path_iff G).mpr (.inl rfl))
    simp at this
  | succ n ih =>
    refine .intro (hnone v .refl) (fun w hedge => ?_) ?_ (hbig v .refl)
    · refine ih (by omega) (fun path hpath => ?_) (fun u hu => hnone u (.head hedge hu)) fun u hu =>
        hbig u (.head hedge hu)
      have := hshort (v :: path) ((path_iff G).mpr (.inr ⟨w, path, rfl, hedge, hpath⟩))
      rw [List.length_cons] at this
      omega
    · rintro ⟨path, hpath, hlong⟩
      have := hshort path hpath
      omega

/-- **Which vertices are unfit**: those that reach a dangling edge or a cycle, have too
long a path, or reach a vertex with too large a tree. -/
theorem not_ok_iff {v : V} :
    ¬Ok G L v ↔ (∃ w, G.Reaches v w ∧ none ∈ G.out w) ∨
    (∃ w, G.Reaches v w ∧ Relation.TransGen G.Edge w w) ∨
      Deep G L v ∨ ∃ w, G.Reaches v w ∧ Big G L w := by
  constructor
  · intro hnot
    by_contra hall
    rw [not_or, not_or, not_or] at hall
    obtain ⟨hnone, -, hdeep, hbig⟩ := hall
    refine hnot (ok_of_short le_rfl (fun path hpath => ?_) (fun w hw hmem => hnone ⟨w, hw, hmem⟩)
      fun w hw hb => hbig ⟨w, hw, hb⟩)
    exact not_lt.mp fun hlong => hdeep ⟨path, hpath, hlong⟩
  · rintro hbad hok
    rcases hbad with ⟨w, hw, hnone⟩ | ⟨w, hw, hcycle⟩ | hdeep | ⟨w, hw, hbig⟩
    · cases hok.reaches hw with
      | intro hnot _ _ _ => exact hnot hnone
    · exact (hok.reaches hw).acyclic hcycle
    · cases hok with
      | intro _ _ hnot _ => exact hnot hdeep
    · cases hok.reaches hw with
      | intro _ _ _ hnot => exact hnot hbig

end Peeling
