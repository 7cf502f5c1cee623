import Mathlib.Logic.Function.Basic
import Mathlib.Logic.Relation

/-!
# Threads that share a cell behind a mutex

Any number of threads share one cell, over arbitrary types of threads, of values of the
cell and of what a thread keeps for itself. A thread's `Program` is a sequence of critical
sections: it locks the mutex, reads the cell, and unlocks it with the cell updated; what it
does next depends on what it read. Between its programs a thread has its own data only.

A `Step` of a `Pool` locks or unlocks the mutex for one thread, or starts a program of
one. A section that panics leaves the cell and ends its program.

## What is proved

* `serial_of_reachable` — every interleaving is one of whole sections, one after the other;
  `reachable_of_serial` is the converse.
* `safe_of_reachable` — so an invariant that every section keeps holds in every run, and with
  it what every program promises of the data it ends with.
-/

namespace Mutex

/-- A thread's program: critical sections, and the data it ends with. -/
inductive Program (σ L : Type) where
  | done (data : L)
  | locked (update : σ → σ) (next : σ → Program σ L) (panicked : L)

/-- The threads, the cell, and who holds the mutex, having read what. -/
structure Pool (T σ L : Type) where
  cell : σ
  holder : Option (T × σ)
  threads : T → Program σ L

variable {T σ L C : Type} [DecidableEq T]

/-- The pool with another program for one thread. -/
def Pool.withThread (pool : Pool T σ L) (t : T) (program : Program σ L) : Pool T σ L :=
  { pool with threads := Function.update pool.threads t program }

section Steps

variable (start : C → L → Program σ L)

/-- A step of one thread. -/
inductive Step : Pool T σ L → Pool T σ L → Prop
  | call {pool : Pool T σ L} {data : L} (t : T) (c : C) :
    pool.threads t = .done data → Step pool (pool.withThread t (start c data))
  | lock {pool : Pool T σ L} {update : σ → σ} {next : σ → Program σ L} {panicked : L} (t : T) :
    pool.holder = none → pool.threads t = .locked update next panicked →
      Step pool { pool with holder := some (t, pool.cell) }
  | unlock {pool : Pool T σ L} {update : σ → σ} {next : σ → Program σ L} {panicked : L} {t : T} {s : σ} :
    pool.holder = some (t, s) → pool.threads t = .locked update next panicked →
      Step pool { pool.withThread t (next s) with cell := update s, holder := none }
  | panic {pool : Pool T σ L} {update : σ → σ} {next : σ → Program σ L} {panicked : L} {t : T} {s : σ} :
    pool.holder = some (t, s) → pool.threads t = .locked update next panicked →
      Step pool { pool.withThread t (.done panicked) with holder := none }

/-- A whole section of one thread, or a call. -/
inductive Serial : Pool T σ L → Pool T σ L → Prop
  | call {pool : Pool T σ L} {data : L} (t : T) (c : C) :
    pool.threads t = .done data → Serial pool (pool.withThread t (start c data))
  | run {pool : Pool T σ L} {update : σ → σ} {next : σ → Program σ L} {panicked : L} (t : T) :
    pool.threads t = .locked update next panicked →
      Serial pool { pool.withThread t (next pool.cell) with cell := update pool.cell }
  | panic {pool : Pool T σ L} {update : σ → σ} {next : σ → Program σ L} {panicked : L} (t : T) :
    pool.threads t = .locked update next panicked → Serial pool (pool.withThread t (.done panicked))

/-- The start of a run: no thread has a program, and nobody holds the mutex. -/
def Pool.initial (cell : σ) (data : L) : Pool T σ L := ⟨cell, none, fun _ => .done data⟩

/-- The pools that a run can come to. -/
def Reachable (cell : σ) (data : L) (pool : Pool T σ L) : Prop :=
  Relation.ReflTransGen (Step start) (.initial cell data) pool

end Steps

/-- The pool, whoever holds the mutex. -/
def Pool.unheld (pool : Pool T σ L) : Pool T σ L := { pool with holder := none }

/-- Who holds the mutex is in a section, and has read the cell as it is. -/
def Held (pool : Pool T σ L) : Prop :=
  ∀ t s, pool.holder = some (t, s) → s = pool.cell ∧
    ∃ update next panicked, pool.threads t = .locked update next panicked

omit [DecidableEq T] in
theorem held_of_free {pool : Pool T σ L} (h : pool.holder = none) : Held pool := by
  intro t s hs
  rw [h] at hs
  cases hs

variable {start : C → L → Program σ L}

/-- A step of a pool is a whole section, a call, or nothing that shows. -/
theorem Step.serial {pool pool' : Pool T σ L} (hstep : Step start pool pool') (hheld : Held pool) :
    Held pool' ∧ (pool'.unheld = pool.unheld ∨ Serial start pool.unheld pool'.unheld) := by
  cases hstep with
  | call t c hdone =>
    refine ⟨fun t' s h => ?_, .inr (.call t c hdone)⟩
    obtain ⟨hs, update, next, panicked, hlocked⟩ := hheld t' s h
    refine ⟨hs, update, next, panicked, ?_⟩
    have hne : t' ≠ t := by
      rintro rfl
      rw [hdone] at hlocked
      cases hlocked
    exact (Function.update_of_ne hne ..).trans hlocked
  | lock t hfree hlocked =>
    refine ⟨fun t' s h => ?_, .inl rfl⟩
    cases h
    exact ⟨rfl, _, _, _, hlocked⟩
  | unlock hholder hlocked =>
    refine ⟨held_of_free rfl, .inr ?_⟩
    obtain ⟨rfl, -⟩ := hheld _ _ hholder
    exact (Serial.run _ hlocked : Serial start pool.unheld _)
  | panic hholder hlocked =>
    exact ⟨held_of_free rfl, .inr (Serial.panic _ hlocked : Serial start pool.unheld _)⟩

/-- **Every interleaving is one of whole sections**, one after the other. -/
theorem serial_of_reachable {cell : σ} {data : L} {pool : Pool T σ L}
    (h : Reachable start cell data pool) :
    Held pool ∧ Relation.ReflTransGen (Serial start) (.initial cell data) pool.unheld := by
  induction h with
  | refl => exact ⟨held_of_free rfl, .refl⟩
  | tail _ hstep ih =>
    obtain ⟨hheld, hserial⟩ := hstep.serial ih.1
    refine ⟨hheld, ?_⟩
    rcases hserial with heq | hserial
    · rw [heq]
      exact ih.2
    · exact ih.2.tail hserial

/-- A run of whole sections is an interleaving. -/
theorem reachable_of_serial {cell : σ} {data : L} {pool : Pool T σ L}
    (h : Relation.ReflTransGen (Serial start) (.initial cell data) pool) :
    Reachable start cell data pool ∧ pool.holder = none := by
  induction h with
  | refl => exact ⟨.refl, rfl⟩
  | @tail pool₁ pool₂ _ hstep ih =>
    obtain ⟨hreach, hfree⟩ := ih
    cases hstep with
    | call t c hdone => exact ⟨hreach.tail (.call t c hdone), hfree⟩
    | run t hlocked =>
      refine ⟨?_, hfree⟩
      have hunlock := (hreach.tail (.lock t hfree hlocked)).tail (.unlock rfl hlocked)
      simpa only [Reachable, Pool.withThread, ← hfree] using hunlock
    | panic t hlocked =>
      refine ⟨?_, hfree⟩
      have hpanic := (hreach.tail (.lock t hfree hlocked)).tail (.panic rfl hlocked)
      simpa only [Reachable, Pool.withThread, ← hfree] using hpanic

/-! ### Invariants -/

/-- Every section keeps `I` of the cell, and the program ends with data that satisfy `J`. -/
def Program.Safe (I : σ → Prop) (J : L → Prop) : Program σ L → Prop
  | .done data => J data
  | .locked update next panicked => J panicked ∧ ∀ s, I s → I (update s) ∧ (next s).Safe I J

/-- **What every section keeps, every run keeps.** -/
theorem safe_of_reachable {I : σ → Prop} {J : L → Prop} (hstart : ∀ c data, J data → (start c data).Safe I J)
    {cell : σ} {data : L} (hcell : I cell) (hdata : J data) {pool : Pool T σ L}
    (h : Reachable start cell data pool) : I pool.cell ∧ ∀ t, (pool.threads t).Safe I J := by
  suffices hserial : ∀ pool' : Pool T σ L,
      Relation.ReflTransGen (Serial start) (.initial cell data) pool' →
        I pool'.cell ∧ ∀ t, (pool'.threads t).Safe I J from
    hserial pool.unheld (serial_of_reachable h).2
  intro pool' hserial
  induction hserial with
  | refl => exact ⟨hcell, fun _ => hdata⟩
  | @tail pool₁ pool₂ _ hstep ih =>
    obtain ⟨hI, hsafe⟩ := ih
    have hupdate : ∀ (t : T) (program : Program σ L), program.Safe I J →
        ∀ t', (Function.update pool₁.threads t program t').Safe I J := by
      intro t program hprogram t'
      rw [Function.update_apply]
      split
      · exact hprogram
      · exact hsafe t'
    cases hstep with
    | call t c hdone =>
      have hdata := hsafe t
      rw [hdone] at hdata
      exact ⟨hI, hupdate t _ (hstart c _ hdata)⟩
    | run t hlocked =>
      have hsection := hsafe t
      rw [hlocked] at hsection
      exact ⟨(hsection.2 _ hI).1, hupdate t _ (hsection.2 _ hI).2⟩
    | panic t hlocked =>
      have hsection := hsafe t
      rw [hlocked] at hsection
      exact ⟨hI, hupdate t _ hsection.1⟩

end Mutex
