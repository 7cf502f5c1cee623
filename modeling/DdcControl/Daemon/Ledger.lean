import DdcControl.Daemon.AllowList
import Mathlib.Algebra.BigOperators.Group.Multiset.Basic

/-!
# What the daemon holds open

A library that keeps account of its descriptors: a probe leaves them as they are, an
opening adds those of the monitor, and a closing takes them away again. It may be that a
closing goes wrong, and the account is off from then on; `clean` says that none has gone
wrong so far. Under such a library (`Ledger`) the daemon holds what its open monitors
hold.

## What is proved

`serveAll_held` — whatever is requested, as long as no closing goes wrong the descriptors
held are at most as many as the devices listed.
-/

namespace DdcControl.Daemon

open Protocol Lockstep

section Ledger

variable {σ M : Type}

/-- A step of the library that leaves the descriptors as they are. -/
def Keeps (clean : σ → Prop) (held : σ → Multiset ℕ) (f : σ → σ) : Prop :=
  ∀ s, clean (f s) → clean s ∧ held (f s) = held s

/-- The library accounts for its descriptors, for devices with a good name. -/
structure Ledger (lib : Ddcci σ M) (clean : σ → Prop) (held : σ → Multiset ℕ) (holds : M → Multiset ℕ)
    (good : List UInt8 → Prop) : Prop where
  probe : Keeps clean held fun s => (lib.probe s).2
  named : ∀ s, ∀ detected ∈ (lib.probe s).1, good detected.filename
  opened : ∀ name s, good name → clean (lib.openMonitor name s).2 →
    clean s ∧ held (lib.openMonitor name s).2 = holds (lib.openMonitor name s).1.1 + held s
  closed : ∀ mon s, clean (lib.close mon s) →
    clean s ∧ ∀ rest, held s = holds mon + rest → held (lib.close mon s) = rest
  write : ∀ mon address bytes, Keeps clean held fun s => ((lib.bus mon).write address bytes s).2
  read : ∀ mon address length, Keeps clean held fun s => ((lib.bus mon).read address length s).2
  malloc : Keeps clean held fun s => (lib.malloc s).2
  card_le : ∀ mon, (holds mon).card ≤ 1

/-- What the monitors hold that are open. -/
def heldBy (holds : M → Multiset ℕ) (entries : List (Entry M)) : Multiset ℕ :=
  (entries.map fun e => (e.opened.map fun opened => holds opened.1).getD 0).sum

/-- What is held beside this, in a cache with good names. -/
structure Balanced (clean : σ → Prop) (held : σ → Multiset ℕ) (amount : Multiset ℕ) (c : Cache M)
    (v : State σ M (Cache M)) : Prop where
  cache : v.service = c
  held : clean v.library → held v.library = amount

variable {clean : σ → Prop} {held : σ → Multiset ℕ} {holds : M → Multiset ℕ} {good : List UInt8 → Prop}
variable {amount : Multiset ℕ} {c : Cache M} {α β : Type} {R : β → State σ M (Cache M) → Prop}

theorem balanced_call {f : σ → α × σ} (h : Keeps clean held fun s => (f s).2) :
    Ensures (Balanced (M := M) clean held amount c)
      (fun _ => Balanced clean held amount c) (call f) :=
  .step fun _ hv => ⟨hv.cache, fun hclean => (h _ hclean).2.trans (hv.held (h _ hclean).1)⟩

theorem balanced_record (events : List (Event M)) :
    Ensures (Balanced (M := M) clean held amount c) (fun _ => Balanced clean held amount c)
      (record events) :=
  .step fun _ hv => ⟨hv.cache, hv.held⟩

theorem balanced_cached {k : Cache M → Cache.Program σ M β}
    (hk : Ensures (Balanced clean held amount c) R (k c)) :
    Ensures (Balanced clean held amount c) R (Cache.cached >>= k) := by
  intro v hv
  have := hk v hv
  rwa [← hv.cache] at this

theorem balanced_keep (c' : Cache M) :
    Ensures (Balanced clean held amount c) (fun _ => Balanced clean held amount c')
      (Cache.keep c') :=
  .step fun _ hv => ⟨rfl, hv.held⟩

/-! ### Transactions -/

variable {lib : Ddcci σ M} (h : Ledger lib clean held holds good)

include h

theorem Ledger.ddcciWrite (mon : M) (buf : List UInt8) :
    Keeps clean held fun s => (ddcciWrite (lib.bus mon) buf s).2 := by
  intro s hclean
  unfold Protocol.ddcciWrite at hclean ⊢
  split at hclean
  · exact ⟨hclean, rfl⟩
  · exact h.write mon _ _ s hclean

theorem Ledger.ddcciRead (mon : M)
    (length : ℕ) : Keeps clean held fun s => (ddcciRead (lib.bus mon) length s).2 := by
  intro s
  unfold Protocol.ddcciRead
  cases frameLength length with
  | error e => exact fun hclean => ⟨hclean, rfl⟩
  | ok frameLen =>
    have hread := h.read mon ddcAddress frameLen s
    dsimp only
    rcases hbus : (lib.bus mon).read ddcAddress frameLen s with ⟨_ | frame, s'⟩
    · simpa [hbus] using hread
    · dsimp only
      cases parseFrame ddcAddress frame.toList length <;> simpa [hbus] using hread

theorem Ledger.readctrl (mon : M) (ctrl : UInt8) :
    Keeps clean held fun s => (ddcciReadctrl (lib.bus mon) ctrl ⟨s, []⟩).2.device := by
  intro s
  have hwrite := h.ddcciWrite mon [0x01, ctrl] s
  unfold ddcciReadctrl ddcciRawReadctrl ddcciExchange
  dsimp only
  rcases hw : Protocol.ddcciWrite (lib.bus mon) [0x01, ctrl] s with ⟨_ | _, s'⟩
  · simpa [hw, Traced.record] using hwrite
  dsimp only
  have hread := h.ddcciRead mon 8 s'
  have hboth : clean (Protocol.ddcciRead (lib.bus mon) 8 s').2 →
      clean s ∧ held (Protocol.ddcciRead (lib.bus mon) 8 s').2 = held s := by
    intro hclean
    obtain ⟨hclean', heq⟩ := hread hclean
    simp only [hw] at hwrite
    exact ⟨(hwrite hclean').1, heq.trans (hwrite hclean').2⟩
  rcases hr : Protocol.ddcciRead (lib.bus mon) 8 s' with ⟨_ | buf, s''⟩
  · simpa [hr, Traced.record] using hboth
  · simpa [hr, Traced.record] using hboth

/-! ### Requests -/

omit h in
theorem heldBy_cons (e : Entry M) (entries : List (Entry M)) :
    heldBy holds (e :: entries) = (e.opened.map fun opened => holds opened.1).getD 0 + heldBy holds entries := by
  simp [heldBy]

/-- Every entry that is open holds a descriptor at most. -/
theorem card_heldBy_le (entries : List (Entry M)) :
    (heldBy holds entries).card ≤ entries.length := by
  induction entries with
  | nil => simp [heldBy]
  | cons e entries ih =>
    rw [heldBy_cons, Multiset.card_add, List.length_cons, Nat.add_comm]
    refine Nat.add_le_add ih ?_
    cases e.opened with
    | none => simp
    | some opened => exact h.card_le opened.1

omit h in
/-- What an entry comes to hold when it is opened. -/
theorem heldBy_set {entries : List (Entry M)} {i : ℕ} {e : Entry M} (hi : entries[i]? = some e)
    (he : e.opened = none) (opened : M × ℤ) :
    heldBy holds (entries.set i { e with opened := some opened }) = holds opened.1 + heldBy holds entries := by
  induction entries generalizing i with
  | nil => cases hi
  | cons e' entries ih =>
    cases i with
    | zero =>
      cases hi
      rw [List.set_cons_zero, heldBy_cons, heldBy_cons, he]
      simp
    | succ i =>
      rw [List.set_cons_succ, heldBy_cons, heldBy_cons, ih hi, add_left_comm]

omit h in
/-- Nothing is open after a probe. -/
theorem heldBy_probed (monlist : List Detected) :
    heldBy holds (monlist.map (⟨·, none⟩ : Detected → Entry M)) = 0 := by
  induction monlist with
  | nil => rfl
  | cons detected monlist ih =>
    rw [List.map_cons, heldBy_cons, ih]
    rfl

/-- The daemon holds what its open monitors hold. -/
def Accounted (clean : σ → Prop) (held : σ → Multiset ℕ) (holds : M → Multiset ℕ) (good : List UInt8 → Prop)
    (v : State σ M (Cache M)) : Prop :=
  ∃ c : Cache M, (∀ e ∈ c.getD [], good e.detected.filename) ∧ Balanced clean held (heldBy holds (c.getD [])) c v

omit h in
theorem ensures_accounted {y : Cache.Program σ M β}
    (hy : ∀ c : Cache M, (∀ e ∈ c.getD [], good e.detected.filename) →
      Ensures (Balanced clean held (heldBy holds (c.getD [])) c) R y) :
    Ensures (Accounted clean held holds good) R y := by
  rintro v ⟨c, hgood, hv⟩
  exact hy c hgood v hv

omit h in
theorem accounted_record (events : List (Event M)) :
    Ensures (Accounted (M := M) clean held holds good) (fun _ => Accounted clean held holds good)
      (record events) :=
  ensures_accounted fun c hgood v hv => ⟨c, hgood, balanced_record events v hv⟩

omit h in
theorem accounted_call {f : σ → α × σ} (hf : Keeps clean held fun s => (f s).2) :
    Ensures (Accounted (M := M) clean held holds good)
      (fun _ => Accounted clean held holds good) (call f) :=
  ensures_accounted fun c hgood v hv => ⟨c, hgood, balanced_call hf v hv⟩

theorem closeEntries_balanced (entries : List (Entry M)) (i : ℕ) :
    Ensures (Balanced clean held (heldBy holds entries) c) (fun _ => Balanced clean held 0 c)
      (Cache.closeEntries lib entries i) := by
  induction entries generalizing i with
  | nil => exact .pure fun _ hv => hv
  | cons e entries ih =>
    rw [Cache.closeEntries, heldBy_cons]
    cases e.opened with
    | none => simpa using ih (i + 1)
    | some opened =>
      refine Ensures.bind (Q := fun _ => Balanced clean held (heldBy holds entries) c) ?_ fun _ =>
        (balanced_record _).bind fun _ => ih (i + 1)
      refine .step fun v hv => ⟨hv.cache, fun hclean => ?_⟩
      obtain ⟨hclean', hclosed⟩ := h.closed opened.1 v.library hclean
      exact hclosed _ (hv.held hclean')

theorem rescan_accounted :
    Ensures (Accounted clean held holds good) (fun _ => Accounted clean held holds good)
      (Cache.rescan lib) := by
  refine ensures_accounted fun c hgood => ?_
  unfold Cache.rescan
  refine (balanced_record _).bind fun _ => balanced_cached ?_
  refine (closeEntries_balanced h _ 0).bind fun _ => ?_
  refine Ensures.bind (Q := fun monlist v => (∀ detected ∈ monlist, good detected.filename) ∧
    Balanced clean held 0 c v) ?_ fun monlist => ?_
  · exact fun v hv => ⟨h.named v.library, balanced_call h.probe v hv⟩
  · rintro v ⟨hnamed, hv⟩
    have hrest : Ensures (Balanced clean held 0 c) (fun _ => Accounted clean held holds good) (do
        record [.probed monlist]
        let allocated ← call lib.malloc
        Cache.keep (if Cache.allocates allocated then some (monlist.map (⟨·, none⟩)) else none)
        return Cache.allocates allocated) := by
      refine (balanced_record _).bind fun _ => (balanced_call h.malloc).bind fun allocated =>
        (balanced_keep _).bind fun _ => .pure fun v hv => ⟨_, ?_, hv.cache, fun hclean => ?_⟩
      · split
        · simpa using hnamed
        · simp
      · rw [hv.held hclean]
        split
        · exact (heldBy_probed monlist).symm
        · rfl
    exact hrest v hv

theorem canOpen_accounted (realpath : List UInt8 → Option (List UInt8)) (device : List UInt8) :
    Ensures (Accounted clean held holds good) (fun _ => Accounted clean held holds good)
      (Cache.canOpen lib realpath device) := by
  refine ensures_accounted fun c hgood => balanced_cached
    (.ite (fun _ => .pure fun v hv => ⟨c, hgood, hv⟩) fun _ => ?_)
  refine Ensures.bind (Q := fun _ => Accounted clean held holds good)
    (fun v hv => rescan_accounted h v ⟨c, hgood, hv⟩) fun _ => ?_
  exact ensures_accounted fun c hgood => balanced_cached (.pure fun v hv => ⟨c, hgood, hv⟩)

theorem openDevice_accounted (realpath : List UInt8 → Option (List UInt8)) (device : List UInt8) :
    Ensures (Accounted clean held holds good) (fun _ => Accounted clean held holds good)
      (Cache.openDevice lib realpath device) := by
  refine ensures_accounted fun c hgood => balanced_cached ?_
  have hsame : ∀ v, Balanced clean held (heldBy holds (c.getD [])) c v → Accounted clean held holds good v :=
    fun v hv => ⟨c, hgood, hv⟩
  unfold Cache.openListed
  cases hsearch : Cache.search realpath device (c.getD []) with
  | none => exact .pure hsame
  | some i =>
    cases hi : (c.getD [])[i]? with
    | none =>
      simp only [hi]
      exact .pure hsame
    | some e =>
      simp only [hi]
      unfold Cache.openEntry
      cases he : e.opened with
      | some opened => exact .pure hsame
      | none =>
        have hname : good e.detected.filename := hgood e (List.mem_of_getElem? hi)
        refine Ensures.bind (Q := fun opened => Balanced clean held (holds opened.1 + heldBy holds (c.getD [])) c)
          (.step fun v hv => ⟨hv.cache, fun hclean => ?_⟩) fun opened => ?_
        · obtain ⟨hclean', heq⟩ := h.opened _ v.library hname hclean
          exact heq.trans (congrArg _ (hv.held hclean'))
        · refine (balanced_record _).bind fun _ => (balanced_keep _).bind fun _ => .pure fun v hv =>
            ⟨_, ?_, hv.cache, ?_⟩
          · intro e' he'
            rcases List.mem_or_eq_of_mem_set he' with he' | rfl
            · exact hgood e' he'
            · exact hname
          · rw [Option.getD_some, heldBy_set hi he]
            exact hv.held

theorem readRetry_accounted (i : ℕ) (mon : M) (ctrl : UInt8) (retry : ℕ) :
    Ensures (Accounted clean held holds good) (fun _ => Accounted clean held holds good)
      (readRetry lib i mon ctrl retry) := by
  induction retry with
  | zero => exact .pure fun _ hv => hv
  | succ retry ih =>
    refine Ensures.bind (Q := fun _ => Accounted clean held holds good) ?_ fun _ =>
      .ite (fun _ => .pure fun _ hv => hv) fun _ => ih
    exact (accounted_call (h.readctrl mon ctrl)).bind fun _ => (accounted_record _).bind fun _ =>
      .pure fun _ hv => hv

theorem serve_accounted (realpath : List UInt8 → Option (List UInt8)) (r : Request) :
    Ensures (Accounted clean held holds good) (fun _ => Accounted clean held holds good)
      (Cache.serve lib realpath r) := by
  have hcomplete : Ensures (Accounted clean held holds good) (fun _ => Accounted clean held holds good)
      (Cache.complete : Cache.Program σ M Unit) :=
    ensures_accounted fun c hgood => balanced_cached fun v hv => ⟨c, hgood, balanced_record _ v hv⟩
  have hscan : Ensures (Accounted clean held holds good) (fun _ => Accounted clean held holds good)
      (Cache.scan lib) :=
    ensures_accounted fun c hgood => balanced_cached
      (.ite (fun _ v hv => rescan_accounted h v ⟨c, hgood, hv⟩) fun _ => .pure fun v hv => ⟨c, hgood, hv⟩)
  have hdevice : ∀ (device : List UInt8) {f : ℕ → M → Cache.Program σ M Unit},
      (∀ i mon, Ensures (Accounted clean held holds good) (fun _ => Accounted clean held holds good) (f i mon)) →
      Ensures (Accounted clean held holds good) (fun _ => Accounted clean held holds good)
        (onMonitor (Cache.canOpen lib realpath device) (Cache.openDevice lib realpath device) f) := by
    intro device f hf
    refine Ensures.bind (Q := fun _ => Accounted clean held holds good) ?_ fun outcome => ?_
    · refine (canOpen_accounted h realpath device).bind fun _ =>
        .ite (fun _ => .pure fun _ hv => hv) fun _ => ?_
      refine (openDevice_accounted h realpath device).bind fun opened => ?_
      obtain ⟨_ | _, ret⟩ := opened
      · exact .pure fun _ hv => hv
      · exact .pure fun _ hv => hv
    · cases outcome with
      | error e => exact accounted_record _
      | ok opened => exact hf opened.1 opened.2
  refine (accounted_record _).bind fun _ => ?_
  cases r with
  | getMonitors => exact hscan.bind fun _ => .ite (fun _ => accounted_record _) fun _ => hcomplete
  | rescanMonitors => exact (rescan_accounted h).bind fun _ => .ite (fun _ => accounted_record _) fun _ => hcomplete
  | openMonitor device => exact hdevice device fun i mon => accounted_record _
  | getEdid device => exact hdevice device fun i mon => accounted_record _
  | getControl device control =>
    exact hdevice device fun i mon => (readRetry_accounted h i mon _ _).bind fun _ =>
      accounted_record _
  | setControl device control value =>
    refine hdevice device fun i mon => Ensures.bind (Q := fun _ => Accounted clean held holds good) ?_ fun _ =>
      (accounted_record _).bind fun _ => accounted_record _
    exact (accounted_call (h.ddcciWrite mon _)).bind fun _ => accounted_record _

theorem serveAll_accounted (realpath : List UInt8 → Option (List UInt8)) (rs : List Request) :
    Ensures (Accounted clean held holds good) (fun _ => Accounted clean held holds good)
      (Cache.serveAll lib realpath rs) := by
  induction rs with
  | nil => exact .pure fun _ hv => hv
  | cons r rs ih => exact (serve_accounted h realpath r).bind fun _ => ih

/-- **The daemon holds no more descriptors than it lists devices**, as long as no closing
went wrong. -/
theorem serveAll_held (realpath : List UInt8 → Option (List UInt8)) (library : σ)
    (hlibrary : held library = 0) (rs : List Request) :
    ∃ d, serveAll lib realpath rs (start library) = some ((), d) ∧
      (clean d.library → (held d.library).card ≤ d.service.devicesCount) := by
  obtain ⟨d, hrun, hstep⟩ := serveAll_refines lib realpath rs _ _ (start_inStep library)
  have hstart : Accounted clean held holds good (Cache.start library : State σ M (Cache M)) :=
    ⟨none, by simp, rfl, fun _ => hlibrary⟩
  obtain ⟨c, -, hc⟩ := serveAll_accounted h realpath rs _ hstart
  refine ⟨d, hrun, fun hclean => ?_⟩
  have hcount : d.service.devicesCount = (c.getD []).length := by
    have hrep := hstep.represents
    rw [hc.cache] at hrep
    cases c with
    | none =>
      have hnull : d.service = .null := hrep
      rw [hnull]
      rfl
    | some entries =>
      have hlists : d.service.Lists entries := hrep
      exact hlists.devicesCount
  rw [hstep.library] at hclean ⊢
  rw [hc.held hclean, hcount]
  exact card_heldBy_le h _

end Ledger

end DdcControl.Daemon
