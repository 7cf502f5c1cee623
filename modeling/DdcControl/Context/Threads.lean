import DdcControl.Context.MonitorFile
import DdcControl.Library.Mutex

/-!
# Threads of one process

The context is one global behind a mutex, and any thread may call any of the functions
that use it. `ddcci_init_db` drops the context in one section and publishes what it has
loaded in another; `ddcci_set_monitor_file` holds the mutex from the copy it changes to
its publication; `ddcci_create_db` takes a reference to the context and works on that.
What `ddcci_db_requirements_failed` reads is the thread's own.

## The model

A thread keeps its flag, and its calls with the context that each has read and its result,
the last one first. A call is a program of sections of the mutex's library; a call that
panics there has failed.

## What is proved

* `threads_sound` — in every interleaving the context is one that a single thread could
  have come to, every load is a load from the context that it read, which is such a one, and
  every thread's flag is that of its own last load.
* `overridden_loads` — a load that has read a context where the profile of its PNP id is
  overridden has a tree, whatever the other threads do.
-/

namespace DdcControl.Context

open Fallible Database Capabilities Wire Cbor Mutex

/-- A call of a function that uses the context. -/
inductive ThreadCall where
  | init (dir : DataDir)
  | setMonitorFile (path : MonitorPath)
  | monitorFileMatches (pnpid : String)
  | release
  | createDb (pnpname : String) (caps : Caps) (faulttolerance : Bool)
  | requirementsFailed

/-- A call that has returned, with what its first section has read, none if it came to no
section, and its result, none if it panicked. -/
inductive Event where
  | init (dir : DataDir) (read : Option (Option DbContext)) (result : Option Bool)
  | setMonitorFile (path : MonitorPath) (read : Option (Option DbContext)) (result : Option (Except String String))
  | monitorFileMatches (pnpid : String) (read : Option (Option DbContext)) (result : Option Bool)
  | release
  | createDb (pnpname : String) (caps : Caps) (faulttolerance : Bool) (read : Option (Option DbContext))
    (result : Option Outcome)
  | requirementsFailed (result : Bool)

/-- What a thread keeps: `REQUIREMENTS_FAILED`, and its calls. -/
structure ThreadData where
  requirementsFailed : Bool
  events : List Event

/-- The data with one more call. -/
def ThreadData.record (thread : ThreadData) (event : Event) : ThreadData :=
  { thread with events := event :: thread.events }

section Calls

variable (translate : String → List UInt8) (c : Ciborium) (sha : Sha256) (x : XmlReader)

/-- `init_db_inner`. -/
def initProgram (dir : DataDir) (thread : ThreadData) : Program (Option DbContext) ThreadData :=
  .locked (fun _ => none)
    (fun guard =>
      match loadContext c sha x dir with
      | .ok context =>
        .locked (fun _ => some context) (fun _ => .done (thread.record (.init dir (some guard) (some true))))
          (thread.record (.init dir (some guard) none))
      | .error _ => .done (thread.record (.init dir (some guard) (some false))))
    (thread.record (.init dir none none))

/-- `set_monitor_file_inner`, whose path is checked before the mutex is locked. -/
def setMonitorFileProgram (path : MonitorPath) (thread : ThreadData) :
    Program (Option DbContext) ThreadData :=
  match path.pnpid with
  | none =>
    .done (thread.record (.setMonitorFile path none (some ((Context.setMonitorFile translate x path).run none).1)))
  | some _ =>
    .locked (fun guard => ((Context.setMonitorFile translate x path).run guard).2)
      (fun guard =>
        .done (thread.record (.setMonitorFile path (some guard)
          (some ((Context.setMonitorFile translate x path).run guard).1))))
      (thread.record (.setMonitorFile path none none))

/-- `ddcci_monitor_file_matches`, of the context. -/
def monitorFileMatches (guard : Option DbContext) (pnpid : String) : Bool :=
  guard.any fun context => context.monitorFile.any fun file => file.pnpid == pnpid

/-- `create_db_inner`. -/
def createDbProgram (pnpname : String) (caps : Caps) (faulttolerance : Bool) (thread : ThreadData) :
    Program (Option DbContext) ThreadData :=
  let result (read : Option (Option DbContext)) (outcome : Option Outcome) : ThreadData :=
    ⟨outcome.any (·.requirementsFailed), .createDb pnpname caps faulttolerance read outcome :: thread.events⟩
  .locked id
    (fun guard => .done (result (some guard) (some (createDb translate guard pnpname caps faulttolerance))))
    (result none none)

/-- The program of a call. -/
def ThreadCall.program : ThreadCall → ThreadData → Program (Option DbContext) ThreadData
  | .init dir, thread => initProgram c sha x dir thread
  | .setMonitorFile path, thread => setMonitorFileProgram translate x path thread
  | .monitorFileMatches pnpid, thread =>
    .locked id
      (fun guard =>
        .done (thread.record (.monitorFileMatches pnpid (some guard) (some (Context.monitorFileMatches guard pnpid)))))
      (thread.record (.monitorFileMatches pnpid none none))
  | .release, thread => .locked (fun _ => none) (fun _ => .done (thread.record .release)) (thread.record .release)
  | .createDb pnpname caps faulttolerance, thread => createDbProgram translate pnpname caps faulttolerance thread
  | .requirementsFailed, thread => .done (thread.record (.requirementsFailed thread.requirementsFailed))

/-- The states of a process whose threads make calls. -/
def ThreadsReachable {T : Type} [DecidableEq T] (pool : Pool T (Option DbContext) ThreadData) : Prop :=
  Mutex.Reachable (ThreadCall.program translate c sha x) none ⟨false, []⟩ pool

/-! ### What holds of every thread -/

/-- The flag that a thread's calls leave. -/
def lastFlag : List Event → Bool
  | [] => false
  | .createDb _ _ _ _ outcome :: _ => outcome.any (·.requirementsFailed)
  | _ :: events => lastFlag events

/-- A call that has returned did what it does in a process with one thread, which could
hold the context that it has read: a load is one from that context, and an accepted file was
validated in it. -/
def SoundEvent : Event → Prop
  | .init dir read (some result) =>
    ∃ guard, read = some guard ∧ Reachable translate c sha x guard ∧ result = (loadContext c sha x dir).isOk
  | .createDb pnpname caps faulttolerance read (some outcome) =>
    ∃ guard, read = some guard ∧ Reachable translate c sha x guard ∧
      outcome = createDb translate guard pnpname caps faulttolerance
  | .setMonitorFile path read (some (.ok pnpid)) =>
    ∃ guard context, read = some guard ∧ Reachable translate c sha x guard ∧
      Reachable translate c sha x (some context) ∧ AcceptedFile translate x path guard pnpid context
  | .monitorFileMatches pnpid read (some result) =>
    ∃ guard, read = some guard ∧ Reachable translate c sha x guard ∧ result = monitorFileMatches guard pnpid
  | _ => True

/-- What holds of a thread between its calls. -/
structure SoundThread (thread : ThreadData) : Prop where
  events : ∀ event ∈ thread.events, SoundEvent translate c sha x event
  flag : thread.requirementsFailed = lastFlag thread.events
  answers : ∀ later earlier result, thread.events = later ++ .requirementsFailed result :: earlier →
    result = lastFlag earlier

variable {translate c sha x}

theorem SoundThread.record {thread : ThreadData} (h : SoundThread translate c sha x thread) {event : Event}
    (hevent : SoundEvent translate c sha x event) (hflag : lastFlag (event :: thread.events) = lastFlag thread.events)
    (hanswer : ∀ result, event = .requirementsFailed result → result = thread.requirementsFailed) :
    SoundThread translate c sha x (thread.record event) := by
  refine ⟨List.forall_mem_cons.mpr ⟨hevent, h.events⟩, h.flag.trans hflag.symm, ?_⟩
  intro later earlier result heq
  cases later with
  | nil =>
    obtain ⟨rfl, rfl⟩ := List.cons.inj heq
    exact (hanswer result rfl).trans h.flag
  | cons _ later => exact h.answers later earlier result (List.cons.inj heq).2

/-- A load leaves the flag of its outcome. -/
theorem SoundThread.load {thread : ThreadData} (h : SoundThread translate c sha x thread) {pnpname : String}
    {caps : Caps} {faulttolerance : Bool} {read : Option (Option DbContext)} {outcome : Option Outcome}
    (hevent : SoundEvent translate c sha x (.createDb pnpname caps faulttolerance read outcome)) :
    SoundThread translate c sha x
      ⟨outcome.any (·.requirementsFailed), .createDb pnpname caps faulttolerance read outcome :: thread.events⟩ := by
  refine ⟨List.forall_mem_cons.mpr ⟨hevent, h.events⟩, rfl, ?_⟩
  intro later earlier result heq
  cases later with
  | nil => cases (List.cons.inj heq).1
  | cons _ later => exact h.answers later earlier result (List.cons.inj heq).2

theorem Reachable.next {guard : Option DbContext} (h : Reachable translate c sha x guard) (call : Call) :
    Reachable translate c sha x (call.next translate c sha x guard) := by
  obtain ⟨calls, rfl⟩ := h
  exact ⟨calls ++ [call], by rw [List.foldl_append]; rfl⟩

/-! ### The sections -/

/-- What a load publishes, a single thread can come to. -/
theorem reachable_of_load {dir : DataDir} {context : DbContext} (h : loadContext c sha x dir = .ok context) :
    Reachable translate c sha x (some context) := by
  refine ⟨[.init dir], ?_⟩
  have hrun : (initDb c sha x dir).run none =
      ((monadLift (loadContext c sha x dir) : SessionM _) >>= fun context => set (some context)).run none := rfl
  change ((initDb c sha x dir).run none).2 = some context
  rw [hrun, run_bind_check, h]
  rfl

/-- Every section of a call leaves a context that a single thread can come to, and every
call leaves a sound thread. -/
theorem program_safe (call : ThreadCall) {thread : ThreadData} (h : SoundThread translate c sha x thread) :
    (call.program translate c sha x thread).Safe (Reachable translate c sha x) (SoundThread translate c sha x) := by
  have hrecord : ∀ {event : Event}, SoundEvent translate c sha x event →
      lastFlag (event :: thread.events) = lastFlag thread.events →
      (∀ result, event ≠ .requirementsFailed result) → SoundThread translate c sha x (thread.record event) :=
    fun hevent hflag hne => h.record hevent hflag fun result heq => absurd heq (hne result)
  have hreleased : Reachable translate c sha x none := ⟨[], rfl⟩
  cases call with
  | init dir =>
    refine ⟨hrecord trivial rfl (by simp), fun guard hguard => ⟨hreleased, ?_⟩⟩
    have hresult : ∀ result, result = (loadContext c sha x dir).isOk →
        SoundEvent translate c sha x (.init dir (some guard) (some result)) :=
      fun result hresult => ⟨guard, rfl, hguard, hresult⟩
    cases hload : loadContext c sha x dir with
    | error e => exact hrecord (hresult false (by rw [hload]; rfl)) rfl (by simp)
    | ok context =>
      exact ⟨hrecord trivial rfl (by simp), fun _ _ =>
        ⟨reachable_of_load hload, hrecord (hresult true (by rw [hload]; rfl)) rfl (by simp)⟩⟩
  | setMonitorFile path =>
    have hfile : ∀ guard, Reachable translate c sha x guard → SoundEvent translate c sha x
        (.setMonitorFile path (some guard) (some ((setMonitorFile translate x path).run guard).1)) := by
      intro guard hguard
      rcases setMonitorFile_run translate x path guard with ⟨pnpid, context, hrun, haccepted⟩ | ⟨e, hrun⟩
      · have hnext := hguard.next (.setMonitorFile path)
        rw [Call.next, hrun] at hnext
        rw [hrun]
        exact ⟨guard, context, rfl, hguard, hnext, haccepted⟩
      · rw [hrun]
        trivial
    rw [ThreadCall.program, setMonitorFileProgram]
    cases hid : path.pnpid with
    | none =>
      refine hrecord ?_ rfl (by simp)
      rcases setMonitorFile_run translate x path none with ⟨_, _, -, haccepted⟩ | ⟨e, hrun⟩
      · cases hid.symm.trans haccepted.id
      · rw [hrun]
        trivial
    | some _ =>
      refine ⟨hrecord trivial rfl (by simp), fun guard hguard => ⟨hguard.next (.setMonitorFile path), ?_⟩⟩
      exact hrecord (hfile guard hguard) rfl (by simp)
  | monitorFileMatches pnpid =>
    exact ⟨hrecord trivial rfl (by simp), fun guard hguard =>
      ⟨hguard, hrecord ⟨guard, rfl, hguard, rfl⟩ rfl (by simp)⟩⟩
  | release => exact ⟨hrecord trivial rfl (by simp), fun _ _ => ⟨hreleased, hrecord trivial rfl (by simp)⟩⟩
  | createDb pnpname caps faulttolerance =>
    exact ⟨h.load trivial, fun guard hguard => ⟨hguard, h.load ⟨guard, rfl, hguard, rfl⟩⟩⟩
  | requirementsFailed =>
    refine h.record trivial rfl fun result heq => ?_
    cases heq
    rfl

/-- **The threads of a process do not disturb each other.** In every interleaving of any
number of threads, the context is one that a single thread could have come to, and every
thread that is between two calls is sound: each of its loads is a load from the context that
it has read, which is such a one, each file it had accepted was validated in the context
that got it, and what `ddcci_db_requirements_failed` told it is the flag of its own last
load. -/
theorem threads_sound {T : Type} [DecidableEq T] {pool : Pool T (Option DbContext) ThreadData}
    (h : ThreadsReachable translate c sha x pool) :
    Reachable translate c sha x pool.cell ∧
      ∀ t thread, pool.threads t = .done thread → SoundThread translate c sha x thread := by
  have hempty : SoundThread translate c sha x ⟨false, []⟩ := ⟨by simp, rfl, by simp⟩
  obtain ⟨hcell, hthreads⟩ := safe_of_reachable (fun call _ => program_safe call) ⟨[], rfl⟩ hempty h
  refine ⟨hcell, fun t thread ht => ?_⟩
  have hsafe := hthreads t
  rwa [ht] at hsafe

/-! ### Overridden profiles -/

/-- A context that is loaded has no override. -/
theorem loadContext_monitorFile {dir : DataDir} {context : DbContext} (h : loadContext c sha x dir = .ok context) :
    context.monitorFile = none := by
  obtain ⟨cbor, -, h⟩ := bind_eq_ok.mp h
  split at h
  · obtain ⟨_, -, h⟩ := bind_eq_ok.mp h
    obtain ⟨_, -, h⟩ := bind_eq_ok.mp h
    cases h
    rfl
  · obtain ⟨_, -, h⟩ := bind_eq_ok.mp h
    obtain ⟨_, -, h⟩ := bind_eq_ok.mp h
    obtain ⟨_, -, h⟩ := bind_eq_ok.mp h
    obtain ⟨_, -, h⟩ := bind_eq_ok.mp h
    obtain ⟨_, -, h⟩ := bind_eq_ok.mp h
    obtain ⟨_, -, h⟩ := bind_eq_ok.mp h
    cases h
    rfl

/-- An override in a context was validated in it. -/
theorem Reachable.accepted {guard : Option DbContext} (h : Reachable translate c sha x guard)
    {context : DbContext} (hguard : guard = some context) {file : MonitorFile}
    (hfile : context.monitorFile = some file) :
    ∃ path before, AcceptedFile translate x path before file.pnpid context := by
  obtain ⟨calls, rfl⟩ := h
  induction calls using List.reverseRecOn generalizing context file with
  | nil => cases hguard
  | append_singleton calls call ih =>
    rw [List.foldl_append, List.foldl_cons, List.foldl_nil] at hguard
    generalize calls.foldl (Call.next translate c sha x) none = before at hguard ih
    cases call with
    | init dir =>
      rw [loadContext_monitorFile (initDb_run hguard)] at hfile
      cases hfile
    | release => cases hguard
    | setMonitorFile path =>
      rcases setMonitorFile_run translate x path before with ⟨pnpid, after, hrun, haccepted⟩ | ⟨e, hrun⟩
      · rw [Call.next, hrun] at hguard
        cases hguard
        obtain ⟨bytes, root, base, -, -, heq⟩ := haccepted.root
        rw [heq] at hfile
        cases hfile
        exact ⟨path, before, haccepted⟩
      · rw [Call.next, hrun] at hguard
        exact ih hfile hguard

/-- **An override always loads.** Whatever the threads of a process do, and in whatever
order, a load that has read a context where the profile of its PNP id is overridden has a
tree, with an init mode. -/
theorem overridden_loads {T : Type} [DecidableEq T] (htranslate : TranslatesCStrings translate)
    {pool : Pool T (Option DbContext) ThreadData} (h : ThreadsReachable translate c sha x pool) {t : T}
    {thread : ThreadData} (ht : pool.threads t = .done thread) {pnpname : String} {caps : Caps}
    {faulttolerance : Bool} {context : DbContext} {outcome : Outcome}
    (hload : .createDb pnpname caps faulttolerance (some (some context)) (some outcome) ∈ thread.events)
    {file : MonitorFile} (hfile : context.monitorFile = some file) (hid : file.pnpid = pnpname) :
    ∃ monitor, outcome.monitor = some monitor ∧ monitor.init ≠ .unknown := by
  obtain ⟨guard, heq, hguard, rfl⟩ := ((threads_sound h).2 t thread ht).events _ hload
  cases heq
  subst hid
  obtain ⟨path, before, haccepted⟩ := hguard.accepted rfl hfile
  exact haccepted.load translate htranslate (reachable_nulFree translate hguard rfl) caps faulttolerance

end Calls

/-- A run where one thread reads the directory and overrides a profile, and another loads it. -/
theorem exists_sampleThreads :
    ∃ (pool : Pool Bool (Option DbContext) ThreadData) (thread : ThreadData) (context : DbContext)
        (file : MonitorFile) (outcome : Outcome),
      ThreadsReachable utf8 .reference sha256 sampleReader pool ∧ pool.threads false = .done thread ∧
        .createDb "DEL1234" .default false (some (some context)) (some outcome) ∈ thread.events ∧
          context.monitorFile = some file ∧ file.pnpid = "DEL1234" := by
  have hsome : sampleGuard.isSome = true := by decide +kernel
  have haccepted : ((setMonitorFile utf8 sampleReader samplePath).run sampleGuard).1.isOk = true := by decide +kernel
  obtain ⟨context, hcontext⟩ := Option.isSome_iff_exists.mp hsome
  have hload : loadContext .reference sha256 sampleReader sampleDir = .ok context := initDb_run hcontext
  have hpnpid : samplePath.pnpid = some "DEL1234" := by decide +kernel
  let start := ThreadCall.program utf8 .reference sha256 sampleReader
  let pool₀ : Pool Bool (Option DbContext) ThreadData := .initial none ⟨false, []⟩
  have hfile : ∀ thread, start (.setMonitorFile samplePath) thread =
      .locked (fun guard => ((setMonitorFile utf8 sampleReader samplePath).run guard).2)
        (fun guard => .done (thread.record (.setMonitorFile samplePath (some guard)
          (some ((setMonitorFile utf8 sampleReader samplePath).run guard).1))))
        (thread.record (.setMonitorFile samplePath none none)) := by
    intro thread
    change setMonitorFileProgram utf8 sampleReader samplePath thread = _
    rw [setMonitorFileProgram, hpnpid]
  have hinit : Relation.ReflTransGen (Serial start) pool₀ _ :=
    (Relation.ReflTransGen.single (.call true (.init sampleDir) rfl)).tail (.run true rfl)
  rw [hload] at hinit
  have hset := (hinit.tail (.run true rfl)).tail (.call true (.setMonitorFile samplePath) rfl)
  rw [hfile] at hset
  have hall := ((hset.tail (.run true rfl)).tail (.call false (.createDb "DEL1234" .default false) rfl)).tail
    (.run false rfl)
  obtain ⟨pnpid, overridden, hrun, hvalid⟩ : ∃ pnpid overridden,
      (setMonitorFile utf8 sampleReader samplePath).run (some context) = (.ok pnpid, some overridden) ∧
        AcceptedFile utf8 sampleReader samplePath (some context) pnpid overridden := by
    rcases setMonitorFile_run utf8 sampleReader samplePath (some context) with h | ⟨e, h⟩
    · exact h
    · rw [hcontext, h] at haccepted
      cases haccepted
  obtain rfl : pnpid = "DEL1234" := Option.some.inj (hvalid.id.symm.trans hpnpid)
  obtain ⟨bytes, root, base, -, -, heq⟩ := hvalid.root
  have hread : ((setMonitorFile utf8 sampleReader samplePath).run (some context)).2 = some overridden := by rw [hrun]
  refine ⟨_, _, overridden, ⟨"DEL1234", root⟩, createDb utf8 (some overridden) "DEL1234" .default false,
    (reachable_of_serial hall).1, rfl, ?_, by rw [heq], rfl⟩
  rw [← hread]
  exact List.mem_singleton.mpr rfl

theorem sampleThreads_sound :
    ∃ (pool : Pool Bool (Option DbContext) ThreadData) (thread : ThreadData),
      thread.events ≠ [] ∧ pool.threads false = .done thread ∧
        Reachable utf8 .reference sha256 sampleReader pool.cell ∧
        SoundThread utf8 .reference sha256 sampleReader thread := by
  obtain ⟨pool, thread, context, file, outcome, hreach, hdone, hevent, -⟩ := exists_sampleThreads
  obtain ⟨hcell, hthreads⟩ := threads_sound hreach
  exact ⟨pool, thread, List.ne_nil_of_mem hevent, hdone, hcell, hthreads false thread hdone⟩

theorem sampleThreads_load :
    ∃ (pool : Pool Bool (Option DbContext) ThreadData) (thread : ThreadData) (context : DbContext) (outcome : Outcome),
      pool.threads false = .done thread ∧
        .createDb "DEL1234" .default false (some (some context)) (some outcome) ∈ thread.events ∧
        ∃ monitor, outcome.monitor = some monitor ∧ monitor.init ≠ .unknown := by
  obtain ⟨pool, thread, context, file, outcome, hreach, hdone, hevent, hfile, hid⟩ := exists_sampleThreads
  exact ⟨pool, thread, context, outcome, hdone, hevent,
    overridden_loads (fun _ => nulFree_iff.mp) hreach hdone hevent hfile hid⟩

end DdcControl.Context
