import DdcControl.Daemon.Service
import DdcControl.Library.Lockstep

/-!
# What the service keeps

The seven arrays of the service are one list: the devices found, and for each the monitor
it was opened as, if it was. A failed scan leaves no list. Over such a cache the handlers
cannot go wrong.

## What is proved

`serve_refines` — the service keeps its arrays in step with a cache, and so never uses a
null pointer, an index outside an array or an element that was not written.
-/

namespace DdcControl.Daemon

open Protocol Lockstep

/-- A device that was found, and what it was opened as. -/
structure Entry (M : Type) where
  detected : Detected
  opened : Option (M × ℤ)

/-- The devices found, if the last scan did not fail. -/
abbrev Cache (M : Type) : Type := Option (List (Entry M))

namespace Cache

variable {σ M : Type}

/-- A program over a cache. -/
abbrev Program (σ M α : Type) : Type := StateM (State σ M (Cache M)) α

/-- The cache. -/
def cached : Program σ M (Cache M) := modifyGet fun d => (d.service, d)

/-- A new cache. -/
def keep (cache : Cache M) : Program σ M Unit := modifyGet fun d => ((), { d with service := cache })

variable (lib : Ddcci σ M) (realpath : List UInt8 → Option (List UInt8))

/-- The monitors that are open are closed, the first at index `i`. -/
def closeEntries : List (Entry M) → (i : ℕ) → Program σ M Unit
  | [], _ => return ()
  | entry :: rest, i => do
    if let some (mon, _) := entry.opened then
      call fun s => ((), lib.close mon s)
      record [.closed i mon]
    closeEntries rest (i + 1)

/-- All allocations succeed. -/
def allocates (allocated : Allocated) : Bool :=
  allocated.devices && allocated.supported && allocated.names && allocated.digital && allocated.openMonitors &&
    allocated.monitorOpen && allocated.monitorRet

/-- `rescan_monitors`. -/
def rescan : Program σ M Bool := do
  record [.rescan]
  closeEntries lib ((← cached).getD []) 0
  let monlist ← call lib.probe
  record [.probed monlist]
  let allocated ← call lib.malloc
  keep (if allocates allocated then some (monlist.map (⟨·, none⟩)) else none)
  return allocates allocated

/-- The first device that is the same. -/
def search (device : List UInt8) (entries : List (Entry M)) : Option ℕ :=
  entries.findIdx? fun entry => sameDevice realpath entry.detected.filename device

/-- `can_open_device`. -/
def canOpen (device : List UInt8) : Program σ M Bool := do
  if (search realpath device ((← cached).getD [])).isSome then return true
  else
    let _ ← rescan lib
    return (search realpath device ((← cached).getD [])).isSome

/-- `open_monitor`, of an entry. -/
def openEntry (entries : List (Entry M)) (i : ℕ) (entry : Entry M) : Program σ M (Option (ℕ × M) × ℤ) :=
  match entry.opened with
  | some (mon, ret) => return (some (i, mon), ret)
  | none => do
    let (mon, ret) ← call (lib.openMonitor entry.detected.filename)
    record [.opened i entry.detected.filename mon ret]
    keep (some (entries.set i { entry with opened := some (mon, ret) }))
    return (some (i, mon), ret)

/-- `open_monitor`, of these entries. -/
def openListed (device : List UInt8) (entries : List (Entry M)) : Program σ M (Option (ℕ × M) × ℤ) :=
  match search realpath device entries with
  | none => return (none, -1)
  | some i =>
    match entries[i]? with
    | none => return (none, -1)
    | some entry => openEntry lib entries i entry

/-- `open_monitor`. -/
def openDevice (device : List UInt8) : Program σ M (Option (ℕ × M) × ℤ) := do
  openListed lib realpath device ((← cached).getD [])

/-- The list of monitors as an answer. -/
def listing (entries : List (Entry M)) : Reply :=
  .monitors (entries.map (·.detected.filename)) (entries.map (·.detected.supported)) (entries.map (·.detected.name))
    (entries.map (·.detected.digital))

/-- `ddccontrol_complete_get_monitors`. -/
def complete : Program σ M Unit := do reply (listing ((← cached).getD []))

/-- The scan of `handle_get_monitors`. -/
def scan : Program σ M Bool := do
  if ((← cached).getD []).isEmpty then rescan lib else return true

/-- The handler of a request. -/
def handle (r : Request) : Program σ M Unit :=
  match r with
  | .getMonitors => onScan (scan lib) complete
  | .rescanMonitors => onScan (rescan lib) complete
  | .openMonitor device => onMonitor (canOpen lib realpath device) (openDevice lib realpath device) (serveOpenMonitor lib)
  | .getEdid device => onMonitor (canOpen lib realpath device) (openDevice lib realpath device) (serveGetEdid lib)
  | .getControl device control =>
    onMonitor (canOpen lib realpath device) (openDevice lib realpath device) (serveGetControl lib control)
  | .setControl device control value =>
    onMonitor (canOpen lib realpath device) (openDevice lib realpath device) (serveSetControl lib device control value)

/-- A request arrives, and is handled. -/
def serve (r : Request) : Program σ M Unit := do
  record [.request r]
  handle lib realpath r

/-- Requests, one after another. -/
def serveAll : List Request → Program σ M Unit
  | [] => return ()
  | r :: rs => do
    serve lib realpath r
    serveAll rs

end Cache

/-! ### The arrays are a cache -/

section Refinement

variable {σ M : Type}

/-- The arrays hold the entries, with a null pointer after the devices and the names. -/
structure Service.Lists (s : Service M) (entries : List (Entry M)) : Prop where
  devicesCount : s.devicesCount = entries.length
  devices : s.devices.Holds (((entries.map fun e : Entry M => e.detected.filename).map some ++ [none]).map some)
  supported : s.supported.Holds ((entries.map fun e : Entry M => e.detected.supported).map some)
  names : s.names.Holds (((entries.map fun e : Entry M => e.detected.name).map some ++ [none]).map some)
  digital : s.digital.Holds ((entries.map fun e : Entry M => e.detected.digital).map some)
  openMonitors : s.openMonitors.Holds (entries.map fun e : Entry M => e.opened.map Prod.fst)
  monitorOpen : s.monitorOpen.Holds ((entries.map fun e : Entry M => e.opened.isSome).map some)
  monitorRet : s.monitorRet.Holds (entries.map fun e : Entry M => e.opened.map Prod.snd)

/-- The arrays are those of a cache. -/
def Service.Represents (s : Service M) : Cache M → Prop
  | none => s = .null
  | some entries => s.Lists entries

/-- Two daemons that did the same, one with these arrays, one with this cache. -/
structure At (s : Service M) (c : Cache M) (d : State σ M (Service M)) (v : State σ M (Cache M)) : Prop where
  service : d.service = s
  cache : v.service = c
  library : d.library = v.library
  log : d.log = v.log

/-- Two daemons that did the same, one with the arrays of the other's cache. -/
structure InStep (d : State σ M (Service M)) (v : State σ M (Cache M)) : Prop where
  represents : d.service.Represents v.service
  library : d.library = v.library
  log : d.log = v.log

theorem At.inStep {s : Service M} {c : Cache M} (h : s.Represents c) {d : State σ M (Service M)}
    {v : State σ M (Cache M)} (hat : At s c d v) : InStep d v :=
      ⟨by rw [hat.service, hat.cache]; exact h, hat.library, hat.log⟩

variable {s : Service M} {c : Cache M}

theorem refines_call {α : Type} (f : σ → α × σ) : Refines (At s c) (fun _ => At s c) (call f)
    (call f) := by
  refine .step fun d v h => ?_
  simp only [h.library]
  exact ⟨trivial, h.service, h.cache, rfl, h.log⟩

theorem refines_record (events : List (Event M)) : Refines (At (σ := σ) s c) (fun _ => At s c)
    (record events) (record events) := by
  refine .step fun d v h => ⟨rfl, h.service, h.cache, h.library, ?_⟩
  exact congrArg (· ++ events) h.log

variable {α β : Type} {R : β → State σ M (Service M) → State σ M (Cache M) → Prop}

/-- A read of the globals. -/
theorem refines_observe {f : Service M → α} {k : α → Handler σ M β} {y : Cache.Program σ M β}
    (hk : Refines (At s c) R (k (f s)) y) : Refines (At s c) R (observe f >>= k) y :=
  .left (K := At s c) (fun d _ h => ⟨d, by rw [← h.service]; rfl, h⟩) hk

/-- A write of the globals. -/
theorem refines_update {f : Service M → Service M} {k : Unit → Handler σ M β}
    {y : Cache.Program σ M β} (hk : Refines (At (f s) c) R (k ()) y) :
    Refines (At s c) R (update f >>= k) y :=
  .left (K := At (f s) c) (fun d _ h => ⟨{ d with service := f s }, by rw [← h.service]; rfl, rfl,
    h.cache, h.library, h.log⟩) hk

/-- A write of the globals that ends a program. -/
theorem refines_update_last {f : Service M → Service M} :
    Refines (At (σ := σ) s c) (fun _ => At (f s) c) (update f) (pure ()) := by
  rw [← bind_pure (update f)]
  exact refines_update (.pure fun _ _ h => h)

/-- A read of the arrays, whose result is known. -/
theorem refines_look {f : Service M → Option α} {a : α} (hf : f s = some a) {k : α → Handler σ M β}
    {y : Cache.Program σ M β} (hk : Refines (At s c) R (k a) y) :
    Refines (At s c) R (look f >>= k) y := by
  refine .left (fun d v h => ⟨d, ?_, h⟩) hk
  show (f d.service).map (·, d) = _
  rw [h.service, hf]
  rfl

/-- A write of the arrays. -/
theorem refines_write {f : Service M → Option (Service M)} {s' : Service M} (hf : f s = some s')
    {k : Unit → Handler σ M β} {y : Cache.Program σ M β} (hk : Refines (At s' c) R (k ()) y) :
    Refines (At s c) R (write f >>= k) y := by
  refine .left (K := At s' c) (fun d v h => ⟨{ d with service := s' }, ?_, rfl, h.cache,
    h.library, h.log⟩) hk
  show (f d.service).map (fun service => ((), { d with service := service })) = _
  rw [h.service, hf]
  rfl

/-- A look at the cache. -/
theorem refines_cached {x : Handler σ M β} {k : Cache M → Cache.Program σ M β}
    (hk : Refines (At s c) R x (k c)) :
    Refines (At s c) R x (Cache.cached >>= k) := .right (fun _ _ h => ⟨h.cache, h⟩) hk

/-- A new cache. -/
theorem refines_keep {c' : Cache M} {x : Handler σ M β} {k : Unit → Cache.Program σ M β}
    (hk : Refines (At s c') R x (k ())) : Refines (At s c) R x (Cache.keep c' >>= k) :=
  .right (K := At s c') (fun _ _ h => ⟨rfl, h.service, rfl, h.library, h.log⟩) hk

/-- From daemons in step, the arrays and the cache can be named. -/
theorem refines_inStep {x : Handler σ M β} {y : Cache.Program σ M β}
    (h : ∀ s c, s.Represents c → Refines (At s c) R x y) : Refines InStep R x y :=
  .of_exists (ι := { p : Service M × Cache M // p.1.Represents p.2 })
    (fun d v hd => ⟨⟨(d.service, v.service), hd.represents⟩, rfl, rfl, hd.library, hd.log⟩) fun p =>
      h p.1.1 p.1.2 p.2

/-- A program ends in step when the arrays are those of the cache. -/
theorem refines_pure (h : s.Represents c) (a : α) : Refines (At (σ := σ) s c) (fun _ => InStep)
    (pure a) (pure a) :=
  .pure fun _ _ hat => hat.inStep h

variable (lib : Ddcci σ M) (realpath : List UInt8 → Option (List UInt8))

/-! #### The scan -/

/-- The loop closes the entries that are open, and leaves the arrays. -/
theorem closeMonitors_refines (entries : List (Entry M)) (i : ℕ)
    (hopen : ∀ j e, entries[j]? = some e → s.monitorOpen.load (i + j) = some e.opened.isSome)
    (hmon : ∀ j e mon ret, entries[j]? = some e → e.opened =
      some (mon, ret) → s.openMonitors.load (i + j) = some mon) :
    Refines (At s c) (fun _ => At s c) (closeMonitors lib entries.length i)
      (Cache.closeEntries lib entries i) := by
  induction entries generalizing i with
  | nil => exact .pure fun _ _ h => h
  | cons e rest ih =>
    have hrest := ih (i + 1) (fun j e h => by rw [Nat.add_assoc, Nat.add_comm 1]; exact hopen (j + 1) e h)
      (fun j e mon ret h hm => by rw [Nat.add_assoc, Nat.add_comm 1]; exact hmon (j + 1) e mon ret h hm)
    rw [List.length_cons, closeMonitors, Cache.closeEntries]
    refine refines_look (hopen 0 e rfl) ?_
    cases hopened : e.opened with
    | none =>
      simp only [Option.isSome_none, Bool.false_eq_true, if_false]
      exact hrest
    | some opened =>
      simp only [Option.isSome_some, if_true]
      refine refines_look (hmon 0 e opened.1 opened.2 rfl hopened) ?_
      exact (refines_call _).bind fun _ => (refines_record _).bind fun _ => hrest

theorem Service.Lists.load_monitorOpen {entries : List (Entry M)} (h : s.Lists entries)
    {i : ℕ} {e : Entry M} (hi : entries[i]? = some e) :
    s.monitorOpen.load i = some e.opened.isSome :=
  h.monitorOpen.load (by rw [List.getElem?_map, List.getElem?_map, hi]; rfl)

theorem Service.Lists.load_openMonitors {entries : List (Entry M)} (h : s.Lists entries) {i : ℕ}
    {e : Entry M} {mon : M} {ret : ℤ} (hi : entries[i]? = some e)
    (he : e.opened = some (mon, ret)) : s.openMonitors.load i = some mon :=
  h.openMonitors.load (by rw [List.getElem?_map, hi]; simp [he])

theorem Service.Lists.load_monitorRet {entries : List (Entry M)} (h : s.Lists entries) {i : ℕ}
    {e : Entry M} {mon : M} {ret : ℤ} (hi : entries[i]? = some e)
    (he : e.opened = some (mon, ret)) : s.monitorRet.load i = some ret :=
  h.monitorRet.load (by rw [List.getElem?_map, hi]; simp [he])

theorem Service.Lists.load_devices {entries : List (Entry M)} (h : s.Lists entries)
    {i : ℕ} {e : Entry M} (hi : entries[i]? = some e) :
    (s.devices.load i).join = some e.detected.filename := by
  rw [h.devices.load (a := some e.detected.filename)]
  · rfl
  · have hlt := (List.getElem?_eq_some_iff.mp hi).1
    rw [List.getElem?_map, List.getElem?_append_left (by simpa using hlt), List.getElem?_map,
      List.getElem?_map, hi]
    rfl

theorem Service.Lists.isSome_openMonitors {entries : List (Entry M)} (h : s.Lists entries) :
    s.openMonitors.isSome = true := by
  obtain ⟨elements, hsome, -⟩ := h.openMonitors
  rw [hsome]
  rfl

/-- What was opened is closed, and no array is left. -/
theorem releaseMonitors_refines (h : s.Represents c) :
    Refines (At s c) (fun _ => At .null c) (releaseMonitors lib)
      (Cache.closeEntries lib (c.getD []) 0) := by
  unfold releaseMonitors
  cases c with
  | none =>
    cases h
    apply refines_observe
    exact .pure fun _ _ h => h
  | some entries =>
    have hs : s.Lists entries := h
    apply refines_observe
    rw [if_pos hs.isSome_openMonitors]
    apply refines_update
    apply refines_observe
    rw [← bind_pure (Cache.closeEntries lib _ 0)]
    change Refines _ _ (closeMonitors lib s.devicesCount 0 >>= _) _
    rw [hs.devicesCount]
    refine (closeMonitors_refines lib entries 0 (fun j e hj => ?_) fun j e mon ret hj he => ?_).bind fun _ =>
      refines_update_last
    · rw [Nat.zero_add]
      exact hs.load_monitorOpen hj
    · rw [Nat.zero_add]
      exact hs.load_openMonitors hj he

/-- The arrays in the middle of being filled: with what was found so far, and room for
`left` more. -/
structure Service.Filled (s : Service M) (done : List Detected) (left : ℕ) : Prop where
  devices : s.devices.Holds (done.map (fun d => some (some d.filename)) ++ List.replicate (left + 1) none)
  supported : s.supported.Holds (done.map (fun d => some d.supported) ++ List.replicate left none)
  names : s.names.Holds (done.map (fun d => some (some d.name)) ++ List.replicate (left + 1) none)
  digital : s.digital.Holds (done.map (fun d => some d.digital) ++ List.replicate left none)
  openMonitors : s.openMonitors.Holds (List.replicate (done.length + left) none)
  monitorOpen : s.monitorOpen.Holds (done.map (fun _ => some false) ++ List.replicate left none)
  monitorRet : s.monitorRet.Holds (List.replicate (done.length + left) none)

/-- One more element of an array is filled. -/
theorem push_filled {α : Type} {block : Block α} {done : List Detected}
    (current : Detected) {left : ℕ} (f : Detected → α)
    (h : block.Holds (done.map (fun d => some (f d)) ++ List.replicate (left + 1) none)) :
    ∃ block', block.store done.length (f current) = some block' ∧
      block'.Holds ((done ++ [current]).map (fun d => some (f d)) ++ List.replicate left none) := by
  obtain ⟨block', hstore, hholds⟩ := h.push (f current)
  refine ⟨block', by simpa using hstore, ?_⟩
  simpa using hholds

/-- The loop fills the arrays with the list. -/
theorem Service.Filled.fill {s : Service M} {done : List Detected} (rest : List Detected)
    (h : s.Filled done rest.length) :
    ∃ s', s.fill rest done.length = some s' ∧
      { s' with devicesCount := (done ++ rest).length }.Lists ((done ++ rest).map (⟨·, none⟩)) := by
  induction rest generalizing s done with
  | nil =>
    obtain ⟨devices, hdevices, hdevices'⟩ := h.devices.push none
    obtain ⟨names, hnames, hnames'⟩ := h.names.push none
    rw [List.length_map] at hdevices hnames
    refine ⟨{ s with devices := devices, names := names }, by simp [Service.fill, hdevices, hnames], ?_⟩
    rw [List.append_nil]
    constructor
    case devicesCount => simp
    case devices => simpa [Function.comp_def] using hdevices'
    case supported => simpa [Function.comp_def] using h.supported
    case names => simpa [Function.comp_def] using hnames'
    case digital => simpa [Function.comp_def] using h.digital
    case openMonitors => simpa [Function.comp_def, List.map_const'] using h.openMonitors
    case monitorOpen => simpa [Function.comp_def] using h.monitorOpen
    case monitorRet => simpa [Function.comp_def, List.map_const'] using h.monitorRet
  | cons current rest ih =>
    obtain ⟨devices, hdevices, hdevices'⟩ :=
      push_filled current (fun d => some d.filename) h.devices
    obtain ⟨supported, hsupported, hsupported'⟩ :=
      push_filled current (fun d => d.supported) h.supported
    obtain ⟨names, hnames, hnames'⟩ := push_filled current (fun d => some d.name) h.names
    obtain ⟨digital, hdigital, hdigital'⟩ := push_filled current (fun d => d.digital) h.digital
    obtain ⟨monitorOpen, hmonitorOpen, hmonitorOpen'⟩ :=
      push_filled current (fun _ => false) h.monitorOpen
    have hlength : done.length + (current :: rest).length = (done ++ [current]).length +
        rest.length := by simp; omega
    have hopenMonitors := h.openMonitors
    have hmonitorRet := h.monitorRet
    rw [hlength] at hopenMonitors hmonitorRet
    obtain ⟨s', hfill, hlists⟩ := ih (s := { s with
      devices := devices, supported := supported, monitorOpen := monitorOpen, names :=
        names, digital := digital })
      ⟨hdevices', hsupported', hnames', hdigital', hopenMonitors, hmonitorOpen', hmonitorRet⟩
    rw [List.append_assoc] at hlists
    refine ⟨s', ?_, hlists⟩
    rw [List.length_append] at hfill
    simpa [Service.fill, hdevices, hsupported, hnames, hdigital, hmonitorOpen] using hfill

/-- Arrays that were all allocated can be filled. -/
theorem Service.filled_allocate (s : Service M) {allocated : Allocated}
    (h : Cache.allocates allocated = true) (count : ℕ) :
    (s.allocate allocated count).Filled [] count := by
  have hroom : count ≤ if count > 0 then count else 1 := by split <;> omega
  simp only [Cache.allocates, Bool.and_eq_true] at h
  obtain ⟨⟨⟨⟨⟨⟨hdevices, hsupported⟩, hnames⟩, hdigital⟩, hopenMonitors⟩, hmonitorOpen⟩,
      hmonitorRet⟩ := h
  simp only [Service.allocate, hdevices, hsupported, hnames, hdigital, hopenMonitors,
    hmonitorOpen, hmonitorRet]
  constructor
  case devices => exact Block.Holds.malloc _ le_rfl
  case supported => exact Block.Holds.malloc _ hroom
  case names => exact Block.Holds.malloc _ le_rfl
  case digital => exact Block.Holds.malloc _ hroom
  case openMonitors => simpa using Block.Holds.malloc _ hroom
  case monitorOpen => exact Block.Holds.malloc _ hroom
  case monitorRet => simpa using Block.Holds.malloc _ hroom

/-- The check finds an array that was not allocated. -/
theorem Service.incomplete_allocate (s : Service M) (allocated : Allocated) (count : ℕ) :
    (s.allocate allocated count).incomplete = !Cache.allocates allocated := by
  have hmalloc (α : Type) (b : Bool) (n : ℕ) : Option.isNone (Block.malloc b n : Block α) =
      !b := by cases b <;> rfl
  simp only [Service.allocate, Service.incomplete, hmalloc, Cache.allocates, Bool.not_and]

/-- What a scan ends in: a list, if it succeeded. -/
def Scanned (ok : Bool) (d : State σ M (Service M)) (v : State σ M (Cache M)) : Prop :=
  InStep d v ∧ (ok = true → v.service.isSome)

/-- A scan ends in step. -/
theorem refines_scanned (h : s.Represents c) {ok : Bool} (hok : ok = true → c.isSome) :
    Refines (At (σ := σ) s c) Scanned (pure ok) (pure ok) :=
  .pure fun _ _ hat => ⟨hat.inStep h, fun hb => hat.cache ▸ hok hb⟩

theorem rescanMonitors_refines (h : s.Represents c) :
    Refines (At s c) Scanned (rescanMonitors lib) (Cache.rescan lib) := by
  unfold rescanMonitors Cache.rescan
  refine (refines_record _).bind fun _ => refines_cached ?_
  refine (releaseMonitors_refines lib h).bind fun _ => (refines_call _).bind fun monlist => ?_
  refine (refines_record _).bind fun _ => (refines_call _).bind fun allocated => ?_
  apply refines_update
  apply refines_observe
  rw [Service.incomplete_allocate]
  cases hall : Cache.allocates allocated with
  | false =>
    apply refines_update
    apply refines_keep
    exact refines_scanned (c := none) rfl nofun
  | true =>
    have hfilled :=
      Service.filled_allocate { (Service.null : Service M) with monlist := monlist } hall monlist.length
    obtain ⟨s', hfill, hlists⟩ := hfilled.fill monlist
    apply refines_write hfill
    apply refines_update
    apply refines_keep
    exact refines_scanned (c := some _) hlists fun _ => rfl

/-! #### The search -/

/-- The loop finds the first device that is the same. -/
theorem findDevice_refines (device : List UInt8) (entries : List (Entry M)) (i : ℕ)
    (hload : ∀ j e, entries[j]? = some e → (s.devices.load (i + j)).join = some e.detected.filename) :
    Refines (At (σ := σ) s c) (fun _ => At s c) (findDevice realpath device entries.length i)
      (pure ((Cache.search realpath device entries).map (i + ·))) := by
  induction entries generalizing i with
  | nil => exact .pure fun _ _ h => h
  | cons e rest ih =>
    rw [List.length_cons, findDevice]
    apply refines_look (hload 0 e rfl)
    cases hsame : sameDevice realpath e.detected.filename device with
    | true =>
      have hsearch : Cache.search realpath device (e :: rest) =
          some 0 := by simp [Cache.search, List.findIdx?_cons, hsame]
      rw [hsearch]
      exact .pure fun _ _ h => h
    | false =>
      have hsearch : (Cache.search realpath device (e :: rest)).map (i + ·) =
          (Cache.search realpath device rest).map (i + 1 + ·) := by
        simp only [Cache.search, List.findIdx?_cons, hsame, Bool.false_eq_true, if_false,
          Option.map_map]
        congr 1
        funext j
        simp only [Function.comp_apply]
        omega
      rw [hsearch]
      exact ih (i + 1) fun j e h => by rw [Nat.add_assoc, Nat.add_comm 1]; exact hload (j + 1) e h

theorem searchDevices_refines (h : s.Represents c) (device : List UInt8) :
    Refines (At (σ := σ) s c) (fun _ => At s c) (searchDevices realpath device)
      (pure (Cache.search realpath device (c.getD []))) := by
  unfold searchDevices
  apply refines_observe
  cases c with
  | none =>
    cases h
    exact .pure fun _ _ h => h
  | some entries =>
    have hs : s.Lists entries := h
    have hfind := findDevice_refines (σ := σ) (s := s) (c := some entries) realpath device entries 0
      fun j e hj => by rw [Nat.zero_add]; exact hs.load_devices hj
    rw [hs.devicesCount]
    simpa using hfind

theorem searchCached_refines (h : s.Represents c) (device : List UInt8) :
    Refines (At (σ := σ) s c) (fun _ => At s c) (searchCached realpath device)
      (pure (Cache.search realpath device (c.getD []))) := by
  unfold searchCached
  apply refines_observe
  cases c with
  | none =>
    cases h
    exact .pure fun _ _ h => h
  | some entries =>
    rw [if_pos (Service.Lists.isSome_openMonitors h)]
    exact searchDevices_refines realpath (c := some entries) h device

theorem canOpenDevice_refines (h : s.Represents c) (device : List UInt8) :
    Refines (At s c) (fun _ => InStep) (canOpenDevice lib realpath device)
      (Cache.canOpen lib realpath device) := by
  unfold canOpenDevice Cache.canOpen
  apply refines_cached
  refine .bind_pure (searchCached_refines realpath h device) ?_
  refine .ite (refines_pure h true) ?_
  refine ((rescanMonitors_refines lib h).mono fun _ _ _ hs => hs.1).bind fun _ =>
    refines_inStep fun s c h => ?_
  apply refines_cached
  exact .bind_pure (searchDevices_refines realpath h device) (refines_pure h _)

/-! #### The opening -/

/-- An opened monitor is entered in the arrays. -/
theorem Service.Lists.enter {entries : List (Entry M)} (h : s.Lists entries) {i : ℕ} {e : Entry M}
    (hi : entries[i]? = some e) (mon : M) (ret : ℤ) :
    ∃ s', s.enter i mon ret = some s' ∧ s'.Lists (entries.set i { e with opened := some (mon, ret) }) := by
  have hlt : i < entries.length := (List.getElem?_eq_some_iff.mp hi).1
  obtain ⟨openMonitors, hopenMonitors, hopenMonitors'⟩ :=
    h.openMonitors.store (by simpa using hlt) mon
  obtain ⟨monitorRet, hmonitorRet, hmonitorRet'⟩ := h.monitorRet.store (by simpa using hlt) ret
  obtain ⟨monitorOpen, hmonitorOpen, hmonitorOpen'⟩ := h.monitorOpen.store (by simpa using hlt) true
  refine ⟨{ s with openMonitors := openMonitors, monitorRet := monitorRet, monitorOpen := monitorOpen },
    by simp [Service.enter, hopenMonitors, hmonitorRet, hmonitorOpen], ?_⟩
  have hsame {α : Type} (f : Entry M → α) (hf : f { e with opened := some (mon, ret) } = f e) :
      (entries.set i { e with opened := some (mon, ret) }).map f = entries.map f := by
    rw [List.map_set, hf]
    refine List.ext_getElem? fun j => ?_
    rw [List.getElem?_set]
    split
    case isTrue heq => rw [← heq, List.getElem?_map, hi]; simp [hlt]
    case isFalse => rfl
  constructor
  case devicesCount => simpa using h.devicesCount
  case devices => rw [hsame _ rfl]; exact h.devices
  case supported => rw [hsame _ rfl]; exact h.supported
  case names => rw [hsame _ rfl]; exact h.names
  case digital => rw [hsame _ rfl]; exact h.digital
  case openMonitors => rw [List.map_set]; exact hopenMonitors'
  case monitorOpen => rw [List.map_set, List.map_set]; exact hmonitorOpen'
  case monitorRet => rw [List.map_set]; exact hmonitorRet'

/-- What a search finds is an entry. -/
theorem Cache.search_eq_some {entries : List (Entry M)} {device : List UInt8} {i : ℕ}
    (h : Cache.search realpath device entries = some i) :
    ∃ e, entries[i]? = some e ∧ sameDevice realpath e.detected.filename device = true := by
  obtain ⟨hlt, hsame, -⟩ := List.findIdx?_eq_some_iff_getElem.mp h
  exact ⟨entries[i], List.getElem?_eq_getElem hlt, hsame⟩

theorem openMonitor_refines (h : s.Represents c) (device : List UInt8) :
    Refines (At s c) (fun _ => InStep) (openMonitor lib realpath device)
      (Cache.openDevice lib realpath device) := by
  unfold openMonitor Cache.openDevice
  apply refines_cached
  refine .bind_pure (searchDevices_refines realpath h device) ?_
  unfold Cache.openListed
  cases hsearch : Cache.search realpath device (c.getD []) with
  | none => exact refines_pure h _
  | some i =>
    cases c with
    | none => cases hsearch
    | some entries =>
      have hs : s.Lists entries := h
      obtain ⟨e, hi, -⟩ := Cache.search_eq_some realpath hsearch
      rw [Option.getD_some] at hi ⊢
      simp only [hi]
      unfold ensureOpen Cache.openEntry
      rw [bind_assoc]
      apply refines_look (hs.load_monitorOpen hi)
      cases he : e.opened with
      | some opened =>
        simp only [Option.isSome_some, Bool.not_true, Bool.false_eq_true, if_false, pure_bind]
        apply refines_look (hs.load_openMonitors hi he)
        apply refines_look (hs.load_monitorRet hi he)
        exact refines_pure h _
      | none =>
        simp only [Option.isSome_none, Bool.not_false, if_true, bind_assoc]
        apply refines_look (hs.load_devices hi)
        refine (refines_call _).bind fun opened => ?_
        refine (refines_record _).bind fun _ => ?_
        obtain ⟨s', henter, hs'⟩ := hs.enter hi opened.1 opened.2
        have hi' : (entries.set i { e with opened := some (opened.1, opened.2) })[i]? =
            some { e with opened := some (opened.1, opened.2) } := by
          rw [List.getElem?_set_self (List.getElem?_eq_some_iff.mp hi).1]
        apply refines_write henter
        apply refines_look (hs'.load_openMonitors hi' rfl)
        apply refines_look (hs'.load_monitorRet hi' rfl)
        apply refines_keep
        exact refines_pure (c := some _) hs' _

/-! #### The answers -/

theorem completeGetMonitors_refines {entries : List (Entry M)} (h : s.Lists entries) :
    Refines (At (σ := σ) s (some entries))
      (fun _ => InStep) completeGetMonitors Cache.complete := by
  unfold completeGetMonitors Cache.complete
  have hsupported := h.supported.take
  have hdigital := h.digital.take
  rw [List.length_map, ← h.devicesCount] at hsupported hdigital
  apply refines_cached
  apply refines_look h.devices.untilNull
  apply refines_look hsupported
  apply refines_look h.names.untilNull
  apply refines_look hdigital
  exact (refines_record _).mono fun _ _ _ hat => hat.inStep (c := some entries) h

theorem scanMonitors_refines (h : s.Represents c) :
    Refines (At s c) Scanned (scanMonitors lib) (Cache.scan lib) := by
  unfold scanMonitors Cache.scan
  apply refines_observe
  apply refines_cached
  cases c with
  | none =>
    cases h
    exact rescanMonitors_refines lib (c := none) rfl
  | some entries =>
    have hs : s.Lists entries := h
    have hempty : (s.openMonitors.isNone || decide (s.devicesCount = 0)) = entries.isEmpty := by
      rw [hs.devicesCount, ← Option.not_isSome, hs.isSome_openMonitors]
      cases entries <;> rfl
    rw [hempty]
    exact .ite (rescanMonitors_refines lib h) (refines_scanned (c := some entries) h fun _ => rfl)

theorem call_refines (f : σ → α × σ) : Refines (InStep (M := M)) (fun _ => InStep)
    (call f) (call f) :=
  refines_inStep fun _ _ h => (refines_call f).mono fun _ _ _ hat => hat.inStep h

theorem record_refines (events : List (Event M)) :
    Refines (InStep (σ := σ) (M := M)) (fun _ => InStep) (record events) (record events) :=
  refines_inStep fun _ _ h => (refines_record events).mono fun _ _ _ hat => hat.inStep h

theorem onScan_refines {x : Handler σ M Bool} {y : Cache.Program σ M Bool}
    (h : Refines InStep Scanned x y) :
    Refines InStep (fun _ => InStep) (onScan x completeGetMonitors) (onScan y Cache.complete) := by
  refine h.bind fun ok => ?_
  cases ok with
  | false =>
    intro d v hs
    exact record_refines _ d v hs.1
  | true =>
    rintro d v ⟨hd, hsome⟩
    obtain ⟨entries, hentries⟩ := Option.isSome_iff_exists.mp (hsome rfl)
    have hlists : d.service.Lists entries := by
      have := hd.represents
      rwa [hentries] at this
    exact completeGetMonitors_refines hlists d v ⟨rfl, hentries, hd.library, hd.log⟩

/-! #### Serving -/

theorem readRetry_refines (i : ℕ) (mon : M) (ctrl : UInt8) (retry : ℕ) :
    Refines (InStep (σ := σ) (M := M)) (fun _ => InStep) (readRetry lib i mon ctrl retry)
      (readRetry lib i mon ctrl retry) := by
  induction retry with
  | zero => exact .pure fun _ _ h => h
  | succ retry ih =>
    refine Refines.bind (Q := fun _ => InStep) ?_ fun result => .ite (.pure fun _ _ h => h) ih
    exact (call_refines _).bind fun _ => (record_refines _).bind fun _ => .pure fun _ _ h => h

theorem serveGetControl_refines (control : UInt32) (i : ℕ) (mon : M) :
    Refines (InStep (σ := σ) (M := M)) (fun _ => InStep) (serveGetControl lib control i mon)
      (serveGetControl lib control i mon) :=
  (readRetry_refines lib i mon _ _).bind fun _ => record_refines _

theorem serveSetControl_refines (device : List UInt8) (control value : UInt32) (i : ℕ) (mon : M) :
    Refines (InStep (σ := σ) (M := M)) (fun _ => InStep)
      (serveSetControl lib device control value i mon)
      (serveSetControl lib device control value i mon) := by
  refine Refines.bind (Q := fun _ => InStep) ?_ fun _ => (record_refines _).bind fun _ =>
    record_refines _
  exact (call_refines _).bind fun _ => record_refines _

theorem admission_refines (device : List UInt8) :
    Refines InStep (fun _ => InStep)
      (admission (canOpenDevice lib realpath device) (openMonitor lib realpath device))
      (admission (Cache.canOpen lib realpath device) (Cache.openDevice lib realpath device)) := by
  refine (refines_inStep fun s c h => canOpenDevice_refines lib realpath h device).bind fun _ =>
    .ite (.pure fun _ _ h => h) ?_
  refine (refines_inStep fun s c h => openMonitor_refines lib realpath h device).bind fun opened => ?_
  obtain ⟨_ | _, ret⟩ := opened
  · exact .pure fun _ _ h => h
  · exact .pure fun _ _ h => h

theorem onMonitor_refines (device : List UInt8) {f : ℕ → M → Handler σ M Unit}
    {g : ℕ → M → Cache.Program σ M Unit}
    (h : ∀ i mon, Refines InStep (fun _ => InStep) (f i mon) (g i mon)) :
    Refines InStep (fun _ => InStep)
      (onMonitor (canOpenDevice lib realpath device) (openMonitor lib realpath device) f)
      (onMonitor (Cache.canOpen lib realpath device) (Cache.openDevice lib realpath device) g) := by
  refine (admission_refines lib realpath device).bind fun outcome => ?_
  cases outcome with
  | error e => exact record_refines _
  | ok opened => exact h opened.1 opened.2

theorem handle_refines (r : Request) :
    Refines InStep (fun _ => InStep) (handle lib realpath r) (Cache.handle lib realpath r) := by
  cases r with
  | getMonitors => exact onScan_refines (refines_inStep fun s c h => scanMonitors_refines lib h)
  | rescanMonitors => exact onScan_refines (refines_inStep fun s c h => rescanMonitors_refines lib h)
  | openMonitor device => exact onMonitor_refines lib realpath device fun i mon => record_refines _
  | getEdid device => exact onMonitor_refines lib realpath device fun i mon => record_refines _
  | getControl device control => exact onMonitor_refines lib realpath device (serveGetControl_refines lib control)
  | setControl device control value =>
    exact onMonitor_refines lib realpath device (serveSetControl_refines lib device control value)

/-- **The service does not go wrong**: it serves a request as the cache does. -/
theorem serve_refines (r : Request) :
    Refines InStep (fun _ => InStep) (serve lib realpath r) (Cache.serve lib realpath r) :=
  (record_refines _).bind fun _ => handle_refines lib realpath r

theorem serveAll_refines (rs : List Request) :
    Refines InStep (fun _ => InStep) (serveAll lib realpath rs)
      (Cache.serveAll lib realpath rs) := by
  induction rs with
  | nil => exact .pure fun _ _ h => h
  | cons r rs ih => exact (serve_refines lib realpath r).bind fun _ => ih

end Refinement

/-! ### The record -/

section Logs

variable {σ M : Type}

/-- The cache is this one, and the record satisfies `P`. -/
structure Logs (P : List (Event M) → Prop) (c : Cache M) (v : State σ M (Cache M)) : Prop where
  cache : v.service = c
  log : P v.log

variable {P P' : List (Event M) → Prop} {c : Cache M} {α β : Type} {R : β → State σ M (Cache M) → Prop}

theorem logs_call (f : σ → α × σ) : Ensures (Logs P c) (fun _ => Logs P c) (call f) :=
  .step fun _ h => ⟨h.cache, h.log⟩

theorem logs_record {events : List (Event M)} (h : ∀ log, P log → P' (log ++ events)) :
    Ensures (Logs (σ := σ) P c) (fun _ => Logs P' c) (record events) :=
  .step fun _ hv => ⟨hv.cache, h _ hv.log⟩

theorem logs_cached {k : Cache M → Cache.Program σ M β} (hk : Ensures (Logs P c) R (k c)) :
    Ensures (Logs P c) R (Cache.cached >>= k) := by
  intro v hv
  have := hk v hv
  rwa [← hv.cache] at this

theorem logs_keep (c' : Cache M) : Ensures (Logs (σ := σ) P c) (fun _ => Logs P c')
    (Cache.keep c') :=
  .step fun _ h => ⟨rfl, h.log⟩

end Logs

end DdcControl.Daemon
