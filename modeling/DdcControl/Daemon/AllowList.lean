import DdcControl.Daemon.Cache

/-!
# The list of allowed devices

The daemon runs as root and opens devices that its clients name. What it may do with them
is said of the record of what it did, event by event: `AllowList` is what the events so
far amount to, `AllowList.Permits` what may come next. A monitor is read, written and
closed as what was opened under the name that is permitted.

## What is proved

`serveAll_obeys` — whatever is requested, and whatever the library does: the service does
not go wrong, its arrays are all there or all missing, and it does only what is permitted.
-/

namespace DdcControl.Daemon

open Protocol Lockstep

section Names

variable (realpath : List UInt8 → Option (List UInt8))

/-- The path a device name stands for, made canonical. -/
def canonical (name : List UInt8) : Option (List UInt8) :=
  if (utf8 "dev:").isPrefixOf name then realpath (name.drop 4) else none

/-- The names are equal, or stand for the same path. -/
def SameDevice (name device : List UInt8) : Prop :=
  name = device ∨ ∃ path, canonical realpath name = some path ∧ canonical realpath device = some path

/-- A path that is resolved is the canonical one. -/
theorem canonical_of_resolveDevDevice {device path : List UInt8}
    (h : resolveDevDevice realpath device = some path) :
    canonical realpath device = some path := by
  unfold resolveDevDevice at h
  split at h
  · cases h
  rename_i hdev
  dsimp only at h
  split_ifs at h
  rw [canonical, if_pos (by simpa using hdev), h]

theorem sameDevice_sound {name device : List UInt8} (h : sameDevice realpath name device = true) :
    SameDevice realpath name device := by
  unfold sameDevice at h
  split_ifs at h with heq
  · exact .inl heq
  · split at h
    · cases h
    rename_i path hname
    split at h
    · cases h
    rename_i path' hdevice
    rw [decide_eq_true_eq] at h
    exact .inr ⟨path, canonical_of_resolveDevDevice realpath hname,
      h ▸ canonical_of_resolveDevDevice realpath hdevice⟩

end Names

/-! ### What is permitted -/

/-- A device that is open: its index, the name that it was opened under, and the monitor. -/
structure OpenDevice (M : Type) where
  index : ℕ
  name : List UInt8
  mon : M

/-- What the events so far amount to: the device of the request being served, the names
of the last probe, the devices opened since, and whether a scan has not probed yet. -/
structure AllowList (M : Type) where
  requested : Option (List UInt8)
  listed : List (List UInt8)
  opened : List (OpenDevice M)
  rescanning : Bool

namespace AllowList

variable {M : Type}

/-- Before the first request. -/
def start : AllowList M := ⟨none, [], [], false⟩

/-- What one more event makes of it. -/
def after (a : AllowList M) : Event M → AllowList M
  | .request r => { a with requested := r.device }
  | .rescan => { a with rescanning := true }
  | .probed monlist => { a with listed := monlist.map Detected.filename, rescanning := false }
  | .opened i name mon _ => { a with opened := ⟨i, name, mon⟩ :: a.opened }
  | .closed i _ => { a with opened := a.opened.filter (·.index ≠ i) }
  | .read _ _ _ | .written _ _ _ _ _ | .replied _ | .controlChanged _ _ _ => a

variable (realpath : List UInt8 → Option (List UInt8))

/-- The device at an index is listed under this name, and is the one requested. -/
def Names (a : AllowList M) (i : ℕ) (name : List UInt8) : Prop :=
  a.listed[i]? = some name ∧ ∃ device, a.requested = some device ∧ SameDevice realpath name device

/-- The monitor was opened under the listed name of the device at an index, which is the one
requested. -/
def Uses (a : AllowList M) (i : ℕ) (mon : M) : Prop := ∃ name, ⟨i, name, mon⟩ ∈ a.opened ∧ a.Names realpath i name

/-- What may come next. A device is opened under its listed name if it is the one
requested and is not open, and the monitor that was opened is used if it is the one
requested; a scan closes the monitors that are open, each once, before it probes. -/
def Permits (a : AllowList M) : Event M → Prop
  | .request _ | .rescan => a.rescanning = false
  | .probed _ => a.rescanning = true ∧ a.opened = []
  | .opened i name _ _ => a.rescanning = false ∧ a.Names realpath i name ∧ ∀ o ∈ a.opened, o.index ≠ i
  | .closed i mon => a.rescanning = true ∧ ∃ name, ⟨i, name, mon⟩ ∈ a.opened
  | .read i mon _ | .written i mon _ _ _ => a.rescanning = false ∧ a.Uses realpath i mon
  | .replied _ | .controlChanged _ _ _ => a.rescanning = false

/-- Each event is permitted after those before it. -/
def Obeys (a : AllowList M) : List (Event M) → Prop
  | [] => True
  | e :: es => a.Permits realpath e ∧ (a.after e).Obeys es

/-- What events amount to. -/
def afterAll (a : AllowList M) (events : List (Event M)) : AllowList M := events.foldl after a

theorem obeys_append {a : AllowList M} {before events : List (Event M)} :
    a.Obeys realpath (before ++ events) ↔ a.Obeys realpath before ∧
    (a.afterAll before).Obeys realpath events := by
  induction before generalizing a with
  | nil => simp [Obeys, afterAll]
  | cons e before ih => simp [Obeys, afterAll, ih, and_assoc]

end AllowList

/-- The arrays are all missing and the count is 0, or they all cover the count. -/
def Service.Consistent {M : Type} (s : Service M) : Prop :=
  (s.devices = none ∧ s.monitorOpen = none ∧ s.monitorRet = none ∧ s.openMonitors = none ∧ s.devicesCount = 0) ∨
    (s.devices.Covers s.devicesCount ∧ s.monitorOpen.Covers s.devicesCount ∧ s.monitorRet.Covers s.devicesCount ∧
      s.openMonitors.Covers s.devicesCount)

theorem Service.Represents.consistent {M : Type} {s : Service M} {c : Cache M}
    (h : s.Represents c) : s.Consistent := by
  cases c with
  | none =>
    cases h
    exact .inl ⟨rfl, rfl, rfl, rfl, rfl⟩
  | some entries =>
    have hs : s.Lists entries := h
    unfold Service.Consistent
    rw [hs.devicesCount]
    exact .inr ⟨hs.devices.covers (by simp), hs.monitorOpen.covers (by simp),
      hs.monitorRet.covers (by simp),
      hs.openMonitors.covers (by simp)⟩

/-! ### Runs -/

section Runs

variable {σ M : Type} (realpath : List UInt8 → Option (List UInt8))

/-- The daemon did what is permitted, which amounts to `a`, and has this cache. -/
def Tracks (a : AllowList M) (c : Cache M) : State σ M (Cache M) → Prop :=
  Logs (fun log => AllowList.start.Obeys realpath log ∧ AllowList.start.afterAll log = a) c

/-- The device is open in the cache. -/
def IsOpen (entries : List (Entry M)) (o : OpenDevice M) : Prop :=
  ∃ e ret, entries[o.index]? = some e ∧ e.opened = some (o.mon, ret) ∧ e.detected.filename = o.name

/-- Between two requests, the cache is what the events amount to. -/
structure Settled (a : AllowList M) (c : Cache M) : Prop where
  rescanning : a.rescanning = false
  opened : ∀ o, o ∈ a.opened ↔ IsOpen (c.getD []) o
  listed : ∀ (i : ℕ) (e : Entry M), (c.getD [])[i]? = some e → a.listed[i]? = some e.detected.filename

variable {realpath} {a : AllowList M} {c : Cache M} {α β : Type} {R : β → State σ M (Cache M) → Prop}

theorem tracks_call (f : σ → α × σ) : Ensures (Tracks realpath a c) (fun _ => Tracks realpath a c)
    (call f) := logs_call f

theorem tracks_record {events : List (Event M)} (h : a.Obeys realpath events) :
    Ensures (Tracks (σ := σ) realpath a c) (fun _ => Tracks realpath (a.afterAll events) c)
      (record events) := by
  refine logs_record fun log hlog => ⟨?_, ?_⟩
  · exact (AllowList.obeys_append realpath).mpr ⟨hlog.1, by rw [hlog.2]; exact h⟩
  · rw [← hlog.2, AllowList.afterAll, AllowList.afterAll, List.foldl_append]
    rfl

theorem tracks_event {e : Event M} (h : a.Permits realpath e) :
    Ensures (Tracks (σ := σ) realpath a c) (fun _ => Tracks realpath (a.after e) c)
      (record [e]) := by
  have hobeys : a.Obeys realpath [e] := ⟨h, trivial⟩
  exact tracks_record hobeys

theorem tracks_cached {k : Cache M → Cache.Program σ M β}
    (hk : Ensures (Tracks realpath a c) R (k c)) :
    Ensures (Tracks realpath a c) R (Cache.cached >>= k) := logs_cached hk

theorem tracks_keep (c' : Cache M) :
    Ensures (Tracks (σ := σ) realpath a c) (fun _ => Tracks realpath a c')
      (Cache.keep c') := logs_keep c'

variable (lib : Ddcci σ M)

/-- The entries that are open are closed, each once. -/
theorem closeEntries_tracks (entries : List (Entry M)) (i : ℕ) (hrescanning : a.rescanning = true)
    (hopened : ∀ o, o ∈ a.opened ↔ i ≤ o.index ∧ IsOpen entries { o with index := o.index - i }) :
    Ensures (Tracks realpath a c) (fun _ => Tracks realpath { a with opened := [] } c)
      (Cache.closeEntries lib entries i) := by
  induction entries generalizing i a with
  | nil =>
    have hnil : a.opened = [] := List.eq_nil_iff_forall_not_mem.mpr fun o ho => by
      obtain ⟨-, e, ret, he, -⟩ := (hopened o).mp ho
      cases he
    rw [← hnil]
    exact .pure fun _ h => h
  | cons e rest ih =>
    have hrest : ∀ o : OpenDevice M, o.index ≠ i →
        ((i ≤ o.index ∧ IsOpen (e :: rest) { o with index := o.index - i }) ↔
          i + 1 ≤ o.index ∧ IsOpen rest { o with index := o.index - (i + 1) }) := by
      rintro ⟨k, name, mon⟩ (hk : k ≠ i)
      refine ⟨fun ⟨hle, h⟩ => ⟨show i + 1 ≤ k by change i ≤ k at hle; omega, ?_⟩,
        fun ⟨hle, h⟩ => ⟨show i ≤ k by change i + 1 ≤ k at hle; omega, ?_⟩⟩
      all_goals
        obtain ⟨j, rfl⟩ : ∃ j, k = i + 1 + j := ⟨k - (i + 1), by dsimp only at hle; omega⟩
        have hsucc : i + 1 + j - i = j + 1 := by omega
        simpa [IsOpen, hsucc] using h
    have hfirst : ∀ o : OpenDevice M, o.index = i →
        (o ∈ a.opened ↔ ∃ ret, e.opened = some (o.mon, ret) ∧ e.detected.filename = o.name) := by
      rintro o rfl
      rw [hopened]
      simp [IsOpen]
    rw [Cache.closeEntries]
    cases he : e.opened with
    | none =>
      refine ih (i + 1) hrescanning fun o => ?_
      by_cases ho : o.index = i
      · rw [hfirst o ho, he, ho]
        simp
      · rw [hopened, hrest o ho]
    | some opened =>
      have hmem : ⟨i, e.detected.filename, opened.1⟩ ∈ a.opened :=
        (hfirst _ rfl).mpr ⟨opened.2, he, rfl⟩
      have hpermits : a.Permits realpath (.closed i opened.1) := ⟨hrescanning, _, hmem⟩
      refine (tracks_call _).bind fun _ => (tracks_event hpermits).bind fun _ => ?_
      refine ih (i + 1) (a := { a with opened := a.opened.filter (·.index ≠ i) }) hrescanning fun o => ?_
      rw [List.mem_filter, hopened]
      by_cases ho : o.index = i
      · simp [ho]
      · rw [hrest o ho]
        simp [ho]

/-- A daemon between two requests, the last one or the current one being for this device. -/
def Ready (realpath : List UInt8 → Option (List UInt8)) (requested : Option (List UInt8)) (v : State σ M (Cache M)) : Prop :=
  ∃ (a : AllowList M) (c : Cache M), Settled a c ∧ a.requested = requested ∧ Tracks realpath a c v

theorem ensures_ready {requested : Option (List UInt8)} {y : Cache.Program σ M β}
    (h : ∀ a c, Settled a c → a.requested = requested → Ensures (Tracks realpath a c) R y) :
    Ensures (Ready realpath requested) R y := by
  rintro v ⟨a, c, hsettled, hrequested, htracks⟩
  exact h a c hsettled hrequested v htracks

theorem rescan_ready (requested : Option (List UInt8)) :
    Ensures (Ready realpath requested) (fun _ => Ready realpath requested) (Cache.rescan lib) := by
  refine ensures_ready fun a c hsettled hrequested => ?_
  unfold Cache.rescan
  refine (tracks_event (e := .rescan) hsettled.rescanning).bind fun _ => tracks_cached ?_
  refine Ensures.bind (closeEntries_tracks lib _ 0 rfl fun o => ?_) fun _ => ?_
  · rw [Nat.sub_zero]
    exact (hsettled.opened o).trans (by simp)
  refine (tracks_call _).bind fun monlist => ?_
  have hpermits : AllowList.Permits (M := M) realpath { a.after .rescan with opened := [] } (.probed monlist) :=
    ⟨rfl, rfl⟩
  refine (tracks_event hpermits).bind fun _ => ?_
  refine (tracks_call _).bind fun allocated => (tracks_keep _).bind fun _ => .pure fun v hv => ?_
  refine ⟨_, _, ?_, ?_, hv⟩
  · cases Cache.allocates allocated with
    | false => exact ⟨rfl, fun o => by simp [IsOpen, AllowList.after], by simp⟩
    | true =>
      refine ⟨rfl, fun o => by simp [IsOpen, AllowList.after, List.getElem?_map, Option.map_eq_some_iff], fun i e he => ?_⟩
      simp only [if_true, Option.getD_some, List.getElem?_map, Option.map_eq_some_iff] at he
      obtain ⟨detected, hdetected, rfl⟩ := he
      simp [AllowList.after, hdetected]
  · exact hrequested

theorem canOpen_ready (requested : Option (List UInt8)) (device : List UInt8) :
    Ensures (Ready realpath requested) (fun _ => Ready realpath requested)
      (Cache.canOpen lib realpath device) := by
  refine ensures_ready fun a c hsettled hrequested => ?_
  have hready : ∀ v, Tracks (σ := σ) realpath a c v → Ready realpath requested v :=
    fun v hv => ⟨a, c, hsettled, hrequested, hv⟩
  unfold Cache.canOpen
  refine tracks_cached (.ite (fun _ => .pure hready) fun _ => ?_)
  refine Ensures.bind (Q := fun _ => Ready realpath requested) ?_ fun _ => ?_
  · exact fun v hv => rescan_ready lib requested v (hready v hv)
  refine ensures_ready fun a c hsettled hrequested => tracks_cached ?_
  exact .pure fun v hv => ⟨a, c, hsettled, hrequested, hv⟩

/-- An opened device is entered. -/
theorem Settled.enter (h : Settled a c) {i : ℕ} {e : Entry M}
    (hi : (c.getD [])[i]? = some e) (mon : M) (ret : ℤ) (hclosed : e.opened = none) :
    Settled (a.after (.opened i e.detected.filename mon ret))
      (some ((c.getD []).set i { e with opened := some (mon, ret) })) := by
  have hlt := (List.getElem?_eq_some_iff.mp hi).1
  refine ⟨h.rescanning, fun o => ?_, fun k e' he' => ?_⟩
  · obtain ⟨k, name, mon'⟩ := o
    show (⟨k, name, mon'⟩ : OpenDevice M) ∈ ⟨i, e.detected.filename, mon⟩ :: a.opened ↔ _
    rw [List.mem_cons, h.opened, Option.getD_some, IsOpen, IsOpen]
    by_cases hk : i = k
    · subst hk
      have hnone : ¬∃ e' ret', (c.getD [])[i]? = some e' ∧ e'.opened = some (mon', ret') ∧
          e'.detected.filename = name := by
        rintro ⟨e', ret', he', hopened, -⟩
        rw [hi] at he'
        cases he'
        rw [hclosed] at hopened
        cases hopened
      rw [or_iff_left hnone, List.getElem?_set_self hlt]
      constructor
      · rintro ⟨⟩
        exact ⟨_, ret, rfl, rfl, rfl⟩
      · rintro ⟨_, _, ⟨⟩, ⟨⟩, hname⟩
        exact congrArg (OpenDevice.mk i · mon') hname.symm
    · rw [List.getElem?_set_ne hk]
      simp [Ne.symm hk]
  · rw [Option.getD_some, List.getElem?_set, if_pos hlt] at he'
    split at he'
    case isTrue heq =>
      cases he'
      exact h.listed k e (heq ▸ hi)
    case isFalse => exact h.listed k e' he'

/-- The device of the request is open at this index, as this monitor. -/
def Using (realpath : List UInt8 → Option (List UInt8)) (requested : Option (List UInt8)) (i : ℕ) (mon : M)
    (v : State σ M (Cache M)) : Prop :=
  ∃ (a : AllowList M) (c : Cache M), Settled a c ∧ a.requested = requested ∧ Tracks realpath a c v ∧
    a.Uses realpath i mon

/-- A device is opened at most once, when it is the one requested. -/
theorem openDevice_using (device : List UInt8) :
    Ensures (Ready realpath (some device))
      (fun opened v => Ready realpath (some device) v ∧
        ∀ i mon, opened.1 = some (i, mon) → Using realpath (some device) i mon v)
      (Cache.openDevice (σ := σ) lib realpath device) := by
  refine ensures_ready fun a c hsettled hrequested => ?_
  have hready : ∀ v, Tracks (σ := σ) realpath a c v → Ready realpath (some device) v :=
    fun v hv => ⟨a, c, hsettled, hrequested, hv⟩
  unfold Cache.openDevice
  refine tracks_cached ?_
  unfold Cache.openListed
  cases hsearch : Cache.search realpath device (c.getD []) with
  | none => exact .pure fun v hv => ⟨hready v hv, nofun⟩
  | some i =>
    obtain ⟨e, hi, hsame⟩ := Cache.search_eq_some realpath hsearch
    have hnames : a.Names realpath i e.detected.filename :=
      ⟨hsettled.listed i e hi, device, hrequested, sameDevice_sound realpath hsame⟩
    simp only [hi]
    unfold Cache.openEntry
    cases he : e.opened with
    | some opened =>
      have hopen : ⟨i, e.detected.filename, opened.1⟩ ∈ a.opened :=
        (hsettled.opened _).mpr ⟨e, opened.2, hi, he, rfl⟩
      refine .pure fun v hv => ⟨hready v hv, ?_⟩
      rintro _ _ ⟨⟩
      exact ⟨a, c, hsettled, hrequested, hv, _, hopen, hnames⟩
    | none =>
      have hclosed : ∀ o ∈ a.opened, o.index ≠ i := by
        rintro o hmem rfl
        obtain ⟨e', ret, hi', he', -⟩ := (hsettled.opened o).mp hmem
        rw [hi] at hi'
        cases hi'
        rw [he] at he'
        cases he'
      refine (tracks_call _).bind fun opened => ?_
      have hpermits : a.Permits realpath (.opened i e.detected.filename opened.1 opened.2) :=
        ⟨hsettled.rescanning, hnames, hclosed⟩
      refine (tracks_event hpermits).bind fun _ => (tracks_keep _).bind fun _ =>
        .pure fun v hv => ?_
      have hsettled' := hsettled.enter hi opened.1 opened.2 he
      refine ⟨⟨_, _, hsettled', hrequested, hv⟩, ?_⟩
      rintro _ _ ⟨⟩
      exact ⟨_, _, hsettled', hrequested, hv, _, List.mem_cons_self, hnames⟩

/-! #### Serving -/

/-- Events of the open device change nothing that is permitted. -/
theorem record_using {requested : Option (List UInt8)} {i : ℕ} {mon : M} {events : List (Event M)}
    (h : ∀ e ∈ events, (∃ t, e = .read i mon t) ∨ ∃ request delay done, e = .written i mon request delay done) :
    Ensures (Using (σ := σ) realpath requested i mon) (fun _ => Using realpath requested i mon)
      (record events) := by
  rintro v ⟨a, c, hsettled, hrequested, htracks, huses⟩
  have hobeys : a.Obeys realpath events ∧ a.afterAll events = a := by
    clear htracks
    induction events with
    | nil => exact ⟨trivial, rfl⟩
    | cons e events ih =>
      have htail := ih fun e' he' => h e' (List.mem_cons_of_mem e he')
      rcases h e List.mem_cons_self with ⟨t, rfl⟩ | ⟨request, delay, done, rfl⟩
      all_goals exact ⟨⟨⟨hsettled.rescanning, huses⟩, htail.1⟩, htail.2⟩
  have hrecord := tracks_record (σ := σ) (c := c) hobeys.1 v htracks
  rw [hobeys.2] at hrecord
  exact ⟨a, c, hsettled, hrequested, hrecord, huses⟩

theorem call_using {requested : Option (List UInt8)} {i : ℕ} {mon : M} (f : σ → α × σ) :
    Ensures (Using realpath requested i mon) (fun _ => Using realpath requested i mon)
      (call f) := by
  rintro v ⟨a, c, hsettled, hrequested, htracks, huse⟩
  exact ⟨a, c, hsettled, hrequested, tracks_call f v htracks, huse⟩

/-- An answer and a signal are always permitted. -/
theorem record_ready {requested : Option (List UInt8)} {e : Event M}
    (h : (∃ r, e = .replied r) ∨ ∃ device control value, e = .controlChanged device control value) :
    Ensures (Ready (σ := σ) (M := M) realpath requested) (fun _ => Ready realpath requested)
      (record [e]) := by
  refine ensures_ready fun a c hsettled hrequested v hv => ?_
  rcases h with ⟨r, rfl⟩ | ⟨device, control, value, rfl⟩
  · have hpermits : a.Permits realpath (.replied r) := hsettled.rescanning
    exact ⟨a, c, hsettled, hrequested, tracks_event hpermits v hv⟩
  · have hpermits : a.Permits realpath (.controlChanged device control value) := hsettled.rescanning
    exact ⟨a, c, hsettled, hrequested, tracks_event hpermits v hv⟩

theorem Using.ready {requested : Option (List UInt8)} {i : ℕ} {mon : M} {v : State σ M (Cache M)}
    (h : Using realpath requested i mon v) :
    Ready realpath requested v := by
  obtain ⟨a, c, hsettled, hrequested, htracks, -⟩ := h
  exact ⟨a, c, hsettled, hrequested, htracks⟩

theorem reply_ready {requested : Option (List UInt8)} (r : Reply) :
    Ensures (Ready (σ := σ) (M := M) realpath requested)
      (fun _ => Ready realpath requested) (reply r) :=
  record_ready (.inl ⟨r, rfl⟩)

theorem readRetry_using {requested : Option (List UInt8)} (i : ℕ) (mon : M)
    (ctrl : UInt8) (retry : ℕ) :
    Ensures (Using realpath requested i mon) (fun _ => Using realpath requested i mon)
      (readRetry lib i mon ctrl retry) := by
  induction retry with
  | zero => exact .pure fun _ h => h
  | succ retry ih =>
    refine Ensures.bind (Q := fun _ => Using realpath requested i mon) ?_ fun result =>
      .ite (fun _ => .pure fun _ h => h) fun _ => ih
    refine (call_using _).bind fun r => (record_using fun e he => ?_).bind fun _ =>
      .pure fun _ h => h
    obtain ⟨t, -, rfl⟩ := List.mem_map.mp he
    exact .inl ⟨t, rfl⟩

theorem serveGetControl_ready {requested : Option (List UInt8)} (control : UInt32)
    (i : ℕ) (mon : M) :
    Ensures (Using realpath requested i mon) (fun _ => Ready realpath requested)
      (serveGetControl lib control i mon) :=
  (readRetry_using lib i mon _ _).bind fun _ v hv => reply_ready _ v hv.ready

theorem serveSetControl_ready {requested : Option (List UInt8)} (device : List UInt8)
    (control value : UInt32) (i : ℕ) (mon : M) :
    Ensures (Using realpath requested i mon) (fun _ => Ready realpath requested)
      (serveSetControl lib device control value i mon) := by
  refine Ensures.bind (Q := fun _ => Using realpath requested i mon) ?_ fun _ => ?_
  · refine (call_using _).bind fun done => record_using fun e he => ?_
    exact .inr ⟨_, _, _, List.mem_singleton.mp he⟩
  · refine Ensures.bind (Q := fun _ => Ready realpath requested) (fun v hv => reply_ready _ v hv.ready) fun _ => ?_
    exact record_ready (.inr ⟨_, _, _, rfl⟩)

theorem admission_using (device : List UInt8) :
    Ensures (Ready realpath (some device))
      (fun outcome v => Ready realpath (some device) v ∧
        ∀ i mon, outcome = .ok (i, mon) → Using realpath (some device) i mon v)
      (admission (Cache.canOpen (σ := σ) lib realpath device) (Cache.openDevice lib realpath device)) := by
  refine (canOpen_ready lib _ device).bind fun _ => .ite (fun _ => .pure fun v hv => ⟨hv,
    nofun⟩) fun _ => ?_
  refine (openDevice_using lib device).bind fun opened => ?_
  obtain ⟨_ | ⟨i, mon⟩, ret⟩ := opened
  · exact .pure fun v hv => ⟨hv.1, nofun⟩
  · refine .pure fun v hv => ⟨hv.1, fun i' mon' h => hv.2 i' mon' ?_⟩
    split at h <;> simp_all

theorem onMonitor_ready (device : List UInt8) {f : ℕ → M → Cache.Program σ M Unit}
    (h : ∀ i mon, Ensures (Using realpath (some device) i mon) (fun _ => Ready realpath (some device)) (f i mon)) :
    Ensures (Ready realpath (some device)) (fun _ => Ready realpath (some device))
      (onMonitor (Cache.canOpen lib realpath device) (Cache.openDevice lib realpath device) f) := by
  refine (admission_using lib device).bind fun outcome => ?_
  cases outcome with
  | error e => exact fun v hv => reply_ready _ v hv.1
  | ok opened => exact fun v hv => h opened.1 opened.2 v (hv.2 opened.1 opened.2 rfl)

theorem onScan_ready {requested : Option (List UInt8)} {y : Cache.Program σ M Bool}
    (h : Ensures (Ready realpath requested) (fun _ => Ready realpath requested) y) :
    Ensures (Ready realpath requested) (fun _ => Ready realpath requested)
      (onScan y Cache.complete) := by
  refine h.bind fun ok => .ite (fun _ => reply_ready _) fun _ => ?_
  refine ensures_ready fun a c hsettled hrequested => tracks_cached fun v hv => ?_
  exact reply_ready _ v ⟨a, c, hsettled, hrequested, hv⟩

theorem scan_ready (requested : Option (List UInt8)) :
    Ensures (Ready realpath requested) (fun _ => Ready realpath requested) (Cache.scan lib) := by
  refine ensures_ready fun a c hsettled hrequested => tracks_cached ?_
  have hready : ∀ v, Tracks (σ := σ) realpath a c v → Ready realpath requested v :=
    fun v hv => ⟨a, c, hsettled, hrequested, hv⟩
  exact .ite (fun _ v hv => rescan_ready lib requested v (hready v hv)) fun _ => .pure hready

/-- A request that arrives is for its device. -/
theorem request_ready (requested : Option (List UInt8)) (r : Request) :
    Ensures (Ready (σ := σ) (M := M) realpath requested) (fun _ => Ready realpath r.device)
      (record [.request r]) := by
  refine ensures_ready fun a c hsettled _ v hv => ?_
  have hpermits : a.Permits realpath (.request r) := hsettled.rescanning
  exact ⟨a.after (.request r), c, ⟨hsettled.rescanning, hsettled.opened, hsettled.listed⟩, rfl,
    tracks_event hpermits v hv⟩

/-- A request is served as is permitted. -/
theorem serve_ready (requested : Option (List UInt8)) (r : Request) :
    Ensures (Ready realpath requested) (fun _ => Ready realpath r.device) (Cache.serve lib realpath r) := by
  refine (request_ready requested r).bind fun _ => ?_
  cases r with
  | getMonitors => exact onScan_ready (scan_ready lib _)
  | rescanMonitors => exact onScan_ready (rescan_ready lib _)
  | openMonitor device => exact onMonitor_ready lib device fun i mon v hv => reply_ready _ v hv.ready
  | getEdid device => exact onMonitor_ready lib device fun i mon v hv => reply_ready _ v hv.ready
  | getControl device control => exact onMonitor_ready lib device (serveGetControl_ready lib control)
  | setControl device control value => exact onMonitor_ready lib device (serveSetControl_ready lib device control value)

theorem serveAll_ready (rs : List Request) (requested : Option (List UInt8)) :
    Ensures (Ready realpath requested) (fun _ v => ∃ requested, Ready realpath requested v)
      (Cache.serveAll lib realpath rs) := by
  induction rs generalizing requested with
  | nil => exact .pure fun _ h => ⟨requested, h⟩
  | cons r rs ih => exact (serve_ready lib requested r).bind fun _ => ih r.device

/-- The daemon when it starts, over a cache. -/
def Cache.start (library : σ) : State σ M (Cache M) := ⟨none, library, []⟩

theorem start_inStep (library : σ) : InStep (start library : State σ M (Service M))
    (Cache.start library) := ⟨rfl, rfl, rfl⟩

theorem start_ready (library : σ) : Ready realpath none (Cache.start library : State σ M (Cache M)) :=
  ⟨.start, none, ⟨rfl, fun o => by simp [IsOpen, AllowList.start], by simp⟩, rfl,
    rfl, trivial, rfl⟩

/-- **The daemon opens and uses allowed devices only**: whatever is requested, and whatever
the library and the allocator do, no array is used where it is missing or was not written,
the arrays are all missing or all cover the count, and each thing done is permitted: what is
read, written or closed is the monitor that was opened under the permitted name. -/
theorem serveAll_obeys (lib : Ddcci σ M) (realpath : List UInt8 → Option (List UInt8)) (library : σ) (rs : List Request) :
    ∃ d, serveAll lib realpath rs (start library) = some ((), d) ∧ d.service.Consistent ∧
      AllowList.start.Obeys realpath d.log ∧ (AllowList.start.afterAll d.log).rescanning = false := by
  obtain ⟨d, hrun, hstep⟩ := serveAll_refines lib realpath rs _ _ (start_inStep library)
  have hstart : Ready realpath none (Cache.start library : State σ M (Cache M)) := start_ready library
  obtain ⟨_, a, c, hsettled, -, htracks⟩ := serveAll_ready lib rs none _ hstart
  refine ⟨d, hrun, hstep.represents.consistent, ?_, ?_⟩
  · rw [hstep.log]
    exact htracks.log.1
  · rw [hstep.log, htracks.log.2]
    exact hsettled.rescanning

end Runs

end DdcControl.Daemon
