import DdcControl.Command.IssueUrl
import DdcControl.Daemon.Closing
import DdcControl.Daemon.Controls
import DdcControl.Identification.Bridge

/-!
# Monitors behind the daemon

A program that uses the daemon has no device of its own. `ddcci_dbus_open` asks the daemon to
open the monitor and for its EDID, in two calls between which the daemon may serve others,
and makes a `struct monitor` of the answers: it parses the capabilities and the EDID again
and chooses a profile from its own copy of the database.

## The model

A client is a program over the state of the daemon; a call is a request that is served, and
the last answer. It has a database and translations of its own, from its `-b` and its locale.
Texts have no NUL. What is printed is left out, and memory does not run out.

## What is proved

* `openMonitor_mirrors` — the monitor that a client opens is the daemon's, if the profiles
  load for it as they do for the daemon, unless the devices are scanned meanwhile.
* `rescanMonitors_probed` — the monitors that a client lists are those of the daemon's probe.
-/

namespace DdcControl.Client

open Capabilities Daemon Identification Lockstep Opening

/-! ### What a client makes of the answers -/

/-- `looks_like_pnpid`. -/
def looksLikePnpid (value : List UInt8) : Bool := value.length = 7 && value.all Command.isalnum

/-- `looks_like_caps`. -/
def looksLikeCaps (value : List UInt8) : Bool := value.head? = some '('.toUInt8

/-- `CStr::to_string_lossy`. -/
def toStringLossy (bytes : List UInt8) : String := (String.fromUTF8? ⟨(Utf8.lossy bytes).toArray⟩).getD ""

/-- `struct monitor`, of a monitor of the daemon. -/
structure RemoteMonitor where
  pnpid : List UInt8
  digital : UInt8
  edid : List UInt8
  rawCaps : List UInt8
  selected : Monitor

section Chain

variable (translate : String → List UInt8) (context : Database.DbContext)

/-- `mon->db = ddcci_create_db(name, &mon->caps, 1); mon->fallback = fallback`. -/
def loadNamed (stage : Stage) (name : List UInt8) (fallback : ℤ) (mon : Monitor) : Monitor :=
  mon.load translate context stage (toStringLossy name) fallback

/-- The name of the manufacturer's generic profile, in `buffer`. -/
def manufacturerBuffer (pnpid : List UInt8) : MonitorType → Option (List UInt8)
  | .lcd => some (pnpid.take 3 ++ utf8 "lcd")
  | .crt => some (pnpid.take 3 ++ utf8 "crt")
  | .unknown => none

/-- The chain of `ddcci_dbus_open`, from `DUPLICATED CODE START` on. -/
def selectRemote (pnpid : List UInt8) (caps : Caps) : Monitor :=
  let mon := loadNamed translate context .own pnpid 0 (.start caps)
  if mon.db.isNone then
    let mon :=
      match manufacturerBuffer pnpid mon.caps.monitorType with
      | none => mon
      | some buffer => loadNamed translate context .manufacturer buffer 1 mon
    if mon.db.isNone then loadNamed translate context .vesa (utf8 "VESA") 2 mon else mon
  else mon

/-- `ddcci_parse_edid_buf`, of the bytes of an answer, and what it keeps of them. -/
def RemoteMonitor.parseEdidBuf (mon : RemoteMonitor) (bytes : List UInt8) : RemoteMonitor :=
  match parseEdid bytes with
  | none => { mon with digital := 0, edid := [] }
  | some edid => { mon with pnpid := utf8 edid.pnpId, digital := edid.digital, edid := edid.raw }

/-- `ddcci_dbus_open`, of the two answers, the second of which may be an error. -/
def ddcciDbusOpen (pnpid rawCaps : List UInt8) (edid : Option (List UInt8)) : RemoteMonitor :=
  let (pnpid, rawCaps) :=
    if !looksLikePnpid pnpid && looksLikeCaps pnpid && looksLikePnpid rawCaps then (rawCaps, pnpid) else (pnpid, rawCaps)
  let mon : RemoteMonitor := ⟨pnpid.take 7, 0, [], rawCaps, .start .default⟩
  let mon :=
    match edid with
    | none => mon
    | some bytes => mon.parseEdidBuf bytes
  let caps := (ddcciParseCaps mon.rawCaps .default).getD .default
  { mon with selected := selectRemote translate context mon.pnpid caps }

end Chain

/-- `struct monitorlist`, of the answer to `RescanMonitors`: the loop of
`ddcci_dbus_rescan_monitors`, which stops at the end of the names or of the flags. -/
def ddcciDbusRescanMonitors : List (List UInt8) → List Bool → List (List UInt8) → List UInt8 → Option (List Detected)
  | filename :: devices, supported :: flags, name :: names, digital :: inputs => do
    let monlist ← ddcciDbusRescanMonitors devices flags names inputs
    return ⟨filename, supported, name, digital⟩ :: monlist
  | _ :: _, _ :: _, _, _ => none -- an element outside the other arrays is read
  | _, _, _, _ => some []

/-! ### Calls -/

section Calls

variable {σ M : Type} (lib : Ddcci σ M) (realpath : List UInt8 → Option (List UInt8))

/-- The answer that an event is. -/
def answerOf : Event M → Option Reply
  | .replied reply => some reply
  | _ => none

/-- The last answer that was given. -/
def lastAnswer (log : List (Event M)) : Option Reply := (log.filterMap answerOf).getLast?

/-- A call: the request is served, and the answer received. -/
def ask (r : Request) : Handler σ M (Option Reply) := do
  serve lib realpath r
  fun d => some (lastAnswer d.log, d)

/-- A call, after the requests of others. -/
def askAfter (others : List Request) (r : Request) : Handler σ M (Option Reply) := do
  serveAll lib realpath others
  ask lib realpath r

/-- A call, over a cache. -/
def askCache (r : Request) : Cache.Program σ M (Option Reply) := do
  Cache.serve lib realpath r
  modifyGet fun v => (lastAnswer v.log, v)

/-- A call after the requests of others, over a cache. -/
def askCacheAfter (others : List Request) (r : Request) : Cache.Program σ M (Option Reply) := do
  Cache.serveAll lib realpath others
  askCache lib realpath r

theorem lastAnswer_concat (log : List (Event M)) (reply : Reply) :
    lastAnswer (log ++ [.replied reply]) = some reply := by
  simp [lastAnswer, answerOf]

theorem askCacheAfter_ready (others : List Request) (r : Request) (requested : Option (List UInt8)) :
    Ensures (Ready realpath requested) (fun _ => Ready realpath r.device)
      (askCacheAfter lib realpath others r) := by
  refine (serveAll_ready lib others requested).bind fun _ => ?_
  refine Ensures.bind (.of_exists (fun v hv => hv) fun requested => serve_ready lib requested r) fun _ => ?_
  exact .step fun v hv => hv

theorem ask_refines (r : Request) : Refines InStep (fun _ => InStep) (ask lib realpath r)
    (askCache lib realpath r) := by
  refine (serve_refines lib realpath r).bind fun _ => ?_
  intro d v h
  refine ⟨d, ?_, h⟩
  show some (lastAnswer d.log, d) = some (lastAnswer v.log, d)
  rw [h.log]

theorem askAfter_refines (others : List Request) (r : Request) :
    Refines InStep (fun _ => InStep) (askAfter lib realpath others r)
      (askCacheAfter lib realpath others r) :=
  (serveAll_refines lib realpath others).bind fun _ => ask_refines lib realpath r

/-! ### What requests keep -/

/-- What is so of the cache and of what was done, and stays so: more may be done, a scan may
put devices that are not open in the place of the list, and a device may be opened. -/
structure Stable (J : Cache M → List (Event M) → Prop) : Prop where
  record : ∀ {c log} events, J c log → J c (log ++ events)
  rescanned : ∀ {c c' log} events, J c log → (∀ e ∈ c'.getD [], e.opened = none) → J c' (log ++ .rescan :: events)
  opened : ∀ {c log i e} s, J c log → (c.getD [])[i]? = some e → e.opened = none →
    J (some ((c.getD []).set i { e with opened := some (lib.openMonitor e.detected.filename s).1 })) log

/-- The cache and the record of a state are so. -/
def Holding (J : Cache M → List (Event M) → Prop) (v : State σ M (Cache M)) : Prop := J v.service v.log

variable {lib} {J : Cache M → List (Event M) → Prop} {α : Type}

theorem holding_call (f : σ → α × σ) : Ensures (Holding J) (fun _ => Holding J)
    (call f : Cache.Program σ M α) :=
  .step fun _ h => h

theorem Stable.holding_record (h : Stable lib J) (events : List (Event M)) :
    Ensures (Holding J) (fun _ => Holding J) (Daemon.record events : Cache.Program σ M Unit) :=
  .step fun _ hv => h.record events hv

theorem closeEntries_logs {P : List (Event M) → Prop}
    (hP : ∀ log events, P log → P (log ++ events)) {c : Cache M}
    (entries : List (Entry M)) (i : ℕ) :
    Ensures (Logs (σ := σ) P c) (fun _ => Logs P c) (Cache.closeEntries lib entries i) := by
  induction entries generalizing i with
  | nil => exact .pure fun _ h => h
  | cons e entries ih =>
    rw [Cache.closeEntries]
    cases e.opened with
    | none => exact ih (i + 1)
    | some opened =>
      exact (logs_call _).bind fun _ => (logs_record fun log => hP log _).bind fun _ => ih (i + 1)

/-- The record is an older one, and what was done since a scan was entered. -/
def Rescanned (before log : List (Event M)) : Prop := ∃ events, log = before ++ .rescan :: events

theorem Rescanned.append {before log : List (Event M)} (events : List (Event M))
    (h : Rescanned before log) :
    Rescanned before (log ++ events) := by
  obtain ⟨more, rfl⟩ := h
  exact ⟨more ++ events, by simp⟩

theorem rescanned_record (before events : List (Event M)) (c : Cache M) :
    Ensures (Logs (σ := σ) (Rescanned before) c) (fun _ => Logs (Rescanned before) c)
      (Daemon.record events) :=
  logs_record fun _ h => h.append events

theorem rescanned_enter (before : List (Event M)) (c : Cache M) :
    Ensures (Logs (σ := σ) (· = before) c) (fun _ => Logs (Rescanned before) c)
      (Daemon.record [.rescan]) :=
  logs_record fun _ h => ⟨[], by rw [h]⟩

theorem Stable.holding_rescan (h : Stable lib J) : Ensures (Holding J) (fun _ => Holding J)
    (Cache.rescan lib) := by
  intro v hv
  have hrun : Ensures (Logs (σ := σ) (· = v.log) v.service) (fun _ => Holding J) (Cache.rescan lib) := by
    unfold Cache.rescan
    refine (rescanned_enter v.log v.service).bind fun _ => logs_cached ?_
    refine (closeEntries_logs (fun _ events h => h.append events) _ _).bind fun _ =>
      (logs_call _).bind fun monlist => ?_
    refine (rescanned_record v.log _ v.service).bind fun _ => (logs_call _).bind fun allocated => ?_
    refine (logs_keep _).bind fun _ => .pure fun w hw => ?_
    obtain ⟨hcache, more, hlog⟩ := hw
    unfold Holding
    rw [hcache, hlog]
    refine h.rescanned more hv fun e he => ?_
    split at he
    · obtain ⟨detected, -, rfl⟩ := List.mem_map.mp he
      rfl
    · cases he
  exact hrun v ⟨rfl, rfl⟩

/-- The cache is this one, and so are it and the record. -/
def HoldingAt (J : Cache M → List (Event M) → Prop) (c : Cache M) (v : State σ M (Cache M)) : Prop := v.service = c ∧ J c v.log

theorem holding_cached {k : Cache M → Cache.Program σ M α} {Q : α → State σ M (Cache M) → Prop}
    (h : ∀ c, Ensures (HoldingAt J c) Q (k c)) : Ensures (Holding J) Q (Cache.cached >>= k) :=
  fun v hv => h v.service v ⟨rfl, hv⟩

theorem HoldingAt.holding {c : Cache M} {v : State σ M (Cache M)} (h : HoldingAt J c v) :
    Holding J v := by
  obtain ⟨rfl, h⟩ := h
  exact h

theorem Stable.holding_canOpen (h : Stable lib J) (device : List UInt8) :
    Ensures (Holding J) (fun _ => Holding J) (Cache.canOpen lib realpath device) := by
  unfold Cache.canOpen
  refine holding_cached fun c => .ite (fun _ => .pure fun v hv => hv.holding) fun _ => ?_
  refine Ensures.bind (Q := fun _ => Holding J) (fun v hv => h.holding_rescan v hv.holding) fun _ => ?_
  exact holding_cached fun c => .pure fun v hv => hv.holding

theorem Stable.holding_openDevice (h : Stable lib J) (device : List UInt8) :
    Ensures (Holding J) (fun _ => Holding J) (Cache.openDevice lib realpath device) := by
  unfold Cache.openDevice
  refine holding_cached fun c => ?_
  unfold Cache.openListed
  cases Cache.search realpath device (c.getD []) with
  | none => exact .pure fun v hv => hv.holding
  | some i =>
    cases hi : (c.getD [])[i]? with
    | none =>
      simp only [hi]
      exact .pure fun v hv => hv.holding
    | some e =>
      simp only [hi]
      unfold Cache.openEntry
      cases he : e.opened with
      | some opened => exact .pure fun v hv => hv.holding
      | none =>
        rintro v ⟨rfl, hv⟩
        exact h.opened v.library (h.record _ hv) hi he

theorem Stable.holding_admission (h : Stable lib J) (device : List UInt8) :
    Ensures (Holding J) (fun _ => Holding J)
      (admission (Cache.canOpen lib realpath device) (Cache.openDevice lib realpath device)) := by
  refine (h.holding_canOpen realpath device).bind fun _ =>
    .ite (fun _ => .pure fun _ hv => hv) fun _ => ?_
  refine (h.holding_openDevice realpath device).bind fun opened => ?_
  obtain ⟨_ | _, ret⟩ := opened
  · exact .pure fun _ hv => hv
  · exact .pure fun _ hv => hv

theorem Stable.holding_onMonitor (h : Stable lib J) (device : List UInt8)
    {f : ℕ → M → Cache.Program σ M Unit}
    (hf : ∀ i mon, Ensures (Holding J) (fun _ => Holding J) (f i mon)) :
    Ensures (Holding J) (fun _ => Holding J)
      (onMonitor (Cache.canOpen lib realpath device) (Cache.openDevice lib realpath device) f) := by
  refine (h.holding_admission realpath device).bind fun outcome => ?_
  cases outcome with
  | error e => exact h.holding_record _
  | ok opened => exact hf opened.1 opened.2

theorem Stable.holding_readRetry (h : Stable lib J) (i : ℕ) (mon : M) (ctrl : UInt8) (retry : ℕ) :
    Ensures (Holding J) (fun _ => Holding J)
      (readRetry lib i mon ctrl retry : Cache.Program σ M (Option Protocol.VcpReply)) := by
  induction retry with
  | zero => exact .pure fun _ hv => hv
  | succ retry ih =>
    refine Ensures.bind (Q := fun _ => Holding J) ?_ fun _ =>
      .ite (fun _ => .pure fun _ hv => hv) fun _ => ih
    exact (holding_call _).bind fun _ => (h.holding_record _).bind fun _ => .pure fun _ hv => hv

theorem Stable.holding_onScan (h : Stable lib J) {y : Cache.Program σ M Bool}
    (hy : Ensures (Holding J) (fun _ => Holding J) y) :
    Ensures (Holding J) (fun _ => Holding J) (onScan y Cache.complete) := by
  refine hy.bind fun _ => .ite (fun _ => h.holding_record _) fun _ => ?_
  exact holding_cached fun c v hv => h.holding_record _ v hv.holding

/-- **A request keeps what is stable.** -/
theorem Stable.holding_serve (h : Stable lib J) (r : Request) :
    Ensures (Holding J) (fun _ => Holding J) (Cache.serve lib realpath r) := by
  refine (h.holding_record _).bind fun _ => ?_
  cases r with
  | getMonitors =>
    refine h.holding_onScan (holding_cached fun c => .ite (fun _ v hv => h.holding_rescan v hv.holding) fun _ => ?_)
    exact .pure fun v hv => hv.holding
  | rescanMonitors => exact h.holding_onScan h.holding_rescan
  | openMonitor device => exact h.holding_onMonitor realpath device fun i mon => h.holding_record _
  | getEdid device => exact h.holding_onMonitor realpath device fun i mon => h.holding_record _
  | getControl device control =>
    exact h.holding_onMonitor realpath device fun i mon =>
      (h.holding_readRetry i mon _ _).bind fun _ => h.holding_record _
  | setControl device control value =>
    refine h.holding_onMonitor realpath device fun i mon =>
      Ensures.bind (Q := fun _ => Holding J) ?_ fun _ =>
      (h.holding_record _).bind fun _ => h.holding_record _
    exact (holding_call _).bind fun _ => h.holding_record _

theorem Stable.holding_serveAll (h : Stable lib J) (rs : List Request) :
    Ensures (Holding J) (fun _ => Holding J) (Cache.serveAll lib realpath rs) := by
  induction rs with
  | nil => exact .pure fun _ hv => hv
  | cons r rs ih => exact (h.holding_serve realpath r).bind fun _ => ih

theorem Stable.holding_ask (h : Stable lib J) (r : Request) :
    Ensures (Holding J) (fun _ => Holding J) (askCache lib realpath r) :=
  (h.holding_serve realpath r).bind fun _ => .step fun _ hv => hv

theorem Stable.holding_askAfter (h : Stable lib J) (others : List Request) (r : Request) :
    Ensures (Holding J) (fun _ => Holding J) (askCacheAfter lib realpath others r) :=
  (h.holding_serveAll realpath others).bind fun _ => h.holding_ask realpath r

/-! ### The monitor of a device -/

/-- The device is found at this index of the list, and is open there as this monitor. -/
def IsOpened (device : List UInt8) (c : Cache M) (i : ℕ) (mon : M) : Prop :=
  ∃ e ret, Cache.search realpath device (c.getD []) = some i ∧ (c.getD [])[i]? = some e ∧ e.opened = some (mon, ret) ∧ 0 ≤ ret

/-- Opening a device leaves the names of the list. -/
theorem search_set (device : List UInt8) {entries : List (Entry M)} {i : ℕ} {e : Entry M}
    (hi : entries[i]? = some e) (opened : Option (M × ℤ)) :
    Cache.search realpath device (entries.set i { e with opened := opened }) =
      Cache.search realpath device entries := by
  have hnames (entries : List (Entry M)) : Cache.search realpath device entries =
      (entries.map Entry.detected).findIdx? fun detected =>
        sameDevice realpath detected.filename device := by
    rw [List.findIdx?_map]
    rfl
  rw [hnames, hnames, List.map_set]
  congr 1
  refine List.ext_getElem? fun j => ?_
  rw [List.getElem?_set]
  split
  · rename_i hij
    subst hij
    split
    · rw [List.getElem?_map, hi]
      rfl
    · rename_i hlt
      rw [List.getElem?_eq_none (Nat.not_lt.mp hlt)]
  · rfl

variable (lib) in
/-- The record only grows. -/
theorem stable_grows (base : List (Event M)) : Stable lib fun (_ : Cache M) log =>
    ∃ rest, log = base ++ rest where
  record := by
    rintro _ _ events ⟨rest, rfl⟩
    exact ⟨rest ++ events, List.append_assoc ..⟩
  rescanned := by
    rintro _ _ _ events ⟨rest, rfl⟩ _
    exact ⟨rest ++ .rescan :: events, List.append_assoc ..⟩
  opened _ h _ _ := h

variable (lib) in
/-- A monitor was opened by the library, under the name it is listed with. -/
theorem stable_opened : Stable lib fun (c : Cache M) _ =>
    ∀ e ∈ c.getD [], ∀ opened, e.opened = some opened →
    ∃ s, (lib.openMonitor e.detected.filename s).1 = opened where
  record _ h := h
  rescanned _ _ hclosed e he opened hopened := by
    rw [hclosed e he] at hopened
    cases hopened
  opened s h hi _ e' he' opened hopened := by
    rcases List.mem_or_eq_of_mem_set he' with hmem | rfl
    · exact h e' hmem opened hopened
    · cases hopened
      exact ⟨s, rfl⟩

variable (lib) in
/-- A monitor stays open until the devices are scanned. -/
theorem stable_isOpened (base : List (Event M)) (device : List UInt8) (i : ℕ) (mon : M) :
    Stable lib fun (c : Cache M) log => ∃ rest, log = base ++ rest ∧
      (Event.rescan ∈ rest ∨ IsOpened realpath device c i mon) where
  record := by
    rintro _ _ events ⟨rest, rfl, h⟩
    exact ⟨rest ++ events, List.append_assoc .., h.imp_left fun h => List.mem_append_left _ h⟩
  rescanned := by
    rintro _ _ _ events ⟨rest, rfl, -⟩ _
    exact ⟨rest ++ .rescan :: events, List.append_assoc ..,
      .inl (List.mem_append_right _ List.mem_cons_self)⟩
  opened := by
    rintro c _ j e s ⟨rest, rfl, h⟩ hj hclosed
    refine ⟨rest, rfl, h.imp_right ?_⟩
    rintro ⟨e', ret, hsearch, hi, hopened, hret⟩
    have hne : j ≠ i := by
      rintro rfl
      rw [hj] at hi
      cases hi
      rw [hclosed] at hopened
      cases hopened
    refine ⟨e', ret, ?_, ?_, hopened, hret⟩
    · rw [Option.getD_some, search_set realpath device hj, hsearch]
    · rw [Option.getD_some, List.getElem?_set_ne hne, hi]

/-- A device that was opened is open, if that went well. -/
theorem openDevice_isOpened (device : List UInt8) :
    Ensures (Holding fun _ _ => True)
      (fun opened v => ∀ i mon, opened.1 = some (i, mon) → 0 ≤ opened.2 →
      IsOpened realpath device v.service i mon)
        (Cache.openDevice (σ := σ) lib realpath device) := by
  unfold Cache.openDevice
  refine holding_cached fun c => ?_
  unfold Cache.openListed
  cases hsearch : Cache.search realpath device (c.getD []) with
  | none =>
    refine .pure fun v hv i mon hopened => ?_
    cases hopened
  | some i =>
    cases hi : (c.getD [])[i]? with
    | none =>
      simp only [hi]
      refine .pure fun v hv i mon hopened => ?_
      cases hopened
    | some e =>
      simp only [hi]
      unfold Cache.openEntry
      cases he : e.opened with
      | some opened =>
        refine .pure fun v hv j mon hopened hret => ?_
        cases hopened
        rw [hv.1]
        exact ⟨e, opened.2, hsearch, hi, he, hret⟩
      | none =>
        intro v hv j mon hopened hret
        cases hopened
        have hlt := (List.getElem?_eq_some_iff.mp hi).1
        refine ⟨_, _, ?_, List.getElem?_set_self hlt, rfl, hret⟩
        exact (search_set realpath device hi _).trans hsearch

/-- What is admitted is open. -/
theorem admission_isOpened (device : List UInt8) :
    Ensures (Holding fun _ _ => True)
      (fun outcome v => ∀ i mon, outcome = .ok (i, mon) → IsOpened realpath device v.service i mon)
      (admission (Cache.canOpen (σ := σ) lib realpath device) (Cache.openDevice lib realpath device)) := by
  refine Ensures.bind (Q := fun _ => Holding fun _ _ => True) (fun _ _ => trivial) fun _ =>
    .ite (fun _ => ?_) fun _ => ?_
  · refine .pure fun v hv i mon houtcome => ?_
    cases houtcome
  · refine (openDevice_isOpened realpath device).bind fun opened => ?_
    obtain ⟨_ | ⟨i, mon⟩, ret⟩ := opened
    · refine .pure fun v hv i mon houtcome => ?_
      cases houtcome
    · refine .pure fun v hv j mon' houtcome => ?_
      by_cases hret : ret < 0
      · rw [if_pos hret] at houtcome
        cases houtcome
      · rw [if_neg hret] at houtcome
        cases houtcome
        exact hv i mon rfl (not_lt.mp hret)

/-- **The answer to a client that opens a device is what the daemon has of its monitor.** -/
theorem askCache_openMonitor (device : List UInt8) :
    Ensures (Holding fun _ _ => True)
      (fun answer v => ∀ pnpid rawCaps, answer = some (.monitor pnpid rawCaps) → ∃ i mon,
        IsOpened realpath device v.service i mon ∧ pnpid = lib.pnpid mon ∧
        rawCaps = (lib.rawCaps mon).getD [])
      (askCache (σ := σ) lib realpath (.openMonitor device)) := by
  refine Ensures.bind (Q := fun _ v => ∀ pnpid rawCaps, lastAnswer v.log = some (.monitor pnpid rawCaps) → ∃ i mon,
    IsOpened realpath device v.service i mon ∧ pnpid = lib.pnpid mon ∧
    rawCaps = (lib.rawCaps mon).getD []) ?_
    fun _ => .step fun v hv => hv
  refine Ensures.bind (Q := fun _ => Holding fun _ _ => True) (fun _ _ => trivial) fun _ => ?_
  refine (admission_isOpened realpath device).bind fun outcome => ?_
  cases outcome with
  | error e =>
    refine .step fun v hv pnpid rawCaps hanswer => ?_
    rw [lastAnswer_concat] at hanswer
    cases hanswer
  | ok opened =>
    refine .step fun v hv pnpid rawCaps hanswer => ?_
    rw [lastAnswer_concat] at hanswer
    cases hanswer
    exact ⟨opened.1, opened.2, hv _ _ rfl, rfl, rfl⟩

/-- An open device is admitted as it is. -/
theorem admission_of_isOpened {device : List UInt8} {c : Cache M} {i : ℕ} {mon : M}
    (h : IsOpened realpath device c i mon) :
    Ensures (Logs (σ := σ) (fun _ => True) c)
      (fun outcome v => outcome = .ok (i, mon) ∧ Logs (fun _ => True) c v)
      (admission (Cache.canOpen lib realpath device) (Cache.openDevice lib realpath device)) := by
  obtain ⟨e, ret, hsearch, hi, he, hret⟩ := h
  have hcan : Ensures (Logs (σ := σ) (fun _ => True) c) (fun can v => can = true ∧ Logs (fun _ => True) c v)
      (Cache.canOpen lib realpath device) := by
    unfold Cache.canOpen
    refine logs_cached ?_
    rw [hsearch]
    exact .pure fun v hv => ⟨rfl, hv⟩
  have hopen : Ensures (Logs (σ := σ) (fun _ => True) c)
    (fun opened v => opened = (some (i, mon), ret) ∧ Logs (fun _ => True) c v)
      (Cache.openDevice lib realpath device) := by
    unfold Cache.openDevice
    refine logs_cached ?_
    unfold Cache.openListed Cache.openEntry
    rw [hsearch]
    simp only [hi, he]
    exact .pure fun v hv => ⟨rfl, hv⟩
  refine hcan.bind fun can => .ite (fun hnot => ?_) fun _ => ?_
  · rintro v ⟨rfl, -⟩
    cases hnot
  · refine Ensures.bind (Q := fun opened v => opened = (some (i, mon), ret) ∧ Logs (fun _ => True) c v)
      (fun v hv => hopen v hv.2) fun opened => ?_
    rintro v ⟨rfl, hv⟩
    exact ⟨if_neg (not_lt.mpr hret), hv⟩

variable (lib) in
/-- The answer to a client that asks for the EDID of an open device is its monitor's. -/
theorem askCache_getEdid {device : List UInt8} {c : Cache M} {i : ℕ} {mon : M}
    (h : IsOpened realpath device c i mon) :
    Ensures (Logs (σ := σ) (fun _ => True) c)
      (fun answer v => answer = some (.edid (lib.edid mon)) ∧ Logs (fun _ => True) c v)
      (askCache lib realpath (.getEdid device)) := by
  refine Ensures.bind (Q := fun _ v => lastAnswer v.log = some (.edid (lib.edid mon)) ∧ Logs (fun _ => True) c v) ?_
    fun _ => .step fun v hv => hv
  have hrequest : Ensures (Logs (σ := σ) (fun _ => True) c) (fun _ => Logs (fun _ => True) c)
      (Daemon.record [.request (.getEdid device)]) := logs_record fun _ _ => trivial
  refine hrequest.bind fun _ => (admission_of_isOpened realpath h).bind fun outcome => ?_
  rintro v ⟨rfl, hv⟩
  exact ⟨lastAnswer_concat _ _, hv.cache, trivial⟩

/-! ### The list of a probe -/

/-- What the last probe found. -/
def lastProbed (log : List (Event M)) : Option (List Detected) :=
  (log.filterMap fun e => match e with | .probed monlist => some monlist | _ => none).getLast?

theorem lastProbed_append {log events : List (Event M)}
    (h : ∀ e ∈ events, ∀ monlist, e ≠ .probed monlist) :
    lastProbed (log ++ events) = lastProbed log := by
  have hnone : (events.filterMap fun e => match e with | .probed monlist => some monlist | _ => none) = [] := by
    rw [List.filterMap_eq_nil_iff]
    intro e he
    split
    · exact absurd rfl (h _ he _)
    · rfl
  rw [lastProbed, List.filterMap_append, hnone, List.append_nil, lastProbed]

/-- A list is taken apart for an answer, and put together again. -/
theorem ddcciDbusRescanMonitors_listing (monlist : List Detected) :
    ddcciDbusRescanMonitors (monlist.map Detected.filename) (monlist.map Detected.supported)
      (monlist.map Detected.name)
      (monlist.map Detected.digital) = some monlist := by
  induction monlist with
  | nil => rfl
  | cons detected monlist ih =>
    simp only [List.map_cons, ddcciDbusRescanMonitors, ih]
    rfl

/-- A scan that succeeds leaves a list of what the probe found. -/
theorem rescan_lists :
    Ensures (Holding fun _ _ => True)
      (fun ok v => ok = true → ∃ monlist, lastProbed v.log = some monlist ∧
      v.service = some (monlist.map (⟨·, none⟩))) (Cache.rescan (σ := σ) lib) := by
  unfold Cache.rescan
  refine Ensures.bind (Q := fun _ => Holding fun _ _ => True) (fun _ _ => trivial) fun _ => ?_
  refine Ensures.bind (Q := fun _ => Holding fun _ _ => True) (fun _ _ => trivial) fun c => ?_
  refine Ensures.bind (Q := fun _ => Holding fun _ _ => True) (fun _ _ => trivial) fun _ => ?_
  refine (holding_call lib.probe).bind fun monlist v _ hok => ?_
  refine ⟨monlist, ?_, if_pos hok⟩
  show lastProbed (v.log ++ [.probed monlist]) = some monlist
  simp [lastProbed]

/-- A client is told that the scan failed, or gets the answer from which the list is put
together. -/
def Listed (answer : Option Reply) (log : List (Event M)) : Prop :=
  answer = some (.error .scanFailed) ∨ ∃ devices supported names digital monlist,
    answer = some (.monitors devices supported names digital) ∧ lastProbed log = some monlist ∧
      ddcciDbusRescanMonitors devices supported names digital = some monlist

/-- **The monitors that a client lists are those of the daemon's probe.** -/
theorem askCache_rescanMonitors :
    Ensures (Holding fun _ _ => True) (fun answer v => Listed answer v.log)
      (askCache (σ := σ) lib realpath .rescanMonitors) := by
  refine Ensures.bind (Q := fun _ v => Listed (lastAnswer v.log) v.log) ?_ fun _ =>
    .step fun v hv => hv
  refine Ensures.bind (Q := fun _ => Holding fun _ _ => True) (fun _ _ => trivial) fun _ => ?_
  refine rescan_lists.bind fun ok => .ite (fun _ => .step fun v _ => ?_) fun hok v hlists => ?_
  · exact .inl (lastAnswer_concat _ _)
  · obtain ⟨monlist, hprobed, hservice⟩ := hlists (by simpa using hok)
    show Listed (lastAnswer (v.log ++ [.replied (Cache.listing (v.service.getD []))]))
      (v.log ++ [.replied (Cache.listing (v.service.getD []))])
    refine .inr ⟨_, _, _, _, monlist, lastAnswer_concat _ _, ?_, ?_⟩
    · rw [lastProbed_append, hprobed]
      intro e he
      rw [List.mem_singleton.mp he]
      intro monlist h
      cases h
    · rw [hservice]
      simp only [Option.getD_some, List.map_map]
      exact ddcciDbusRescanMonitors_listing monlist

variable (lib) in
/-- The two calls of a client, with what others ask between them. -/
theorem session_opened (library : σ) (before between : List Request) (device : List UInt8)
    {opened edid : Option Reply} {v v' : State σ M (Cache M)}
    (hopen : (askCacheAfter lib realpath before (.openMonitor device)).run (Cache.start library) = (opened, v))
    (hedid : (askCacheAfter lib realpath between (.getEdid device)).run v = (edid, v'))
    {pnpid rawCaps : List UInt8} (hopened : opened = some (.monitor pnpid rawCaps))
    (hscan : Event.rescan ∉ v'.log.drop v.log.length) :
    ∃ i mon, IsOpened realpath device v'.service i mon ∧ pnpid = lib.pnpid mon ∧
      rawCaps = (lib.rawCaps mon).getD [] ∧
      edid = some (.edid (lib.edid mon)) ∧ ∃ name s ret, (lib.openMonitor name s).1 = (mon, ret) ∧ 0 ≤ ret := by
  have hfirst : Ensures (Holding fun _ _ => True)
      (fun answer v => ∀ pnpid rawCaps, answer = some (.monitor pnpid rawCaps) → ∃ i mon,
        IsOpened realpath device v.service i mon ∧ pnpid = lib.pnpid mon ∧
        rawCaps = (lib.rawCaps mon).getD [])
      (askCacheAfter (σ := σ) lib realpath before (.openMonitor device)) :=
    Ensures.bind (Q := fun _ => Holding fun _ _ => True) (fun _ _ => trivial) fun _ =>
      askCache_openMonitor realpath device
  have hanswer := hfirst (Cache.start library) trivial
  rw [hopen] at hanswer
  obtain ⟨i, mon, hisOpened, hpnpid, hrawCaps⟩ := hanswer pnpid rawCaps hopened
  rcases hbetween : (Cache.serveAll lib realpath between).run v with ⟨_, w⟩
  have hask : (askCache lib realpath (.getEdid device)).run w = (edid, v') := by
    rw [← hedid, askCacheAfter, StateT.run_bind, hbetween]
    rfl
  -- the record of the second call follows what was asked before it
  have hgrows := (stable_grows lib w.log).holding_ask realpath (.getEdid device) w ⟨[], (List.append_nil _).symm⟩
  have hstays := (stable_isOpened lib realpath v.log device i mon).holding_serveAll realpath between v
    ⟨[], (List.append_nil _).symm, .inr hisOpened⟩
  rw [hask] at hgrows
  rw [hbetween] at hstays
  obtain ⟨rest, hrest⟩ := hgrows
  obtain ⟨asked, hasked, hmem | hstill⟩ := hstays
  · refine absurd ?_ hscan
    show Event.rescan ∈ v'.log.drop v.log.length
    rw [show v'.log = w.log ++ rest from hrest, show w.log = v.log ++ asked from hasked,
      List.append_assoc, List.drop_left]
    exact List.mem_append_left _ hmem
  · have hlast := askCache_getEdid lib realpath hstill w ⟨rfl, trivial⟩
    rw [hask] at hlast
    obtain ⟨hanswer, hcache⟩ := hlast
    have hcame := (stable_opened lib).holding_askAfter realpath before (.openMonitor device) (Cache.start library)
      (fun e he => by cases he)
    rw [hopen] at hcame
    have hcame' := (stable_opened lib).holding_askAfter realpath between (.getEdid device) v hcame
    rw [hedid] at hcame'
    have hisOpened' : IsOpened realpath device v'.service i mon := hcache.cache ▸ hstill
    obtain ⟨e, ret, hsearch, hi, he, hret⟩ := hisOpened'
    obtain ⟨s, hs⟩ := hcame' e (List.mem_of_getElem? hi) _ he
    exact ⟨i, mon, ⟨e, ret, hsearch, hi, he, hret⟩, hpnpid, hrawCaps, hanswer, _, s, ret, hs, hret⟩

end Calls

/-! ### The same monitor -/

section Mirrored

variable {σ : Type} (sys : System σ) (translate translate' : String → List UInt8)
  (context context' : Database.DbContext)

/-- Every profile loads for a client, with `translate'` and `context'`, as it does for the
daemon, as where the two read one database in one locale. -/
def LoadsAlike : Prop :=
  ∀ name caps, Database.createDb translate' (some context') name caps true =
    Database.createDb translate (some context) name caps true

/-- A client's monitor is the daemon's: it is named alike, has the same EDID and
capabilities, and the same profile was chosen for it. -/
structure RemoteMonitor.Mirrors (remote : RemoteMonitor) (mon : DeviceMonitor) : Prop where
  pnpid : remote.pnpid = utf8 mon.pnpid
  digital : remote.digital = mon.digital
  edid : remote.edid = mon.edid
  rawCaps : remote.rawCaps = (mon.rawCaps.map cString).getD []
  selected : remote.selected = mon.selected

theorem toStringLossy_ascii {bytes : List UInt8} (h : ∀ byte ∈ bytes, byte < 0x80) :
    toStringLossy bytes = asciiText bytes := by
  have hlossy : Utf8.lossy bytes = bytes := by
    have happend := Utf8.lossy_ascii_append h []
    rwa [List.append_nil, show Utf8.lossy [] = [] from rfl, List.append_nil] at happend
  have hread := Cbor.fromUTF8?_textBytes (asciiText bytes)
  rw [show Cbor.textBytes (asciiText bytes) = utf8 (asciiText bytes) from rfl,
    utf8_asciiText h] at hread
  rw [toStringLossy, hlossy, hread]
  rfl

variable {translate translate' context context'}

theorem loadNamed_alike (h : LoadsAlike translate translate' context context') :
    loadNamed translate' context' = loadNamed translate context := by
  funext stage name fallback mon
  rw [loadNamed, loadNamed, Monitor.load, Monitor.load, h]

theorem selectRemote_alike (h : LoadsAlike translate translate' context context') :
    selectRemote translate' context' = selectRemote translate context := by
  funext pnpid caps
  rw [selectRemote, selectRemote, loadNamed_alike h]

/-- With an identifier in ASCII, the chain on bytes is the chain on texts. -/
theorem selectRemote_ascii {bytes : List UInt8} (h : ∀ byte ∈ bytes, byte < 0x80) (caps : Caps) :
    selectRemote translate context bytes caps = dbusOpen translate context (asciiText bytes) caps := by
  have hvesa : toStringLossy (utf8 "VESA") = "VESA" := by decide +kernel
  have hgeneric : ∀ suffix : String, (∀ byte ∈ utf8 suffix, byte < 0x80) → suffix = asciiText (utf8 suffix) →
      toStringLossy (bytes.take 3 ++ utf8 suffix) = .ofList ((asciiText bytes).toList.take 3) ++ suffix := by
    intro suffix hascii htext
    rw [toStringLossy_ascii]
    · conv_rhs => rw [htext]
      simp only [asciiText, List.map_append, String.toList_ofList, List.map_take,
        String.ofList_append]
    · intro byte hmem
      rcases List.mem_append.mp hmem with hmem | hmem
      · exact h byte (List.mem_of_mem_take hmem)
      · exact hascii byte hmem
  have hlcd := hgeneric "lcd" (by decide +kernel) (by decide +kernel)
  have hcrt := hgeneric "crt" (by decide +kernel) (by decide +kernel)
  unfold selectRemote dbusOpen dbusGeneric Monitor.loadManufacturer loadNamed
  rw [toStringLossy_ascii h, hvesa]
  dsimp only
  cases ((Monitor.start caps).load translate context .own (asciiText bytes) 0).caps.monitorType with
  | unknown => rfl
  | lcd =>
    simp only [manufacturerBuffer, manufacturerProfile, hlcd]
    rfl
  | crt =>
    simp only [manufacturerBuffer, manufacturerProfile, hcrt]
    rfl

/-- An EDID that was read is that of some block. -/
theorem ddcciReadEdid_parseEdid {bus : Protocol.Bus σ} {retry : ℕ} {s s' : σ} {edid : Edid}
    (h : ddcciReadEdid bus retry s = (some edid, s')) : ∃ input, parseEdid input = some edid := by
  induction retry generalizing s with
  | zero => cases h
  | succ retry ih =>
    rw [ddcciReadEdid] at h
    split at h
    · exact ih h
    · split at h
      · exact ih h
      · split at h
        · rename_i hparse
          cases h
          exact ⟨_, hparse⟩
        · exact ih h

/-- Capabilities that were received are those of the text that is kept. -/
theorem ddcciCaps_parse {bus : Protocol.Bus σ} {s s' : σ} {text : List UInt8} {caps : Caps}
    (h : ddcciCaps bus s = (some (text, caps), s')) :
    ddcciParseCaps (cString text) .default = some caps := by
  unfold ddcciCaps at h
  split at h
  · cases h
  · split at h
    · cases h
    · obtain ⟨_, hparse, heq⟩ := Option.map_eq_some_iff.mp (Prod.mk.inj h).1
      cases heq
      exact hparse

/-- The table of a text, empty where the text is refused. -/
def capsOf (rawCaps : Option (List UInt8)) : Caps := (ddcciParseCaps ((rawCaps.map cString).getD []) .default).getD .default

theorem capsOf_none : capsOf none = .default := by
  have hparse : Capabilities.parse (Utf8.lossy []) = .ok ⟨none, []⟩ := by decide +kernel
  have happly : Caps.default.apply (Utf8.lossy []) .add = .ok (.default, 0) := by
    rw [Caps.apply, hparse]
    rfl
  show (ddcciParseCaps [] .default).getD .default = .default
  rw [ddcciParseCaps, happly]
  rfl

theorem capsOf_received {bus : Protocol.Bus σ} {s s' : σ} {received : Option (List UInt8 × Caps)}
    (h : ddcciCaps bus s = (received, s')) :
    (received.map Prod.snd).getD .default = capsOf (received.map Prod.fst) := by
  cases received with
  | none => exact capsOf_none.symm
  | some received =>
    show received.2 = (ddcciParseCaps (cString received.1) .default).getD .default
    rw [ddcciCaps_parse h]
    rfl

/-- What a monitor that was opened consists of. -/
theorem ddcciOpen_consists {filename : List UInt8} {d d' : Descriptors σ}
    {mon : DeviceMonitor} {ret : ℤ}
    (h : ddcciOpen sys translate context filename d = ((mon, ret), d')) (hret : 0 ≤ ret) :
    (∃ input, parseEdid input = some ⟨mon.pnpid, mon.digital, mon.edid⟩) ∧
      selectWithAddr translate context mon.pnpid (capsOf mon.rawCaps) = .ok mon.selected := by
  unfold ddcciOpen at h
  split at h
  · cases h
    cases hret
  · split at h
    · cases h
      cases hret
    · split at h
      rename_i opened s hidentify
      cases h
      unfold ddcciIdentify at hidentify
      split at hidentify
      · cases hidentify
        cases hret
      · rename_i edid s hedid
        obtain ⟨input, hinput⟩ := ddcciReadEdid_parseEdid hedid
        rcases hcaps : ddcciCaps _ s with ⟨received, s'⟩
        rw [hcaps] at hidentify
        dsimp only at hidentify
        rw [capsOf_received hcaps] at hidentify
        split at hidentify
        · cases hidentify
          cases hret
        · rename_i selected hselect
          split at hidentify
          · cases hidentify
            exact ⟨⟨input, hinput⟩, hselect⟩
          · cases hidentify
            cases hret

/-- What the library keeps of a block is read as the block was. -/
theorem parseEdid_raw {input : List UInt8} {edid : Edid} (h : parseEdid input = some edid) :
    parseEdid edid.raw = some edid ∧ edid.pnpId = pnpIdOf input := by
  rw [parse_parseEdid, Option.map_eq_some_iff] at h
  obtain ⟨block, hblock, rfl⟩ := h
  rw [Fallible.toOption_eq_some] at hblock
  refine ⟨?_, ?_⟩
  · rw [parse_parseEdid]
    show (Identification.parse block.raw).toOption.map _ = _
    rw [(parse_raw hblock).2]
    rfl
  · obtain ⟨-, -, rfl⟩ := parse_eq_ok.mp hblock
    rfl

/-- The chain of a device that was opened is the daemon's. -/
theorem selectWithAddr_eq_ok {pnpid : String} {caps : Caps} {mon : Monitor}
    (h : selectWithAddr translate context pnpid caps = .ok mon) :
    mon = dbusOpen translate context pnpid caps := by
  by_cases hprohibited : Prohibited translate context pnpid caps
  · obtain ⟨mon', herror, -⟩ := selectWithAddr_of_prohibited hprohibited
    rw [h] at herror
    cases herror
  · rw [selectWithAddr_of_not_prohibited hprohibited] at h
    exact (Except.ok.inj h).symm

/-- **A client that gets the answers of a monitor has that monitor.** -/
theorem ddcciDbusOpen_mirrors (halike : LoadsAlike translate translate' context context') {filename : List UInt8}
    {d d' : Descriptors σ} {mon : DeviceMonitor} {ret : ℤ}
    (h : ddcciOpen sys translate context filename d = ((mon, ret), d')) (hret : 0 ≤ ret) :
    (ddcciDbusOpen translate' context' (utf8 mon.pnpid) ((mon.rawCaps.map cString).getD [])
      (some mon.edid)).Mirrors mon := by
  obtain ⟨⟨input, hinput⟩, hselect⟩ := ddcciOpen_consists sys h hret
  obtain ⟨hraw, hid⟩ := parseEdid_raw hinput
  obtain ⟨bytes, htext, hlength, hbytes, hhead⟩ := pnpIdOf_ascii input
  have hascii : ∀ byte ∈ bytes, byte < 0x80 := fun byte hmem => (hbytes byte hmem).2
  have hpnpid : mon.pnpid = asciiText bytes := hid.trans htext
  have hutf8 : utf8 mon.pnpid = bytes := by rw [hpnpid, utf8_asciiText hascii]
  have hcaps : looksLikeCaps bytes = false := by
    refine decide_eq_false fun heq => ?_
    have hle : (0x40 : UInt8) ≤ '('.toUInt8 := hhead _ heq
    revert hle
    decide
  have hopened : ddcciDbusOpen translate' context' bytes ((mon.rawCaps.map cString).getD []) (some mon.edid) =
      ⟨bytes, mon.digital, mon.edid, (mon.rawCaps.map cString).getD [], mon.selected⟩ := by
    have hraw' : parseEdid mon.edid = some ⟨mon.pnpid, mon.digital, mon.edid⟩ := hraw
    unfold ddcciDbusOpen RemoteMonitor.parseEdidBuf
    rw [hcaps, Bool.and_false, Bool.false_and]
    simp only [Bool.false_eq_true, if_false, hraw', hutf8]
    rw [selectRemote_alike halike, selectRemote_ascii hascii, ← hpnpid, selectWithAddr_eq_ok hselect]
    rfl
  rw [hutf8, hopened]
  exact ⟨hutf8.symm, rfl, rfl, rfl, rfl⟩

/-! ### Sessions -/

variable (translate translate' context context')

/-- **The monitors that a client lists are those that the daemon found**, unless the scan
failed, whatever was asked before. -/
theorem rescanMonitors_probed (realpath : List UInt8 → Option (List UInt8)) (os : σ)
    (before : List Request) :
    ∃ answer d, (askAfter (deviceLibrary sys translate context) realpath before .rescanMonitors).run
      (start (.start os)) =
      some (answer, d) ∧ Listed answer d.log := by
  obtain ⟨d, hrun, hstep⟩ := askAfter_refines (deviceLibrary sys translate context) realpath before .rescanMonitors
    _ _ (start_inStep (.start os))
  refine ⟨_, d, hrun, ?_⟩
  rw [hstep.log]
  have hlisted : Ensures (Holding fun _ _ => True) (fun answer v => Listed answer v.log)
      (askCacheAfter (deviceLibrary sys translate context) realpath before .rescanMonitors) :=
    Ensures.bind (Q := fun _ => Holding fun _ _ => True) (fun _ _ => trivial) fun _ =>
      askCache_rescanMonitors realpath
  exact hlisted _ trivial

/-- **The monitor that a client opens is the daemon's**, where the profiles load for the two
alike. Whatever was asked before, and whatever others ask between the two calls of a client:
if the monitor is opened, and the devices are not scanned before the EDID is sent, then the
client has the monitor that is open in the daemon for its device. -/
theorem openMonitor_mirrors (halike : LoadsAlike translate translate' context context')
    (realpath : List UInt8 → Option (List UInt8)) (os : σ)
    (before between : List Request) (device : List UInt8) :
    ∃ opened edid d d',
      (askAfter (deviceLibrary sys translate context) realpath before (.openMonitor device)).run
        (start (.start os)) =
        some (opened, d) ∧
      (askAfter (deviceLibrary sys translate context) realpath between (.getEdid device)).run d =
        some (edid, d') ∧
      ∀ pnpid rawCaps, opened = some (.monitor pnpid rawCaps) → Event.rescan ∉ d'.log.drop d.log.length →
        ∃ i mon bytes, IsDevice realpath d' i mon device ∧ edid = some (.edid bytes) ∧
          (ddcciDbusOpen translate' context' pnpid rawCaps (some bytes)).Mirrors mon := by
  rcases hopen : (askCacheAfter (deviceLibrary sys translate context) realpath before (.openMonitor device)).run
    (Cache.start (.start os)) with ⟨opened, v⟩
  rcases hedid : (askCacheAfter (deviceLibrary sys translate context) realpath between
    (.getEdid device)).run v with ⟨edid, v'⟩
  obtain ⟨d, hrun, hstep⟩ := askAfter_refines (deviceLibrary sys translate context) realpath before
    (.openMonitor device)
    _ _ (start_inStep (.start os))
  rw [hopen] at hrun hstep
  obtain ⟨d', hrun', hstep'⟩ :=
    askAfter_refines (deviceLibrary sys translate context) realpath between (.getEdid device)
    _ _ hstep
  rw [hedid] at hrun' hstep'
  refine ⟨opened, edid, d, d', hrun, hrun', fun pnpid rawCaps hopened hscan => ?_⟩
  have hlog : d.log = v.log := hstep.log
  have hlog' : d'.log = v'.log := hstep'.log
  rw [hlog, hlog'] at hscan
  obtain ⟨i, mon, ⟨e, opened', hsearch, hi, he, _⟩, rfl, rfl, hanswer, name, s, ret, hs, hret⟩ :=
    session_opened (deviceLibrary sys translate context) realpath _ before between device hopen hedid hopened hscan
  have hstart : Ready realpath none (Cache.start (.start os) : State (Descriptors σ) DeviceMonitor _) := start_ready _
  have hready := askCacheAfter_ready (deviceLibrary sys translate context) realpath before (.openMonitor device)
    none _ hstart
  rw [hopen] at hready
  have hready' := askCacheAfter_ready (deviceLibrary sys translate context) realpath between (.getEdid device)
    _ _ hready
  rw [hedid] at hready'
  have hsame : SameDevice realpath e.detected.filename device := by
    obtain ⟨e', hi', hfound⟩ := Cache.search_eq_some realpath hsearch
    rw [hi] at hi'
    cases hi'
    exact sameDevice_sound realpath hfound
  exact ⟨i, mon, mon.edid, hready'.isDevice realpath hstep' hi he hsame, hanswer,
    ddcciDbusOpen_mirrors sys halike (Prod.ext hs rfl) hret⟩

end Mirrored

/-- Whether an event is a scan. -/
def isRescan {M : Type} : Event M → Bool
  | .rescan => true
  | _ => false

/-- The two calls of a client of the computer with the `SAM0001`, which reads a control
between them: whether the monitor is opened, and the devices not scanned. -/
def samsungSession : Option Bool :=
  ((askAfter (deviceLibrary (samsungSystem true) utf8 samsungContext) some [.getMonitors]
    (.openMonitor (utf8 "dev:/dev/i2c-0"))).run (start (.start ()))).bind fun r =>
      ((askAfter (deviceLibrary (samsungSystem true) utf8 samsungContext) some
        [.getControl (utf8 "dev:/dev/i2c-0") 0x10] (.getEdid (utf8 "dev:/dev/i2c-0"))).run r.2).map fun r' =>
          (match r.1 with | some (.monitor _ _) => true | _ => false) && !(r'.2.log.drop r.2.log.length).any isRescan

theorem samsungSession_opened : samsungSession = some true := by decide +kernel

/-- The client has the monitor that the daemon opened. -/
theorem samsung_mirrored :
    ∃ pnpid rawCaps bytes, ∃ mon : DeviceMonitor,
      (ddcciDbusOpen utf8 samsungContext pnpid rawCaps (some bytes)).Mirrors mon := by
  obtain ⟨opened, edid, d, d', hopen, hedid, hmirrors⟩ :=
    openMonitor_mirrors (samsungSystem true) utf8 utf8 samsungContext samsungContext (fun _ _ => rfl)
    some () [.getMonitors] [.getControl (utf8 "dev:/dev/i2c-0") 0x10] (utf8 "dev:/dev/i2c-0")
  have hsession := samsungSession_opened
  rw [samsungSession, hopen, Option.bind_some, hedid, Option.map_some, Option.some.injEq,
    Bool.and_eq_true] at hsession
  obtain ⟨hmonitor, hscan⟩ := hsession
  rcases opened with _ | (_ | _ | ⟨pnpid, rawCaps⟩ | _ | _ | _)
  case some.monitor =>
    have hscan' : Event.rescan ∉ d'.log.drop d.log.length := fun hmem => by
      simp only [Bool.not_eq_true', List.any_eq_false] at hscan
      exact hscan _ hmem rfl
    obtain ⟨_, mon, bytes, _, _, hmirrors⟩ := hmirrors pnpid rawCaps rfl hscan'
    exact ⟨pnpid, rawCaps, bytes, mon, hmirrors⟩
  all_goals cases hmonitor

end DdcControl.Client
