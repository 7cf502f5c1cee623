import DdcControl.Database.Isolation

/-!
# Opening a monitor

Both ways of opening a monitor load its own profile, then its manufacturer's generic
LCD or CRT profile, then VESA's: `ddcci_open_with_addr` on the device, and
`ddcci_dbus_open` through the daemon, whose chain is a copy of the other's. A profile
that was rejected for semantics this program does not know must not be replaced by a
generic one, and neither must one the user chose.

## The model

`Monitor` is the part of `struct monitor` the chain writes, with the thread's
requirements-failed flag. `selectWithAddr` is the chain of the device path: it fails
where the source returns −1. `openWithAddr` adds the writes to the hardware that
follow it. `dbusOpen` is the chain of the daemon path, after its calls succeeded; it
always returns 0.

## What is proved

`pathsAgree_iff` — the daemon path agrees with the device path exactly where the latter
prohibits nothing: it has none of its checks. `openWithAddr_noGenericFallback` — the
device path never goes past a rejected profile.
-/

namespace DdcControl.Opening

open Capabilities Database Fallible

/-- Which profile of the chain a tree was built from. -/
inductive Stage where
  | own
  | manufacturer
  | vesa
  deriving DecidableEq, Repr

/-- `struct monitor`: the tree and where it came from, `fallback`, the CAPS, and what
`ddcci_db_requirements_failed` returns. -/
structure Monitor where
  db : Option (Stage × MonitorDb)
  fallback : ℤ
  caps : Caps
  requirementsFailed : Bool

/-- `ddcci_monitor_file_matches`. -/
def monitorFileMatches (context : DbContext) (pnpid : String) : Bool :=
  context.monitorFile.any fun file => file.pnpid == pnpid

/-- The manufacturer's generic profile: its id, three letters, and the monitor's type. -/
def manufacturerProfile (pnpid : String) : MonitorType → Option String
  | .lcd => some (String.ofList (pnpid.toList.take 3) ++ "lcd")
  | .crt => some (String.ofList (pnpid.toList.take 3) ++ "crt")
  | .unknown => none

/-- `mon->fallback = -1`. -/
def Monitor.prohibit (mon : Monitor) : Monitor := { mon with fallback := -1 }

section Chain

variable (translate : String → List UInt8) (context : DbContext)

/-- `mon->db = ddcci_create_db(name, &mon->caps, 1); mon->fallback = fallback`. -/
def Monitor.load (stage : Stage) (name : String) (fallback : ℤ) (mon : Monitor) : Monitor :=
  let outcome := createDb translate (some context) name mon.caps true
  ⟨outcome.monitor.map (stage, ·), fallback, outcome.caps, outcome.requirementsFailed⟩

/-- The `switch` on the monitor's type. -/
def Monitor.loadManufacturer (pnpid : String) (mon : Monitor) : Monitor :=
  match manufacturerProfile pnpid mon.caps.monitorType with
  | none => mon
  | some name => mon.load translate context .manufacturer name 1

/-- A monitor whose EDID and CAPS were read. -/
def Monitor.start (caps : Caps) : Monitor := ⟨none, 0, caps, false⟩

/-- The generic part of the chain in `ddcci_open_with_addr`. -/
def selectGeneric (pnpid : String) (mon : Monitor) : Except Monitor Monitor := do
  let mon := mon.loadManufacturer translate context pnpid
  reject (mon.db.isNone && mon.requirementsFailed) mon.prohibit
  return if mon.db.isNone then mon.load translate context .vesa "VESA" 2 else mon

/-- The profile chain of `ddcci_open_with_addr`. -/
def selectWithAddr (pnpid : String) (caps : Caps) : Except Monitor Monitor := do
  let mon := (Monitor.start caps).load translate context .own pnpid 0
  reject (mon.db.isNone && monitorFileMatches context pnpid) mon.prohibit
  reject (mon.db.isNone && mon.requirementsFailed) mon.prohibit
  let mon ← if mon.db.isNone then selectGeneric translate context pnpid mon else .ok mon
  reject (mon.db.isNone && mon.requirementsFailed) mon.prohibit
  return mon

/-- The monitor's answers at the end of `ddcci_open_with_addr`. -/
structure Hardware where
  enable : Bool
  capsProveSupport : Bool
  presence : Bool

/-- `ddcci_open_with_addr`: the chain, then the command that enables or finds the monitor. -/
def openWithAddr (hardware : Hardware) (pnpid : String) (caps : Caps) : Except Monitor Monitor := do
  let mon ← selectWithAddr translate context pnpid caps
  if mon.db.any fun db => db.2.init = .samsung then
    reject (!hardware.enable) mon
  else
    reject (!hardware.capsProveSupport && !hardware.presence) mon
  return mon

/-- The generic part of the chain in `ddcci_dbus_open`. -/
def dbusGeneric (pnpid : String) (mon : Monitor) : Monitor :=
  let mon := mon.loadManufacturer translate context pnpid
  if mon.db.isNone then mon.load translate context .vesa "VESA" 2 else mon

/-- `ddcci_dbus_open`, from `DUPLICATED CODE START` on. -/
def dbusOpen (pnpid : String) (caps : Caps) : Monitor :=
  let mon := (Monitor.start caps).load translate context .own pnpid 0
  if mon.db.isNone then dbusGeneric translate context pnpid mon else mon

/-! ### What the chain must not do -/

/-- The profile does not load. -/
def Fails (name : String) (caps : Caps) : Prop := (createDb translate (some context) name caps true).monitor = none

/-- The profile does not load, and the requirements-failed flag is set. -/
def FailsRequirements (name : String) (caps : Caps) : Prop :=
  Fails translate context name caps ∧
    (createDb translate (some context) name caps true).requirementsFailed = true

/-- An open does not go past a rejected profile: not to a generic one when the
monitor's own is rejected or overridden, not to VESA when the manufacturer's is rejected. -/
structure NoGenericFallback (pnpid : String) (caps : Caps) (opened : Except Monitor Monitor) : Prop where
  own : FailsRequirements translate context pnpid caps ∨
      (Fails translate context pnpid caps ∧ monitorFileMatches context pnpid = true) →
    ∀ mon db, opened = .ok mon → mon.db = some db → db.1 = .own
  manufacturer : Fails translate context pnpid caps →
    ∀ name, manufacturerProfile pnpid caps.monitorType = some name → FailsRequirements translate context name caps →
      ∀ mon db, opened = .ok mon → mon.db = some db → db.1 ≠ .vesa

/-- What an open chose: the profile, or none, and `fallback`. -/
def choice : Except Monitor Monitor → Option Stage × ℤ
  | .ok mon => (mon.db.map Prod.fst, mon.fallback)
  | .error mon => (mon.db.map Prod.fst, mon.fallback)

/-- Both paths keep to the rule and choose alike. -/
def PathsAgree (pnpid : String) (caps : Caps) : Prop :=
  (∀ hardware, NoGenericFallback translate context pnpid caps (openWithAddr translate context hardware pnpid caps)) ∧
    NoGenericFallback translate context pnpid caps (.ok (dbusOpen translate context pnpid caps)) ∧
    choice (selectWithAddr translate context pnpid caps) = choice (.ok (dbusOpen translate context pnpid caps))

/-- A profile that does not load and has requirements. -/
def Rejected (name : String) (caps : Caps) : Prop :=
  Fails translate context name caps ∧ profileHasRequirements context name = true

/-- The chain meets a profile it must stop at: the monitor's own, overridden or
rejected; else the manufacturer's, rejected; else VESA's, rejected. -/
def Prohibited (pnpid : String) (caps : Caps) : Prop :=
  Fails translate context pnpid caps ∧
    (monitorFileMatches context pnpid = true ∨ profileHasRequirements context pnpid = true ∨
      match manufacturerProfile pnpid caps.monitorType with
      | none => Rejected translate context "VESA" caps
      | some name => Rejected translate context name caps ∨
          Fails translate context name caps ∧ Rejected translate context "VESA" caps)

/-! ### The chain, stage by stage -/

variable {translate context}

/-- A load that fails leaves the CAPS, and sets the flag to what the scan says. -/
theorem load_of_fails (stage : Stage) (fallback : ℤ) (mon : Monitor) {name : String}
    (h : Fails translate context name mon.caps) :
    mon.load translate context stage name fallback = ⟨none, fallback, mon.caps,
      profileHasRequirements context name⟩ := by
  have hcaps : (createDb translate (some context) name mon.caps true).caps = mon.caps := by
    simp only [Fails, createDb] at h ⊢
    split
    · rfl
    · rename_i assembly hassembly
      simp only [hassembly] at h
      split
      · rfl
      · rename_i hpublish
        simp only [hpublish] at h
        cases h
  simp only [Monitor.load]
  rw [createDb_requirementsFailed translate h, hcaps, h]
  rfl

theorem failsRequirements_iff {name : String} {caps : Caps} :
    FailsRequirements translate context name caps ↔ Rejected translate context name caps := by
  refine and_congr_right fun h => ?_
  rw [createDb_requirementsFailed translate h]

/-- A load that succeeds has a tree of its stage. -/
theorem load_of_not_fails (stage : Stage) (fallback : ℤ) (mon : Monitor) {name : String}
    (h : ¬Fails translate context name mon.caps) :
    ∃ db, (mon.load translate context stage name fallback).db = some (stage, db) := by
  obtain ⟨db, hdb⟩ := Option.ne_none_iff_exists'.mp h
  exact ⟨db, by simp only [Monitor.load, hdb, Option.map_some]⟩

theorem loadManufacturer_none {pnpid : String} {mon : Monitor}
    (h : manufacturerProfile pnpid mon.caps.monitorType = none) :
    mon.loadManufacturer translate context pnpid = mon := by
  rw [Monitor.loadManufacturer, h]

theorem loadManufacturer_some {pnpid name : String} {mon : Monitor}
    (h : manufacturerProfile pnpid mon.caps.monitorType = some name) :
    mon.loadManufacturer translate context pnpid = mon.load translate context .manufacturer name 1 := by
  rw [Monitor.loadManufacturer, h]

/-- The chain past the monitor's own profile, which failed without requirements. -/
def Monitor.failed (fallback : ℤ) (caps : Caps) : Monitor := ⟨none, fallback, caps, false⟩

/-- A failed load without requirements. -/
theorem load_of_plain_failure {stage : Stage} {name : String} {fallback : ℤ} {mon : Monitor}
    (h : Fails translate context name mon.caps)
    (hreq : profileHasRequirements context name = false) :
    mon.load translate context stage name fallback = .failed fallback mon.caps := by
  rw [load_of_fails _ _ _ h, hreq]
  rfl

/-- A rejected load. -/
theorem load_of_rejected {stage : Stage} {name : String} {fallback : ℤ} {mon : Monitor}
    (h : Rejected translate context name mon.caps) :
    mon.load translate context stage name fallback = ⟨none, fallback, mon.caps, true⟩ := by
  rw [load_of_fails _ _ _ h.1, h.2]

/-- A load that is not rejected passes the check after it. -/
theorem reject_load (stage : Stage) (fallback : ℤ) (mon e : Monitor) {name : String}
    (h : ¬Rejected translate context name mon.caps) :
    reject ((mon.load translate context stage name fallback).db.isNone &&
      (mon.load translate context stage name fallback).requirementsFailed) e = .ok () := by
  rw [reject_eq_ok]
  by_cases hfails : Fails translate context name mon.caps
  · rw [load_of_fails _ _ _ hfails]
    simpa [Rejected, hfails] using h
  · obtain ⟨db, hdb⟩ := load_of_not_fails stage fallback mon hfails
    rw [hdb]
    rfl

/-- The daemon path never sets `fallback` to −1. -/
theorem dbusOpen_fallback (pnpid : String) (caps : Caps) :
    (dbusOpen translate context pnpid caps).fallback ≠ -1 := by
  have hmanufacturer : ∀ mon : Monitor, mon.fallback = 0 →
      (mon.loadManufacturer translate context pnpid).fallback ≠ -1 := by
    intro mon hmon
    unfold Monitor.loadManufacturer
    split
    · rw [hmon]
      decide
    · simp [Monitor.load]
  unfold dbusOpen
  dsimp only
  split
  · unfold dbusGeneric
    dsimp only
    split
    · simp [Monitor.load]
    · exact hmanufacturer _ rfl
  · simp [Monitor.load]

/-- The device path up to the generic profiles, when the monitor's own plainly failed. -/
theorem selectWithAddr_of_plain_failure {pnpid : String} {caps : Caps}
    (hown : Fails translate context pnpid caps) (hfile : monitorFileMatches context pnpid = false)
    (hreq : profileHasRequirements context pnpid = false) :
    selectWithAddr translate context pnpid caps = (do
      let mon ← selectGeneric translate context pnpid (.failed 0 caps)
      reject (mon.db.isNone && mon.requirementsFailed) mon.prohibit
      return mon) := by
  have hload : (Monitor.start caps).load translate context .own pnpid 0 = .failed 0 caps :=
    load_of_plain_failure hown hreq
  simp only [selectWithAddr, hload, hfile]
  rfl

/-- Where the chain is prohibited, the device path stops without a tree. -/
theorem selectWithAddr_of_prohibited {pnpid : String} {caps : Caps}
    (h : Prohibited translate context pnpid caps) :
    ∃ mon, selectWithAddr translate context pnpid caps = .error mon ∧ mon.db = none ∧ mon.fallback = -1 := by
  obtain ⟨hown, hstop⟩ := h
  have hload := load_of_fails .own 0 (Monitor.start caps) hown
  cases hfile : monitorFileMatches context pnpid with
  | true =>
    simp only [selectWithAddr, hload, hfile]
    exact ⟨_, rfl, rfl, rfl⟩
  | false =>
    cases hreq : profileHasRequirements context pnpid with
    | true =>
      simp only [selectWithAddr, hload, hfile, hreq]
      exact ⟨_, rfl, rfl, rfl⟩
    | false =>
      rw [hfile, hreq] at hstop
      simp only [Bool.false_eq_true, false_or] at hstop
      rw [selectWithAddr_of_plain_failure hown hfile hreq, selectGeneric]
      cases hname : manufacturerProfile pnpid caps.monitorType with
      | none =>
        rw [hname] at hstop
        have hvesa : (Monitor.failed 0 caps).load translate context .vesa "VESA" 2 = ⟨none, 2, caps, true⟩ :=
          load_of_rejected hstop
        rw [loadManufacturer_none hname]
        simp only [Monitor.failed] at hvesa ⊢
        simp only [Option.isNone_none, if_true, hvesa]
        exact ⟨_, rfl, rfl, rfl⟩
      | some name =>
        rw [hname] at hstop
        rw [loadManufacturer_some hname]
        by_cases hrej : Rejected translate context name caps
        · rw [load_of_rejected hrej]
          exact ⟨_, rfl, rfl, rfl⟩
        · obtain ⟨hfails, hrejv⟩ := hstop.resolve_left hrej
          have hreqm : profileHasRequirements context name = false := by simpa [Rejected, hfails] using hrej
          have hvesa : (Monitor.failed 1 caps).load translate context .vesa "VESA" 2 = ⟨none, 2, caps, true⟩ :=
            load_of_rejected hrejv
          rw [load_of_plain_failure hfails hreqm]
          simp only [Monitor.failed] at hvesa ⊢
          simp only [Option.isNone_none, if_true, hvesa]
          exact ⟨_, rfl, rfl, rfl⟩

/-- Past a profile that does not load, the generic part is VESA's, if that is not rejected. -/
theorem generic_vesa (fallback : ℤ) {caps : Caps} (h : ¬Rejected translate context "VESA" caps) :
    (do
      let mon ← do
        reject ((Monitor.failed fallback caps).db.isNone && (Monitor.failed fallback caps).requirementsFailed)
          (Monitor.failed fallback caps).prohibit
        pure (if (Monitor.failed fallback caps).db.isNone
          then (Monitor.failed fallback caps).load translate context .vesa "VESA" 2
          else Monitor.failed fallback caps)
      reject (mon.db.isNone && mon.requirementsFailed) mon.prohibit
      return mon) = .ok ((Monitor.failed fallback caps).load translate context .vesa "VESA" 2) := by
  have hcheck := fun e => reject_load .vesa 2 (.failed fallback caps) e h
  simp only [Monitor.failed] at hcheck ⊢
  simp only [Option.isNone_none, Bool.and_false, reject, Bool.false_eq_true, if_false, if_true] at hcheck ⊢
  exact congrArg (· >>= fun _ => Except.ok _) (hcheck _)

/-- Where no generic profile is rejected, the generic parts of the chains are one, and
the device path's last check passes. -/
theorem selectGeneric_eq {pnpid : String} {caps : Caps}
    (h : ¬match manufacturerProfile pnpid caps.monitorType with
      | none => Rejected translate context "VESA" caps
      | some name => Rejected translate context name caps ∨
          Fails translate context name caps ∧ Rejected translate context "VESA" caps) :
    (do
      let mon ← selectGeneric translate context pnpid (.failed 0 caps)
      reject (mon.db.isNone && mon.requirementsFailed) mon.prohibit
      return mon) = .ok (dbusGeneric translate context pnpid (.failed 0 caps)) := by
  simp only [selectGeneric, dbusGeneric]
  cases hname : manufacturerProfile pnpid caps.monitorType with
  | none =>
    rw [hname] at h
    rw [loadManufacturer_none hname]
    exact generic_vesa 0 h
  | some name =>
    rw [hname, not_or] at h
    rw [loadManufacturer_some hname]
    by_cases hfails : Fails translate context name caps
    · have hreq : profileHasRequirements context name = false := by simpa [Rejected, hfails] using h.1
      rw [load_of_plain_failure hfails hreq]
      exact generic_vesa 1 fun hrej => h.2 ⟨hfails, hrej⟩
    · obtain ⟨db, hdb⟩ := load_of_not_fails .manufacturer 1 (.failed 0 caps) hfails
      simp only [hdb, Option.isNone_some, Bool.false_and, reject, Bool.false_eq_true, if_false]
      show reject (_ && _) _ >>= _ = _
      rw [hdb]
      rfl

/-- Elsewhere the two chains are one. -/
theorem selectWithAddr_of_not_prohibited {pnpid : String} {caps : Caps}
    (h : ¬Prohibited translate context pnpid caps) :
    selectWithAddr translate context pnpid caps = .ok (dbusOpen translate context pnpid caps) := by
  by_cases hown : Fails translate context pnpid caps
  · have hstop := not_and.mp h hown
    rw [not_or, not_or, Bool.not_eq_true, Bool.not_eq_true] at hstop
    obtain ⟨hfile, hreq, hstop⟩ := hstop
    have hload : (Monitor.start caps).load translate context .own pnpid 0 = .failed 0 caps :=
      load_of_plain_failure hown hreq
    rw [selectWithAddr_of_plain_failure hown hfile hreq, selectGeneric_eq hstop, dbusOpen]
    simp only [hload]
    rfl
  · obtain ⟨db, hdb⟩ := load_of_not_fails .own 0 (Monitor.start caps) hown
    simp only [selectWithAddr, dbusOpen, hdb, Option.isNone_some, Bool.false_and, reject,
      Bool.false_eq_true, if_false]
    show reject (_ && _) _ >>= _ = _
    rw [hdb]
    rfl

/-- An open that returns a monitor returns the chain's. -/
theorem openWithAddr_eq_ok {hardware : Hardware} {pnpid : String} {caps : Caps} {mon : Monitor}
    (h : openWithAddr translate context hardware pnpid caps = .ok mon) :
    selectWithAddr translate context pnpid caps = .ok mon := by
  obtain ⟨mon', hselect, h⟩ := bind_eq_ok.mp h
  split at h
  all_goals
    obtain ⟨_, -, h⟩ := bind_eq_ok.mp h
    cases h
    exact hselect

/-- Where the chain is not prohibited, neither premise of the rule is met. -/
theorem noGenericFallback_of_not_prohibited {pnpid : String} {caps : Caps}
    (h : ¬Prohibited translate context pnpid caps) (opened : Except Monitor Monitor) :
    NoGenericFallback translate context pnpid caps opened where
  own hrej := by
    refine absurd ?_ h
    rcases hrej with hrej | ⟨hfails, hfile⟩
    · exact ⟨hrej.1, .inr (.inl (failsRequirements_iff.mp hrej).2)⟩
    · exact ⟨hfails, .inl hfile⟩
  manufacturer hfails name hname hrej := by
    refine absurd ⟨hfails, .inr (.inr ?_)⟩ h
    rw [hname]
    exact .inl (failsRequirements_iff.mp hrej)

/-- **When the two ways of opening a monitor agree**, and neither goes past a rejected
profile: exactly where the chain meets no profile it must stop at. -/
theorem pathsAgree_iff (pnpid : String) (caps : Caps) :
    PathsAgree translate context pnpid caps ↔ ¬Prohibited translate context pnpid caps := by
  constructor
  · rintro ⟨-, -, hchoice⟩ hprohibited
    obtain ⟨mon, hselect, -, hfallback⟩ := selectWithAddr_of_prohibited hprohibited
    rw [hselect] at hchoice
    have : mon.fallback = (dbusOpen translate context pnpid caps).fallback :=
      congrArg Prod.snd hchoice
    exact dbusOpen_fallback pnpid caps (this ▸ hfallback)
  · intro h
    refine ⟨fun _ => noGenericFallback_of_not_prohibited h _,
      noGenericFallback_of_not_prohibited h _, ?_⟩
    rw [selectWithAddr_of_not_prohibited h]

/-- The device path alone always keeps to the rule. -/
theorem openWithAddr_noGenericFallback (hardware : Hardware) (pnpid : String) (caps : Caps) :
    NoGenericFallback translate context pnpid caps (openWithAddr translate context hardware pnpid caps) := by
  by_cases h : Prohibited translate context pnpid caps
  · obtain ⟨mon', hselect, -⟩ := selectWithAddr_of_prohibited h
    constructor
    · intro _ mon db hopen
      rw [openWithAddr_eq_ok hopen] at hselect
      cases hselect
    · intro _ name _ _ mon db hopen
      rw [openWithAddr_eq_ok hopen] at hselect
      cases hselect
  · exact noGenericFallback_of_not_prohibited h _

end Chain

/-- A database whose `DEL1234` requires an unknown feature, and with a VESA profile. -/
def rejectedContext : DbContext where
  options := secretContext.options
  profiles := .ofList [("DEL1234", Except.ok { secretRoot with required := true }),
    ("VESA", Except.ok (.element "monitor" [("name", "VESA"), ("init", "standard")]
      [.element "controls" [] [.element "control" [("id", "brightness"), ("address", "0x10")] []]]))]
  monitorFile := none

/-- **The daemon path opens a rejected monitor with the VESA profile**, which the device
path refuses. -/
theorem dbusOpen_past_rejected : ¬PathsAgree utf8 rejectedContext "DEL1234" fullCaps := by
  intro h
  have hreq : FailsRequirements utf8 rejectedContext "DEL1234" fullCaps := by
    constructor
    · show _ = none
      decide +kernel
    · decide +kernel
  have hvesa : ((dbusOpen utf8 rejectedContext "DEL1234" fullCaps).db.map Prod.fst) =
      some .vesa := by decide +kernel
  obtain ⟨db, hdb, hstage⟩ := Option.map_eq_some_iff.mp hvesa
  have := h.2.1.own (.inl hreq) _ db rfl hdb
  rw [hstage] at this
  cases this

end DdcControl.Opening
