import DdcControl.Daemon.Device
import DdcControl.Daemon.Ledger

/-!
# Closing a monitor

`ddcci_close` first tells a monitor that it is being closed, if it was enabled on opening
or is of a maker whose monitors are, and returns at once where the write fails. Nothing is
released then: not the tree, not the table, not the profiles, not the descriptor. A
monitor that no longer answers is closed in vain.

## What is proved

* `ddcciClose_releases` — a closing releases everything, each thing once, exactly where the
  monitor needs no telling or takes it.
* `closing_exact` — so a daemon whose closings all go well holds no more descriptors than
  it lists devices, and its probes leave none open.
-/

namespace DdcControl.Daemon

open Capabilities Opening Protocol Database

/-! ### What is released -/

/-- What hangs on a monitor. -/
def DeviceMonitor.Has (mon : DeviceMonitor) : Resource → Prop
  | .db => mon.selected.db.isSome = true
  | .values code => ∃ entry, mon.selected.caps.vcp code = some entry ∧ entry.values.getD [] ≠ []
  | .vcp code => (mon.selected.caps.vcp code).isSome = true
  | .rawCaps => mon.rawCaps.isSome = true
  | .profile i => i < mon.profiles
  | .descriptor => mon.fd > -1

/-- The monitor with so many profiles fetched for it since. -/
def DeviceMonitor.withProfiles (mon : DeviceMonitor) (profiles : ℕ) : DeviceMonitor := { mon with profiles := profiles }

/-- Everything that hangs on the monitor was released, each thing once, and nothing else. -/
def DeviceMonitor.IsReleased (mon : DeviceMonitor) (released : List Resource) : Prop :=
  released.Nodup ∧ ∀ r, r ∈ released ↔ mon.Has r

theorem mem_codes (code : UInt8) : code ∈ codes :=
  List.mem_map.mpr ⟨code.toNat, List.mem_range.mpr code.toNat_lt, UInt8.ofNat_toNat⟩

theorem nodup_codes : codes.Nodup := by
  refine List.Nodup.map_on (fun i hi j hj heq => ?_) List.nodup_range
  have hnat := congrArg UInt8.toNat heq
  rw [List.mem_range] at hi hj
  rwa [UInt8.toNat_ofNat_of_lt' hi, UInt8.toNat_ofNat_of_lt' hj] at hnat

theorem mem_vcpResources {mon : DeviceMonitor} {code : UInt8} {r : Resource} :
    r ∈ mon.vcpResources code ↔ (r = .values code ∨ r = .vcp code) ∧ mon.Has r := by
  unfold DeviceMonitor.vcpResources
  cases hentry : mon.selected.caps.vcp code with
  | none =>
    simp only [List.not_mem_nil, false_iff, not_and]
    rintro (rfl | rfl) <;> simp [DeviceMonitor.Has, hentry]
  | some entry =>
    rw [List.mem_append, List.mem_singleton]
    constructor
    · rintro (hr | rfl)
      · split at hr
        · cases hr
        · rename_i hvalues
          rw [List.mem_singleton.mp hr]
          exact ⟨.inl rfl, entry, hentry, by simpa using hvalues⟩
      · exact ⟨.inr rfl, by simp [DeviceMonitor.Has, hentry]⟩
    · rintro ⟨rfl | rfl, hhas⟩
      · obtain ⟨entry', hentry', hvalues⟩ := hhas
        cases hentry.symm.trans hentry'
        exact .inl (by simpa using hvalues)
      · exact .inr rfl

theorem nodup_vcpResources (mon : DeviceMonitor) (code : UInt8) :
    (mon.vcpResources code).Nodup := by
  unfold DeviceMonitor.vcpResources
  split
  · exact List.nodup_nil
  · split <;> simp

theorem mem_freeProfiles {profiles : ℕ} {r : Resource} :
    r ∈ freeProfiles profiles ↔ ∃ i < profiles, r = .profile i := by
  simp [freeProfiles, eq_comm]

theorem nodup_freeProfiles (profiles : ℕ) : (freeProfiles profiles).Nodup :=
  List.Nodup.map (fun _ _ h => Resource.profile.inj h) (List.nodup_reverse.mpr List.nodup_range)

/-- What hangs on a monitor in memory is freed. -/
theorem mem_allocated {mon : DeviceMonitor} {r : Resource} :
    r ∈ mon.allocated ↔ r ≠ .descriptor ∧ mon.Has r := by
  unfold DeviceMonitor.allocated
  simp only [List.mem_append, List.mem_flatMap, mem_vcpResources, mem_freeProfiles]
  cases r with
  | db => simp [DeviceMonitor.Has]
  | values code => simp [mem_codes]
  | vcp code => simp [mem_codes]
  | rawCaps => simp [DeviceMonitor.Has]
  | profile i => simp [DeviceMonitor.Has]
  | descriptor => simp

/-- It is freed once. -/
theorem nodup_allocated (mon : DeviceMonitor) : mon.allocated.Nodup := by
  have hcodes : (codes.flatMap mon.vcpResources).Nodup := by
    refine List.nodup_flatMap.mpr ⟨fun code _ => nodup_vcpResources mon code, ?_⟩
    refine nodup_codes.imp fun {code code'} hne r hr hr' => hne ?_
    have h := (mem_vcpResources.mp hr).1
    have h' := (mem_vcpResources.mp hr').1
    rcases h with rfl | rfl
    · rcases h' with h' | h'
      · exact Resource.values.inj h'
      · cases h'
    · rcases h' with h' | h'
      · cases h'
      · exact Resource.vcp.inj h'
  have hdb : (if mon.selected.db.isSome then [Resource.db] else []).Nodup := by split <;> simp
  have hraw : (if mon.rawCaps.isSome then [Resource.rawCaps] else []).Nodup := by split <;> simp
  unfold DeviceMonitor.allocated
  refine ((hdb.append hcodes ?_).append hraw ?_).append (nodup_freeProfiles _) ?_
  all_goals
    rw [List.disjoint_left]
    intro r hr
    simp only [List.mem_append, List.mem_flatMap, mem_vcpResources, mem_freeProfiles] at hr ⊢
    cases r <;> simp_all

section Library

variable {σ : Type} (sys : System σ)

/-- The monitor needs no telling, or takes it. -/
def ClosesCleanly (mon : DeviceMonitor) (s : σ) : Prop :=
  mon.needsDisable = true → (ddcciWritectrl (sys.bus mon.fd) ddcciCtrl 0 s).1 = true

/-- No closing so far went wrong. -/
def Descriptors.Clean (d : Descriptors σ) : Prop := ∀ closing ∈ d.closings, ClosesCleanly sys closing.1 closing.2

/-- The descriptor that a monitor holds. -/
def DeviceMonitor.descriptors (mon : DeviceMonitor) : Multiset ℕ := if mon.fd > -1 then {mon.fd.toNat} else 0

theorem ddcciRelease_released (mon : DeviceMonitor) (d : Descriptors σ) :
    mon.IsReleased (ddcciRelease sys mon d).1.2 := by
  unfold ddcciRelease
  split
  · rename_i hfd
    refine ⟨?_, fun r => ?_⟩
    · refine List.Nodup.append (nodup_allocated mon) (List.nodup_singleton _) ?_
      simp [mem_allocated]
    · rw [List.mem_append, List.mem_singleton, mem_allocated]
      by_cases hr : r = .descriptor
      · subst hr
        simpa [DeviceMonitor.Has] using hfd
      · simp [hr]
  · rename_i hfd
    refine ⟨nodup_allocated mon, fun r => ?_⟩
    rw [mem_allocated]
    by_cases hr : r = .descriptor
    · subst hr
      simpa [DeviceMonitor.Has] using hfd
    · simp [hr]

theorem ddcciRelease_held (mon : DeviceMonitor) (d : Descriptors σ) :
    (ddcciRelease sys mon d).2.closings = d.closings ∧
      ∀ rest, d.held = mon.descriptors + rest → (ddcciRelease sys mon d).2.held = rest := by
  unfold ddcciRelease DeviceMonitor.descriptors
  split
  · refine ⟨rfl, fun rest hheld => ?_⟩
    show d.held.erase _ = rest
    rw [hheld, Multiset.singleton_add, Multiset.erase_cons_head]
  · exact ⟨rfl, fun rest hheld => hheld.trans (zero_add rest)⟩

variable {sys}

/-- A closing is recorded, and then goes on to release the monitor or returns with nothing released. -/
theorem ddcciClose_cases (mon : DeviceMonitor) (d : Descriptors σ) :
    (ClosesCleanly sys mon d.os ∧ ∃ s, ddcciClose sys mon d =
        ddcciRelease sys mon ⟨s, d.held, d.closings ++ [(mon, d.os)]⟩) ∨
      ¬ClosesCleanly sys mon d.os ∧ ∃ s, ddcciClose sys mon d =
        ((-1, []), ⟨s, d.held, d.closings ++ [(mon, d.os)]⟩) := by
  unfold ddcciClose ClosesCleanly
  cases hneeds : mon.needsDisable with
  | false => exact .inl ⟨nofun, d.os, rfl⟩
  | true =>
    simp only [if_true, forall_const]
    rcases hwrite : ddcciWritectrl (sys.bus mon.fd) ddcciCtrl 0 d.os with ⟨_ | _, s⟩
    · exact .inr ⟨by simp, s, rfl⟩
    · exact .inl ⟨rfl, s, rfl⟩

/-- **A closing releases everything that hangs on the monitor, each thing once, exactly
where the monitor needs no telling or takes it**; otherwise it releases nothing. -/
theorem ddcciClose_releases (mon : DeviceMonitor) (hfd : mon.fd > -1) (d : Descriptors σ) :
    mon.IsReleased (ddcciClose sys mon d).1.2 ↔ ClosesCleanly sys mon d.os := by
  rcases ddcciClose_cases mon d with ⟨hclean, s, heq⟩ | ⟨hnot, s, heq⟩
  · rw [heq]
    exact iff_of_true (ddcciRelease_released sys mon _) hclean
  · rw [heq]
    refine iff_of_false (fun hreleased => ?_) hnot
    have hmem : Resource.descriptor ∈ ([] : List Resource) := (hreleased.2 .descriptor).mpr hfd
    cases hmem

/-! ### The account -/

theorem Descriptors.Clean.of_closings {d d' : Descriptors σ} (h : d'.Clean sys)
    (hd : d'.closings = d.closings) :
    d.Clean sys := by
  unfold Descriptors.Clean at h ⊢
  rwa [hd] at h

theorem Descriptors.Clean.of_append {d : Descriptors σ} {closings more : List (DeviceMonitor × σ)}
    (h : d.Clean sys) (hd : d.closings = closings ++ more) :
    (∀ closing ∈ closings, ClosesCleanly sys closing.1 closing.2) ∧
      ∀ closing ∈ more, ClosesCleanly sys closing.1 closing.2 := by
  unfold Descriptors.Clean at h
  rw [hd] at h
  exact ⟨fun c hc => h c (List.mem_append_left _ hc), fun c hc => h c (List.mem_append_right _ hc)⟩

theorem ddcciClose_account (mon : DeviceMonitor) (d : Descriptors σ)
    (hclean : (ddcciClose sys mon d).2.Clean sys) :
    d.Clean sys ∧ ∀ rest, d.held = mon.descriptors + rest → (ddcciClose sys mon d).2.held = rest := by
  rcases ddcciClose_cases mon d with ⟨-, s, heq⟩ | ⟨hnot, s, heq⟩
  · rw [heq] at hclean ⊢
    obtain ⟨hclosings, hheld⟩ := ddcciRelease_held sys mon ⟨s, d.held, d.closings ++ [(mon, d.os)]⟩
    exact ⟨(hclean.of_append hclosings).1, hheld⟩
  · rw [heq] at hclean
    exact absurd ((hclean.of_append rfl).2 (mon, d.os) (List.mem_singleton_self _)) hnot

variable (sys) (translate : String → List UInt8) (context : DbContext)

/-- Opening a monitor leaves its descriptor. -/
theorem ddcciIdentify_fd (mon : DeviceMonitor) (s : σ) :
    (ddcciIdentify sys translate context mon s).1.1.fd = mon.fd := by
  unfold ddcciIdentify
  rcases ddcciReadEdid (sys.bus mon.fd) 3 s with ⟨_ | edid, s⟩
  · rfl
  dsimp only
  rcases ddcciCaps (sys.bus mon.fd) s with ⟨received, s⟩
  dsimp only
  cases selectWithAddr translate context edid.pnpId ((received.map Prod.snd).getD .default) with
  | error selected => rfl
  | ok selected =>
    dsimp only
    rcases ddcciActivate (sys.bus mon.fd) selected received.isSome s with ⟨_ | _, s⟩ <;> rfl

/-- **What opening leaves**: short of −3, a monitor with a descriptor. -/
theorem ddcciOpen_fd {filename : List UInt8} {d : Descriptors σ}
    (hret : (ddcciOpen sys translate context filename d).1.2 ≠ -3) :
    (ddcciOpen sys translate context filename d).1.1.fd > -1 := by
  unfold ddcciOpen at hret ⊢
  split at hret
  · exact absurd rfl hret
  · rename_i hdev
    rw [if_neg hdev]
    split at hret
    · exact absurd rfl hret
    · rename_i fd s hopen
      show (ddcciIdentify sys translate context _ s).1.1.fd > -1
      rw [ddcciIdentify_fd]
      show (fd : ℤ) > -1
      omega

theorem ddcciOpen_account {filename : List UInt8} (hname : (utf8 "dev:").isPrefixOf filename = true)
    (d : Descriptors σ) :
    (ddcciOpen sys translate context filename d).2.closings = d.closings ∧
      (ddcciOpen sys translate context filename d).2.held =
        (ddcciOpen sys translate context filename d).1.1.descriptors + d.held := by
  unfold ddcciOpen
  rw [hname]
  simp only [Bool.not_true, Bool.false_eq_true, if_false]
  rcases sys.openFile (filename.drop 4) d.os with ⟨_ | fd, s⟩
  · exact ⟨rfl, (zero_add d.held).symm⟩
  · refine ⟨rfl, ?_⟩
    dsimp only
    rw [DeviceMonitor.descriptors, ddcciIdentify_fd]
    have hfd : (DeviceMonitor.blank (fd : ℤ)).fd > -1 := by
      show (fd : ℤ) > -1
      omega
    rw [if_pos hfd]
    rfl

theorem ddcciProbeDevice_account {filename : List UInt8}
    (hname : (utf8 "dev:").isPrefixOf filename = true) (d : Descriptors σ)
    (hclean : (ddcciProbeDevice sys translate context filename d).2.Clean sys) :
    d.Clean sys ∧ (ddcciProbeDevice sys translate context filename d).2.held = d.held := by
  obtain ⟨hclosings, hheld⟩ := ddcciOpen_account sys translate context hname d
  obtain ⟨hclean', hclosed⟩ := ddcciClose_account (ddcciOpen sys translate context filename d).1.1
    (ddcciOpen sys translate context filename d).2 hclean
  exact ⟨hclean'.of_closings hclosings, hclosed _ hheld⟩

theorem ddcciProbeEach_account {filenames : List (List UInt8)}
    (hnames : ∀ filename ∈ filenames, (utf8 "dev:").isPrefixOf filename = true) (d : Descriptors σ)
    (hclean : (ddcciProbeEach sys translate context filenames d).2.Clean sys) :
    d.Clean sys ∧ (ddcciProbeEach sys translate context filenames d).2.held = d.held := by
  induction filenames generalizing d with
  | nil => exact ⟨hclean, rfl⟩
  | cons filename rest ih =>
    obtain ⟨hclean', hheld⟩ := ih (fun name hname => hnames name (List.mem_cons_of_mem _ hname)) _ hclean
    have hfirst := ddcciProbeDevice_account sys translate context
      (hnames filename (List.mem_cons_self ..)) d hclean'
    exact ⟨hfirst.1, hheld.trans hfirst.2⟩

theorem probedFilenames_dev {entries : List (List UInt8)} :
    ∀ filename ∈ probedFilenames entries, (utf8 "dev:").isPrefixOf filename = true := by
  intro filename hmem
  have hname := (sortedFilenames_perm Comparison.mergeSort_sorts (utf8 "i2c-") entries).subset hmem
  obtain ⟨entry, -, rfl⟩ := List.mem_map.mp hname
  have hsplit : utf8 "dev:/dev/" = utf8 "dev:" ++ utf8 "/dev/" := by decide
  rw [hsplit, List.append_assoc, List.isPrefixOf_iff_prefix]
  exact List.prefix_append _ _

/-- **A probe leaves no descriptor open**, if its closings go well. -/
theorem ddcciProbe_account (d : Descriptors σ)
    (hclean : (ddcciProbe sys translate context d).2.Clean sys) :
    d.Clean sys ∧ (ddcciProbe sys translate context d).2.held = d.held :=
  ddcciProbeEach_account sys translate context probedFilenames_dev { d with os := (sys.entries d.os).2 } hclean

theorem ddcciProbeDevice_named (filename : List UInt8) (d : Descriptors σ) :
    ∀ detected ∈ (ddcciProbeDevice sys translate context filename d).1, detected.filename = filename := by
  intro detected hmem
  unfold ddcciProbeDevice at hmem
  rcases ddcciOpen sys translate context filename d with ⟨⟨mon, ret⟩, d'⟩
  dsimp only at hmem
  split_ifs at hmem
  · rw [List.mem_singleton.mp hmem]
  · cases hmem

/-- What is listed was probed under its name. -/
theorem ddcciProbeEach_named (filenames : List (List UInt8)) (d : Descriptors σ) :
    ∀ detected ∈ (ddcciProbeEach sys translate context filenames d).1, detected.filename ∈ filenames := by
  induction filenames generalizing d with
  | nil => exact fun _ h => nomatch h
  | cons filename rest ih =>
    intro detected hmem
    rcases List.mem_append.mp hmem with hmem | hmem
    · rw [ddcciProbeDevice_named sys translate context filename d detected hmem]
      exact List.mem_cons_self ..
    · exact List.mem_cons_of_mem _ (ih _ detected hmem)

/-- The library keeps account of its descriptors, as long as its closings go well. -/
theorem deviceLibrary_ledger :
    Ledger (deviceLibrary sys translate context)
      (Descriptors.Clean sys) Descriptors.held DeviceMonitor.descriptors
      fun filename => (utf8 "dev:").isPrefixOf filename = true where
  probe := ddcciProbe_account sys translate context
  named d detected hmem := probedFilenames_dev _ (ddcciProbeEach_named sys translate context _ _ detected hmem)
  opened filename d hname hclean := by
    obtain ⟨hclosings, hheld⟩ := ddcciOpen_account sys translate context hname d
    have hclean' : (ddcciOpen sys translate context filename d).2.Clean sys := hclean
    exact ⟨hclean'.of_closings hclosings, hheld⟩
  closed := ddcciClose_account
  write _ _ _ _ hclean := ⟨hclean, rfl⟩
  read _ _ _ _ hclean := ⟨hclean, rfl⟩
  malloc _ hclean := ⟨hclean, rfl⟩
  card_le mon := by
    unfold DeviceMonitor.descriptors
    split <;> simp

/-- **Closing is exact.** A monitor that was opened, short of −3, is released by its closing,
its descriptor and everything else and each thing once, exactly where it needs no telling
or takes it; in every run of the daemon whose closings all go so, no more descriptors are
held than devices are listed; and a probe whose closings all go so leaves none open. -/
theorem closing_exact (sys : System σ) (translate : String → List UInt8) (context : DbContext) :
    (∀ (filename : List UInt8) (d : Descriptors σ), (ddcciOpen sys translate context filename d).1.2 ≠ -3 →
        ∀ (profiles : ℕ) (d' : Descriptors σ),
          ((ddcciOpen sys translate context filename d).1.1.withProfiles profiles).IsReleased
              (ddcciClose sys ((ddcciOpen sys translate context filename d).1.1.withProfiles profiles) d').1.2 ↔
            ClosesCleanly sys ((ddcciOpen sys translate context filename d).1.1.withProfiles profiles) d'.os) ∧
      (∀ (realpath : List UInt8 → Option (List UInt8)) (os : σ) (rs : List Request),
        ∃ d, serveAll (deviceLibrary sys translate context) realpath rs (start (.start os)) = some ((), d) ∧
          (d.library.Clean sys → d.library.held.card ≤ d.service.devicesCount)) ∧
      ∀ d : Descriptors σ, (ddcciProbe sys translate context d).2.Clean sys →
        (ddcciProbe sys translate context d).2.held = d.held := by
  refine ⟨fun filename d hret profiles d' => ?_, fun realpath os rs => ?_, fun d hclean => ?_⟩
  · have hfd := ddcciOpen_fd sys translate context hret
    exact ddcciClose_releases ((ddcciOpen sys translate context filename d).1.1.withProfiles profiles) hfd d'
  · exact serveAll_held (deviceLibrary_ledger sys translate context) realpath (.start os) rfl rs
  · exact (ddcciProbe_account sys translate context d hclean).2

end Library

/-! ### A monitor that does not answer -/

/-- A database with a profile that enables its monitor on opening. -/
def samsungContext : DbContext where
  options := secretContext.options
  profiles := .ofList [("SAM0001", Except.ok (Node.element "monitor" [("name", "SyncMaster"), ("init", "samsung")]
    [.element "caps" [("add", "(vcp(10))")] [],
      .element "controls" [] [.element "control" [("id", "brightness"), ("address", "0x10")] []]]))]
  monitorFile := none

/-- The EDID of a `SAM0001`. -/
def samsungEdid : List UInt8 := edidHeader ++ [0x4c, 0x2d, 0x01, 0x00]

/-- A computer with one such monitor, whose EDID can be read, and which takes what is
written to it or does not answer. -/
def samsungSystem (answers : Bool) : System Unit where
  openFile _ s := (some 3, s)
  closeFile _ s := (true, s)
  bus _ := {
    write := fun address _ s => (address = edidAddress || answers, s)
    read := fun address length s =>
      (if address = edidAddress then some (.ofFn fun i : Fin length => samsungEdid.getD i 0) else none, s) }
  entries s := ([utf8 "i2c-0"], s)
  malloc s := (⟨true, true, true, true, true, true, true⟩, s)

/-- What `ddcci_open` makes of it. -/
def samsungOpened (answers : Bool) : (DeviceMonitor × ℤ) × Descriptors Unit :=
  ddcciOpen (samsungSystem answers) utf8 samsungContext (utf8 "dev:/dev/i2c-0") (.start ())

/-- A monitor that takes what is written to it is released. -/
theorem samsung_released :
    ((samsungOpened true).1.1.withProfiles 2).IsReleased
      (ddcciClose (samsungSystem true) ((samsungOpened true).1.1.withProfiles 2) (samsungOpened true).2).1.2 := by
  have hret : (samsungOpened true).1.2 ≠ -3 := by decide +kernel
  have hclean : ClosesCleanly (samsungSystem true) ((samsungOpened true).1.1.withProfiles 2)
      (samsungOpened true).2.os := by
    intro _
    decide +kernel
  unfold samsungOpened at hret hclean ⊢
  exact ((closing_exact (samsungSystem true) utf8 samsungContext).1 _ _ hret 2 _).mpr hclean

/-- **A monitor that does not answer is not released**: opening it returns −1, closing it
releases nothing, a probe leaves its descriptor open, and two scans of the daemon leave two
for one device. -/
theorem samsung_held :
    (samsungOpened false).1.2 = -1 ∧
      ¬(samsungOpened false).1.1.IsReleased
          (ddcciClose (samsungSystem false) (samsungOpened false).1.1 (samsungOpened false).2).1.2 ∧
      (ddcciProbe (samsungSystem false) utf8 samsungContext (.start ())).2.held ≠ 0 ∧
      ∃ d, serveAll (deviceLibrary (samsungSystem false) utf8 samsungContext) some
          [.rescanMonitors, .rescanMonitors] (start (.start ())) = some ((), d) ∧
        ¬d.library.held.card ≤ d.service.devicesCount := by
  refine ⟨by decide +kernel, fun hreleased => ?_, by decide +kernel, ?_⟩
  · have hnil : (ddcciClose (samsungSystem false) (samsungOpened false).1.1 (samsungOpened false).2).1.2 = [] := by
      decide +kernel
    have hfd : (samsungOpened false).1.1.fd > -1 := by decide +kernel
    rw [hnil] at hreleased
    have hmem : Resource.descriptor ∈ ([] : List Resource) := (hreleased.2 .descriptor).mpr hfd
    cases hmem
  · have hrun : ((serveAll (deviceLibrary (samsungSystem false) utf8 samsungContext) some
        [.rescanMonitors, .rescanMonitors] (start (.start ()))).map fun r =>
          decide (r.2.library.held.card ≤ r.2.service.devicesCount)) = some false := by
      decide +kernel
    obtain ⟨⟨_, d⟩, hd, hcount⟩ := Option.map_eq_some_iff.mp hrun
    exact ⟨d, hd, of_decide_eq_false hcount⟩

end DdcControl.Daemon
