import DdcControl.Command.Run

/-!
# Changing a control

`-w`, `-W` and `-t` write a control, the last two after it was read, with three tries; `main`
does not look at what `ddcci_writectrl` returns, but reads the control again to print it.

## What is proved

* `dumpEach_shows` — what is printed of the controls of a display is what it has.
* `runControl_sets` — a display that keeps its controls is changed to what the options mean of
  the value that it has, and what is printed is the value after that.
-/

namespace DdcControl.Command

open Daemon Database Profiles Protocol Registers

/-- What is read of the control before it may be written, and the state after that: nothing
for `-w`, and what the tries of a read have for `-W` and `-t`. -/
def firstReading {σ : Type} (bus : Bus σ) (settings : Settings) (ctrl : UInt8) (s : σ) : Option (UInt16 × UInt16) × σ :=
  if settings.toggle || settings.relative then
    let (reply, s) := tries (untracedReadctrl bus ctrl) retrys s
    (reply.map reading, s)
  else (none, s)

section Display

variable {σ : Type} {bus : Bus σ} {register : σ → UInt8 → UInt16} (h : KeepsControls bus register)

include h

/-- Tries of a read change nothing, and have the value. -/
theorem tries_readctrl (ctrl : UInt8) (n : ℕ) (s : σ) :
    register (tries (untracedReadctrl bus ctrl) n s).2 = register s ∧
      ∀ reply, (tries (untracedReadctrl bus ctrl) n s).1 = some reply → reply.value = register s ctrl := by
  have hkept : ∀ t, register t = register s → register (untracedReadctrl bus ctrl t).2 = register s :=
    fun t ht => (untracedReadctrl_keeps h ctrl t).1.trans ht
  refine ⟨tries_keeps hkept rfl, fun reply hreply => ?_⟩
  obtain ⟨last, hlast, heq⟩ := tries_ok (p := fun t => register t = register s)
    (fun t ht _ => hkept t ht) rfl hreply
  rw [← hlast]
  exact (untracedReadctrl_keeps h ctrl last).2 reply (congrArg Prod.fst heq)

/-- What is printed of a control is what the display has. -/
theorem dumpctrl_shows (ctrl : UInt8) (force : Bool) (s : σ) :
    register (dumpctrl bus ctrl force s).2 = register s ∧
      ∀ line ∈ (dumpctrl bus ctrl force s).1, ∃ reply, line = .control ctrl reply ∧ reply.value =
        register s ctrl := by
  obtain ⟨hkept, hvalue⟩ := tries_readctrl h ctrl retrys s
  unfold dumpctrl
  generalize tries (untracedReadctrl bus ctrl) retrys s = result at hkept hvalue ⊢
  rcases result with ⟨_ | reply, s'⟩
  · exact ⟨hkept, fun _ hline => absurd hline List.not_mem_nil⟩
  · refine ⟨hkept, fun line hline => ?_⟩
    dsimp only at hline
    split_ifs at hline
    · exact ⟨reply, List.mem_singleton.mp hline, hvalue reply rfl⟩
    · cases hline

/-- **What is printed of the controls is what the display has**, and printing changes none. -/
theorem dumpEach_shows (force : Bool) (ctrls : List UInt8) (s : σ) :
    register (dumpEach bus force ctrls s).2 = register s ∧
      ∀ line ∈ (dumpEach bus force ctrls s).1, ∃ ctrl ∈ ctrls, ∃ reply,
        line = .control ctrl reply ∧ reply.value = register s ctrl := by
  induction ctrls generalizing s with
  | nil => exact ⟨rfl, fun _ hline => absurd hline List.not_mem_nil⟩
  | cons ctrl rest ih =>
    obtain ⟨hkept, hshown⟩ := dumpctrl_shows h ctrl force s
    obtain ⟨hkept', hshown'⟩ := ih (dumpctrl bus ctrl force s).2
    refine ⟨hkept'.trans hkept, fun line hline => ?_⟩
    rcases List.mem_append.mp hline with hline | hline
    · exact ⟨ctrl, List.mem_cons_self, hshown line hline⟩
    · obtain ⟨ctrl', hctrl', reply, heq, hvalue⟩ := hshown' line hline
      exact ⟨ctrl', List.mem_cons_of_mem _ hctrl', reply, heq, hvalue.trans (by rw [hkept])⟩

/-- What is read is what the display has, and nothing is changed. -/
theorem firstReading_keeps (settings : Settings) (ctrl : UInt8) (s : σ) :
    (∀ r ∈ (firstReading bus settings ctrl s).1, r.1 = register s ctrl) ∧
      register (firstReading bus settings ctrl s).2 = register s := by
  obtain ⟨hkept, hvalue⟩ := tries_readctrl h ctrl retrys s
  unfold firstReading
  split_ifs
  · refine ⟨fun r hr => ?_, hkept⟩
    obtain ⟨reply, hreply, rfl⟩ := Option.map_eq_some_iff.mp hr
    exact hvalue reply hreply
  · exact ⟨fun r hr => absurd hr (Option.not_mem_none r), rfl⟩

omit h in
/-- **What is to be written is what the options mean** of what is read. -/
theorem runValue_result {settings : Settings} (hs : settings.Valid) (ctrl : UInt8) (s : σ) :
    (runValue bus settings ctrl s).2 = (firstReading bus settings ctrl s).2 ∧
      ((∃ value, settings.change.result (firstReading bus settings ctrl s).1 = some value ∧
          (runValue bus settings ctrl s).1.2 = value ∧ Flag.w.InRange value) ∨
        settings.change.result (firstReading bus settings ctrl s).1 = none ∧
          ((runValue bus settings ctrl s).1.2 ≥ 0 || (runValue bus settings ctrl s).1.1) = false) := by
  cases htoggle : settings.toggle with
  | true =>
    have hrelative : settings.relative = false := by
      cases hrelative : settings.relative with
      | false => rfl
      | true => cases htoggle.symm.trans (hs.relative hrelative).2
    have hrun : runValue bus settings ctrl s =
        ((false, settings.toggled ((tries (untracedReadctrl bus ctrl) retrys s).1.map reading)),
          (tries (untracedReadctrl bus ctrl) retrys s).2) := by
      simp [runValue, runToggle, runRelative, htoggle, hrelative]
    have hfirst : firstReading bus settings ctrl s =
        ((tries (untracedReadctrl bus ctrl) retrys s).1.map reading,
          (tries (untracedReadctrl bus ctrl) retrys s).2) := by
      simp [firstReading, htoggle]
    rw [hrun, hfirst]
    refine ⟨rfl, ?_⟩
    rcases toggled_result hs htoggle ((tries (untracedReadctrl bus ctrl) retrys s).1.map reading) with
      ⟨hrange, hresult⟩ | ⟨hnegative, hresult⟩
    · exact .inl ⟨_, hresult, rfl, hrange⟩
    · exact .inr ⟨hresult, by simpa using hnegative⟩
  | false =>
    cases hrelative : settings.relative with
    | true =>
      have hrun : runValue bus settings ctrl s =
          (shifted settings.value ((tries (untracedReadctrl bus ctrl) retrys s).1.map reading),
            (tries (untracedReadctrl bus ctrl) retrys s).2) := by
        simp [runValue, runToggle, runRelative, htoggle, hrelative]
      have hfirst : firstReading bus settings ctrl s =
          ((tries (untracedReadctrl bus ctrl) retrys s).1.map reading,
            (tries (untracedReadctrl bus ctrl) retrys s).2) := by
        simp [firstReading, hrelative]
      rw [hrun, hfirst]
      refine ⟨rfl, ?_⟩
      rcases shifted_result hs hrelative ((tries (untracedReadctrl bus ctrl) retrys s).1.map reading) with
        ⟨hrange, hresult⟩ | ⟨hnegative, hkeep, hresult⟩
      · exact .inl ⟨_, hresult, rfl, hrange⟩
      · exact .inr ⟨hresult, by simpa [hkeep] using hnegative⟩
    | false =>
      have hrun : runValue bus settings ctrl s = ((false, settings.value), s) := by
        simp [runValue, runToggle, runRelative, htoggle, hrelative]
      have hfirst : firstReading bus settings ctrl s = (none, s) := by
        simp [firstReading, htoggle, hrelative]
      rw [hrun, hfirst]
      refine ⟨rfl, ?_⟩
      rcases hs.value hrelative with hnone | hrange
      · exact .inr ⟨by simp [Settings.change, htoggle, hrelative, hnone, Change.result], by simp [hnone]⟩
      · have hchange : settings.change = .set settings.value := by
          simp [Settings.change, htoggle, hrelative, hrange.1]
        exact .inl ⟨_, by rw [hchange]; rfl, rfl, hrange⟩

/-- What a write does, and that it prints no value. -/
theorem runWrite_sets (db : Option MonitorDb) (ctrl : UInt8) (relative : Bool) (value : ℤ) (s : σ) :
    (∀ other ≠ ctrl, register (runWrite bus db ctrl relative value s).2 other = register s other) ∧
      ((value ≥ 0 || relative) = false → (runWrite bus db ctrl relative value s).2 = s) ∧
      ((value ≥ 0 || relative) = true → (ddcciWritectrl bus ctrl (.ofInt value) s).1 = true →
        register (runWrite bus db ctrl relative value s).2 ctrl = .ofInt value) ∧
      ∀ shown reply, Line.control shown reply ∉ (runWrite bus db ctrl relative value s).1 := by
  have hkeeps := controls_keeps h
  unfold runWrite
  split_ifs with hwrite
  · refine ⟨fun other hother => hkeeps.others ctrl _ s other hother,
      fun hnone => absurd hnone (by simp [hwrite]),
      fun _ hdone => ?_, fun shown reply hline => by simp at hline⟩
    have hset := hkeeps.set ctrl (.ofInt value) s hdone
    exact (congrFun hset ctrl).trans (Function.update_self ..)
  · exact ⟨fun _ _ => rfl, fun _ => rfl, fun hsome => absurd hsome hwrite,
      fun _ _ => List.not_mem_nil⟩

/-- **A control is changed to what the options mean.** With options in range, a display that
keeps its controls is changed only at the control that is named: to what is meant of what the
tries of a read have, which is its value, if the display takes the write, and not at all where
nothing is meant or no try has a value. What is printed of the control is the value after
that. -/
theorem runControl_sets {settings : Settings} (hs : settings.Valid) (hctrl : settings.ctrl ≠ -1)
    (db : Option MonitorDb) (s : σ) :
    (∀ r ∈ (firstReading bus settings (.ofInt settings.ctrl) s).1, r.1 = register s (.ofInt settings.ctrl)) ∧
      (∀ ctrl ≠ .ofInt settings.ctrl, register (runControl bus db settings s).2 ctrl = register s ctrl) ∧
      (settings.change.result (firstReading bus settings (.ofInt settings.ctrl) s).1 = none →
        register (runControl bus db settings s).2 = register s) ∧
      (∀ value, settings.change.result (firstReading bus settings (.ofInt settings.ctrl) s).1 = some value →
        (ddcciWritectrl bus (.ofInt settings.ctrl) (.ofInt value)
          (firstReading bus settings (.ofInt settings.ctrl) s).2).1 = true →
        register (runControl bus db settings s).2 (.ofInt settings.ctrl) = .ofInt value) ∧
      ∀ ctrl reply, Line.control ctrl reply ∈ (runControl bus db settings s).1 →
        ctrl = .ofInt settings.ctrl ∧ reply.value = register (runControl bus db settings s).2 ctrl := by
  have hnamed : ¬ settings.ctrl < 0 := by
    rcases hs.ctrl with hnone | hrange
    · exact absurd hnone hctrl
    · exact not_lt.mpr hrange.1
  obtain ⟨hanswer, hkept⟩ := firstReading_keeps h settings (.ofInt settings.ctrl) s
  obtain ⟨hstate, hresult⟩ : (runValue bus settings (.ofInt settings.ctrl) s).2 = _ ∧ _ := runValue_result hs _ s
  rw [runControl, if_neg hnamed]
  dsimp only
  rw [← hstate] at hkept ⊢
  generalize runValue bus settings (.ofInt settings.ctrl) s = intended at hkept hresult ⊢
  obtain ⟨⟨relative, value⟩, s'⟩ := intended
  obtain ⟨hothers, hidle, hset, hsilent⟩ :=
    runWrite_sets h db (.ofInt settings.ctrl) relative value s'
  dsimp only at hkept hresult ⊢
  generalize runWrite bus db (.ofInt settings.ctrl) relative value s' = written at hothers hidle hset hsilent ⊢
  obtain ⟨lines, s''⟩ := written
  obtain ⟨hshown, hprinted⟩ := dumpctrl_shows h (.ofInt settings.ctrl) true s''
  dsimp only at hothers hidle hset hsilent ⊢
  refine ⟨hanswer, fun ctrl hne => ?_, fun hnone => ?_,
    fun meant hmeant hdone => ?_,
    fun ctrl reply hline => ?_⟩
  · rw [hshown, hothers ctrl hne, hkept]
  · rcases hresult with ⟨_, hsome, -⟩ | ⟨-, hnothing⟩
    · cases hnone.symm.trans hsome
    · rw [hshown, hidle hnothing, hkept]
  · rcases hresult with ⟨_, hsome, rfl, hrange⟩ | ⟨hnone, -⟩
    · cases hmeant.symm.trans hsome
      rw [hshown, hset (by simp [hrange.1]) hdone]
    · cases hmeant.symm.trans hnone
  · rcases List.mem_append.mp hline with hline | hline
    · exact absurd hline (hsilent ctrl reply)
    · obtain ⟨reply', heq, hvalue⟩ := hprinted _ hline
      cases heq
      exact ⟨rfl, hvalue.trans (by rw [hshown])⟩

end Display

/-- `-r 0x10 -W -20`. -/
def darker : Settings := ⟨0x10, -20, true, false, -1, -1⟩

/-- It changes the brightness of a display from 80 to 60, and prints that. -/
theorem darker_sets :
    (runControl registerDisplay none darker dayDisplay).2.values 0x10 = 60 ∧
      (runControl registerDisplay none darker dayDisplay).2.values 0x12 = 50 ∧
      ∀ ctrl reply, Line.control ctrl reply ∈
        (runControl registerDisplay none darker dayDisplay).1 → reply.value = 60 := by
  have hvalid : darker.Valid :=
    ⟨.inr (by decide), by decide, fun _ => ⟨by decide, rfl⟩, by decide⟩
  obtain ⟨-, hothers, -, hsets, hprinted⟩ :=
    runControl_sets registerDisplay_keeps hvalid (by decide) none dayDisplay
  have hset : (runControl registerDisplay none darker dayDisplay).2.values 0x10 = 60 :=
    hsets 60 (by decide +kernel) (by decide +kernel)
  refine ⟨hset, hothers 0x12 (by decide), fun ctrl reply hline => ?_⟩
  obtain ⟨rfl, hvalue⟩ := hprinted ctrl reply hline
  exact hvalue.trans hset

end DdcControl.Command
