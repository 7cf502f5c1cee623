import DdcControl.Protocol.Framing
import Mathlib.Algebra.Group.Int.Defs

/-!
# How long a transaction waits

A monitor needs `DELAY` after a write before it is spoken to again. The library keeps the
time of the last write and `ddcci_delay` sleeps for what is missing, with the seconds and
the microseconds of the two times taken apart; the scanner's `Device::transfer` does the
same with a `Duration`.

Proved here: the scanner always waits long enough, and exactly when `ddcci_delay` does and
leaves a normalised time behind.
-/

namespace DdcControl.Protocol

/-- `struct timeval`. -/
structure Timeval where
  tvSec : ℤ
  tvUsec : ℤ
  deriving DecidableEq, Repr

namespace Timeval

/-- The microseconds are those of a second. -/
def Normalised (t : Timeval) : Prop := 0 ≤ t.tvUsec ∧ t.tvUsec < 1000000

instance (t : Timeval) : Decidable t.Normalised := inferInstanceAs (Decidable (_ ∧ _))

/-- The time, in microseconds. -/
def micros (t : Timeval) : ℤ := t.tvSec * 1000000 + t.tvUsec

end Timeval

/-- `DELAY`, in microseconds. -/
def delay : ℕ := 45000

/-- A conversion to `unsigned long`. -/
def unsignedLong (x : ℤ) : ℕ := (x % 2 ^ 64).toNat

theorem unsignedLong_of_nonneg {x : ℤ} (h : 0 ≤ x) (hx : x < 2 ^ 64) :
    (unsignedLong x : ℤ) = x := by
  rw [unsignedLong, Int.toNat_of_nonneg (Int.emod_nonneg x (by decide)), Int.emod_eq_of_lt h hx]

/-- Microseconds over a second are carried into the seconds. -/
def carried (tvSec tvUsec : ℤ) : Timeval :=
  if tvUsec > 1000000 then ⟨tvSec + 1, tvUsec - 1000000⟩ else ⟨tvSec, tvUsec⟩

@[simp] theorem carried_micros (tvSec tvUsec : ℤ) :
    (carried tvSec tvUsec).micros = tvSec * 1000000 + tvUsec := by
  unfold carried Timeval.micros
  split
  · dsimp only
    omega
  · rfl

/-- A whole second is not carried. -/
theorem carried_normalised_iff {tvSec tvUsec : ℤ} (h : 0 ≤ tvUsec) (hle : tvUsec < 2000000) :
    (carried tvSec tvUsec).Normalised ↔ tvUsec ≠ 1000000 := by
  unfold carried Timeval.Normalised
  split <;> dsimp only <;> omega

/-- What `ddcci_delay` computes when it has the time: how long it sleeps, and the time then. -/
def delayFrom (last now : Timeval) : ℕ × Timeval :=
  if last.tvSec ≥ now.tvSec - 1 then
    let usec := unsignedLong ((now.tvSec - last.tvSec) * 10000000 + now.tvUsec - last.tvUsec)
    if usec < delay then
      (delay - usec, carried now.tvSec (now.tvUsec + (delay - usec : ℕ)))
    else (0, now)
  else (0, now)

/-- `ddcci_delay`, with what `gettimeofday` gave: how long it sleeps, and `mon->last` after it. -/
def ddcciDelay (clock : Option Timeval) (last : Timeval) (iswrite : Bool) : ℕ × Timeval :=
  match clock with
  | none => (delay, last)
  | some now => ((delayFrom last now).1, if iswrite then (delayFrom last now).2 else last)

/-- What `ddcci_delay` is for: the transaction comes `DELAY` after the last write, and a
write leaves its own time. -/
def Spaced (last now : Timeval) (iswrite : Bool) (slept : ℕ) (last' : Timeval) : Prop :=
  delay ≤ now.micros - last.micros + slept ∧
    (iswrite → last'.Normalised ∧ last'.micros = now.micros + slept)

instance (last now : Timeval) (iswrite : Bool) (slept : ℕ) (last' : Timeval) : Decidable (Spaced last now iswrite slept last') :=
  inferInstanceAs (Decidable (_ ∧ _))

section Cases

variable {last now : Timeval}

/-- Nothing is waited for across a second. -/
theorem delayFrom_of_sec_lt (hlast : last.Normalised) (hnow : now.Normalised)
    (hsec : last.tvSec < now.tvSec) :
    delayFrom last now = (0, now) := by
  obtain ⟨hlast₀, hlast₁⟩ := hlast
  obtain ⟨hnow₀, hnow₁⟩ := hnow
  unfold delayFrom
  by_cases hnear : last.tvSec ≥ now.tvSec - 1
  · have hone : now.tvSec - last.tvSec = 1 := by omega
    have husec := unsignedLong_of_nonneg (x := (now.tvSec - last.tvSec) * 10000000 + now.tvUsec - last.tvUsec)
      (by omega) (by omega)
    rw [if_pos hnear, if_neg (by unfold delay; omega)]
  · rw [if_neg hnear]

/-- Within a second the difference of the microseconds is what has passed. -/
theorem delayFrom_of_sec_eq (hlast : last.Normalised) (hnow : now.Normalised)
    (hle : last.micros ≤ now.micros) (hsec : last.tvSec = now.tvSec) :
    delayFrom last now =
      if now.tvUsec - last.tvUsec < delay then
        ((delay - (now.tvUsec - last.tvUsec)).toNat, carried now.tvSec (last.tvUsec + delay))
      else (0, now) := by
  obtain ⟨hlast₀, hlast₁⟩ := hlast
  obtain ⟨hnow₀, hnow₁⟩ := hnow
  have hle : last.tvUsec ≤ now.tvUsec := by unfold Timeval.micros at hle; omega
  have husec := unsignedLong_of_nonneg (x := (now.tvSec - last.tvSec) * 10000000 + now.tvUsec - last.tvUsec)
    (by omega) (by omega)
  unfold delayFrom
  rw [if_pos (by omega)]
  dsimp only
  by_cases hless : now.tvUsec - last.tvUsec < delay
  · have hthen : now.tvUsec +
        ((delay - unsignedLong ((now.tvSec - last.tvSec) * 10000000 + now.tvUsec - last.tvUsec) : ℕ) : ℤ) =
        last.tvUsec + delay := by omega
    rw [if_pos (by omega), if_pos hless, hthen]
    congr 1
    omega
  · rw [if_neg (by omega), if_neg hless]

end Cases

/-- **When `ddcci_delay` waits long enough and leaves a normalised time.** What has passed
since the last write must be long enough already, or have passed within one second, in
which a write must not come to the very end. -/
theorem ddcciDelay_spaced_iff {last now : Timeval} (hlast : last.Normalised) (hnow : now.Normalised)
    (hle : last.micros ≤ now.micros) (iswrite : Bool) :
    Spaced last now iswrite (ddcciDelay (some now) last iswrite).1 (ddcciDelay (some now) last iswrite).2 ↔
      delay ≤ now.micros - last.micros ∨
        last.tvSec = now.tvSec ∧ ¬(iswrite ∧ last.tvUsec + delay = 1000000) := by
  have hlast' := hlast
  have hnow' := hnow
  unfold Timeval.Normalised at hlast' hnow'
  have hmicros : now.micros - last.micros = (now.tvSec - last.tvSec) * 1000000 + (now.tvUsec - last.tvUsec) := by
    unfold Timeval.micros
    omega
  rcases lt_or_eq_of_le (show last.tvSec ≤ now.tvSec by unfold Timeval.micros at hle; omega) with hsec | hsec
  · -- nothing is slept, so the time that has passed must do
    simp only [Spaced, ddcciDelay, delayFrom_of_sec_lt hlast hnow hsec]
    constructor
    · exact fun ⟨h, _⟩ => Or.inl (by omega)
    · rintro (h | ⟨h, -⟩)
      · exact ⟨by omega, fun hwrite => by simp [hwrite, hnow]⟩
      · omega
  · simp only [Spaced, ddcciDelay, delayFrom_of_sec_eq hlast hnow hle hsec]
    have hpassed : now.micros - last.micros = now.tvUsec - last.tvUsec := by rw [hmicros, hsec]; omega
    rw [hpassed]
    by_cases hless : now.tvUsec - last.tvUsec < delay
    · simp only [if_pos hless]
      have hslept : ((delay - (now.tvUsec - last.tvUsec)).toNat : ℤ) = delay - (now.tvUsec - last.tvUsec) :=
        Int.toNat_of_nonneg (by omega)
      have hend := @carried_normalised_iff now.tvSec (last.tvUsec + delay)
        (by unfold delay; omega) (by unfold delay; omega)
      have hspaced : (delay : ℤ) ≤ now.tvUsec - last.tvUsec + (delay - (now.tvUsec - last.tvUsec)).toNat := by omega
      have hnext : now.tvSec * 1000000 + (last.tvUsec + delay) =
          now.micros + (delay - (now.tvUsec - last.tvUsec)).toNat := by unfold Timeval.micros; omega
      constructor
      · rintro ⟨-, hafter⟩
        refine Or.inr ⟨hsec, fun ⟨hwrite, hlate⟩ => ?_⟩
        have hcarried := (hafter hwrite).1
        rw [if_pos hwrite] at hcarried
        exact hend.mp hcarried hlate
      · rintro (h | ⟨-, hnot⟩)
        · omega
        refine ⟨hspaced, fun hwrite => ?_⟩
        rw [if_pos hwrite, carried_micros, hnext]
        exact ⟨hend.mpr fun hlate => hnot ⟨hwrite, hlate⟩, rfl⟩
    · simp only [if_neg hless]
      exact ⟨fun _ => Or.inl (by omega), fun _ => ⟨by omega, fun hwrite => by simp [hwrite, hnow]⟩⟩

/-- A write that was asked for 20 ms after another within a second waits the other 25. -/
theorem ddcciDelay_spaced_iff_within :
    Spaced ⟨10, 100000⟩ ⟨10, 120000⟩ true (ddcciDelay (some ⟨10, 120000⟩) ⟨10, 100000⟩ true).1
      (ddcciDelay (some ⟨10, 120000⟩) ⟨10, 100000⟩ true).2 :=
  (ddcciDelay_spaced_iff (by decide) (by decide) (by decide) true).mpr (by decide)

/-- A microsecond that crosses a second counts as nine seconds; a wait to the very end of a
second leaves a million microseconds. -/
theorem ddcciDelay_not_spaced :
    (Timeval.Normalised ⟨10, 999999⟩ ∧ Timeval.Normalised ⟨11, 0⟩ ∧ Timeval.micros ⟨10, 999999⟩ ≤ Timeval.micros ⟨11, 0⟩ ∧
      ¬ Spaced ⟨10, 999999⟩ ⟨11, 0⟩ false (ddcciDelay (some ⟨11, 0⟩) ⟨10, 999999⟩ false).1
        (ddcciDelay (some ⟨11, 0⟩) ⟨10, 999999⟩ false).2) ∧
    Timeval.Normalised ⟨10, 955000⟩ ∧ Timeval.Normalised ⟨10, 960000⟩ ∧
      ddcciDelay (some ⟨10, 960000⟩) ⟨10, 955000⟩ true = (40000, ⟨10, 1000000⟩) ∧
      ¬ Spaced ⟨10, 955000⟩ ⟨10, 960000⟩ true (ddcciDelay (some ⟨10, 960000⟩) ⟨10, 955000⟩ true).1
        (ddcciDelay (some ⟨10, 960000⟩) ⟨10, 955000⟩ true).2 := by
  decide

/-! ### The scanner -/

/-- How long `Device::transfer` sleeps: `DELAY.saturating_sub(last_write.elapsed())`. -/
def transferDelay (lastWrite : Option ℕ) (now : ℕ) : ℕ :=
  match lastWrite with
  | none => 0
  | some lastWrite => delay - (now - lastWrite)

/-- The scanner always waits long enough. -/
theorem transferDelay_spaced {lastWrite now : ℕ} (h : lastWrite ≤ now) :
    lastWrite + delay ≤ now + transferDelay (some lastWrite) now := by
  dsimp only [transferDelay]
  omega

end DdcControl.Protocol
