import DdcControl.Capabilities.Received
import DdcControl.Library.Fallible
import Mathlib.Data.Int.ModEq

/-!
# Numbers of the command line

`-r`, `-w`, `-W` and `-t` take numbers in C notation. `strtol` reads them as a 64-bit
`long`, saturated, which is stored in an `int` before its range is tested.

## The model

The locals of `main` that hold the numbers are `Settings`, in `ℤ`; storing in an `int` is
`Int.bmod (2 ^ 32)`. Other options leave them alone. Memory is not exhausted: `strdup`
does not fail. A monitor is what its calls return, one after the other.

`Settings.meant` is what an option means: a number out of its range is refused, and
another is used as it is.

## What is proved

* `step_eq_ok` — an option is accepted for the number that its `int` holds.
* `controlCalls_eq` — with settings in range, a monitor is called with just these numbers.
* `commandLine_exact_iff` — an option means what it says exactly where no other number of
  its range has the same 32 low bits.
-/

namespace DdcControl.Command

open Capabilities Fallible

/-! ### Reading numbers -/

/-- A number as the `long` that `strtol` returns. -/
def saturate (n : ℤ) : ℤ := max (-2 ^ 63) (min n (2 ^ 63 - 1))

/-- A number as the `int` that holds this `long`. -/
def asInt (n : ℤ) : ℤ := (saturate n).bmod (2 ^ 32)

/-- `strtol(s, &endptr, 0)`, stored in an `int`, and `endptr - s`. -/
def strtolInt (s : List UInt8) : ℤ × ℕ :=
  match strtol s with
  | some (n, used) => (asInt n, used)
  | none => (0, 0)

/-- The options with numbers. -/
inductive Flag where
  | r
  | w
  | W
  | t
  deriving DecidableEq, Repr

/-- What `main` does: its locals. -/
structure Settings where
  ctrl : ℤ
  value : ℤ
  relative : Bool
  toggle : Bool
  toggleValue1 : ℤ
  toggleValue2 : ℤ
  deriving DecidableEq, Repr

/-- The locals before the first option. -/
def Settings.initial : Settings := ⟨-1, -1, false, false, -1, -1⟩

/-- A message about an argument. -/
def quoted (argument : List UInt8) (message : String) : List UInt8 := utf8 "'" ++ argument ++ utf8 ("'" ++ message ++ "\n")

/-- What stands before the separator of a toggle pair. -/
def togglePair (optarg : List UInt8) : List UInt8 := optarg.takeWhile (· ≠ ','.toUInt8)

/-- What follows it. -/
def afterSeparator (optarg : List UInt8) : List UInt8 := (optarg.dropWhile (· ≠ ','.toUInt8)).drop 1

/-- The option loop of `main`, for one option. -/
def Settings.step (s : Settings) : Flag → List UInt8 → Except (List UInt8) Settings
  | .r, optarg => do
    let ctrl := (strtolInt optarg).1
    reject (ctrl < 0 || ctrl > 255) (quoted optarg " does not seem to be a valid register name")
    return { s with ctrl }
  | .w, optarg => do
    reject (s.ctrl = -1) (utf8 "You cannot use -w parameter without -r.\n")
    reject (s.relative || s.toggle) (utf8 "You cannot use -w parameter with -W or -t.\n")
    let value := (strtolInt optarg).1
    reject (value < 0 || value > 65535) (quoted optarg " does not seem to be a valid value.")
    return { s with value }
  | .W, optarg => do
    reject (s.ctrl = -1) (utf8 "You cannot use -W parameter without -r.\n")
    reject (s.value ≥ 0 || s.toggle) (utf8 "You cannot use -W parameter with -w or -t.\n")
    let value := (strtolInt optarg).1
    reject (value < -65535 || value > 65535) (quoted optarg " does not seem to be a valid value.")
    return { s with value, relative := true }
  | .t, optarg => do
    reject (s.ctrl = -1) (utf8 "You cannot use -t parameter without -r.\n")
    reject (s.value ≥ 0 || s.relative) (utf8 "You cannot use -t parameter with -w or -W.\n")
    reject (!optarg.contains ','.toUInt8 || (togglePair optarg).isEmpty || (afterSeparator optarg).isEmpty)
      (quoted optarg " does not seem to be a valid toggle pair. Use value1,value2.")
    let (toggleValue1, endptr) := strtolInt (togglePair optarg)
    reject (endptr ≠ (togglePair optarg).length || toggleValue1 < 0 || toggleValue1 > 65535)
      (quoted (togglePair optarg) " does not seem to be a valid value.")
    let (toggleValue2, endptr) := strtolInt (afterSeparator optarg)
    reject (endptr ≠ (afterSeparator optarg).length || toggleValue2 < 0 || toggleValue2 > 65535)
      (quoted (afterSeparator optarg) " does not seem to be a valid value.")
    return { s with toggle := true, toggleValue1, toggleValue2 }

/-! ### Calling a monitor -/

/-- A call of `ddcci_readctrl` or `ddcci_writectrl`, with the numbers it is given. -/
inductive Call (κ ν : Type) where
  | read (ctrl : κ)
  | write (ctrl : κ) (value : ν)
  deriving DecidableEq, Repr

/-- What the calls of a monitor return, if they succeed: a value, and its maximum. -/
abbrev Monitor : Type := ℕ → Option (UInt16 × UInt16)

/-- `RETRYS`. -/
def retrys : ℕ := 3

/-- The loop that reads a control until it succeeds. -/
def readRetry {α : Type} (mon : Monitor) (read : α) : ℕ → List α → List α × Option (UInt16 × UInt16)
  | 0, calls => (calls, none)
  | retry + 1, calls =>
    match mon calls.length with
    | some reading => (calls ++ [read], some reading)
    | none => readRetry mon read retry (calls ++ [read])

/-- `current_value` after the toggle. -/
def Settings.toggled (s : Settings) : Option (UInt16 × UInt16) → ℤ
  | none => -1
  | some (oldValue, maximum) =>
    let value := if (oldValue.toNat : ℤ) = s.toggleValue1 then s.toggleValue2 else s.toggleValue1
    if value > maximum.toNat then -1 else value

/-- `current_relative` and `current_value` after the relative change. -/
def shifted (value : ℤ) : Option (UInt16 × UInt16) → Bool × ℤ
  | none => (false, -1)
  | some (oldValue, maximum) =>
    let value := value + oldValue.toNat
    if value < 0 then (false, value) else if value > maximum.toNat then (false, -1) else (true, value)

/-- What `main` does with a control on a monitor. -/
def Settings.controlCalls (s : Settings) (mon : Monitor) : List (Call UInt8 UInt16) :=
  if s.ctrl < 0 then []
  else
    let ctrl := UInt8.ofInt s.ctrl
    let (calls, value) :=
      if s.toggle then
        let (calls, reading) := readRetry mon (.read ctrl) retrys []
        (calls, s.toggled reading)
      else ([], s.value)
    let (calls, relative, value) :=
      if s.relative then
        let (calls, reading) := readRetry mon (.read ctrl) retrys calls
        (calls, shifted value reading)
      else (calls, false, value)
    let calls := if value ≥ 0 || relative then calls ++ [.write ctrl (UInt16.ofInt value)] else calls
    (readRetry mon (.read ctrl) retrys calls).1 -- `dumpctrl`

/-! ### What numbers mean -/

/-- The numbers an option takes. -/
def Flag.InRange : Flag → ℤ → Prop
  | .r, n => 0 ≤ n ∧ n ≤ 255
  | .w, n => 0 ≤ n ∧ n ≤ 65535
  | .W, n => -65535 ≤ n ∧ n ≤ 65535
  | .t, n => 0 ≤ n ∧ n ≤ 65535

instance : ∀ (flag : Flag) (n : ℤ), Decidable (flag.InRange n)
  | .r, _ | .w, _ | .W, _ | .t, _ => inferInstanceAs (Decidable (_ ∧ _))

/-- Where an option may stand. -/
def Settings.allows (s : Settings) : Flag → Bool
  | .r => true
  | .w => s.ctrl ≠ -1 && !(s.relative || s.toggle)
  | .W => s.ctrl ≠ -1 && !(s.value ≥ 0 || s.toggle)
  | .t => s.ctrl ≠ -1 && !(s.value ≥ 0 || s.relative)

/-- The settings with the numbers of an option. -/
def Settings.set (s : Settings) : Flag → List ℤ → Option Settings
  | .r, [n] => some { s with ctrl := n }
  | .w, [n] => some { s with value := n }
  | .W, [n] => some { s with value := n, relative := true }
  | .t, [n, m] => some { s with toggle := true, toggleValue1 := n, toggleValue2 := m }
  | _, _ => none

/-- What an option with numbers means. -/
def Settings.meant (s : Settings) (flag : Flag) (numbers : List ℤ) : Option Settings :=
  if s.allows flag ∧ ∀ n ∈ numbers, flag.InRange n then s.set flag numbers else none

/-- The whole text is a number in C notation. -/
def IsNumber (text : List UInt8) (n : ℤ) : Prop := strtol text = some (n, text.length)

instance (text : List UInt8) (n : ℤ) : Decidable (IsNumber text n) := inferInstanceAs (Decidable (_ = _))

/-- The argument of an option denotes numbers: one, or two with a comma between them. -/
def Denotes : Flag → List UInt8 → List ℤ → Prop
  | .t, optarg, [n, m] => IsNumber (togglePair optarg) n ∧ IsNumber (afterSeparator optarg) m
  | .t, _, _ => False
  | _, optarg, [n] => IsNumber optarg n
  | _, _, _ => False

/-- An argument means what it says: it is refused, or its numbers are in range and used. -/
def Meant (flag : Flag) (optarg : List UInt8) (numbers : List ℤ) : Prop :=
  ∀ s s' : Settings, s.step flag optarg = .ok s' → s.meant flag numbers = some s'

/-- The numbers of the option's range that are congruent modulo `2 ^ 32` to the saturated
numbers can only be the numbers themselves. -/
def Exact (flag : Flag) (numbers : List ℤ) : Prop :=
  ∀ others, List.Forall₂ (fun n m => flag.InRange m ∧ m ≡ saturate n [ZMOD 2 ^ 32]) numbers others → others = numbers

/-! ### Stored numbers -/

/-- A number of a range is the one that is stored if and only if it is congruent to it. -/
theorem inRange_asInt {flag : Flag} {n m : ℤ} :
    flag.InRange m ∧ m ≡ saturate n [ZMOD 2 ^ 32] ↔ flag.InRange (asInt n) ∧ m = asInt n := by
  have hstored : asInt n ≡ saturate n [ZMOD 2 ^ 32] := Int.bmod_emod
  have hlow : -2 ^ 31 ≤ asInt n := by
    have := Int.le_bmod (x := saturate n) (m := 2 ^ 32) (by decide)
    unfold asInt
    omega
  have hhigh : asInt n < 2 ^ 31 := by
    have := Int.bmod_lt (x := saturate n) (m := 2 ^ 32) (by decide)
    unfold asInt
    omega
  have hrange : flag.InRange m → -2 ^ 31 ≤ m ∧ m < 2 ^ 31 := by
    cases flag <;> simp only [Flag.InRange] <;> omega
  constructor
  · rintro ⟨hm, hcongruent⟩
    obtain ⟨hmlow, hmhigh⟩ := hrange hm
    have heq : m = asInt n := by
      have := hcongruent.trans hstored.symm
      unfold Int.ModEq at this
      omega
    exact ⟨heq ▸ hm, heq⟩
  · rintro ⟨hm, rfl⟩
    exact ⟨hm, hstored⟩

theorem forall₂_inRange {flag : Flag} {numbers others : List ℤ} :
    List.Forall₂ (fun n m => flag.InRange m ∧ m ≡ saturate n [ZMOD 2 ^ 32]) numbers others ↔
      others = numbers.map asInt ∧ ∀ n ∈ numbers, flag.InRange (asInt n) := by
  simp only [inRange_asInt]
  induction numbers generalizing others with
  | nil => simp
  | cons n numbers ih =>
    rw [List.forall₂_cons_left_iff, List.forall_mem_cons, List.map_cons]
    constructor
    · rintro ⟨m, rest, ⟨hn, rfl⟩, hrest, rfl⟩
      obtain ⟨rfl, hall⟩ := ih.mp hrest
      exact ⟨rfl, hn, hall⟩
    · rintro ⟨rfl, hn, hall⟩
      exact ⟨_, _, ⟨hn, rfl⟩, ih.mpr ⟨rfl, hall⟩, rfl⟩

theorem exact_iff {flag : Flag} {numbers : List ℤ} :
    Exact flag numbers ↔ ((∀ n ∈ numbers, flag.InRange (asInt n)) → numbers.map asInt = numbers) := by
  simp only [Exact, forall₂_inRange]
  exact ⟨fun h hall => h _ ⟨rfl, hall⟩, fun h others hothers => hothers.1.trans (h hothers.2)⟩

/-- **A number that an `int` holds is exact.** -/
theorem exact_of_int {flag : Flag} {numbers : List ℤ}
    (h : ∀ n ∈ numbers, -2 ^ 31 ≤ n ∧ n < 2 ^ 31) :
    Exact flag numbers := by
  refine exact_iff.mpr fun _ => ?_
  have hid : ∀ n ∈ numbers, asInt n = id n := by
    intro n hn
    obtain ⟨hlow, hhigh⟩ := h n hn
    have hsaturate : saturate n = n := by
      unfold saturate
      omega
    rw [asInt, hsaturate]
    exact Int.bmod_eq_of_le (by omega) (by omega)
  rw [List.map_congr_left hid, List.map_id]

/-! ### One option -/

theorem strtolInt_number {text : List UInt8} {n : ℤ} (h : IsNumber text n) :
    strtolInt text = (asInt n, text.length) := by
  rw [strtolInt, h]

theorem IsNumber.ne_nil {text : List UInt8} {n : ℤ} (h : IsNumber text n) : text ≠ [] := by
  rintro rfl
  cases h

/-- A check before the rest. -/
theorem reject_bind_eq_ok {ε α : Type} {condition : Bool} {e : ε} {k : Unit → Except ε α} {a : α} :
    (reject condition e >>= k) = .ok a ↔ condition = false ∧ k () = .ok a := by
  rw [bind_eq_ok]
  exact ⟨fun ⟨_, hcheck, hrest⟩ => ⟨reject_eq_ok.mp hcheck, hrest⟩,
    fun ⟨hcheck, hrest⟩ => ⟨(), reject_eq_ok.mpr hcheck, hrest⟩⟩

/-- Something follows the separator only if there is one. -/
theorem separator_mem {optarg : List UInt8} (h : afterSeparator optarg ≠ []) :
    ','.toUInt8 ∈ optarg := by
  by_contra hnone
  refine h ?_
  rw [afterSeparator, List.dropWhile_eq_nil_iff.mpr, List.drop_nil]
  intro byte hbyte
  rw [decide_eq_true_iff]
  rintro rfl
  exact hnone hbyte

/-- **An option is accepted where it may stand, for the stored numbers.** -/
theorem step_eq_ok {s s' : Settings} {flag : Flag} {optarg : List UInt8} {numbers : List ℤ}
    (h : Denotes flag optarg numbers) : s.step flag optarg = .ok s' ↔
      s.allows flag = true ∧ (∀ n ∈ numbers, flag.InRange (asInt n)) ∧
      s.set flag (numbers.map asInt) = some s' := by
  cases flag with
  | r | w | W =>
    match numbers, h with
    | [n], h =>
      have hn : strtolInt optarg = (asInt n, optarg.length) := strtolInt_number h
      simp only [Settings.step, hn, reject_bind_eq_ok, Settings.allows, Settings.set, Flag.InRange,
        List.map_cons, List.map_nil, List.forall_mem_singleton]
      simp [pure, Except.pure, and_assoc]
  | t =>
    match numbers, h with
    | [n, m], h =>
      obtain ⟨hn, hm⟩ := h
      have hcomma := separator_mem hm.ne_nil
      simp only [Settings.step, strtolInt_number hn, strtolInt_number hm, reject_bind_eq_ok,
        Settings.allows, Settings.set, Flag.InRange, List.map_cons, List.map_nil, List.forall_mem_cons]
      simp [pure, Except.pure, and_assoc, hcomma, hn.ne_nil, hm.ne_nil]

/-- The numbers that the settings have for an option. -/
def Settings.numbers (s : Settings) : Flag → List ℤ
  | .r => [s.ctrl]
  | .w | .W => [s.value]
  | .t => [s.toggleValue1, s.toggleValue2]

theorem numbers_set {s s' : Settings} : ∀ {flag : Flag} {numbers : List ℤ}, s.set flag numbers = some s' →
    s'.numbers flag = numbers
  | .r, [_], rfl => rfl
  | .w, [_], rfl => rfl
  | .W, [_], rfl => rfl
  | .t, [_, _], rfl => rfl

/-- **An argument means what it says exactly if its numbers are exact.** -/
theorem meant_iff {flag : Flag} {optarg : List UInt8} {numbers : List ℤ}
    (h : Denotes flag optarg numbers) :
    Meant flag optarg numbers ↔ Exact flag numbers := by
  rw [exact_iff]
  constructor
  · intro hmeant hall
    -- every option may stand after `-r 0`
    have hallows : ({ Settings.initial with ctrl := 0 } : Settings).allows flag = true := by cases flag <;> rfl
    have hset : ∃ s', ({ Settings.initial with ctrl := 0 } : Settings).set flag (numbers.map asInt) = some s' := by
      cases flag with
      | r | w | W => match numbers, h with
        | [n], _ => exact ⟨_, rfl⟩
      | t => match numbers, h with
        | [n, m], _ => exact ⟨_, rfl⟩
    obtain ⟨s', hs'⟩ := hset
    have hsame := hmeant _ s' ((step_eq_ok h).mpr ⟨hallows, hall, hs'⟩)
    rw [Settings.meant, Option.ite_none_right_eq_some] at hsame
    exact (numbers_set hs').symm.trans (numbers_set hsame.2)
  · intro hexact s s' hstep
    obtain ⟨hallows, hall, hset⟩ := (step_eq_ok h).mp hstep
    have heq := hexact hall
    rw [heq] at hset
    have hrange : ∀ n ∈ numbers, flag.InRange n := by
      intro n hn
      rw [← heq] at hn
      obtain ⟨m, hm, rfl⟩ := List.mem_map.mp hn
      exact hall m hm
    rw [Settings.meant, if_pos ⟨hallows, hrange⟩, hset]

/-! ### The command line -/

/-- An option with the numbers that its argument denotes. -/
structure Argument where
  flag : Flag
  optarg : List UInt8
  numbers : List ℤ
  denotes : Denotes flag optarg numbers

/-- The option loop of `main`. -/
def parse (arguments : List Argument) : Except (List UInt8) Settings :=
  arguments.foldlM (fun s argument => s.step argument.flag argument.optarg) .initial

/-- What the options mean, one after the other. -/
def meaning (arguments : List Argument) : Option Settings :=
  arguments.foldlM (fun s argument => s.meant argument.flag argument.numbers) .initial

/-- **Exact arguments are refused, or set what they mean.** -/
theorem parse_meaning {arguments : List Argument}
    (h : ∀ argument ∈ arguments, Exact argument.flag argument.numbers) {s : Settings}
    (hparse : parse arguments = .ok s) : meaning arguments = some s := by
  have hrun : ∀ (before : Settings),
      arguments.foldlM (fun s argument => s.step argument.flag argument.optarg) before = .ok s →
        arguments.foldlM (fun s argument => s.meant argument.flag argument.numbers) before = some s := by
    clear hparse
    induction arguments with
    | nil =>
      intro before hrun
      cases hrun
      rfl
    | cons argument arguments ih =>
      intro before hrun
      rw [List.forall_mem_cons] at h
      obtain ⟨next, hstep, hrest⟩ := bind_eq_ok.mp hrun
      rw [List.foldlM_cons, (meant_iff argument.denotes).mpr h.1 before next hstep]
      exact ih h.2 next hrest
  exact hrun .initial hparse

/-- Settings in range, with at most one way to change a control. -/
structure Settings.Valid (s : Settings) : Prop where
  ctrl : s.ctrl = -1 ∨ Flag.r.InRange s.ctrl
  value : s.relative = false → s.value = -1 ∨ Flag.w.InRange s.value
  relative : s.relative = true → Flag.W.InRange s.value ∧ s.toggle = false
  toggle : s.toggle = true → s.value < 0 ∧ Flag.t.InRange s.toggleValue1 ∧ Flag.t.InRange s.toggleValue2

theorem meant_valid {s s' : Settings} {flag : Flag} {numbers : List ℤ} (hs : s.Valid)
    (h : s.meant flag numbers = some s') : s'.Valid := by
  rw [Settings.meant, Option.ite_none_right_eq_some] at h
  obtain ⟨⟨hallows, hrange⟩, hset⟩ := h
  obtain ⟨hctrl, hvalue, hrelative, htoggle⟩ := hs
  match flag, numbers, hset with
  | .r, [n], rfl => exact ⟨.inr (hrange n (List.mem_singleton.mpr rfl)), hvalue, hrelative, htoggle⟩
  | .w, [n], rfl =>
    simp only [Settings.allows, Bool.and_eq_true, Bool.not_eq_true',
      Bool.or_eq_false_iff] at hallows
    refine ⟨hctrl, fun _ => .inr (hrange n (List.mem_singleton.mpr rfl)), fun h => ?_, fun h => ?_⟩
    · cases hallows.2.1.symm.trans h
    · cases hallows.2.2.symm.trans h
  | .W, [n], rfl =>
    simp only [Settings.allows, Bool.and_eq_true, Bool.not_eq_true',
      Bool.or_eq_false_iff] at hallows
    refine ⟨hctrl, fun h => (nomatch h), fun _ => ⟨hrange n (List.mem_singleton.mpr rfl),
      hallows.2.2⟩, fun h => ?_⟩
    cases hallows.2.2.symm.trans h
  | .t, [n, m], rfl =>
    simp only [Settings.allows, Bool.and_eq_true, Bool.not_eq_true', Bool.or_eq_false_iff,
      decide_eq_false_iff_not, not_le] at hallows
    refine ⟨hctrl, hvalue, fun h => ?_, fun _ => ⟨hallows.2.1, hrange n (by simp), hrange m (by simp)⟩⟩
    cases hallows.2.2.symm.trans h

theorem meaning_valid {arguments : List Argument} {s : Settings}
    (h : meaning arguments = some s) : s.Valid := by
  have hrun : ∀ (before : Settings), before.Valid →
      arguments.foldlM (fun s argument => s.meant argument.flag argument.numbers) before = some s →
        s.Valid := by
    clear h
    induction arguments with
    | nil =>
      intro before hbefore hrun
      cases hrun
      exact hbefore
    | cons argument arguments ih =>
      intro before hbefore hrun
      obtain ⟨next, hstep, hrest⟩ := Option.bind_eq_some_iff.mp hrun
      exact ih next (meant_valid hbefore hstep) hrest
  exact hrun .initial ⟨.inl rfl, fun _ => .inl rfl, fun h => (nomatch h), fun h => (nomatch h)⟩ h

/-! ### What a monitor is told -/

/-- What is to happen to a control. -/
inductive Change where
  | keep
  | set (value : ℤ)
  | shift (change : ℤ)
  | toggle (value1 value2 : ℤ)

/-- What the settings ask for. -/
def Settings.change (s : Settings) : Change :=
  if s.toggle then .toggle s.toggleValue1 s.toggleValue2
  else if s.relative then .shift s.value
  else if s.value ≥ 0 then .set s.value
  else .keep

/-- The value to be written, after a reading where one is needed: none beyond the ends. -/
def Change.result : Change → Option (UInt16 × UInt16) → Option ℤ
  | .keep, _ => none
  | .set value, _ => some value
  | .shift _, none => none
  | .shift change, some (oldValue, maximum) =>
    if 0 ≤ change + oldValue.toNat ∧ change + oldValue.toNat ≤ maximum.toNat then some (change + oldValue.toNat) else none
  | .toggle _ _, none => none
  | .toggle value1 value2, some (oldValue, maximum) =>
    let value := if oldValue.toNat = value1 then value2 else value1
    if value ≤ maximum.toNat then some value else none

/-- The calls that change a control. -/
def Change.calls (change : Change) (ctrl : ℤ) (mon : Monitor) : List (Call ℤ ℤ) :=
  let (calls, reading) :=
    match change with
    | .keep | .set _ => ([], none)
    | .shift _ | .toggle _ _ => readRetry mon (Call.read ctrl) retrys []
  let calls :=
    match change.result reading with
    | some value => calls ++ [Call.write ctrl value]
    | none => calls
  (readRetry mon (Call.read ctrl) retrys calls).1

/-- The numbers of a call. -/
def Call.numbers : Call UInt8 UInt16 → Call ℤ ℤ
  | .read ctrl => .read ctrl.toNat
  | .write ctrl value => .write ctrl.toNat value.toNat

/-- Reading does not look at what the calls are. -/
theorem readRetry_map {α β : Type} (f : α → β) (mon : Monitor) (read : α) (retry : ℕ)
    (calls : List α) :
    readRetry mon (f read) retry (calls.map f) =
      ((readRetry mon read retry calls).1.map f, (readRetry mon read retry calls).2) := by
  induction retry generalizing calls with
  | zero => rfl
  | succ retry ih =>
    rw [readRetry, readRetry, List.length_map]
    cases mon calls.length with
    | some reading => simp
    | none =>
      have := ih (calls ++ [read])
      rwa [List.map_append, List.map_singleton] at this

theorem toNat_byte {n : ℤ} (h : Flag.r.InRange n) : ((UInt8.ofInt n).toNat : ℤ) = n := by
  obtain ⟨hlow, hhigh⟩ := h
  rw [UInt8.ofInt, UInt8.toNat_ofNat']
  omega

theorem toNat_word {n : ℤ} (h : Flag.w.InRange n) : ((UInt16.ofInt n).toNat : ℤ) = n := by
  obtain ⟨hlow, hhigh⟩ := h
  rw [UInt16.ofInt, UInt16.toNat_ofNat']
  omega

/-- Reading with the byte of a control is reading the control. -/
theorem readRetry_numbers {ctrl : ℤ} (hctrl : Flag.r.InRange ctrl) (mon : Monitor)
    (calls : List (Call UInt8 UInt16)) :
    readRetry mon (.read ctrl) retrys (calls.map Call.numbers) =
      ((readRetry mon (.read (UInt8.ofInt ctrl)) retrys calls).1.map Call.numbers,
        (readRetry mon (.read (UInt8.ofInt ctrl)) retrys calls).2) := by
  have hread : Call.numbers (.read (UInt8.ofInt ctrl)) = .read ctrl := congrArg Call.read (toNat_byte hctrl)
  have hmap := readRetry_map Call.numbers mon (.read (UInt8.ofInt ctrl)) retrys calls
  rwa [hread] at hmap

/-- So is reading it after it is written. -/
theorem readRetry_written {ctrl n : ℤ} (hctrl : Flag.r.InRange ctrl) (hn : Flag.w.InRange n)
    (mon : Monitor) (calls : List (Call UInt8 UInt16)) :
    (readRetry mon (.read (UInt8.ofInt ctrl)) retrys
        (calls ++ [.write (UInt8.ofInt ctrl) (UInt16.ofInt n)])).1.map Call.numbers =
      (readRetry mon (.read ctrl) retrys (calls.map Call.numbers ++ [.write ctrl n])).1 := by
  have hwrite : Call.numbers (.write (UInt8.ofInt ctrl) (UInt16.ofInt n)) = .write ctrl n :=
    congrArg₂ Call.write (toNat_byte hctrl) (toNat_word hn)
  have hcalls := readRetry_numbers hctrl mon (calls ++ [.write (UInt8.ofInt ctrl) (UInt16.ofInt n)])
  rw [List.map_append, List.map_singleton, hwrite] at hcalls
  rw [hcalls]

theorem change_toggle {s : Settings} (htoggle : s.toggle = true) :
    s.change = .toggle s.toggleValue1 s.toggleValue2 := if_pos htoggle

section Calls

variable {s : Settings} (hs : s.Valid) (mon : Monitor)
include hs

theorem change_shift (hrelative : s.relative = true) : s.change = .shift s.value := by
  rw [Settings.change, (hs.relative hrelative).2, if_neg (by simp), if_pos hrelative]

/-- **A toggled value is the one that is meant**, or none is written. -/
theorem toggled_result (htoggle : s.toggle = true) (reading : Option (UInt16 × UInt16)) :
    (Flag.w.InRange (s.toggled reading) ∧ s.change.result reading = some (s.toggled reading)) ∨
      (s.toggled reading < 0 ∧ s.change.result reading = none) := by
  obtain ⟨-, ⟨hlow1, hhigh1⟩, hlow2, hhigh2⟩ := hs.toggle htoggle
  rw [change_toggle htoggle]
  match reading with
  | none => exact .inr ⟨(by decide : (-1 : ℤ) < 0), rfl⟩
  | some (oldValue, maximum) =>
    simp only [Settings.toggled, Change.result, Flag.InRange]
    split_ifs <;> simp <;> omega

/-- **A shifted value is the one that is meant**, or none is written. -/
theorem shifted_result (hrelative : s.relative = true) (reading : Option (UInt16 × UInt16)) :
    (Flag.w.InRange (shifted s.value reading).2 ∧
        s.change.result reading = some (shifted s.value reading).2) ∨
      ((shifted s.value reading).2 < 0 ∧ (shifted s.value reading).1 = false ∧ s.change.result reading = none) := by
  obtain ⟨⟨hlow, hhigh⟩, htoggle⟩ := hs.relative hrelative
  rw [change_shift hs hrelative]
  match reading with
  | none => exact .inr ⟨(by decide : (-1 : ℤ) < 0), rfl, rfl⟩
  | some (oldValue, maximum) =>
    have hmaximum := maximum.toNat_lt
    simp only [shifted, Change.result, Flag.InRange]
    split_ifs <;> simp <;> omega

/-- **A monitor is told just the numbers of the settings.** -/
theorem controlCalls_eq : (s.controlCalls mon).map Call.numbers =
    if s.ctrl = -1 then [] else s.change.calls s.ctrl mon := by
  rcases hs.ctrl with hnone | hctrl
  · rw [Settings.controlCalls, if_pos (by omega), if_pos hnone]
    rfl
  obtain ⟨first, hreading⟩ : ∃ first, readRetry mon
      (.read (UInt8.ofInt s.ctrl) : Call UInt8 UInt16) retrys [] = first :=
    ⟨_, rfl⟩
  have hretry := readRetry_numbers hctrl mon
  have hfirst := hretry []
  rw [List.map_nil, hreading] at hfirst
  have hctrlLow := hctrl.1
  rw [Settings.controlCalls, if_neg (by omega), if_neg (by omega)]
  cases htoggle : s.toggle with
  | true =>
    have hrelative : s.relative = false := by
      cases hrelative : s.relative with
      | false => rfl
      | true => cases htoggle.symm.trans (hs.relative hrelative).2
    have hresult := toggled_result hs htoggle first.2
    rw [change_toggle htoggle] at hresult ⊢
    unfold Change.calls
    simp only [hrelative, if_true, Bool.false_eq_true, if_false, Bool.or_false, hreading, hfirst]
    obtain ⟨hrange, hresult⟩ | ⟨hnegative, hresult⟩ := hresult
    · simp only [hresult, ge_iff_le, decide_eq_true hrange.1, if_true]
      exact readRetry_written hctrl hrange mon _
    · simp only [hresult, ge_iff_le, decide_eq_false (not_le.mpr hnegative), Bool.false_eq_true,
        if_false, hretry]
  | false =>
    cases hrelative : s.relative with
    | true =>
      have hresult := shifted_result hs hrelative first.2
      rw [change_shift hs hrelative] at hresult ⊢
      unfold Change.calls
      simp only [if_true, Bool.false_eq_true, if_false, hreading, hfirst]
      obtain ⟨hrange, hresult⟩ | ⟨hnegative, hkeep, hresult⟩ := hresult
      · simp only [hresult, ge_iff_le, decide_eq_true hrange.1, Bool.true_or, if_true]
        exact readRetry_written hctrl hrange mon _
      · simp only [hresult, hkeep, ge_iff_le, decide_eq_false (not_le.mpr hnegative), Bool.or_false,
          Bool.false_eq_true, if_false, hretry]
    | false =>
      simp only [Bool.false_eq_true, if_false, Bool.or_false]
      obtain hnone | hrange := hs.value hrelative
      · have hchange : s.change = .keep := by simp [Settings.change, htoggle, hrelative, hnone]
        rw [hchange, hnone]
        have := hretry []
        unfold Change.calls
        simpa [Change.result] using (congrArg Prod.fst this).symm
      · have hchange : s.change = .set s.value := by simp [Settings.change, htoggle, hrelative, hrange.1]
        rw [hchange, decide_eq_true (show s.value ≥ 0 from hrange.1), if_pos rfl]
        exact readRetry_written hctrl hrange mon []

end Calls

/-- **Numbers of the command line mean what they say exactly where they are exact.** An
argument that denotes numbers is refused or used for just these, in the range of its
option, if and only if no others of the range have the same 32 low bits. And with such
arguments, a command line that is not refused tells every monitor just the numbers it
means. -/
theorem commandLine_exact_iff (arguments : List Argument) :
    (∀ argument ∈ arguments, Meant argument.flag argument.optarg argument.numbers ↔ Exact argument.flag argument.numbers) ∧
      ((∀ argument ∈ arguments, Exact argument.flag argument.numbers) →
        ∀ s, parse arguments = .ok s → meaning arguments = some s ∧ ∀ mon,
          (s.controlCalls mon).map Call.numbers = if s.ctrl = -1 then [] else s.change.calls s.ctrl mon) := by
  refine ⟨fun argument _ => meant_iff argument.denotes, fun hexact s hparse => ?_⟩
  have hmeaning := parse_meaning hexact hparse
  exact ⟨hmeaning, fun mon => controlCalls_eq (meaning_valid hmeaning) mon⟩

/-- `-r 0x10 -W -5`. -/
def dimmed : List Argument := [⟨.r, utf8 "0x10", [16], (by decide : IsNumber (utf8 "0x10") 16)⟩,
  ⟨.W, utf8 "-5", [-5], (by decide : IsNumber (utf8 "-5") (-5))⟩]

/-- It reads control 16, and writes five less. -/
theorem commandLine_exact_dimmed : ∃ s, parse dimmed = .ok s ∧ meaning dimmed = some s ∧
    (s.controlCalls fun _ => some (50, 100)).map Call.numbers = [.read 16, .write 16 45, .read 16] := by
  have hexact : ∀ argument ∈ dimmed, Exact argument.flag argument.numbers := by
    intro argument hargument
    refine exact_of_int ?_
    revert argument
    decide
  obtain ⟨hmeaning, hcalls⟩ := (commandLine_exact_iff dimmed).2 hexact ⟨16, -5, true, false, -1,
    -1⟩ (by decide)
  refine ⟨_, by decide, hmeaning, (hcalls _).trans ?_⟩
  decide

/-- `-r 4294967296` reads control 0. -/
theorem register_truncated : Denotes .r (utf8 "4294967296") [4294967296] ∧
    Settings.initial.step .r (utf8 "4294967296") = .ok { Settings.initial with ctrl := 0 } ∧
    ¬Meant .r (utf8 "4294967296") [4294967296] := by
  have hdenotes : IsNumber (utf8 "4294967296") 4294967296 := by decide
  have hstep : Settings.initial.step .r (utf8 "4294967296") = .ok { Settings.initial with ctrl := 0 } := by decide
  refine ⟨hdenotes, hstep, fun h => ?_⟩
  cases h _ _ hstep

end DdcControl.Command
