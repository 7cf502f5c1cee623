import DdcControl.Wire.Preflight

/-!
# Bounds of the preflight

The preflight adds up positions and lengths that the bytes declare, counts items down from
a limit, and slices the bytes between two positions; all before it knows that the bytes are
what they declare.

## The model

The functions of `DdcControl.Wire.Preflight` again, over positions, with all that may panic:
`Checked` has an outcome for it. Two assertions are added, which the source does not have:
that the position and the count of items stay within their bounds whenever they change, and
that no item is checked deeper than one level below the limit. An assertion that fails is
an outcome too.

## What is proved

* `Agrees` — what the two models have in common; one lemma for each function.
* `preflight_eq` — the preflight is that of the other model, without any panic.
* `encode_prefixFree` — no encoding begins another.
* `preflight_bounded` — an item is checked within its bounds, whatever the bytes; and of
  the bytes that are accepted, none begin others.
-/

namespace DdcControl.Wire.Bounds

open Cbor Fallible

/-! ### Panics -/

/-- What a check ends with if not with a result. -/
inductive Fault where
  | panic
  | violated
  | failed (message : String)
  deriving DecidableEq, Repr

/-- The outcome of a check. -/
abbrev Checked (α : Type) : Type := Except Fault α

/-- `Preflight`: the position, and the items counted. -/
structure Check where
  position : ℕ
  items : ℕ
  deriving DecidableEq, Repr

/-- `a - b`, of `usize`. -/
def subUsize (a b : ℕ) : Checked ℕ := if b ≤ a then .ok (a - b) else .error .panic

section Walk

variable (bytes : List UInt8)

/-- The bounds of a check. -/
def Check.Within (check : Check) : Prop := check.position ≤ bytes.length ∧ check.items ≤ maxItems

instance (check : Check) : Decidable (check.Within bytes) := inferInstanceAs (Decidable (_ ∧ _))

/-- A change of the check, with the assertion that it is within its bounds. -/
def store (check : Check) : Checked Check := if check.Within bytes then .ok check else .error .violated

/-- `self.bytes.get(start..stop)`. -/
def get (start stop : ℕ) : Option (List UInt8) :=
  if start ≤ stop ∧ stop ≤ bytes.length then some ((bytes.drop start).take (stop - start)) else none

/-- `&self.bytes[start..stop]`. -/
def slice (start stop : ℕ) : Checked (List UInt8) := orError (get bytes start stop) .panic

/-- `Preflight::take`. -/
def take (check : Check) (length : ℕ) : Checked (List UInt8 × Check) := do
  let stop := check.position + length
  reject (stop > usizeMax) (.failed "CBOR length overflow")
  let result ← orError (get bytes check.position stop) (.failed "truncated CBOR")
  let check ← store bytes { check with position := stop }
  return (result, check)

/-- `self.take(1)?[0]`. -/
def byte (check : Check) : Checked (UInt8 × Check) := do
  let (token, check) ← take bytes check 1
  let byte ← orError token[0]? .panic
  return (byte, check)

/-- `from_be_bytes(self.take(width)?.try_into().unwrap())`. -/
def number (check : Check) (width : ℕ) : Checked (ℕ × Check) := do
  let (token, check) ← take bytes check width
  reject (token.length ≠ width) .panic
  return (ofBigEndian token, check)

/-- The argument of a head, and the least argument of its width. -/
def argument (check : Check) (info : ℕ) : Checked ((ℕ × ℕ) × Check) :=
  if info ≤ 23 then .ok ((info, 0), check)
  else if info = 24 then (number bytes check 1).map fun (n, check) => ((n, 24), check)
  else if info = 25 then (number bytes check 2).map fun (n, check) => ((n, 256), check)
  else if info = 26 then (number bytes check 4).map fun (n, check) => ((n, 65536), check)
  else if info = 27 then (number bytes check 8).map fun (n, check) => ((n, 2 ^ 32), check)
  else .error (.failed "CBOR indefinite/reserved length is forbidden")

/-- An argument, which must be in shortest form. -/
def shortestArgument (check : Check) (info : ℕ) : Checked (ℕ × Check) := do
  let ((argument, minimum), check) ← argument bytes check info
  reject (argument < minimum) (.failed "CBOR argument is not shortest form")
  return (argument, check)

/-- A byte string or a text. -/
def string (check : Check) (major length : ℕ) : Checked Check := do
  let maximum := if major = 2 then maxBytes else maxText
  reject (length > maximum) (.failed "CBOR string limit exceeded")
  let (token, check) ← take bytes check length
  reject (major = 3 && (String.fromUTF8? ⟨token.toArray⟩).isNone) (.failed "CBOR invalid UTF-8")
  return check

/-- The loop over the items of an array. -/
def arrayItems (item : Check → Checked Check) : ℕ → Check → Checked Check
  | 0, check => .ok check
  | length + 1, check => do
    let check ← item check
    arrayItems item length check

/-- The loop over the entries of a map, with the previous key as it is written. -/
def mapEntries (item : Check → Checked Check) : ℕ → Option (List UInt8) → Check → Checked Check
  | 0, _, check => .ok check
  | length + 1, previous, check => do
    let start := check.position
    let first ← orError bytes[start]? (.failed "truncated CBOR map key")
    reject (first.toNat / 32 ≠ 0 && first.toNat / 32 ≠ 3)
      (.failed "CBOR map keys must be unsigned integers or text")
    let check ← item check
    let encoded ← slice bytes start check.position
    reject (previous.any fun key => key ≥ encoded)
      (.failed "CBOR duplicate or non-bytewise-ordered map key")
    let check ← item check
    mapEntries item length (some encoded) check

/-- The limits of a container, tested from left to right. -/
def containerLimits (check : Check) (length items : ℕ) : Checked Unit := do
  reject (length > maxContainer) (.failed "CBOR container/item limit or truncated container")
  let room ← subUsize maxItems check.items
  reject (items > room) (.failed "CBOR container/item limit or truncated container")
  let left ← subUsize bytes.length check.position
  reject (items > left) (.failed "CBOR container/item limit or truncated container")

/-- An array or a map, given the check of an item inside. -/
def container (item : Check → Checked Check) (check : Check) (major length : ℕ) : Checked Check := do
  let items := length * (if major = 5 then 2 else 1)
  reject (items > usizeMax) (.failed "CBOR length overflow")
  containerLimits bytes check length items
  if major = 5 then mapEntries bytes item length none check else arrayItems item length check

/-- What follows a head other than a simple value's or a tag's. -/
def content (item : Check → Checked Check) (check : Check) (major argument : ℕ) : Checked Check :=
  if major ≤ 1 then .ok check
  else if major ≤ 3 then string bytes check major argument
  else container bytes item check major argument

/-- `Preflight::item`, with the assertion on its depth. -/
def item (depth : ℕ) (check : Check) : Checked Check :=
  if depth > maxDepth + 1 then .error .violated
  else if depth > maxDepth ∨ check.items ≥ maxItems then
    .error (.failed "CBOR nesting/item limit exceeded")
  else do
    let check ← store bytes { check with items := check.items + 1 }
    let (head, check) ← byte bytes check
    let major := head.toNat / 32
    let info := head.toNat % 32
    if major = 7 then
      if 20 ≤ info ∧ info ≤ 22 then return check
      else throw (.failed "CBOR floating point/simple value is forbidden")
    else if major = 6 then throw (.failed "CBOR tags are forbidden")
    else do
      let (argument, check) ← shortestArgument bytes check info
      content bytes (item (depth + 1)) check major argument
termination_by maxDepth + 1 - depth
decreasing_by omega

/-- `preflight`. -/
def preflight : Checked Unit := do
  reject (bytes.length > maxFile) (.failed "CBOR file limit exceeded")
  let check ← item bytes 0 ⟨0, 0⟩
  reject (check.position ≠ bytes.length) (.failed "CBOR extra bytes after root value")

end Walk

/-! ### Agreement -/

/-- The first check does what the second does, unless the bytes are more than a file may
have: it ends with a related result, or with the same message, and neither with a panic nor
with a failed assertion. -/
def Agrees {α β : Type} (bytes : List UInt8) (R : α → β → Prop) : Checked α → Except String β → Prop
  | .ok a, .ok b => R a b
  | .error (.failed message), y => y = .error message ∨ maxFile < bytes.length
  | _, _ => False

/-- The state of the other model at the position of this one, which is within its bounds. -/
def At (bytes : List UInt8) (check : Check) (c : Preflight) : Prop :=
  c = ⟨bytes.drop check.position, check.items⟩ ∧ check.Within bytes

/-- The same, not before a position. -/
def After (bytes : List UInt8) (start : ℕ) (check : Check) (c : Preflight) : Prop :=
  At bytes check c ∧ start ≤ check.position

section Rules

variable {α β γ δ : Type} {bytes : List UInt8} {R : α → β → Prop} {S : γ → δ → Prop}

theorem agrees_failed (message : String) :
    Agrees bytes R (.error (.failed message)) (.error message) := .inl rfl

/-- The rule of sequencing. -/
theorem Agrees.bind {x : Checked α} {y : Except String β} {f : α → Checked γ}
    {g : β → Except String δ} (h : Agrees bytes R x y)
    (hf : ∀ a b, R a b → Agrees bytes S (f a) (g b)) :
    Agrees bytes S (x >>= f) (y >>= g) := by
  match x, y, h with
  | .ok a, .ok b, h => exact hf a b h
  | .error (.failed message), _, .inl rfl => exact .inl rfl
  | .error (.failed message), _, .inr h => exact .inr h

theorem Agrees.mono {R' : α → β → Prop} {x : Checked α} {y : Except String β}
    (h : Agrees bytes R x y) (hR : ∀ a b, R a b → R' a b) : Agrees bytes R' x y := by
  match x, y, h with
  | .ok a, .ok b, h => exact hR a b h
  | .error (.failed message), _, h => exact h

theorem Agrees.map {x : Checked α} {y : Except String β} {f : α → γ} {g : β → δ}
    (h : Agrees bytes R x y) (hf : ∀ a b, R a b → S (f a) (g b)) :
    Agrees bytes S (x.map f) (y.map g) := by
  match x, y, h with
  | .ok a, .ok b, h => exact hf a b h
  | .error (.failed message), _, .inl rfl => exact .inl rfl
  | .error (.failed message), _, .inr h => exact .inr h

/-- A test that both make. -/
theorem Agrees.reject {condition : Bool} {message : String} {f : Unit → Checked γ}
    {g : Unit → Except String δ} (h : condition = false → Agrees bytes S (f ()) (g ())) :
    Agrees bytes S (reject condition (.failed message) >>= f)
      (Fallible.reject condition message >>= g) := by
  cases condition with
  | false => exact h rfl
  | true => exact .inl rfl

/-- Neither a panic nor a failed assertion. -/
theorem Agrees.yields {x : Checked α} {y : Except String β} (h : Agrees bytes R x y) :
    Yields x (fun a => ∃ b, R a b) fun fault => ∃ message, fault = .failed message := by
  match x, y, h with
  | .ok a, .ok b, h => exact ⟨b, h⟩
  | .error (.failed message), _, _ => exact ⟨message, rfl⟩

/-- What agrees on the bytes of a file is the same. -/
theorem Agrees.eq {x : Checked Unit} {y : Except String Unit} {R : Unit → Unit → Prop}
    (h : Agrees bytes R x y) (hfile : bytes.length ≤ maxFile) : x = y.mapError .failed := by
  match x, y, h with
  | .ok (), .ok (), _ => rfl
  | .error (.failed message), _, .inl rfl => rfl
  | .error (.failed message), _, .inr hlong => exact absurd hlong (Nat.not_lt.mpr hfile)

end Rules

section Functions

variable {bytes : List UInt8} {check : Check} {c : Preflight}

theorem After.trans {start : ℕ} {check' : Check} {c' : Preflight} (h : start ≤ check.position)
    (h' : After bytes check.position check' c') : After bytes start check' c' :=
  ⟨h'.1, h.trans h'.2⟩

/-- After what reads a value. -/
theorem Agrees.bind_value {α γ δ : Type} {S : γ → δ → Prop} {start : ℕ} {x : Checked (α × Check)}
    {y : Except String (α × Preflight)} {f : α × Check → Checked γ}
    {g : α × Preflight → Except String δ}
    (h : Agrees bytes (fun a b => a.1 = b.1 ∧ After bytes start a.2 b.2) x y)
    (hf : ∀ a check c, After bytes start check c → Agrees bytes S (f (a, check)) (g (a, c))) :
    Agrees bytes S (x >>= f) (y >>= g) := by
  refine h.bind fun r r' hr => ?_
  obtain ⟨a, check⟩ := r
  obtain ⟨a', c⟩ := r'
  obtain ⟨rfl, hafter⟩ := hr
  exact hf a check c hafter

theorem store_eq (h : check.Within bytes) : store bytes check = .ok check := if_pos h

/-- **Bytes are taken within the bounds**, where a file and so many bytes can be counted. -/
theorem take_agrees (h : At bytes check c) {length : ℕ} (hlength : maxFile + length ≤ usizeMax) :
    Agrees bytes (fun a b => a.1 = b.1 ∧ a.1.length = length ∧ After bytes check.position a.2 b.2)
      (take bytes check length) (c.take length) := by
  obtain ⟨rfl, hposition, hitems⟩ := h
  rw [take, Preflight.take, List.length_drop]
  by_cases hoverflow : check.position + length > usizeMax
  · rw [decide_eq_true hoverflow]
    exact .inr (by omega)
  rw [decide_eq_false hoverflow]
  by_cases hshort : length ≤ bytes.length - check.position
  · have hget : get bytes check.position (check.position + length) =
        some ((bytes.drop check.position).take length) := by
      rw [get, if_pos ⟨by omega, by omega⟩, Nat.add_sub_cancel_left]
    have hwithin : Check.Within bytes ⟨check.position + length, check.items⟩ :=
      ⟨by show check.position + length ≤ _; omega, hitems⟩
    rw [if_pos hshort, hget]
    change Agrees _ _ (store bytes ⟨check.position + length, check.items⟩ >>= _) _
    rw [store_eq hwithin]
    refine ⟨rfl, ?_, ⟨?_, hwithin⟩, Nat.le_add_right _ _⟩
    · simp only [List.length_take, List.length_drop]
      omega
    · simp only [List.drop_drop]
  · have hget : get bytes check.position (check.position + length) = none := if_neg (by omega)
    rw [if_neg hshort, hget]
    exact agrees_failed _

/-- After what takes bytes. -/
theorem take_bind {γ δ : Type} {S : γ → δ → Prop} (h : At bytes check c) {length : ℕ}
    (hlength : maxFile + length ≤ usizeMax) {f : List UInt8 × Check → Checked γ}
    {g : List UInt8 × Preflight → Except String δ}
    (hf : ∀ token check' c', token.length = length → After bytes check.position check' c' →
      Agrees bytes S (f (token, check')) (g (token, c'))) :
    Agrees bytes S (take bytes check length >>= f) (c.take length >>= g) := by
  refine (take_agrees h hlength).bind fun r r' hr => ?_
  obtain ⟨token, check'⟩ := r
  obtain ⟨token', c'⟩ := r'
  obtain ⟨rfl, htoken, hafter⟩ := hr
  exact hf token check' c' htoken hafter

theorem byte_agrees (h : At bytes check c) :
    Agrees bytes (fun a b => a.1 = b.1 ∧ After bytes check.position a.2 b.2)
      (byte bytes check) c.byte := by
  refine take_bind h (by decide) fun token check' c' hlength hafter => ?_
  obtain ⟨b, rfl⟩ := List.length_eq_one_iff.mp hlength
  exact ⟨rfl, hafter⟩

theorem number_agrees (h : At bytes check c) {width : ℕ} (hwidth : width ≤ 8) :
    Agrees bytes (fun a b => a.1 = ofBigEndian b.1 ∧ After bytes check.position a.2 b.2)
      (number bytes check width) (c.take width) := by
  have hbound : maxFile + 8 ≤ usizeMax := by decide
  rw [← bind_pure (c.take width)]
  refine take_bind h (by omega) fun token check' c' hlength hafter => ?_
  have hwhole : decide (token.length ≠ width) = false := decide_eq_false (not_not.mpr hlength)
  simp only [hwhole]
  exact ⟨rfl, hafter⟩

theorem number_map_agrees (h : At bytes check c) {width : ℕ} (hwidth : width ≤ 8) (least : ℕ) :
    Agrees bytes (fun a b => a.1 = b.1 ∧ After bytes check.position a.2 b.2)
      ((number bytes check width).map fun (n, check) => ((n, least), check))
      ((c.take width).map fun (bytes, c) => ((ofBigEndian bytes, least), c)) :=
  (number_agrees h hwidth).map fun _ _ hab => ⟨congrArg (·, least) hab.1, hab.2⟩

theorem argument_agrees (h : At bytes check c) (info : ℕ) :
    Agrees bytes (fun a b => a.1 = b.1 ∧ After bytes check.position a.2 b.2)
      (argument bytes check info) (c.argument info) := by
  rw [argument, Preflight.argument]
  split_ifs
  · exact ⟨rfl, h, le_rfl⟩
  · exact number_map_agrees h (by decide) 24
  · exact number_map_agrees h (by decide) 256
  · exact number_map_agrees h (by decide) 65536
  · exact number_map_agrees h (by decide) (2 ^ 32)
  · exact agrees_failed _

theorem shortestArgument_agrees (h : At bytes check c) (info : ℕ) :
    Agrees bytes (fun a b => a.1 = b.1 ∧ After bytes check.position a.2 b.2)
      (shortestArgument bytes check info) (c.shortestArgument info) := by
  refine (argument_agrees h info).bind_value fun a check' c' hafter => ?_
  exact .reject fun _ => ⟨rfl, hafter⟩

theorem string_agrees (h : At bytes check c) (major length : ℕ) :
    Agrees bytes (After bytes check.position) (string bytes check major length)
      (c.string major length) := by
  refine .reject fun hmaximum => ?_
  have hbound : maxFile + maxBytes ≤ usizeMax ∧ maxFile + maxText ≤ usizeMax := by decide
  have hlength : maxFile + length ≤ usizeMax := by
    rw [decide_eq_false_iff_not] at hmaximum
    split_ifs at hmaximum <;> omega
  refine take_bind h hlength fun token check' c' _ hafter => ?_
  exact .reject fun _ => hafter

/-! ### Containers and items -/

variable {item : Check → Checked Check} {item' : Preflight → Except String Preflight}

/-- The checks of an item agree, wherever they begin. -/
def ItemAgrees (bytes : List UInt8) (item : Check → Checked Check)
    (item' : Preflight → Except String Preflight) : Prop :=
  ∀ check c, At bytes check c → Agrees bytes (After bytes check.position) (item check) (item' c)

theorem arrayItems_agrees (hitem : ItemAgrees bytes item item') {length : ℕ}
    (h : At bytes check c) :
    Agrees bytes (After bytes check.position) (arrayItems item length check)
      (c.arrayItems item' length) := by
  induction length generalizing check c with
  | zero => exact ⟨h, le_rfl⟩
  | succ length ih =>
    refine (hitem check c h).bind fun check' c' hnext => ?_
    exact (ih hnext.1).mono fun _ _ hlast => hlast.trans hnext.2

theorem mapEntries_agrees (hitem : ItemAgrees bytes item item') {length : ℕ}
    {previous : Option (List UInt8)} (h : At bytes check c) :
    Agrees bytes (After bytes check.position) (mapEntries bytes item length previous check)
      (c.mapEntries item' length previous) := by
  induction length generalizing check c previous with
  | zero => exact ⟨h, le_rfl⟩
  | succ length ih =>
    have hhead : c.rest.head? = bytes[check.position]? := by rw [h.1]; exact List.head?_drop
    rw [mapEntries, Preflight.mapEntries]
    simp only [hhead]
    cases bytes[check.position]? with
    | none => exact agrees_failed _
    | some first =>
      refine .reject fun _ => ?_
      refine (hitem check c h).bind fun check' c' hkey => ?_
      obtain ⟨⟨rfl, hwithin⟩, hstart⟩ := hkey
      have hencoded : slice bytes check.position check'.position =
          .ok (c.rest.take (c.rest.length - (bytes.drop check'.position).length)) := by
        have hlength : bytes.length - check.position - (bytes.length - check'.position) =
            check'.position - check.position := by
          have := hwithin.1
          omega
        rw [slice, get, if_pos ⟨hstart, hwithin.1⟩, h.1]
        simp only [List.length_drop, hlength]
        rfl
      rw [hencoded, ok_bind]
      refine .reject fun _ => ?_
      refine (hitem check' _ ⟨rfl, hwithin⟩).bind fun check'' c'' hvalue => ?_
      exact (ih hvalue.1).mono fun _ _ hlast => hlast.trans (hstart.trans hvalue.2)

/-- Nothing underflows in the tests of the limits. -/
theorem containerLimits_eq (h : check.Within bytes) (length items : ℕ) :
    containerLimits bytes check length items =
      reject (length > maxContainer || items > maxItems - check.items || items > bytes.length - check.position)
        (.failed "CBOR container/item limit or truncated container") := by
  have hroom : subUsize maxItems check.items = .ok (maxItems - check.items) := if_pos h.2
  have hleft : subUsize bytes.length check.position = .ok (bytes.length - check.position) :=
    if_pos h.1
  rw [containerLimits, hroom, hleft]
  cases decide (length > maxContainer) with
  | true => rfl
  | false =>
    simp only [ok_bind]
    cases decide (items > maxItems - check.items) <;> rfl

theorem container_agrees (hitem : ItemAgrees bytes item item') (h : At bytes check c)
    (major length : ℕ) :
    Agrees bytes (After bytes check.position) (container bytes item check major length)
      (c.container item' major length) := by
  refine .reject fun _ => ?_
  have hrest : c.rest.length = bytes.length - check.position := by rw [h.1]; exact List.length_drop
  have hitems : c.items = check.items := by rw [h.1]
  rw [containerLimits_eq h.2, hrest, hitems]
  refine .reject fun _ => ?_
  split_ifs
  · exact mapEntries_agrees hitem h
  · exact arrayItems_agrees hitem h

theorem content_agrees (hitem : ItemAgrees bytes item item') (h : At bytes check c)
    (major argument : ℕ) :
    Agrees bytes (After bytes check.position) (content bytes item check major argument)
      (c.content item' major argument) := by
  rw [content, Preflight.content]
  split_ifs
  · exact ⟨h, le_rfl⟩
  · exact string_agrees h major argument
  · exact container_agrees hitem h major argument

/-- **An item is checked within its bounds**, one level below the limit at most. -/
theorem item_agrees {depth : ℕ} (hdepth : depth ≤ maxDepth + 1) :
    ItemAgrees bytes (Bounds.item bytes depth) (Preflight.item depth) := by
  generalize hroom : maxDepth + 1 - depth = room
  induction room generalizing depth with
  | zero =>
    intro check c h
    rw [Bounds.item, Preflight.item, if_neg (by omega), if_pos (.inl (by omega)),
      if_pos (.inl (by omega))]
    exact agrees_failed _
  | succ room ih =>
    intro check c h
    have hinner : ItemAgrees bytes (Bounds.item bytes (depth + 1)) (Preflight.item (depth + 1)) :=
      ih (by omega) (by omega)
    have hitems : c.items = check.items := by rw [h.1]
    rw [Bounds.item, Preflight.item, if_neg (by omega), hitems]
    by_cases hlimit : depth > maxDepth ∨ check.items ≥ maxItems
    · rw [if_pos hlimit, if_pos hlimit]
      exact agrees_failed _
    rw [if_neg hlimit, if_neg hlimit]
    have hcounted : Check.Within bytes ⟨check.position, check.items + 1⟩ :=
      ⟨h.2.1, by show check.items + 1 ≤ _; omega⟩
    rw [store_eq hcounted, ok_bind]
    have hat : At bytes ⟨check.position, check.items + 1⟩ ⟨c.rest, check.items + 1⟩ :=
      ⟨by rw [h.1], hcounted⟩
    refine (byte_agrees hat).bind_value fun head check' c' hhead => ?_
    dsimp only
    by_cases h7 : head.toNat / 32 = 7
    · rw [if_pos h7, if_pos h7]
      split_ifs
      · exact hhead
      · exact agrees_failed _
    rw [if_neg h7, if_neg h7]
    by_cases h6 : head.toNat / 32 = 6
    · rw [if_pos h6, if_pos h6]
      exact agrees_failed _
    rw [if_neg h6, if_neg h6]
    refine (shortestArgument_agrees hhead.1 _).bind_value fun n check'' c'' hargument => ?_
    refine (content_agrees hinner hargument.1 _ _).mono fun _ _ hlast => ?_
    exact hlast.trans (hhead.2.trans hargument.2)

/-- From within its bounds, an item ends within them, or is refused. -/
theorem item_within {depth : ℕ} (hdepth : depth ≤ maxDepth + 1) (h : check.Within bytes) :
    Yields (Bounds.item bytes depth check)
      (Check.Within bytes) fun fault => ∃ message, fault = .failed message := by
  refine (item_agrees hdepth check _ ⟨rfl, h⟩).yields.mono (fun check' hafter => ?_) fun _ hfault => hfault
  obtain ⟨_, ⟨_, hwithin⟩, _⟩ := hafter
  exact hwithin

end Functions

/-- **The preflight is that of the other model**: it does not panic, and no assertion fails. -/
theorem preflight_eq (bytes : List UInt8) :
    preflight bytes = (Wire.preflight bytes).mapError .failed := by
  by_cases hlong : bytes.length > maxFile
  · rw [preflight, Wire.preflight, decide_eq_true hlong]
    rfl
  refine Agrees.eq (R := fun _ _ => True) (.reject fun _ => ?_) (Nat.not_lt.mp hlong)
  have hstart : At bytes ⟨0, 0⟩ ⟨bytes, 0⟩ := ⟨rfl, Nat.zero_le _, Nat.zero_le _⟩
  refine (item_agrees (Nat.zero_le _) _ _ hstart).bind fun check c hafter => ?_
  obtain ⟨⟨rfl, hposition, -⟩, -⟩ := hafter
  have hend : (!(bytes.drop check.position).isEmpty) = decide (check.position ≠ bytes.length) := by
    rw [Bool.eq_iff_iff, Bool.not_eq_true', List.isEmpty_eq_false_iff, decide_eq_true_eq, ne_eq,
      List.drop_eq_nil_iff]
    omega
  rw [hend]
  cases decide (check.position ≠ bytes.length) with
  | false => trivial
  | true => exact agrees_failed _

/-! ### Prefixes -/

/-- **No encoding begins another.** -/
theorem encode_prefixFree {v w : Value} (hv : Deterministic 0 v) (hw : Deterministic 0 w)
    (h : v.encode <+: w.encode) : v.encode = w.encode := by
  obtain ⟨rest, hrest⟩ := h
  have hdecode := decode_encode (hv.plain) rest
  have hdecode' := decode_encode (hw.plain) []
  rw [List.append_nil, ← hrest, hdecode, Option.some.injEq, Prod.mk.injEq] at hdecode'
  rw [hdecode'.1]

/-- Of the bytes that are accepted, none begin others. -/
theorem preflight_prefixFree {bytes other : List UInt8} (h : preflight bytes = .ok ())
    (hother : preflight other = .ok ()) (hbegins : bytes <+: other) : bytes = other := by
  have haccepted {bytes} (h : preflight bytes = .ok ()) : ∃ v, Deterministic 0 v ∧ bytes = v.encode := by
    rw [preflight_eq] at h
    have hwire : Wire.preflight bytes = .ok () := by
      cases hx : Wire.preflight bytes with
      | ok => rfl
      | error message => rw [hx] at h; cases h
    obtain ⟨v, hv, -, -, heq⟩ := preflight_eq_ok.mp hwire
    exact ⟨v, hv, heq⟩
  obtain ⟨v, hv, rfl⟩ := haccepted h
  obtain ⟨w, hw, rfl⟩ := haccepted hother
  exact encode_prefixFree hv hw hbegins

/-- The preflight accepts the bytes, or refuses them with a message. -/
theorem preflight_yields (bytes : List UInt8) :
    Yields (preflight bytes) (fun _ => True) fun fault => ∃ message, fault = .failed message := by
  rw [preflight_eq]
  cases Wire.preflight bytes with
  | ok => trivial
  | error message => exact ⟨message, rfl⟩

/-- **The preflight is total and bounded, and what it accepts is free of prefixes**: an
item ends within the bounds it was checked in, or is refused with a message, and so does the
whole; and every proper prefix and every extension of bytes that are accepted is refused. -/
theorem preflight_bounded (bytes : List UInt8) :
    (∀ depth check, depth ≤ maxDepth + 1 → check.Within bytes →
      Yields (item bytes depth check) (Check.Within bytes) fun fault => ∃ message, fault = .failed message) ∧
    (Yields (preflight bytes) (fun _ => True) fun fault => ∃ message, fault = .failed message) ∧
    (preflight bytes = .ok () → ∀ other, other ≠ bytes → other <+: bytes ∨ bytes <+: other →
      ∃ message, preflight other = .error (.failed message)) := by
  refine ⟨fun depth check hdepth h => item_within hdepth h, preflight_yields bytes,
    fun h other hne hbegins => ?_⟩
  cases hother : preflight other with
  | error fault =>
    obtain ⟨message, rfl⟩ := (preflight_yields other).error hother
    exact ⟨message, rfl⟩
  | ok =>
    rcases hbegins with hbegins | hbegins
    · exact absurd (preflight_prefixFree hother h hbegins) hne
    · exact absurd (preflight_prefixFree h hother hbegins).symm hne

end DdcControl.Wire.Bounds
