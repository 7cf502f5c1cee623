import DdcControl.Context.MonitorFile
import DdcControl.Database.Restriction
import DdcControl.Scanner.Printed

/-!
# Checking a profile

`ddccontrol -i` loads a profile strictly, from CAPS with all 256 codes, and reports whether
that succeeds. A maintainer who runs it on a profile wants to know that the profile loads
for the monitors it is made for, whose CAPS have fewer codes.

A check says that if the profile, with its includes, takes away codes and not only some of
their values, and what it adds after a `controls` block is among the codes of the monitor.
Otherwise a control that the check has left out, at an address that was in use, may be
read for a monitor that first lacks the address.

## What is proved

* `integrityBuffer_caps` — the text of the check fits its buffer, and has every code.
* `narrows_script` — what a script does to CAPS with every code, and to others.
* `checkIntegrity_covers` — the check succeeds if the strict load does, and then every load
  of such a profile returns the controls of the checked tree that the monitor has.
-/

namespace DdcControl.Command

open Capabilities Context Database Fallible

/-! ### The check -/

/-- `sizeof("(vcp(") + (3 * 256) + sizeof("))")`. -/
def integrityBufferSize : ℕ := 6 + 3 * 256 + 3

/-- `snprintf` at the end of the text in the buffer, which has to have room for it. -/
def appendText (buffer text : List UInt8) : Except String (List UInt8) := do
  reject (integrityBufferSize - buffer.length ≤ text.length) "Failed to build monitor capability buffer.\n"
  return buffer ++ text

/-- `"%02x "`. -/
def codeText (i : ℕ) : List UInt8 := utf8 (.ofList (lowerHex 2 i)) ++ utf8 " "

/-- The CAPS text with all controls. -/
def integrityBuffer : Except String (List UInt8) := do
  let buffer ← appendText [] (utf8 "(vcp(")
  let buffer ← (List.range 256).foldlM (fun buffer i => appendText buffer (codeText i)) buffer
  appendText buffer (utf8 "))")

section Check

variable (translate : String → List UInt8) (c : Wire.Ciborium) (sha : Wire.Sha256) (x : XmlReader)

/-- The `--monitor-file` of a check, which must be for the profile that is checked. -/
def checkedFile (pnpname : String) (monitorFile : Option MonitorPath) (guard : Option DbContext) : Option (Option DbContext) :=
  match monitorFile with
  | none => some guard
  | some path =>
    match (setMonitorFile translate x path).run guard with
    | (.error _, _) => none
    | (.ok pnpid, guard) => if pnpname = pnpid then some guard else none

/-- The CAPS of a check: those of the text, where it was built. -/
def integrityCaps (buffer : List UInt8) : Caps := (ddcciParseCaps buffer .default).getD .default

/-- `check_integrity`: whether it exits with 0, and the context, which is released. -/
def checkIntegrity (dir : DataDir) (pnpname : String) (monitorFile : Option MonitorPath) (guard : Option DbContext) :
    Bool × Option DbContext :=
  match (initDb c sha x dir).run guard with
  | (.error _, guard) => (false, guard)
  | (.ok (), guard) =>
    match checkedFile translate x pnpname monitorFile guard, integrityBuffer with
    | some context, .ok buffer => ((createDb translate context pnpname (integrityCaps buffer) false).monitor.isSome, none)
    | _, _ => (false, none)

end Check

/-! ### The text with all controls -/

theorem appendText_fits {buffer text : List UInt8}
    (h : buffer.length + text.length < integrityBufferSize) :
    appendText buffer text = .ok (buffer ++ text) := by
  have hfits : reject (ε := String) (integrityBufferSize - buffer.length ≤ text.length)
      "Failed to build monitor capability buffer.\n" = .ok () :=
        reject_eq_ok.mpr (decide_eq_false (by omega))
  rw [appendText, hfits]
  rfl

theorem codeText_eq {i : ℕ} (h : i < 256) : ∃ high low, codeText i = [high, low, 32] ∧
    (isHexdigit high = true ∧ isHexdigit low = true) ∧
    hexNibble high * 16 + hexNibble low = .ofNat i := by
  have hall : ∀ i < 256, (codeText i).length = 3 ∧ (codeText i)[2]? = some 32 ∧
      (isHexdigit ((codeText i).getD 0 0) = true ∧ isHexdigit ((codeText i).getD 1 0) = true) ∧
      hexNibble ((codeText i).getD 0 0) * 16 + hexNibble ((codeText i).getD 1 0) = .ofNat i := by
    decide +kernel
  obtain ⟨hlength, hlast, hhex, hcode⟩ := hall i h
  match htext : codeText i, hlength with
  | [high, low, last], _ =>
    rw [htext] at hlast hhex hcode
    cases hlast
    exact ⟨high, low, rfl, hhex, hcode⟩

/-- The codes are written one after the other, and there is room for them. -/
theorem foldlM_codeText {buffer : List UInt8} (codes : List ℕ) (hcodes : ∀ i ∈ codes, i < 256)
    (h : buffer.length + 3 * codes.length < integrityBufferSize) :
    codes.foldlM (fun buffer i => appendText buffer (codeText i)) buffer =
      .ok (buffer ++ codes.flatMap codeText) := by
  induction codes generalizing buffer with
  | nil => rw [List.flatMap_nil, List.append_nil]; rfl
  | cons i codes ih =>
    obtain ⟨high, low, htext, -, -⟩ := codeText_eq (hcodes i List.mem_cons_self)
    rw [List.length_cons] at h
    have hlength : (codeText i).length = 3 := by rw [htext]; rfl
    rw [List.foldlM_cons, appendText_fits (by omega), ok_bind,
      ih (fun j hj => hcodes j (List.mem_cons_of_mem i hj)), List.flatMap_cons, List.append_assoc]
    rw [List.length_append]
    omega

/-- The text of the check. -/
def integrityText : List UInt8 := utf8 "(vcp(" ++ (List.range 256).flatMap codeText ++ utf8 "))"

theorem length_flatMap_codeText (codes : List ℕ) (hcodes : ∀ i ∈ codes, i < 256) :
    (codes.flatMap codeText).length = 3 * codes.length := by
  induction codes with
  | nil => rfl
  | cons i codes ih =>
    obtain ⟨high, low, htext, -, -⟩ := codeText_eq (hcodes i List.mem_cons_self)
    rw [List.flatMap_cons, List.length_append, ih fun j hj => hcodes j (List.mem_cons_of_mem i hj),
      htext, List.length_cons]
    simp only [List.length_cons, List.length_nil]
    omega

/-- The text fits the buffer. -/
theorem integrityBuffer_eq : integrityBuffer = .ok integrityText := by
  have hcodes : ∀ i ∈ List.range 256, i < 256 := fun _ => List.mem_range.mp
  have hhead : (utf8 "(vcp(").length = 5 := by decide
  have htail : (utf8 "))").length = 2 := by decide
  rw [integrityBuffer, appendText_fits (by rw [hhead]; decide), ok_bind,
    foldlM_codeText _ hcodes, ok_bind, appendText_fits]
  · rfl
  · rw [List.nil_append, List.length_append, length_flatMap_codeText _ hcodes, hhead, htail,
      List.length_range]
    decide
  · rw [List.nil_append, hhead, List.length_range]
    decide

/-- The codes are read as they were written. -/
theorem readsVcp_codeText (codes : List ℕ) (hcodes : ∀ i ∈ codes, i < 256) (r : List UInt8) :
    ReadsVcp (codes.flatMap codeText ++ closeParen :: r)
      (codes.map fun i => ⟨.ofNat i, none⟩) r := by
  induction codes with
  | nil => exact .close rfl
  | cons i codes ih =>
    have hrest := ih fun j hj => hcodes j (List.mem_cons_of_mem i hj)
    obtain ⟨high, low, htext, hhex, hcode⟩ := codeText_eq (hcodes i List.mem_cons_self)
    have hspace : isSpace high = false := by
      have hhigh := hhex.1
      by_contra hspace
      simp only [isSpace, Bool.not_eq_false, Bool.or_eq_true, decide_eq_true_eq] at hspace
      rcases hspace with (((rfl | rfl) | rfl) | rfl) | rfl <;> exact absurd hhigh (by decide)
    rw [List.flatMap_cons, htext, List.map_cons, ← hcode]
    have hread : trim (high :: low :: 32 :: (codes.flatMap codeText ++ closeParen :: r)) =
        high :: low :: 32 :: (codes.flatMap codeText ++ closeParen :: r) :=
      List.dropWhile_cons_of_neg (by rw [hspace]; exact Bool.false_ne_true)
    refine .code hread hhex (.bare ?_) ?_
    · exact Scanner.head_of_readsVcp (Scanner.readsVcp_of_trim (List.dropWhile_cons_of_pos (by decide)) hrest)
    · exact Scanner.readsVcp_of_trim
        ((List.dropWhile_idempotent _ _).trans (List.dropWhile_cons_of_pos (by decide))) hrest

/-- A text of codes is read as it was written. -/
theorem readsSections_codeText (codes : List ℕ) (hcodes : ∀ i ∈ codes, i < 256) :
    ReadsSections false (utf8 "(vcp(" ++ codes.flatMap codeText ++ utf8 "))")
      ⟨[], codes.map fun i => ⟨.ofNat i, none⟩⟩ [] := by
  have hopen : utf8 "(vcp(" = [openParen, 'v'.toUInt8, 'c'.toUInt8, 'p'.toUInt8,
      openParen] := by decide
  have hclose : utf8 "))" = [closeParen, closeParen] := by decide
  have hvcp := readsVcp_codeText codes hcodes [closeParen]
  rw [hopen, hclose]
  generalize codes.map (fun i => (⟨.ofNat i, none⟩ : ParsedVcp)) = items at hvcp ⊢
  generalize codes.flatMap codeText = text at hvcp ⊢
  have hname : nameOf ('v'.toUInt8 :: 'c'.toUInt8 :: 'p'.toUInt8 :: openParen :: (text ++
      [closeParen, closeParen])) =
      utf8 "vcp" := rfl
  have hsections : ReadsSections true
      ('v'.toUInt8 :: 'c'.toUInt8 :: 'p'.toUInt8 :: openParen :: (text ++ [closeParen, closeParen]))
      (.append ⟨[], items⟩ .empty) [] := by
    have hafter : afterName
        ('v'.toUInt8 :: 'c'.toUInt8 :: 'p'.toUInt8 :: openParen :: (text ++ [closeParen, closeParen])) =
        openParen :: (text ++ [closeParen, closeParen]) := rfl
    exact .named (by rw [hname]; decide) hafter (.vcp hname hvcp) (.close rfl)
  rw [Listing.append_empty] at hsections
  have hread : ReadsSections false (openParen :: 'v'.toUInt8 :: 'c'.toUInt8 :: 'p'.toUInt8 :: openParen ::
      (text ++ [closeParen, closeParen])) (.append ⟨[], items⟩ .empty) [] :=
        .group rfl hsections (.done rfl)
  rw [Listing.append_empty] at hread
  exact hread

theorem ascii_integrityText : ∀ byte ∈ integrityText, byte < 0x80 := by
  have hhead : ∀ byte ∈ utf8 "(vcp(", byte < 0x80 := by decide +kernel
  have htail : ∀ byte ∈ utf8 "))", byte < 0x80 := by decide +kernel
  have hhex : ∀ b : UInt8, isHexdigit b = true → b < 0x80 := by
    intro b hb
    simp only [isHexdigit, Bool.or_eq_true, Bool.and_eq_true, decide_eq_true_eq] at hb
    rcases hb with (⟨-, hb⟩ | ⟨-, hb⟩) | ⟨-, hb⟩
    all_goals exact UInt8.lt_of_le_of_lt hb (by decide)
  intro byte hbyte
  rcases List.mem_append.mp hbyte with hbyte | hbyte
  · rcases List.mem_append.mp hbyte with hbyte | hbyte
    · exact hhead byte hbyte
    · obtain ⟨i, hi, hbyte⟩ := List.mem_flatMap.mp hbyte
      obtain ⟨high, low, htext, ⟨hhigh, hlow⟩, -⟩ := codeText_eq (List.mem_range.mp hi)
      rw [htext] at hbyte
      simp only [List.mem_cons, List.not_mem_nil, or_false] at hbyte
      rcases hbyte with rfl | rfl | rfl
      · exact hhex _ hhigh
      · exact hhex _ hlow
      · decide
  · exact htail byte hbyte

/-- The items of the text. -/
def allItems : List ParsedVcp := (List.range 256).map fun i => ⟨.ofNat i, none⟩

theorem parse_integrityText : Capabilities.parse integrityText = .ok ⟨none, allItems⟩ :=
  parse_iff.mpr ⟨_, readsSections_codeText _ fun _ => List.mem_range.mp, rfl⟩

/-- **The text of the check has every code**, each with all values. -/
theorem integrityBuffer_caps : ∃ buffer, integrityBuffer = .ok buffer ∧ integrityCaps buffer = fullCaps := by
  refine ⟨integrityText, integrityBuffer_eq, ?_⟩
  have hlossy : Utf8.lossy integrityText = integrityText := by
    have happend := Utf8.lossy_ascii_append ascii_integrityText []
    rwa [List.append_nil, show Utf8.lossy [] = [] from rfl, List.append_nil] at happend
  have hcount : ¬asCInt allItems.length < 0 := by
    rw [allItems, List.length_map, List.length_range, asCInt_eq (by decide)]
    decide
  unfold integrityCaps ddcciParseCaps
  rw [hlossy, Caps.apply_eq_patched parse_integrityText]
  show (if asCInt allItems.length < 0 then none else some _ : Option Caps).getD .default = _
  rw [if_neg hcount, Option.getD_some, Caps.patched, fullCaps, Caps.mk.injEq]
  refine ⟨rfl, funext fun code => ?_⟩
  rw [overwrites_add.edits_apply]
  cases hlast : (allItems.filter fun item => item.code = code).getLast? with
  | none =>
    have hmem : (⟨code, none⟩ : ParsedVcp) ∈ allItems.filter fun item => item.code = code := by
      refine List.mem_filter.mpr ⟨List.mem_map.mpr ⟨code.toNat, List.mem_range.mpr code.toNat_lt, ?_⟩, by simp⟩
      simp
    rw [List.getLast?_eq_none_iff.mp hlast] at hmem
    cases hmem
  | some item =>
    obtain ⟨i, -, rfl⟩ := List.mem_map.mp (List.mem_of_mem_filter (List.mem_of_getLast? hlast))
    rfl

/-! ### What a script does to the codes -/

/-- The codes that a patch lists. -/
def patchLists (patch : Option String) (code : UInt8) : Bool :=
  (patch.bind fun patch => applyCaps patch .default .add).any (·.isSupported code)

/-- A patch lists no values. -/
def ListsCodes (patch : Option String) : Prop :=
  ∀ text, patch = some text → ∀ parsed, Capabilities.parse (utf8 text) = .ok parsed → ∀ item ∈ parsed.vcp, item.values = none

/-- What a patch that applies has parsed. -/
theorem applyCaps_eq_some {patch : String} {caps caps' : Caps} {edit : Edit}
    (h : applyCaps patch caps edit = some caps') :
    ∃ parsed, Capabilities.parse (utf8 patch) = .ok parsed ∧ caps' = caps.patched parsed edit := by
  unfold applyCaps at h
  split at h
  · cases h
  · cases hparse : Capabilities.parse (utf8 patch) with
    | error e =>
      rw [Caps.apply, hparse] at h
      cases h
    | ok parsed =>
      rw [Caps.apply_eq_patched hparse] at h
      dsimp only at h
      split at h
      · cases h
      · cases h
        exact ⟨parsed, rfl, rfl⟩

/-- A patch that is written down applies to all CAPS, or to none. -/
theorem patched_cases (edit : Edit) (patch : Option String) :
    (∃ parsed, (∃ text, patch = some text ∧ Capabilities.parse (utf8 text) = .ok parsed) ∧
        ∀ caps edit, (patch.bind fun patch => applyCaps patch caps edit) = some (caps.patched parsed edit)) ∨
      ∀ caps edit, (patch.bind fun patch => applyCaps patch caps edit) = none := by
  cases patch with
  | none => exact .inr fun _ _ => rfl
  | some text =>
    cases happly : applyCaps text .default edit with
    | none =>
      refine .inr fun caps edit' => Option.isNone_iff_eq_none.mp ?_
      have hsome := applyCaps_isSome text caps .default edit' edit
      rw [happly] at hsome
      simpa using hsome
    | some caps₀ =>
      obtain ⟨parsed, hparse, -⟩ := applyCaps_eq_some happly
      refine .inl ⟨parsed, ⟨text, rfl, hparse⟩, fun caps edit' => ?_⟩
      have hsome := applyCaps_isSome text caps .default edit' edit
      rw [happly, Option.isSome_some] at hsome
      obtain ⟨caps', hcaps'⟩ := Option.isSome_iff_exists.mp hsome
      obtain ⟨parsed', hparse', rfl⟩ := applyCaps_eq_some hcaps'
      rw [hparse] at hparse'
      cases hparse'
      exact hcaps'

theorem isSupported_patched_add (caps : Caps) (parsed : ParsedCaps) (code : UInt8) :
    (caps.patched parsed .add).isSupported code = (caps.isSupported code || parsed.vcp.any (·.code = code)) := by
  show (Edits.edits _ _ caps.vcp parsed.vcp code).isSome = _
  rw [overwrites_add.edits_apply]
  cases hlast : (parsed.vcp.filter fun item => item.code = code).getLast? with
  | none =>
    have hnone : parsed.vcp.any (·.code = code) = false := by
      rw [List.getLast?_eq_none_iff, List.filter_eq_nil_iff] at hlast
      exact List.any_eq_false.mpr hlast
    rw [hnone, Bool.or_false]
    rfl
  | some item =>
    have hmem := List.mem_filter.mp (List.mem_of_getLast? hlast)
    rw [List.any_eq_true.mpr ⟨item, hmem⟩, Bool.or_true]
    rfl

theorem isSupported_patched_remove (caps : Caps) {parsed : ParsedCaps}
    (h : ∀ item ∈ parsed.vcp, item.values = none) (code : UInt8) :
    (caps.patched parsed .remove).isSupported code =
      (caps.isSupported code && !parsed.vcp.any (·.code = code)) := by
  show (Edits.edits _ _ caps.vcp parsed.vcp code).isSome = _
  by_cases hlisted : parsed.vcp.any (·.code = code) = true
  · obtain ⟨item, hitem, hcode⟩ := List.any_eq_true.mp hlisted
    have hsettled := caps.settled_patched_remove hitem
    rw [h item hitem, of_decide_eq_true hcode] at hsettled
    rw [hlisted, Bool.not_true, Bool.and_false]
    change Settled none (Edits.edits _ _ caps.vcp parsed.vcp code) at hsettled
    generalize Edits.edits _ _ caps.vcp parsed.vcp code = entry at hsettled ⊢
    cases hsettled
    rfl
  · rw [Bool.not_eq_true] at hlisted
    rw [hlisted, Bool.not_false, Bool.and_true, Edits.edits_of_forall_ne]
    · rfl
    · intro item hitem hcode
      exact List.any_eq_false.mp hlisted item hitem (decide_eq_true hcode)

theorem isSupported_add (patch : Option String) (caps : Caps) (code : UInt8) :
    (patched .add patch caps).isSupported code = (caps.isSupported code || patchLists patch code) := by
  unfold patched patchLists
  obtain ⟨parsed, -, happly⟩ | hnone := patched_cases .add patch
  · rw [happly, happly, Option.getD_some, Option.any_some, isSupported_patched_add,
      isSupported_patched_add]
    rfl
  · rw [hnone, hnone, Option.getD_none, Option.any_none, Bool.or_false]

theorem isSupported_remove {patch : Option String} (h : ListsCodes patch) (caps : Caps)
    (code : UInt8) :
    (patched .remove patch caps).isSupported code = (caps.isSupported code && !patchLists patch code) := by
  unfold patched patchLists
  obtain ⟨parsed, ⟨text, hpatch, hparse⟩, happly⟩ | hnone := patched_cases .remove patch
  · rw [happly, happly, Option.getD_some, Option.any_some, isSupported_patched_add,
      isSupported_patched_remove caps (h text hpatch parsed hparse)]
    rfl
  · rw [hnone, hnone, Option.getD_none, Option.any_none, Bool.not_false, Bool.and_true]

/-- An operation that patches the CAPS. -/
def patchesCaps : Op → Bool
  | .caps _ => true
  | .controls _ => false

/-- The codes that an operation adds. -/
def adds : Op → UInt8 → Bool
  | .caps child => patchLists (child.attr "add")
  | .controls _ => fun _ => false

/-- The codes that an operation removes. -/
def removes : Op → UInt8 → Bool
  | .caps child => patchLists (child.attr "remove")
  | .controls _ => fun _ => false

/-- An operation takes away codes, not some of their values. -/
def RemovesCodes : Op → Prop
  | .caps child => ListsCodes (child.attr "remove")
  | .controls _ => True

theorem isSupported_patch {op : Op} (h : RemovesCodes op) (caps : Caps) (code : UInt8) :
    (op.patch caps).isSupported code = (caps.isSupported code && !removes op code || adds op code) := by
  cases op with
  | caps child =>
    show (patched .add _ (patched .remove _ caps)).isSupported code = _
    rw [isSupported_add, isSupported_remove h]
    rfl
  | controls child =>
    show caps.isSupported code = (caps.isSupported code && !false || false)
    rw [Bool.not_false, Bool.and_true, Bool.or_false]

/-- The patches of a script before its first block. -/
def leading (ops : List Op) : List Op := ops.takeWhile patchesCaps

/-- The script from its first block on. -/
def fromBlock (ops : List Op) : List Op := ops.dropWhile patchesCaps

/-- Where two CAPS differ by some codes and no other is added, they do so at every block. -/
theorem narrows_late {codes : UInt8 → Bool} {ops : List Op} (hremoves : ∀ op ∈ ops, RemovesCodes op)
    (hadds : ∀ op ∈ ops, ∀ code, adds op code = true → codes code = true) {wide narrow : Caps}
    (h : ∀ code, narrow.isSupported code = (wide.isSupported code && codes code)) :
    Narrows codes wide narrow ops := by
  intro pre child post hops
  induction pre generalizing ops wide narrow with
  | nil => exact h
  | cons op pre ih =>
    rw [hops] at hremoves hadds
    have hpre : ∀ op ∈ pre ++ .controls child :: post, RemovesCodes op :=
      fun op hop => hremoves op (List.mem_cons_of_mem _ hop)
    refine ih hpre (fun op hop => hadds op (List.mem_cons_of_mem _ hop)) (fun code => ?_) rfl
    have hop := hremoves op List.mem_cons_self
    have hcode := hadds op List.mem_cons_self code
    rw [isSupported_patch hop, isSupported_patch hop, h]
    cases hadd : adds op code with
    | false =>
      rw [Bool.or_false, Bool.or_false, Bool.and_assoc, Bool.and_comm (codes code), Bool.and_assoc]
    | true =>
      rw [hcode hadd, Bool.or_true, Bool.or_true]
      rfl

/-- **What a script does to CAPS, and to others that have all their codes**: at every block
they differ by the codes that the smaller ones have not at the first. -/
theorem narrows_script {ops : List Op} (hremoves : ∀ op ∈ ops, RemovesCodes op) {wide narrow : Caps}
    (h : ∀ code, narrow.isSupported code = true → wide.isSupported code = true)
    (hadds : ∀ op ∈ fromBlock ops, ∀ code, adds op code =
      true → (capsAfter narrow (leading ops)).isSupported code = true) :
    Narrows (capsAfter narrow (leading ops)).isSupported wide narrow ops := by
  induction ops generalizing wide narrow with
  | nil =>
    intro pre child post hops
    simp at hops
  | cons op ops ih =>
    cases op with
    | controls child =>
      refine narrows_late hremoves hadds fun code => ?_
      show narrow.isSupported code = (wide.isSupported code && narrow.isSupported code)
      cases hcode : narrow.isSupported code with
      | false => rw [Bool.and_false]
      | true => rw [h code hcode, Bool.and_true]
    | caps child =>
      have hop := hremoves _ List.mem_cons_self
      have hsub : ∀ code, ((Op.caps child).patch narrow).isSupported code = true →
          ((Op.caps child).patch wide).isSupported code = true := by
        intro code hcode
        rw [isSupported_patch hop] at hcode ⊢
        simp only [Bool.or_eq_true, Bool.and_eq_true] at hcode ⊢
        exact hcode.imp_left fun hkept => ⟨h code hkept.1, hkept.2⟩
      have hrest := ih (fun op hop => hremoves op (List.mem_cons_of_mem _ hop)) hsub hadds
      intro pre child' post hops
      cases pre with
      | nil => cases (List.cons.inj hops).1
      | cons op pre =>
        obtain ⟨rfl, hpre⟩ := List.cons.inj hops
        exact hrest pre child' post hpre

/-! ### What a check says -/

section Checked

variable (translate : String → List UInt8) (c : Wire.Ciborium) (sha : Wire.Sha256) (x : XmlReader)

/-- The context that a check loads. -/
def ChecksIn (dir : DataDir) (pnpname : String) (monitorFile : Option MonitorPath) (context : DbContext) : Prop :=
  ∃ loaded, loadContext c sha x dir = .ok loaded ∧ checkedFile translate x pnpname monitorFile (some loaded) = some (some context)

theorem initDb_eq (dir : DataDir) (guard : Option DbContext) : (initDb c sha x dir).run guard =
    match loadContext c sha x dir with
    | .ok context => (.ok (), some context)
    | .error e => (.error e, none) := by
  unfold initDb
  show ((monadLift (loadContext c sha x dir) : SessionM DbContext) >>=
    fun context => set (some context)).run none = _
  rw [run_bind_check]
  cases loadContext c sha x dir <;> rfl

/-- A file that is accepted is in a context. -/
theorem checkedFile_isSome {pnpname : String} {monitorFile : Option MonitorPath}
    {loaded : DbContext} {guard : Option DbContext}
    (h : checkedFile translate x pnpname monitorFile (some loaded) = some guard) :
    ∃ context, guard = some context := by
  unfold checkedFile at h
  cases monitorFile with
  | none => exact ⟨loaded, (Option.some.inj h).symm⟩
  | some path =>
    obtain ⟨pnpid, context, hrun, -⟩ | ⟨e, hrun⟩ :=
      setMonitorFile_run translate x path (some loaded)
    · simp only [hrun] at h
      split at h
      · exact ⟨context, (Option.some.inj h).symm⟩
      · cases h
    · simp only [hrun] at h
      cases h

/-- **A check covers every load.** It succeeds if the profile, in the context of the check,
is loaded strictly from CAPS with every code; the context is released. Then, if the
profile takes away codes and not some of their values, every load from CAPS that have,
before the first block, what is added after it, returns the tree of the check at the
addresses that they have there. -/
theorem checkIntegrity_covers (dir : DataDir) (pnpname : String) (monitorFile : Option MonitorPath)
    (guard : Option DbContext) :
    (checkIntegrity translate c sha x dir pnpname monitorFile guard).2 = none ∧
      ((checkIntegrity translate c sha x dir pnpname monitorFile guard).1 = true ↔
        ∃ context monitor, ChecksIn translate c sha x dir pnpname monitorFile context ∧
          (createDb translate (some context) pnpname fullCaps false).monitor = some monitor) ∧
      ∀ context monitor, (createDb translate (some context) pnpname fullCaps false).monitor = some monitor →
        (∀ op ∈ context.script 16 (pnpname, true), RemovesCodes op) →
        ∀ caps, (∀ op ∈ fromBlock (context.script 16 (pnpname, true)), ∀ code, adds op code = true →
            (capsAfter caps (leading (context.script 16 (pnpname, true)))).isSupported code = true) →
          ∀ faulttolerance, (createDb translate (some context) pnpname caps faulttolerance).monitor =
            some (monitor.keep (capsAfter caps (leading (context.script 16 (pnpname, true)))).isSupported) := by
  have hcovers : ∀ context monitor, (createDb translate (some context) pnpname fullCaps false).monitor = some monitor →
      (∀ op ∈ context.script 16 (pnpname, true), RemovesCodes op) →
      ∀ caps, (∀ op ∈ fromBlock (context.script 16 (pnpname, true)), ∀ code, adds op code = true →
          (capsAfter caps (leading (context.script 16 (pnpname, true)))).isSupported code = true) →
        ∀ faulttolerance, (createDb translate (some context) pnpname caps faulttolerance).monitor =
          some (monitor.keep (capsAfter caps (leading (context.script 16 (pnpname, true)))).isSupported) := by
    intro context monitor hload hremoves caps hadds faulttolerance
    exact createDb_restricts translate hload (narrows_script hremoves (fun _ _ => rfl) hadds) faulttolerance
  obtain ⟨buffer, hbuffer, hcaps⟩ := integrityBuffer_caps
  unfold checkIntegrity
  rw [initDb_eq, hbuffer]
  cases hload : loadContext c sha x dir with
  | error e =>
    refine ⟨rfl, ⟨fun h => ?_, ?_⟩, hcovers⟩
    · cases h
    · rintro ⟨context, monitor, ⟨loaded, hloaded, -⟩, -⟩
      rw [hload] at hloaded
      cases hloaded
  | ok loaded =>
    dsimp only
    cases hfile : checkedFile translate x pnpname monitorFile (some loaded) with
    | none =>
      refine ⟨rfl, ⟨fun h => ?_, ?_⟩, hcovers⟩
      · cases h
      · rintro ⟨context, monitor, ⟨loaded', hloaded, hchecked⟩, -⟩
        rw [hload] at hloaded
        cases hloaded
        rw [hfile] at hchecked
        cases hchecked
    | some checked =>
      obtain ⟨context, rfl⟩ := checkedFile_isSome translate x hfile
      dsimp only
      rw [hcaps]
      refine ⟨rfl, ⟨fun h => ?_, ?_⟩, hcovers⟩
      · obtain ⟨monitor, hmonitor⟩ := Option.isSome_iff_exists.mp h
        exact ⟨context, monitor, ⟨loaded, hload, hfile⟩, hmonitor⟩
      · rintro ⟨context', monitor, ⟨loaded', hloaded, hchecked⟩, hmonitor⟩
        rw [hload] at hloaded
        cases hloaded
        rw [hfile] at hchecked
        cases hchecked
        rw [hmonitor]
        rfl

end Checked

/-- A profile that adds a code after its first block; the profile it includes maps the code
to a control whose value is not a number. -/
def lateContext : DbContext where
  options := ⟨[⟨"Picture", [⟨"Light", none, [⟨false, "brightness", "Brightness", .value, .none, none, []⟩,
    ⟨false, "lamp", "Lamp", .list, .none, none, [⟨"low", some "Low", none⟩]⟩]⟩]⟩]⟩
  profiles := .ofList [("DEL1234", Except.ok (Node.element "monitor" [("name", "Dell"), ("init", "standard")]
      [.element "controls" [] [.element "control" [("id", "brightness"), ("address", "0x10")] []],
        .element "caps" [("add", "(vcp(10))")] [], .element "include" [("file", "LIB")] []])),
    ("LIB", Except.ok (.element "monitor" [("name", "Library")] [.element "controls" []
      [.element "control" [("id", "lamp"), ("address", "0x10")] [.element "value" [("id", "low"), ("value", "dim")] []]]]))]
  monitorFile := none

/-- **A check does not cover what is added late**: it has left out a control that cannot be
read, and a monitor without the code has no tree. -/
theorem lateContext_uncovered : (createDb utf8 (some lateContext) "DEL1234" fullCaps false).monitor.isSome = true ∧
    (createDb utf8 (some lateContext) "DEL1234" .default true).monitor = none := by
  constructor <;> decide +kernel

end DdcControl.Command
