import DdcControl.Capabilities.Patch
import DdcControl.Library.Edits

/-!
# What a patch does

`apply_add` and `apply_remove` edit the table of codes with one item of the string after
another: an added item overwrites the entry of its code, a removed one takes the code or
some of its values away. An entry is absent, or has all values, or a list of them, and a
string may list a code more than once.

Proved here: a patch applied twice is applied once, adding keeps every code, and removing
leaves less, of the codes of the string only, and nothing of what it lists.
-/

namespace DdcControl.Capabilities

open Edits

/-! ### One item -/

/-- What an item makes of the entry of its code. -/
def ParsedVcp.editEntry (edit : Edit) (item : ParsedVcp) (entry : Option VcpEntry) : Option VcpEntry :=
  match edit with
  | .add => some ⟨item.values⟩
  | .remove =>
    match item.values with
    | some remove => entry.bind (·.without remove)
    | none => none

theorem Caps.applyItem_eq (edit : Edit) (caps : Caps) (item : ParsedVcp) :
    caps.applyItem edit item =
      { caps with vcp := Edits.edit ParsedVcp.code (ParsedVcp.editEntry edit) caps.vcp item } := by
  rcases edit with _ | _
  · rfl
  · rcases item with ⟨code, _ | remove⟩ <;> rfl

theorem foldl_applyItem (edit : Edit) (items : List ParsedVcp) (caps : Caps) :
    items.foldl (Caps.applyItem edit) caps =
      { caps with vcp := edits ParsedVcp.code (ParsedVcp.editEntry edit) caps.vcp items } := by
  induction items generalizing caps with
  | nil => rfl
  | cons item items ih => rw [List.foldl_cons, ih, Caps.applyItem_eq, edits_cons]

/-- The monitor type a patch leaves. -/
def ParsedCaps.editType (edit : Edit) (parsed : ParsedCaps) (monitorType : MonitorType) : MonitorType :=
  match edit with
  | .add => parsed.monitorType.getD monitorType
  | .remove => monitorType

/-- The capabilities a patch leaves. -/
def Caps.patched (caps : Caps) (parsed : ParsedCaps) (edit : Edit) : Caps where
  monitorType := parsed.editType edit caps.monitorType
  vcp := edits ParsedVcp.code (ParsedVcp.editEntry edit) caps.vcp parsed.vcp

/-- **What `Caps::apply` does with a string that is accepted.** -/
theorem Caps.apply_eq_patched {input : List UInt8} {parsed : ParsedCaps}
    (h : Capabilities.parse input = .ok parsed) (caps : Caps) (edit : Edit) :
    caps.apply input edit = .ok (caps.patched parsed edit, parsed.vcp.length) := by
  unfold Caps.apply
  rw [h]
  show Except.ok (parsed.vcp.foldl (Caps.applyItem edit) _, parsed.vcp.length) = _
  rw [foldl_applyItem]
  rcases parsed with ⟨_ | _, _⟩ <;> rcases edit with _ | _ <;> rfl

/-! ### Adding -/

theorem overwrites_add : Overwrites (ParsedVcp.editEntry .add) := fun _ _ _ => rfl

/-! ### Removing -/

/-- What is left of an entry: nothing, the entry, or some of the values it lists. -/
inductive Narrowed : Option VcpEntry → Option VcpEntry → Prop where
  | removed (entry : Option VcpEntry) : Narrowed entry none
  | same (entry : VcpEntry) : Narrowed (some entry) (some entry)
  | listed {values values' : List UInt16} (h : values'.Sublist values) : Narrowed (some ⟨some values⟩) (some ⟨some values'⟩)

namespace Narrowed

theorem refl (entry : Option VcpEntry) : Narrowed entry entry := by
  cases entry with
  | none => exact removed none
  | some entry => exact same entry

theorem trans {a b c : Option VcpEntry} (h : Narrowed a b) (h' : Narrowed b c) : Narrowed a c := by
  cases h' with
  | removed => exact removed a
  | same => exact h
  | listed hsub =>
    cases h with
    | same => exact listed hsub
    | listed hsub' => exact listed (hsub.trans hsub')

end Narrowed

/-- What removing values leaves of an entry that lists some. -/
theorem VcpEntry.without_some (values remove : List UInt16) :
    (VcpEntry.mk (some values)).without remove =
      if values.filter (fun value => !remove.contains value) = [] then none
      else some ⟨some (values.filter fun value => !remove.contains value)⟩ := by
  simp only [VcpEntry.without, List.isEmpty_iff]

theorem narrowed_editEntry (item : ParsedVcp) (entry : Option VcpEntry) :
    Narrowed entry (item.editEntry .remove entry) := by
  rcases item with ⟨code, _ | remove⟩
  · exact .removed entry
  rcases entry with _ | ⟨_ | values⟩
  · exact .removed none
  · exact .removed _
  · show Narrowed _ ((VcpEntry.mk (some values)).without remove)
    rw [VcpEntry.without_some]
    split
    · exact .removed _
    · exact .listed List.filter_sublist

/-- What a removed item leaves as it is: an absent entry, and a list, if there are values
to remove and it has none of them. -/
inductive Settled : Option (List UInt16) → Option VcpEntry → Prop where
  | absent (remove : Option (List UInt16)) : Settled remove none
  | listed {remove values : List UInt16} (hne : values ≠ []) (h : ∀ value ∈ remove, value ∉ values) :
      Settled (some remove) (some ⟨some values⟩)

theorem Settled.editEntry {item : ParsedVcp} {entry : Option VcpEntry}
    (h : Settled item.values entry) :
    item.editEntry .remove entry = entry := by
  rcases item with ⟨code, remove⟩
  cases h with
  | absent => cases remove <;> rfl
  | listed hne hdisjoint =>
    rename_i remove values
    have hkept : (values.filter fun value => !remove.contains value) = values :=
      List.filter_eq_self.mpr fun value hvalue => by simpa using fun hmem => hdisjoint value hmem hvalue
    show (VcpEntry.mk (some values)).without remove = _
    rw [VcpEntry.without_some, hkept, if_neg hne]

theorem settled_editEntry (item : ParsedVcp) (entry : Option VcpEntry) :
    Settled item.values (item.editEntry .remove entry) := by
  rcases item with ⟨code, _ | remove⟩
  · exact .absent _
  rcases entry with _ | ⟨_ | values⟩
  · exact .absent _
  · exact .absent _
  · show Settled (some remove) ((VcpEntry.mk (some values)).without remove)
    rw [VcpEntry.without_some]
    split
    · exact .absent _
    · rename_i hne
      exact .listed hne fun value hmem hvalue => by simp [hmem] at hvalue

/-- What is settled stays so when less is left. -/
theorem Settled.narrowed {remove : Option (List UInt16)} {entry entry' : Option VcpEntry}
    (h : Settled remove entry) (hless : Narrowed entry entry') (hne : entry' ≠ some ⟨some []⟩) :
    Settled remove entry' := by
  cases hless with
  | removed => exact .absent remove
  | same => exact h
  | listed hsub =>
    cases h with
    | listed _ hdisjoint => exact .listed (fun hnil => hne (by rw [hnil])) fun value hmem hvalue => hdisjoint value hmem (hsub.subset hvalue)

theorem settles_remove : Settles (ParsedVcp.editEntry .remove) where
  again item entry := (settled_editEntry item entry).editEntry
  keeps item item' entry h := by
    have hsettled : Settled item.values entry := h ▸ settled_editEntry item entry
    refine (hsettled.narrowed (narrowed_editEntry item' entry) fun hnil => ?_).editEntry
    have hleft := settled_editEntry item' entry
    rw [hnil] at hleft
    generalize item'.values = remove at hleft
    cases hleft with
    | listed hne => exact hne rfl

/-! ### A patch -/

/-- The type a patch leaves is not changed by the patch again. -/
theorem ParsedCaps.editType_idem (edit : Edit) (parsed : ParsedCaps) (monitorType : MonitorType) :
    parsed.editType edit (parsed.editType edit monitorType) = parsed.editType edit monitorType := by
  rcases parsed with ⟨_ | _, _⟩ <;> cases edit <;> rfl

/-- A patch applied twice is applied once. -/
theorem Caps.patched_idem (caps : Caps) (parsed : ParsedCaps) (edit : Edit) :
    (caps.patched parsed edit).patched parsed edit = caps.patched parsed edit := by
  have hvcp : edits ParsedVcp.code (ParsedVcp.editEntry edit)
      (edits ParsedVcp.code (ParsedVcp.editEntry edit) caps.vcp parsed.vcp)
      parsed.vcp = edits ParsedVcp.code (ParsedVcp.editEntry edit) caps.vcp parsed.vcp := by
    cases edit with
    | add => exact overwrites_add.edits_idem caps.vcp parsed.vcp
    | remove => exact settles_remove.edits_idem caps.vcp parsed.vcp
  rw [Caps.patched, Caps.mk.injEq]
  exact ⟨ParsedCaps.editType_idem .., hvcp⟩

/-- Adding keeps every code. -/
theorem Caps.isSupported_patched_add {caps : Caps} {code : UInt8} (h : caps.isSupported code)
    (parsed : ParsedCaps) :
    (caps.patched parsed .add).isSupported code :=
  edits_rel (R := fun entry entry' => entry.isSome → entry'.isSome) ParsedVcp.code
    (ParsedVcp.editEntry .add) (fun _ => id)
    (fun h h' => h' ∘ h) (fun _ _ _ => rfl) caps.vcp parsed.vcp code h

/-- Removing leaves less of every entry. -/
theorem Caps.narrowed_patched_remove (caps : Caps) (parsed : ParsedCaps) (code : UInt8) :
    Narrowed (caps.vcp code) ((caps.patched parsed .remove).vcp code) :=
  edits_rel ParsedVcp.code (ParsedVcp.editEntry .remove) Narrowed.refl Narrowed.trans
    narrowed_editEntry caps.vcp parsed.vcp code

/-- Removing leaves nothing of what a string lists. -/
theorem Caps.settled_patched_remove (caps : Caps) {parsed : ParsedCaps} {item : ParsedVcp}
    (h : item ∈ parsed.vcp) :
    Settled item.values ((caps.patched parsed .remove).vcp item.code) := by
  have hsettled := @Settles.edits_settled _ _ _ _ ParsedVcp.code _ settles_remove _ _ h caps.vcp
  show Settled item.values (edits _ _ caps.vcp parsed.vcp item.code)
  rw [← hsettled]
  exact settled_editEntry item _

/-- **CAPS patches are idempotent and monotone.** A string that is accepted may be applied
to any capabilities. Adding it again and removing it again change nothing. Adding keeps
every code. Removing keeps the monitor type, leaves of an entry nothing, the entry or some
of the values it lists, leaves the entries of other codes alone, and leaves no code that
is listed without values and no value that is listed with its code. -/
theorem Caps.apply_laws {input : List UInt8} {parsed : ParsedCaps} (h : Capabilities.parse input = .ok parsed) (caps : Caps) :
    ∃ added removed n, caps.apply input .add = .ok (added, n) ∧ caps.apply input .remove = .ok (removed, n) ∧
      added.apply input .add = .ok (added, n) ∧ removed.apply input .remove = .ok (removed, n) ∧
      (∀ code, caps.isSupported code → added.isSupported code) ∧
      removed.monitorType = caps.monitorType ∧
      (∀ code, Narrowed (caps.vcp code) (removed.vcp code)) ∧
      (∀ code, (∀ item ∈ parsed.vcp, item.code ≠ code) → removed.vcp code = caps.vcp code) ∧
      (∀ item ∈ parsed.vcp, item.values = none → removed.vcp item.code = none) ∧
      ∀ item ∈ parsed.vcp, ∀ listed, item.values = some listed → ∀ entry, removed.vcp item.code = some entry →
        ∃ values, entry.values = some values ∧ ∀ value ∈ listed, value ∉ values := by
  refine ⟨caps.patched parsed .add, caps.patched parsed .remove, parsed.vcp.length,
    caps.apply_eq_patched h .add,
    caps.apply_eq_patched h .remove, ?_, ?_, fun code hcode =>
      Caps.isSupported_patched_add hcode parsed, rfl,
    caps.narrowed_patched_remove parsed, fun code hcode =>
      edits_of_forall_ne _ _ hcode _, fun item hitem hvalues => ?_,
    fun item hitem listed hvalues entry hentry => ?_⟩
  · rw [Caps.apply_eq_patched h, Caps.patched_idem]
  · rw [Caps.apply_eq_patched h, Caps.patched_idem]
  · have hsettled := caps.settled_patched_remove hitem
    rw [hvalues] at hsettled
    generalize (caps.patched parsed .remove).vcp item.code = entry at hsettled ⊢
    cases hsettled
    rfl
  · have hsettled := caps.settled_patched_remove hitem
    rw [hvalues, hentry] at hsettled
    cases hsettled with
    | listed _ hdisjoint => exact ⟨_, rfl, hdisjoint⟩

/-- A code listed with a value, then without any. -/
theorem Caps.apply_laws_twice :
    ∃ added removed n, Caps.default.apply (utf8 "vcp(60(11) 60)") .add = .ok (added, n) ∧
      Caps.default.apply (utf8 "vcp(60(11) 60)") .remove = .ok (removed, n) ∧
      added.apply (utf8 "vcp(60(11) 60)") .add = .ok (added, n) ∧ removed.apply (utf8 "vcp(60(11) 60)") .remove = .ok (removed, n) := by
  obtain ⟨added, removed, n, hadd, hremove, hadd', hremove', -⟩ :=
    Caps.apply_laws
      (by decide : Capabilities.parse (utf8 "vcp(60(11) 60)") = .ok ⟨none, [⟨0x60, some [0x11]⟩, ⟨0x60, none⟩]⟩)
      Caps.default
  exact ⟨added, removed, n, hadd, hremove, hadd', hremove'⟩

end DdcControl.Capabilities
