import DdcControl.Capabilities.Grammar
import DdcControl.Capabilities.Patching

/-!
# One capabilities string after another

A text that is read up to a closing parenthesis is read alike whatever follows it: no
routine of the parser looks past the parenthesis it stops at. A whole text is read to its
end, but where it ends with a closing parenthesis that was the last thing read.

Proved here: such a text, and then another, are read as one, and patch capabilities as the
one and then the other do.
-/

namespace DdcControl.Capabilities

/-! ### What follows is not looked at -/

/-- Bytes that stop within a text stop there whatever follows it. -/
theorem span_append {p : UInt8 → Bool} {r : List UInt8} (h : r.dropWhile p ≠ []) (t : List UInt8) :
    (r ++ t).takeWhile p = r.takeWhile p ∧ (r ++ t).dropWhile p = r.dropWhile p ++ t := by
  induction r with
  | nil => exact absurd rfl h
  | cons b r ih =>
    rw [List.cons_append]
    by_cases hb : p b = true
    · rw [List.dropWhile_cons_of_pos hb] at h
      simp only [List.takeWhile_cons_of_pos hb, List.dropWhile_cons_of_pos hb, ih h, and_self]
    · simp only [List.takeWhile_cons_of_neg hb, List.dropWhile_cons_of_neg hb,
        List.cons_append, and_self]

theorem trim_append {r : List UInt8} (h : trim r ≠ []) (t : List UInt8) :
    trim (r ++ t) = trim r ++ t := (span_append h t).2

theorem trim_append_of_eq {r r' : List UInt8} {b : UInt8} (h : trim r = b :: r') (t : List UInt8) :
    trim (r ++ t) = b :: (r' ++ t) := by
  rw [trim_append (by rw [h]; exact List.cons_ne_nil _ _), h, List.cons_append]

/-- A name is as long, and followed by as much. -/
theorem name_append {r : List UInt8} (h : afterName r ≠ []) (t : List UInt8) :
    nameOf (r ++ t) = nameOf r ∧ afterName (r ++ t) = afterName r ++ t := by
  have hdrop : (trim r).dropWhile isNameByte ≠ [] := fun hnil => h (by rw [afterName, hnil]; rfl)
  have htrim : trim r ≠ [] := fun hnil => hdrop (by rw [hnil]; rfl)
  obtain ⟨hname, hafter⟩ := span_append hdrop t
  rw [nameOf, afterName, trim_append htrim, hafter, trim_append h]
  exact ⟨hname, rfl⟩

theorem name_append_of_eq {r r' : List UInt8} {b : UInt8} (h : afterName r = b :: r')
    (t : List UInt8) :
    nameOf (r ++ t) = nameOf r ∧ afterName (r ++ t) = b :: (r' ++ t) := by
  obtain ⟨hname, hafter⟩ := name_append (by rw [h]; exact List.cons_ne_nil _ _) t
  exact ⟨hname, by rw [hafter, h, List.cons_append]⟩

theorem head_append {r : List UInt8} (h : r ≠ []) (t : List UInt8) : (r ++ t).head? = r.head? := by
  obtain ⟨b, r', rfl⟩ := List.exists_cons_of_ne_nil h
  rfl

theorem Skips.append {depth : ℕ} {r r' : List UInt8} (h : Skips depth r r') (t : List UInt8) :
    Skips depth (r ++ t) (r' ++ t) := by
  induction h with
  | opened _ ih => exact .opened ih
  | closed _ ih => exact .closed ih
  | last => exact .last
  | byte hb _ ih => exact .byte hb ih

theorem Skips.ne_nil {depth : ℕ} {r r' : List UInt8} (h : Skips depth r r') : r ≠ [] := by
  cases h <;> exact List.cons_ne_nil _ _

theorem ReadsValues.ne_nil {r r' : List UInt8} {values : List UInt16}
    (h : ReadsValues r values r') : r ≠ [] := fun hnil => by
  have := h.consumes.length_lt
  rw [hnil] at this
  cases this

theorem ReadsValues.append {r r' : List UInt8} {values : List UInt16} (h : ReadsValues r values r')
    (t : List UInt8) :
    ReadsValues (r ++ t) values (r' ++ t) := by
  induction h with
  | close h => exact .close (trim_append_of_eq h t)
  | group h hskip _ ih => exact .group (trim_append_of_eq h t) (hskip.append t) ih
  | @value r _ _ _ h hrest ih =>
    obtain ⟨htake, hdrop⟩ := span_append hrest.ne_nil t
    have htrim : trim (r ++ t) = trim r ++ t :=
      trim_append (fun hnil => hrest.ne_nil (by rw [hnil]; rfl)) t
    refine .value (by rw [htrim, htake]; exact h) ?_
    rw [htrim, hdrop]
    exact ih

theorem ReadsEntry.append {r r' : List UInt8} {values : Option (List UInt16)}
    (h : ReadsEntry r values r') (hne : r' ≠ []) (t : List UInt8) :
    ReadsEntry (r ++ t) values (r' ++ t) := by
  cases h with
  | bare h =>
    rw [← trim_append hne]
    exact .bare (by rwa [trim_append hne, head_append hne])
  | listed h hvalues => exact .listed (trim_append_of_eq h t) (hvalues.append t)

theorem ReadsVcp.ne_nil {r r' : List UInt8} {items : List ParsedVcp} (h : ReadsVcp r items r') :
    r ≠ [] := fun hnil => by
  have := h.consumes.length_lt
  rw [hnil] at this
  cases this

theorem ReadsVcp.append {r r' : List UInt8} {items : List ParsedVcp} (h : ReadsVcp r items r')
    (t : List UInt8) :
    ReadsVcp (r ++ t) items (r' ++ t) := by
  have hhead : ∀ {r : List UInt8} {b : UInt8}, (trim r).head? = some b →
      (trim (r ++ t)).head? = some b := fun h => by
    have hne := List.ne_nil_of_mem (List.mem_of_head? h)
    rw [trim_append hne, head_append hne, h]
  induction h with
  | close h => exact .close (trim_append_of_eq h t)
  | nested hname hb h hvcp _ _ ih ih' =>
    obtain ⟨hsame, hafter⟩ := name_append_of_eq h t
    exact .nested (hhead hname) hb hafter (by rwa [hsame]) ih ih'
  | skipped hname hb h hvcp hskip _ ih =>
    obtain ⟨hsame, hafter⟩ := name_append_of_eq h t
    exact .skipped (hhead hname) hb hafter (by rwa [hsame]) (hskip.append t) ih
  | code h hhex hentry hrest ih => exact .code (trim_append_of_eq h t) hhex (hentry.append hrest.ne_nil t) ih

theorem ReadsSection.append {name r r' : List UInt8} {p : Listing} (h : ReadsSection name r p r')
    (t : List UInt8) :
    ReadsSection name (r ++ t) p (r' ++ t) := by
  cases h with
  | type hname hskip =>
    obtain ⟨htake, hdrop⟩ := span_append hskip.ne_nil t
    have htrim : trim (r ++ t) = trim r ++ t :=
      trim_append (fun hnil => hskip.ne_nil (by rw [hnil]; rfl)) t
    rw [← htake, ← htrim]
    exact .type hname (by rw [htrim, hdrop]; exact hskip.append t)
  | vcp hname hitems => exact .vcp hname (hitems.append t)
  | skipped hname hskip => exact .skipped hname (hskip.append t)

/-! ### Sections -/

theorem trim_ne_nil_of_nameOf {r : List UInt8} (h : nameOf r ≠ []) : trim r ≠ [] :=
  fun hnil => h (by rw [nameOf, hnil]; rfl)

/-- Something is left to read inside of parentheses. -/
theorem ReadsSections.trim_ne_nil {r r' : List UInt8} {p : Listing}
    (h : ReadsSections true r p r') : trim r ≠ [] := by
  cases h with
  | close h => exact h ▸ List.cons_ne_nil _ _
  | group h => exact h ▸ List.cons_ne_nil _ _
  | word hname => exact trim_ne_nil_of_nameOf hname
  | named hname => exact trim_ne_nil_of_nameOf hname
  | other h => exact h ▸ List.cons_ne_nil _ _

/-- **Sections that a parenthesis closes** are read alike whatever follows it. -/
theorem ReadsSections.append_closed {r r' : List UInt8} {p : Listing}
    (h : ReadsSections true r p r') (t : List UInt8) :
    ReadsSections true (r ++ t) p (r' ++ t) := by
  generalize hinside : true = inside at h
  induction h with
  | done => cases hinside
  | close h => exact .close (trim_append_of_eq h t)
  | group h _ _ ih ih' => exact .group (trim_append_of_eq h t) (ih rfl) (ih' hinside)
  | word hname h hrest ih =>
    subst hinside
    have hne : afterName _ ≠ [] := fun hnil => hrest.trim_ne_nil (by rw [hnil]; rfl)
    obtain ⟨hsame, hafter⟩ := name_append hne t
    refine .word (by rwa [hsame]) (by rwa [hafter, head_append hne]) ?_
    rw [hafter]
    exact ih rfl
  | named hname h hsection _ ih =>
    obtain ⟨hsame, hafter⟩ := name_append_of_eq h t
    exact .named (by rwa [hsame]) hafter (by rw [hsame]; exact hsection.append t) (ih hinside)
  | other h hb hname _ ih => exact .other (trim_append_of_eq h t) hb hname (ih hinside)

/-- A text that is empty or ends with a closing parenthesis. -/
def EndsClosed (r : List UInt8) : Prop := ∀ b ∈ r.getLast?, b = closeParen

theorem EndsClosed.consumes {r r' : List UInt8} {depth depth' : ℕ} (h : EndsClosed r)
    (hr : Consumes depth r depth' r') :
    EndsClosed r' := by
  obtain ⟨bytes, rfl, -⟩ := hr
  intro b hb
  refine h b ?_
  rw [List.getLast?_append, hb]
  rfl

theorem EndsClosed.mem {r : List UInt8} (h : EndsClosed r) (hne : r ≠ []) : closeParen ∈ r := by
  have hlast := List.getLast?_eq_some_getLast hne
  rw [← h _ hlast]
  exact List.getLast_mem hne

/-- A closing parenthesis is left after what holds none. -/
theorem mem_dropWhile {r : List UInt8} {p : UInt8 → Bool} (h : closeParen ∈ r)
    (hp : p closeParen = false) :
    closeParen ∈ r.dropWhile p := by
  rw [← List.takeWhile_append_dropWhile (p := p) (l := r)] at h
  refine (List.mem_append.mp h).resolve_left fun hmem => ?_
  have := List.mem_takeWhile_imp hmem
  rw [hp] at this
  cases this

/-- **A text that ends with a closing parenthesis, and then another**, are read as one. -/
theorem ReadsSections.append {s s' t : List UInt8} {p q : Listing} (h : ReadsSections false s p s')
    (hs : EndsClosed s) (ht : ReadsSections false t q []) :
    ReadsSections false (s ++ t) (p.append q) [] := by
  generalize hinside : false = inside at h
  induction h with
  | @done r h =>
    cases r with
    | nil => exact ht
    | cons b r =>
      have hmem : closeParen ∈ trim (b :: r) :=
        mem_dropWhile (hs.mem (List.cons_ne_nil b r)) (by decide)
      rw [h] at hmem
      cases hmem
  | close => cases hinside
  | group h hgroup _ _ ih =>
    subst hinside
    rw [Listing.append_assoc]
    have hrest := hs.consumes (Consumes.trimmed (h ▸ Consumes.opened.trans hgroup.consumes) : Consumes 0 _ _ _)
    exact .group (trim_append_of_eq h t) (hgroup.append_closed t) (ih hrest rfl)
  | @word _ r _ _ hname h hrest ih =>
    subst hinside
    have hmem : closeParen ∈ afterName r := by
      have hr : r ≠ [] := fun hnil => trim_ne_nil_of_nameOf hname (by rw [hnil]; rfl)
      exact mem_dropWhile (mem_dropWhile (mem_dropWhile (hs.mem hr) (by decide)) (by decide)) (by decide)
    have hne := List.ne_nil_of_mem hmem
    obtain ⟨hsame, hafter⟩ := name_append hne t
    refine .word (by rwa [hsame]) (by rwa [hafter, head_append hne]) ?_
    rw [hafter]
    exact ih (hs.consumes (Consumes.afterName ⟨[], rfl, rfl⟩ : Consumes 0 _ _ _)) rfl
  | @named _ r _ _ _ _ _ hname h hsection _ ih =>
    subst hinside
    obtain ⟨hsame, hafter⟩ := name_append_of_eq h t
    rw [Listing.append_assoc]
    have hrest := hs.consumes (Consumes.afterName (h ▸ Consumes.opened.trans hsection.consumes) : Consumes 0 _ _ _)
    exact .named (by rwa [hsame]) hafter (by rw [hsame]; exact hsection.append t) (ih hrest rfl)
  | other h hb hname _ ih =>
    subst hinside
    exact .other (trim_append_of_eq h t) hb hname
      (ih (hs.consumes (Consumes.trimmed (h ▸ Consumes.byte hb) : Consumes 0 _ _ _)) rfl)

/-! ### Patches -/

/-- The parse of one text after another. -/
theorem parse_append {s t : List UInt8} {ps pt : ParsedCaps} (hend : s.getLast? = some closeParen)
    (hs : parse s = .ok ps) (ht : parse t = .ok pt) :
    parse (s ++ t) = .ok ⟨pt.monitorType.or ps.monitorType, ps.vcp ++ pt.vcp⟩ := by
  obtain ⟨p, hp, rfl⟩ := parse_iff.mp hs
  obtain ⟨q, hq, rfl⟩ := parse_iff.mp ht
  have hclosed : EndsClosed s := fun b hb => by
    rw [hend] at hb
    exact (Option.some.inj hb).symm
  refine parse_iff.mpr ⟨_, hp.append hclosed hq, ?_⟩
  rw [Listing.record_append]
  simp [Listing.record]

/-- A patch with the items of two, and the later type, is the one and then the other. -/
theorem Caps.patched_append (caps : Caps) (ps pt : ParsedCaps) (edit : Edit) :
    caps.patched ⟨pt.monitorType.or ps.monitorType,
      ps.vcp ++ pt.vcp⟩ edit = (caps.patched ps edit).patched pt edit := by
  unfold Caps.patched
  rw [Edits.edits_append, Caps.mk.injEq]
  refine ⟨?_, rfl⟩
  rcases ps with ⟨_ | _, _⟩ <;> rcases pt with ⟨_ | _, _⟩ <;> cases edit <;> rfl

/-- **CAPS parsing composes over concatenation.** If two strings are accepted and the first
ends with a closing parenthesis, the two in one string are accepted, and are added or
removed as the first and then the second are, with as many items together. -/
theorem Caps.apply_append {s t : List UInt8} {ps pt : ParsedCaps} (hend : s.getLast? = some closeParen)
    (hs : Capabilities.parse s = .ok ps) (ht : Capabilities.parse t = .ok pt) (caps : Caps) (edit : Edit) :
    ∃ caps₁ caps₂ n m, caps.apply s edit = .ok (caps₁, n) ∧ caps₁.apply t edit = .ok (caps₂, m) ∧
      caps.apply (s ++ t) edit = .ok (caps₂, n + m) := by
  refine ⟨caps.patched ps edit, (caps.patched ps edit).patched pt edit, ps.vcp.length,
    pt.vcp.length,
    caps.apply_eq_patched hs edit, Caps.apply_eq_patched ht _ edit, ?_⟩
  rw [caps.apply_eq_patched (parse_append hend hs ht) edit, Caps.patched_append]
  simp

/-- A section, and another with a word before it. -/
theorem Caps.apply_append_sections :
    ∃ caps₁ caps₂ n m, Caps.default.apply (utf8 "type(lcd)vcp(10)") .add = .ok (caps₁, n) ∧
      caps₁.apply (utf8 "and vcp(12)") .add = .ok (caps₂, m) ∧
      Caps.default.apply (utf8 "type(lcd)vcp(10)" ++ utf8 "and vcp(12)") .add = .ok (caps₂, n + m) :=
  Caps.apply_append (by decide)
    (by decide : Capabilities.parse (utf8 "type(lcd)vcp(10)") = .ok ⟨some .lcd, [⟨0x10, none⟩]⟩)
    (by decide : Capabilities.parse (utf8 "and vcp(12)") = .ok ⟨none, [⟨0x12, none⟩]⟩) Caps.default .add

end DdcControl.Capabilities
