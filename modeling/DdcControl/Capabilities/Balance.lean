import DdcControl.Capabilities.Grammar
import DdcControl.Capabilities.Patching

/-!
# Balanced capabilities strings

Each routine of the parser closes the parenthesis it was called after, by counting of its
own; only the value of a `type` section is read up to white space or a closing parenthesis
with no regard to opening ones.

Proved here: a string that is accepted opens as many parentheses more than it closes as
such values hold, and closes none too early; so the strings that are accepted are balanced
exactly if no such value holds one. Sections with balanced bodies are accepted.
-/

namespace DdcControl.Capabilities

/-- Every prefix has at least as many opening parentheses as closing ones, and the whole
has equally many. -/
def Balanced (s : List UInt8) : Prop :=
  (∀ u, u <+: s → u.count closeParen ≤ u.count openParen) ∧ s.count openParen = s.count closeParen

theorem forall_prefix_cons {b : UInt8} {s : List UInt8} {P : List UInt8 → Prop} :
    (∀ u, u <+: b :: s → P u) ↔ P [] ∧ ∀ u, u <+: s → P (b :: u) := by
  constructor
  · exact fun h => ⟨h [] List.nil_prefix, fun u hu => h (b :: u) (List.cons_prefix_cons.mpr ⟨rfl, hu⟩)⟩
  · rintro ⟨hnil, hcons⟩ u hu
    rcases List.prefix_cons_iff.mp hu with rfl | ⟨v, rfl, hv⟩
    · exact hnil
    · exact hcons v hv

/-- The depth climbed to, by the numbers of parentheses. -/
theorem climb_eq_some_iff {depth depth' : ℕ} {s : List UInt8} :
    climb depth s = some depth' ↔
      (∀ u, u <+: s → u.count closeParen ≤ depth + u.count openParen) ∧
        depth + s.count openParen = depth' + s.count closeParen := by
  induction s generalizing depth with
  | nil => simp [climb]
  | cons b s ih =>
    rw [forall_prefix_cons]
    by_cases hopen : b = openParen
    · subst hopen
      have hne : (openParen == closeParen) = false := by decide
      simp only [climb_open, ih, List.count_cons, hne, beq_self_eq_true, if_true,
        Bool.false_eq_true, if_false, List.count_nil]
      constructor
      · rintro ⟨h, hwhole⟩
        exact ⟨⟨Nat.zero_le _, fun u hu => by have := h u hu; omega⟩, by omega⟩
      · rintro ⟨⟨-, h⟩, hwhole⟩
        exact ⟨fun u hu => by have := h u hu; omega, by omega⟩
    by_cases hclose : b = closeParen
    · subst hclose
      have hne : (closeParen == openParen) = false := by decide
      cases depth with
      | zero =>
        refine iff_of_false nofun ?_
        rintro ⟨⟨-, h⟩, -⟩
        have := h [] List.nil_prefix
        simp at this
        exact hopen this.symm
      | succ depth =>
        simp only [climb_close, ih, List.count_cons, hne, beq_self_eq_true, if_true,
          Bool.false_eq_true, if_false, List.count_nil]
        constructor
        · rintro ⟨h, hwhole⟩
          exact ⟨⟨Nat.zero_le _, fun u hu => by have := h u hu; omega⟩, by omega⟩
        · rintro ⟨⟨-, h⟩, hwhole⟩
          exact ⟨fun u hu => by have := h u hu; omega, by omega⟩
    · simp [climb_byte ⟨hopen, hclose⟩, ih, hopen, hclose]

theorem balanced_iff_climb {s : List UInt8} : Balanced s ↔ climb 0 s = some 0 := by
  simp [climb_eq_some_iff, Balanced]

/-! ### Accepted strings -/

/-- What an accepted string climbs to. -/
theorem ReadsSections.climb_eq {s : List UInt8} {p : Listing} (h : ReadsSections false s p []) :
    climb 0 s = some p.swallowed := by
  obtain ⟨bytes, rfl, hclimb⟩ := h.consumes
  rw [List.append_nil]
  exact hclimb

theorem Listing.swallowed_eq_zero {p : Listing} : p.swallowed = 0 ↔
    ∀ value ∈ p.types, openParen ∉ value := by
  simp [swallowed, List.sum_eq_zero_iff_forall_eq_nat, List.count_eq_zero]

/-- **A string that is accepted is balanced** if no value of its `type` sections holds an
opening parenthesis, and only then. -/
theorem ReadsSections.balanced_iff {s : List UInt8} {p : Listing} (h : ReadsSections false s p []) :
    Balanced s ↔ ∀ value ∈ p.types, openParen ∉ value := by
  rw [balanced_iff_climb, h.climb_eq, Option.some.injEq, Listing.swallowed_eq_zero]

/-! ### Sections that are skipped -/

/-- A section with its name and its body. -/
def sectionText (name body : List UInt8) : List UInt8 := name ++ openParen :: (body ++ [closeParen])

/-- Strings made of sections that are neither `type` nor `vcp` and have balanced bodies. -/
inductive OtherSections : List UInt8 → Prop where
  | nil : OtherSections []
  | cons {name body s : List UInt8} (hne : name ≠ []) (hname : ∀ b ∈ name, isNameByte b = true)
      (hother : name ≠ utf8 "type" ∧ name ≠ utf8 "vcp") (hbody : Balanced body) (h : OtherSections s) :
      OtherSections (sectionText name body ++ s)

/-- Skipping goes over bytes, to the depth they climb to. -/
theorem skips_of_climb {depth depth' : ℕ} {bytes r r' : List UInt8}
    (hclimb : climb depth bytes = some depth') (h : Skips (depth' + 1) r r') :
    Skips (depth + 1) (bytes ++ r) r' := by
  induction bytes generalizing depth with
  | nil =>
    cases hclimb
    exact h
  | cons b bytes ih =>
    rw [List.cons_append]
    by_cases hopen : b = openParen
    · subst hopen
      rw [climb_open] at hclimb
      exact .opened (ih hclimb)
    by_cases hclose : b = closeParen
    · subst hclose
      cases depth with
      | zero => cases hclimb
      | succ depth =>
        rw [climb_close] at hclimb
        exact .closed (ih hclimb)
    · rw [climb_byte ⟨hopen, hclose⟩] at hclimb
      exact .byte ⟨hopen, hclose⟩ (ih hclimb)

/-- A name that is next, and its parenthesis. -/
theorem nameOf_section {name r : List UInt8} (hne : name ≠ [])
    (hname : ∀ b ∈ name, isNameByte b = true) :
    nameOf (name ++ openParen :: r) = name ∧ afterName (name ++ openParen :: r) = openParen :: r := by
  have htrim : trim (name ++ openParen :: r) = name ++ openParen :: r := by
    obtain ⟨b, name, rfl⟩ := List.exists_cons_of_ne_nil hne
    exact List.dropWhile_cons_of_neg (by simp [(isNameByte_ne (hname b List.mem_cons_self)).2.2])
  have hstop : isNameByte openParen = false := by decide
  unfold nameOf afterName
  rw [htrim, List.takeWhile_append_of_pos hname, List.dropWhile_append_of_pos hname,
    List.takeWhile_cons_of_neg (by simp [hstop]), List.dropWhile_cons_of_neg (by simp [hstop]), List.append_nil]
  exact ⟨rfl, rfl⟩

theorem OtherSections.reads {s : List UInt8} (h : OtherSections s) :
    ReadsSections false s .empty [] := by
  induction h with
  | nil => exact .done rfl
  | @cons name body s hne hname hother hbody _ ih =>
    rw [sectionText, List.append_assoc, List.cons_append, List.append_assoc]
    obtain ⟨hsame, hafter⟩ := nameOf_section (r := body ++ ([closeParen] ++ s)) hne hname
    have hskip : Skips 1 (body ++ ([closeParen] ++ s)) s :=
      skips_of_climb (balanced_iff_climb.mp hbody) .last
    exact .named (by rwa [hsame]) hafter (p := .empty) (by rw [hsame]; exact .skipped hother hskip) ih

/-! ### What is accepted -/

/-- A string is accepted by `Caps::parse`, `apply_add` or `apply_remove`. -/
def Accepted (s : List UInt8) : Prop := (∃ caps, Caps.parse s = .ok caps) ∨ ∃ caps edit result, Caps.apply caps s edit = .ok result

/-- All three accept what is of the grammar. -/
theorem accepts_of_reads {s : List UInt8} {p : Listing} (h : ReadsSections false s p []) :
    (∃ caps, Caps.parse s = .ok caps) ∧ ∀ caps edit, ∃ result, Caps.apply caps s edit = .ok result := by
  have happly := Caps.apply_eq_patched (parse_iff.mpr ⟨p, h, rfl⟩)
  refine ⟨⟨Caps.default.patched (p.record ⟨none, []⟩) .add, ?_⟩,
    fun caps edit => ⟨_, happly caps edit⟩⟩
  unfold Caps.parse
  rw [happly Caps.default .add]
  rfl

theorem Accepted.reads {s : List UInt8} (h : Accepted s) :
    ∃ p : Listing, ReadsSections false s p [] := by
  have happly : ∀ caps edit result, Caps.apply caps s edit = .ok result →
      ∃ p : Listing, ReadsSections false s p [] := by
    intro caps edit result happly
    unfold Caps.apply at happly
    obtain ⟨parsed, hparse, -⟩ := Fallible.bind_eq_ok.mp happly
    obtain ⟨p, hreads, -⟩ := parse_iff.mp hparse
    exact ⟨p, hreads⟩
  rcases h with ⟨caps, h⟩ | ⟨caps, edit, result, h⟩
  · unfold Caps.parse at h
    cases hrun : Caps.default.apply s .add with
    | error e => rw [hrun] at h; cases h
    | ok result => exact happly _ _ _ hrun
  · exact happly caps edit result h

/-- **Which unbalanced strings are accepted.** That a string which is accepted is balanced
holds unless it has a `type` section whose value, the bytes up to white space or a closing
parenthesis, holds an opening one. That sections with balanced bodies which are neither
`type` nor `vcp` are accepted always holds. -/
theorem accepted_balanced_iff (s : List UInt8) :
    ((Accepted s → Balanced s) ∧
      (OtherSections s → (∃ caps, Caps.parse s = .ok caps) ∧ ∀ caps edit, ∃ result, Caps.apply caps s edit = .ok result)) ↔
    ¬∃ p : Listing, ReadsSections false s p [] ∧ ∃ value ∈ p.types, openParen ∈ value := by
  constructor
  · rintro ⟨hbalanced, -⟩ ⟨p, hreads, value, hvalue, hmem⟩
    exact hreads.balanced_iff.mp (hbalanced (.inl (accepts_of_reads hreads).1)) value hvalue hmem
  · intro h
    refine ⟨fun haccepted => ?_, fun hother => accepts_of_reads hother.reads⟩
    obtain ⟨p, hreads⟩ := haccepted.reads
    exact hreads.balanced_iff.mpr fun value hvalue hmem => h ⟨p, hreads, value, hvalue, hmem⟩

/-- A monitor type with a parenthesis. -/
theorem accepted_unbalanced : Accepted (utf8 "type(lcd()") ∧ ¬Balanced (utf8 "type(lcd()") := by
  constructor
  · refine .inr ⟨Caps.default, .add, _,
      Caps.apply_eq_patched (by decide : parse (utf8 "type(lcd()") = .ok ⟨none, []⟩) Caps.default .add⟩
  · rintro ⟨-, h⟩
    exact absurd h (by decide)

end DdcControl.Capabilities
