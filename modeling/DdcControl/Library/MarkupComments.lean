import DdcControl.Library.MarkupReader
import Mathlib.Data.List.Chain

/-!
# The comments of a text

A scanner that finds the comments of a text, from each opening to the first closing. What
the grammar of `Markup` derives has the comments that were put into it, and no text of an
attribute opens or closes one.

## What is proved

* `Content.commented` — the comments of some content are texts without adjacent dashes,
  whatever follows the content.
* `CommentText.apart` — no comment has two dashes in a row, or one at its end.
* `AttributeValue.apart_iff` — references hide no dashes.
-/

namespace DdcControl.Markup

/-! ### Dashes -/

/-- No two dashes stand in a row. -/
def Apart (cs : List Char) : Prop := cs.IsChain fun c c' => ¬(c = '-' ∧ c' = '-')

theorem apart_iff {cs : List Char} : Apart cs ↔ ¬['-', '-'] <:+: cs := by
  rw [Apart, List.isChain_iff_forall_rel_of_append_cons_cons]
  constructor
  · rintro h ⟨before, after, heq⟩
    rw [List.append_assoc] at heq
    exact h heq.symm ⟨rfl, rfl⟩
  · rintro h a b before after rfl ⟨rfl, rfl⟩
    exact h ⟨before, after, by rw [List.append_assoc]; rfl⟩

theorem apart_nil : Apart [] := .nil

/-- A text without dashes has none in a row. -/
theorem apart_plain {cs : List Char} (h : '-' ∉ cs) : Apart cs := by
  refine apart_iff.mpr fun hadjacent => h (hadjacent.subset ?_)
  exact List.mem_cons_self ..

theorem apart_cons {c : Char} {cs : List Char} :
    Apart (c :: cs) ↔ (c = '-' → cs.head? ≠ some '-') ∧ Apart cs := by
  rw [Apart, List.isChain_cons]
  refine and_congr_left fun _ => ⟨fun h hc heq => h '-' heq ⟨hc, rfl⟩, fun h c' hc' hdashes => ?_⟩
  exact h hdashes.1 (hdashes.2 ▸ hc')

/-- **What has no dashes keeps those around it apart.** -/
theorem apart_append_plain {before plain after : List Char} (hplain : '-' ∉ plain)
    (hne : plain ≠ []) :
    Apart (before ++ (plain ++ after)) ↔ Apart before ∧ Apart after := by
  have hhead : ∀ c ∈ (plain ++ after).head?, c ≠ '-' := by
    rintro c hc rfl
    rw [List.head?_append_of_ne_nil _ hne] at hc
    exact hplain (List.mem_of_mem_head? hc)
  have hlast : ∀ c ∈ plain.getLast?, c ≠ '-' := by
    rintro c hc rfl
    exact hplain (List.mem_of_mem_getLast? hc)
  simp only [Apart, List.isChain_append]
  constructor
  · exact fun h => ⟨h.1, h.2.1.2.1⟩
  · rintro ⟨hbefore, hafter⟩
    exact ⟨hbefore, ⟨apart_plain hplain, hafter, fun c hc _ _ hdashes => hlast c hc hdashes.1⟩,
      fun _ _ c hc hdashes => hhead c hc hdashes.2⟩

theorem apart_plain_append {plain after : List Char} (hplain : '-' ∉ plain) :
    Apart (plain ++ after) ↔ Apart after := by
  by_cases hne : plain = []
  · rw [hne, List.nil_append]
  · have hmiddle : Apart ([] ++ (plain ++ after)) ↔ Apart [] ∧ Apart after :=
      apart_append_plain hplain hne
    rwa [List.nil_append, and_iff_right apart_nil] at hmiddle

theorem apart_append_plain_end {before plain : List Char} (hplain : '-' ∉ plain) :
    Apart (before ++ plain) ↔ Apart before := by
  by_cases hne : plain = []
  · rw [hne, List.append_nil]
  · have hmiddle : Apart (before ++ (plain ++ [])) ↔ Apart before ∧ Apart [] :=
      apart_append_plain hplain hne
    rwa [List.append_nil, and_iff_left apart_nil] at hmiddle

theorem references_plain {name : String} {c : Char} (h : (name, c) ∈ references) :
    '-' ∉ name.toList ∧ name.toList ≠ [] ∧ c ≠ '-' ∧ '<' ∉ name.toList := by
  have hall : ∀ reference ∈ references, '-' ∉ reference.1.toList ∧ reference.1.toList ≠ [] ∧ reference.2 ≠ '-' ∧
      '<' ∉ reference.1.toList := by decide
  exact hall _ h

/-- **A text of a value has adjacent dashes only if the value has.** -/
theorem AttributeValue.apart_iff {raw value : String} (h : AttributeValue raw value) :
    Apart raw.toList ↔ Apart value.toList := by
  suffices (raw.toList.head? = some '-' ↔ value.toList.head? = some '-') ∧
      (Apart raw.toList ↔ Apart value.toList) from
    this.2
  induction h with
  | nil => exact ⟨.rfl, .rfl⟩
  | @char c text value _ _ ih =>
    simp only [String.toList_append, String.toList_singleton, List.singleton_append]
    exact ⟨.rfl, by rw [apart_cons, apart_cons, ih.2, Ne, Ne, ih.1]⟩
  | @reference name c text value hname _ ih =>
    obtain ⟨hplain, hne, hc, -⟩ := references_plain hname
    simp only [String.toList_append, String.toList_singleton, List.singleton_append]
    refine ⟨?_, ?_⟩
    · rw [List.head?_append_of_ne_nil _ hne]
      refine iff_of_false (fun hhead => hplain (List.mem_of_mem_head? hhead)) fun hhead => hc ?_
      exact Option.some.inj hhead
    · rw [apart_plain_append hplain, apart_cons, ih.2, and_iff_right fun hdash => absurd hdash hc]

/-- **A comment has no two dashes in a row, and none at its end.** -/
theorem CommentText.apart {text : String} (h : CommentText text) :
    Apart text.toList ∧ text.toList.getLast? ≠ some '-' := by
  induction h with
  | nil => exact ⟨apart_nil, by simp⟩
  | @char c text _ hc _ ih =>
    simp only [String.toList_append, String.toList_singleton, List.singleton_append]
    refine ⟨apart_cons.mpr ⟨fun hdash => absurd hdash hc, ih.1⟩, ?_⟩
    rw [List.getLast?_cons]
    cases htext : text.toList.getLast? with
    | none => exact fun heq => hc (Option.some.inj heq)
    | some d => exact htext ▸ ih.2
  | @dash c text _ hc _ ih =>
    simp only [String.toList_append, String.toList_singleton, List.append_assoc,
      List.singleton_append]
    have hrest : Apart (c :: text.toList) := apart_cons.mpr ⟨fun hdash => absurd hdash hc, ih.1⟩
    refine ⟨apart_cons.mpr ⟨fun _ hhead => hc (Option.some.inj hhead), hrest⟩, ?_⟩
    show ('-' :: c :: text.toList).getLast? ≠ _
    rw [List.getLast?_cons_cons, List.getLast?_cons]
    cases htext : text.toList.getLast? with
    | none => exact fun heq => hc (Option.some.inj heq)
    | some d => exact htext ▸ ih.2

/-! ### The scanner -/

/-- The comments of a text; `some inside` is what was read, in reverse, of the comment
that the text begins in. -/
def comments : Option (List Char) → List Char → List String
  | _, [] => []
  | none, '<' :: '!' :: '-' :: '-' :: cs => comments (some []) cs
  | none, _ :: cs => comments none cs
  | some inside, '-' :: '-' :: '>' :: cs => .ofList inside.reverse :: comments none cs
  | some inside, c :: cs => comments (some (c :: inside)) cs

theorem comments_cons {c : Char} (hc : c ≠ '<') (cs : List Char) :
    comments none (c :: cs) = comments none cs := by
  rw [comments]
  exact fun _ hbracket _ => hc hbracket

theorem comments_bracket {c : Char} (hc : c ≠ '!') (cs : List Char) :
    comments none ('<' :: c :: cs) = comments none (c :: cs) := by
  rw [comments]
  rintro _ - heq
  exact hc (List.cons.inj heq).1

theorem comments_inside {c : Char} (hc : c ≠ '-') (inside cs : List Char) :
    comments (some inside) (c :: cs) = comments (some (c :: inside)) cs := by
  rw [comments]
  rintro cs rfl
  exact fun _ => hc rfl

theorem comments_dash {c : Char} (hc : c ≠ '-') (inside cs : List Char) :
    comments (some inside) ('-' :: c :: cs) = comments (some (c :: '-' :: inside)) cs := by
  rw [comments, comments_inside hc]
  rintro _ - heq
  exact hc (List.cons.inj heq).1

/-- **A comment ends at its end**, which is the first there is. -/
theorem CommentText.comments {text : String} (h : CommentText text) (inside rest : List Char) :
    comments (some inside) (text.toList ++ '-' :: '-' :: '>' :: rest) =
      .ofList (inside.reverse ++ text.toList) :: Markup.comments none rest := by
  induction h generalizing inside with
  | nil => rw [String.toList_empty, List.append_nil, List.nil_append, Markup.comments]
  | @char c text _ hc _ ih =>
    rw [String.toList_append, String.toList_singleton, List.append_assoc, List.singleton_append,
      comments_inside hc, ih, List.reverse_cons, List.append_assoc]
  | @dash c text _ hc _ ih =>
    rw [String.toList_append, String.toList_append, String.toList_singleton, List.append_assoc,
      List.append_assoc]
    refine (comments_dash hc _ _).trans ((ih _).trans ?_)
    rw [List.reverse_cons, List.reverse_cons, List.append_assoc, List.append_assoc]
    rfl

/-! ### Texts and their comments -/

/-- The text has these comments, whatever follows it. -/
def Commented (text : String) (insides : List String) : Prop :=
  ∀ rest, comments none (text.toList ++ rest) = insides ++ comments none rest

section Commented

variable {text text' : String} {insides insides' : List String}

theorem Commented.comments_eq (h : Commented text insides) :
    comments none text.toList = insides := by
  have := h []
  rwa [List.append_nil, comments, List.append_nil] at this

theorem Commented.append (h : Commented text insides) (h' : Commented text' insides') :
    Commented (text ++ text') (insides ++ insides') := by
  intro rest
  rw [String.toList_append, List.append_assoc, h, h', List.append_assoc]

/-- A text without brackets has no comments. -/
theorem commented_plain (h : '<' ∉ text.toList) : Commented text [] := by
  intro rest
  rw [List.nil_append]
  generalize text.toList = cs at h ⊢
  induction cs with
  | nil => rfl
  | cons c cs ih =>
    rw [List.mem_cons, not_or] at h
    rw [List.cons_append, comments_cons (Ne.symm h.1), ih h.2]

/-- A bracket before a character but `!` opens none. -/
theorem commented_bracket {c : Char} {cs : List Char} (htext : text.toList = c :: cs) (hc : c ≠ '!')
    (h : Commented text insides) : Commented ("<" ++ text) insides := by
  intro rest
  rw [← h rest, String.toList_append, htext]
  exact comments_bracket hc _

/-- The start of a tag, as a literal text. -/
theorem commented_opening {c : Char} {cs : List Char} (hplain : '<' ∉ text.toList)
    (htext : text.toList = c :: cs) (hc : c ≠ '!') : Commented ("<" ++ text) [] :=
      commented_bracket htext hc (commented_plain hplain)

theorem commented_comment {inside : String} (h : CommentText inside) :
    Commented ("<!--" ++ inside ++ "-->") [inside] := by
  intro rest
  have htext : ("<!--" ++ inside ++ "-->").toList ++ rest =
      '<' :: '!' :: '-' :: '-' :: (inside.toList ++ '-' :: '-' :: '>' :: rest) := by
    simp only [String.toList_append, List.append_assoc]
    rfl
  rw [htext, comments, h.comments, List.reverse_nil, List.nil_append, String.ofList_toList]
  rfl

/-- One of the comments of the text, whatever follows it. -/
def Mentions (text inside : String) : Prop := ∃ insides, Commented text insides ∧ inside ∈ insides

variable {inside : String}

theorem Mentions.mem_comments (h : Mentions text inside) : inside ∈ comments none text.toList := by
  obtain ⟨insides, htext, hmem⟩ := h
  rwa [htext.comments_eq]

theorem Mentions.append (h : Mentions text inside) (h' : Commented text' insides') :
    Mentions (text ++ text') inside := by
  obtain ⟨insides, htext, hmem⟩ := h
  exact ⟨_, htext.append h', List.mem_append_left _ hmem⟩

theorem Commented.mentions (h : Commented text insides) (h' : Mentions text' inside) :
    Mentions (text ++ text') inside := by
  obtain ⟨insides', htext, hmem⟩ := h'
  exact ⟨_, h.append htext, List.mem_append_right _ hmem⟩

/-- What a piece mentions, the whole does. -/
theorem Mentions.join {α : Type*} {write : α → String} {pieces : List α}
    (hpieces : ∀ piece ∈ pieces, ∃ insides, Commented (write piece) insides) {piece : α}
    (hpiece : piece ∈ pieces) (h : Mentions (write piece) inside) :
    Mentions (.join (pieces.map write)) inside := by
  have hcommented : ∀ rest : List α, (∀ piece ∈ rest, ∃ insides, Commented (write piece) insides) →
      ∃ insides, Commented (.join (rest.map write)) insides := by
    intro rest hrest
    induction rest with
    | nil => exact ⟨[], fun _ => rfl⟩
    | cons first rest ih =>
      rw [List.forall_mem_cons] at hrest
      obtain ⟨insides, hinsides⟩ := hrest.1
      obtain ⟨insides', hinsides'⟩ := ih hrest.2
      exact ⟨_, by rw [List.map_cons, String.join_cons]; exact hinsides.append hinsides'⟩
  induction pieces with
  | nil => cases hpiece
  | cons first pieces ih =>
    rw [List.forall_mem_cons] at hpieces
    rw [List.map_cons, String.join_cons]
    rcases List.mem_cons.mp hpiece with rfl | hpiece
    · obtain ⟨_, hrest⟩ := hcommented pieces hpieces.2
      exact h.append hrest
    · obtain ⟨_, hfirst⟩ := hpieces.1
      exact hfirst.mentions (ih hpieces.2 hpiece)

end Commented

/-! ### Contents and their comments -/

theorem AttributeValue.noBracket {raw value : String} (h : AttributeValue raw value) :
    '<' ∉ raw.toList := by
  induction h with
  | nil => simp
  | @char c text value hc _ ih =>
    have hne : '<' ≠ c := by
      rintro rfl
      revert hc
      decide
    simpa [String.toList_append] using ⟨hne, ih⟩
  | @reference name c text value hname _ ih =>
    rw [String.toList_append, List.mem_append, not_or]
    exact ⟨(references_plain hname).2.2.2, ih⟩

theorem IsName.noBracket {name : String} (h : IsName name) : '<' ∉ name.toList := fun hmem =>
  absurd (List.all_eq_true.mp h.2 _ hmem) (by decide)

theorem Attributes.noBracket {text : String} {attributes : List (String × String)}
    (h : Attributes text attributes) :
    '<' ∉ text.toList := by
  induction h with
  | nil => simp
  | cons hname hvalue _ _ ih => simp [String.toList_append, hname.noBracket, hvalue.noBracket, ih]

/-- The start of a tag opens no comment. -/
theorem commented_tag {tag inside : String} {attributes : List (String × String)}
    (htag : IsName tag) (hinside : Attributes inside attributes) :
    Commented ("<" ++ tag ++ inside) [] := by
  obtain ⟨c, cs, hcs, hc⟩ := htag.head
  have hplain : '<' ∉ (tag ++ inside).toList := by simp [String.toList_append, htag.noBracket, hinside.noBracket]
  rw [String.append_assoc]
  have htext : (tag ++ inside).toList = c :: (cs ++ inside.toList) := by
    rw [String.toList_append, hcs]
    rfl
  refine commented_bracket htext ?_ (commented_plain hplain)
  rintro rfl
  cases hc

/-- **The comments of some content are texts of comments**, whatever follows. -/
theorem Content.commented {text : String} {elements : List Element} (h : Content text elements) :
    ∃ insides, Commented text insides ∧ ∀ inside ∈ insides, CommentText inside := by
  induction h with
  | nil => exact ⟨[], fun _ => rfl, List.forall_mem_nil _⟩
  | @space white text elements hwhite _ ih =>
    obtain ⟨insides, htext, hall⟩ := ih
    have hplain : '<' ∉ white.toList := by
      revert hwhite
      have : ∀ white ∈ [" ", "\t", "\n"], '<' ∉ white.toList := by decide
      exact this white
    exact ⟨_, (commented_plain hplain).append htext, hall⟩
  | @comment inside text elements hinside _ ih =>
    obtain ⟨insides, htext, hall⟩ := ih
    exact ⟨_, (commented_comment hinside).append htext, List.forall_mem_cons.mpr ⟨hinside, hall⟩⟩
  | @empty tag inside text attributes elements htag hattributes _ ih =>
    obtain ⟨insides, htext, hall⟩ := ih
    exact ⟨_, ((commented_tag htag hattributes).append (commented_plain (by decide))).append htext, hall⟩
  | @element tag inside content text attributes children elements htag hattributes _ _ ihc ih =>
    obtain ⟨insides, htext, hall⟩ := ih
    obtain ⟨within, hcontent, hallWithin⟩ := ihc
    have hopen := (commented_tag htag hattributes).append (commented_plain (by decide : '<' ∉ ">".toList))
    have hslash : Commented "</" [] := fun rest => comments_bracket (by decide) rest
    have hclose := (hslash.append (commented_plain htag.noBracket)).append
      (commented_plain (by decide : '<' ∉ ">".toList))
    refine ⟨within ++ insides, ?_, fun inside hmem => ?_⟩
    · have := ((hopen.append hcontent).append hclose).append htext
      simp only [List.nil_append, List.append_nil] at this
      simpa only [String.append_assoc] using this
    · exact (List.mem_append.mp hmem).elim (hallWithin inside) (hall inside)

/-- The declaration has no comments. -/
theorem commented_declaration : Commented "<?xml version=\"1.0\" encoding=\"UTF-8\"?>" [] := by
  have hopen : "<?xml version=\"1.0\" encoding=\"UTF-8\"?>" =
      "<" ++ "?xml version=\"1.0\" encoding=\"UTF-8\"?>" := rfl
  rw [hopen]
  exact commented_opening (by decide) rfl (by decide)

/-- **The comments of a document are texts of comments.** -/
theorem Document.comments {text : String} {root : Element} (h : Document text root) :
    ∀ inside ∈ Markup.comments none text.toList, CommentText inside := by
  obtain ⟨content, hcontent, rfl⟩ := h
  obtain ⟨insides, htext, hall⟩ := hcontent.commented
  rw [(commented_declaration.append htext).comments_eq]
  exact hall

end DdcControl.Markup
