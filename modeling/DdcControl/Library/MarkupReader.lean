import DdcControl.Library.Markup
import Mathlib.Tactic.SplitIfs

/-!
# Reading written markup

A reader of the documents of `Markup`: it skips white space and comments, and returns
the elements it finds, with the values that their attributes denote.

## What is proved

* `Content.read` — what the grammar derives, the reader reads.
* `Content.unique`, `Document.unique` — so a text has the elements of one derivation.
-/

namespace DdcControl.Markup

/-! ### The reader -/

/-- A name, and what follows it. -/
def readName (cs : List Char) : List Char × List Char := (cs.takeWhile Char.isAlpha, cs.dropWhile Char.isAlpha)

/-- An attribute value up to its closing quote. -/
def readValue : List Char → Option (List Char × List Char)
  | [] => none
  | '"' :: cs => some ([], cs)
  | '&' :: 'a' :: 'm' :: 'p' :: ';' :: cs => (readValue cs).map fun (value, cs) => ('&' :: value, cs)
  | '&' :: 'l' :: 't' :: ';' :: cs => (readValue cs).map fun (value, cs) => ('<' :: value, cs)
  | '&' :: 'g' :: 't' :: ';' :: cs => (readValue cs).map fun (value, cs) => ('>' :: value, cs)
  | '&' :: 'q' :: 'u' :: 'o' :: 't' :: ';' :: cs => (readValue cs).map fun (value, cs) => ('"' :: value, cs)
  | '&' :: 'a' :: 'p' :: 'o' :: 's' :: ';' :: cs => (readValue cs).map fun (value, cs) => ('\'' :: value, cs)
  | '&' :: '#' :: 'x' :: '9' :: ';' :: cs => (readValue cs).map fun (value, cs) => ('\t' :: value, cs)
  | '&' :: '#' :: 'x' :: 'A' :: ';' :: cs => (readValue cs).map fun (value, cs) => ('\n' :: value, cs)
  | '&' :: '#' :: 'x' :: 'D' :: ';' :: cs => (readValue cs).map fun (value, cs) => ('\r' :: value, cs)
  | c :: cs => if c = '&' then none else (readValue cs).map fun (value, cs) => (c :: value, cs)

/-- The attributes of a tag. -/
def readAttributes : ℕ → List Char → Option (List (String × String) × List Char)
  | 0, _ => none
  | fuel + 1, ' ' :: cs =>
    let (name, cs) := readName cs
    match cs with
    | '=' :: '"' :: cs => do
      let (value, cs) ← readValue cs
      let (attributes, cs) ← readAttributes fuel cs
      return ((.ofList name, .ofList value) :: attributes, cs)
    | _ => none
  | _ + 1, cs => some ([], cs)

/-- The name and the attributes of a tag. -/
def readTag (fuel : ℕ) (cs : List Char) : Option (String × List (String × String) × List Char) := do
  let (tag, cs) := readName cs
  let (attributes, cs) ← readAttributes fuel cs
  return (.ofList tag, attributes, cs)

/-- What follows a comment. -/
def skipComment : List Char → Option (List Char)
  | [] => none
  | '-' :: '-' :: '>' :: cs => some cs
  | _ :: cs => skipComment cs

/-- The elements up to an end tag, or to the end. -/
def readContent : ℕ → List Char → Option (List Element × List Char)
  | 0, _ => none
  | _ + 1, [] => some ([], [])
  | _ + 1, '<' :: '/' :: cs => some ([], '<' :: '/' :: cs)
  | fuel + 1, '<' :: '!' :: '-' :: '-' :: cs => do
    let cs ← skipComment cs
    readContent fuel cs
  | fuel + 1, '<' :: cs => do
    let (tag, attributes, cs) ← readTag fuel cs
    match cs with
    | '/' :: '>' :: cs =>
      let (elements, cs) ← readContent fuel cs
      return (.mk tag attributes [] :: elements, cs)
    | '>' :: cs =>
      let (children, cs) ← readContent fuel cs
      let cs ← cs.dropPrefix? ("</" ++ tag ++ ">").toList
      let (elements, cs) ← readContent fuel cs
      return (.mk tag attributes children :: elements, cs)
    | _ => none
  | fuel + 1, c :: cs => if c = ' ' ∨ c = '\t' ∨ c = '\n' then readContent fuel cs else none

/-- The element of a document. -/
def read (text : String) : Option Element := do
  let cs ← text.toList.dropPrefix? "<?xml version=\"1.0\" encoding=\"UTF-8\"?>".toList
  match ← readContent (cs.length + 1) cs with
  | ([root], []) => some root
  | _ => none

/-! ### Names and values -/

/-- A name ends where a character that is no letter follows. -/
theorem readName_append {name : String} (h : IsName name) {c : Char} (hc : c.isAlpha = false)
    (rest : List Char) :
    readName (name.toList ++ c :: rest) = (name.toList, c :: rest) := by
  have hall : ∀ c ∈ name.toList, c.isAlpha = true := List.all_eq_true.mp h.2
  rw [readName, List.takeWhile_append_of_pos hall, List.dropWhile_append_of_pos hall,
    List.takeWhile_cons_of_neg (by simp [hc]), List.dropWhile_cons_of_neg (by simp [hc]), List.append_nil]

theorem readValue_char {c : Char} (hquote : c ≠ '"') (hreference : c ≠ '&') (cs : List Char) :
    readValue (c :: cs) = (readValue cs).map fun (value, cs) => (c :: value, cs) := by
  rw [readValue, if_neg hreference]
  all_goals simp_all

theorem readValue_reference {name : String} {c : Char} (h : (name, c) ∈ references)
    (cs : List Char) :
    readValue (name.toList ++ cs) = (readValue cs).map fun (value, cs) => (c :: value, cs) := by
  simp only [references, List.mem_cons, Prod.mk.injEq, List.not_mem_nil, or_false] at h
  rcases h with ⟨rfl, rfl⟩ | ⟨rfl, rfl⟩ | ⟨rfl, rfl⟩ | ⟨rfl, rfl⟩ | ⟨rfl, rfl⟩ | ⟨rfl, rfl⟩ |
    ⟨rfl, rfl⟩ | ⟨rfl, rfl⟩ <;>
    rfl

/-- **The text of a value is read as the value.** -/
theorem AttributeValue.read {raw value : String} (h : AttributeValue raw value) (rest : List Char) :
    readValue (raw.toList ++ '"' :: rest) = some (value.toList, rest) := by
  induction h with
  | nil => rfl
  | @char c text value hc _ ih =>
    have hne : c ≠ '"' ∧ c ≠ '&' := by
      constructor <;> rintro rfl <;> revert hc <;> decide
    rw [String.toList_append, String.toList_append, List.append_assoc, String.toList_singleton,
      List.singleton_append, readValue_char hne.1 hne.2, ih]
    rfl
  | @reference name c text value hname _ ih =>
    rw [String.toList_append, String.toList_append, List.append_assoc,
      readValue_reference hname, ih, String.toList_singleton]
    rfl

/-! ### Attributes -/

/-- What follows the attributes of a tag begins with no space. -/
def NoSpaceHead (cs : List Char) : Prop := ∀ c ∈ cs.head?, c ≠ ' '

/-- **The text of attributes is read as the attributes.** -/
theorem Attributes.read {text : String} {attributes : List (String × String)}
    (h : Attributes text attributes) {rest : List Char} (hrest : NoSpaceHead rest) {fuel : ℕ}
    (hfuel : text.length < fuel) :
    readAttributes fuel (text.toList ++ rest) = some (attributes, rest) := by
  induction h generalizing fuel with
  | nil =>
    obtain ⟨fuel, rfl⟩ := Nat.exists_eq_add_one_of_ne_zero (Nat.ne_zero_of_lt hfuel)
    cases rest with
    | nil => rfl
    | cons c rest =>
      have hc := hrest c rfl
      change readAttributes (fuel + 1) (c :: rest) = _
      rw [readAttributes]
      rintro cs heq
      exact hc (List.cons.inj heq).1
  | @cons name raw value text attributes hname hvalue _ _ ih =>
    obtain ⟨fuel, rfl⟩ := Nat.exists_eq_add_one_of_ne_zero (Nat.ne_zero_of_lt hfuel)
    have hlength : text.length < fuel := by
      simp only [String.length_append] at hfuel
      have : " ".length = 1 := rfl
      omega
    have htext : (" " ++ name ++ "=\"" ++ raw ++ "\"" ++ text).toList ++ rest =
        ' ' :: (name.toList ++ '=' :: '"' :: (raw.toList ++ '"' :: (text.toList ++ rest))) := by
      simp [String.toList_append]
    rw [htext, readAttributes, readName_append hname (by decide)]
    simp only [hvalue.read, ih hlength, Option.bind_eq_bind, Option.bind_some, String.ofList_toList]
    rfl

/-- What may follow the name and the attributes of a tag. -/
def CloseHead (cs : List Char) : Prop := ∃ c rest, cs = c :: rest ∧ c.isAlpha = false ∧ c ≠ ' '

/-- **The text of a tag is read as its name and its attributes.** -/
theorem readTag_append {tag inside : String} {attributes : List (String × String)}
    (htag : IsName tag) (hinside : Attributes inside attributes) {rest : List Char}
    (hrest : CloseHead rest) {fuel : ℕ} (hfuel : inside.length < fuel) :
    readTag fuel (tag.toList ++ (inside.toList ++ rest)) = some (tag, attributes, rest) := by
  obtain ⟨c, rest, rfl, hletter, hspace⟩ := hrest
  have hhead : ∃ d cs, inside.toList ++ c :: rest = d :: cs ∧ d.isAlpha = false := by
    cases hinside with
    | nil => exact ⟨c, rest, rfl, hletter⟩
    | @cons name raw value text =>
      refine ⟨' ', name.toList ++ '=' :: '"' :: (raw.toList ++ '"' :: (text.toList ++ c :: rest)),
        ?_, by decide⟩
      simp only [String.toList_append, List.append_assoc]
      rfl
  obtain ⟨d, cs, hcs, hd⟩ := hhead
  have hnoSpace : NoSpaceHead (c :: rest) := by
    rintro _ ⟨⟩
    exact hspace
  have hattributes := hinside.read hnoSpace hfuel
  rw [hcs] at hattributes ⊢
  rw [readTag, readName_append htag hd]
  simp only [hattributes, Option.bind_eq_bind, Option.bind_some, String.ofList_toList]
  rfl

/-! ### Comments -/

theorem skipComment_cons {c : Char} (hc : c ≠ '-') (cs : List Char) :
    skipComment (c :: cs) = skipComment cs := by
  rw [skipComment]
  exact fun _ heq _ => hc heq

theorem skipComment_dash {c : Char} (hc : c ≠ '-') (cs : List Char) :
    skipComment ('-' :: c :: cs) = skipComment cs := by
  rw [skipComment, skipComment_cons hc]
  exact fun _ _ heq => hc (List.cons.inj heq).1

/-- **A comment is skipped to its end**, which is the first there is. -/
theorem CommentText.skip {text : String} (h : CommentText text) (rest : List Char) :
    skipComment (text.toList ++ '-' :: '-' :: '>' :: rest) = some rest := by
  induction h with
  | nil => rfl
  | @char c text _ hc _ ih =>
    rw [String.toList_append, String.toList_singleton, List.append_assoc, List.singleton_append,
      skipComment_cons hc, ih]
  | @dash c text _ hc _ ih =>
    rw [String.toList_append, String.toList_append, String.toList_singleton, List.append_assoc,
      List.append_assoc]
    exact (skipComment_dash hc _).trans ih

/-! ### Contents -/

/-- Content ends at an end tag, or with the text. -/
def Stop (cs : List Char) : Prop := cs = [] ∨ ∃ rest, cs = '<' :: '/' :: rest

theorem readContent_stop {cs : List Char} (h : Stop cs) (fuel : ℕ) :
    readContent (fuel + 1) cs = some ([], cs) := by
  rcases h with rfl | ⟨rest, rfl⟩ <;> rfl

theorem readContent_space {white : String} (h : white ∈ [" ", "\t", "\n"]) (fuel : ℕ)
    (cs : List Char) :
    readContent (fuel + 1) (white.toList ++ cs) = readContent fuel cs := by
  simp only [List.mem_cons, List.not_mem_nil, or_false] at h
  rcases h with rfl | rfl | rfl <;> rfl

/-- A name begins with a letter. -/
theorem IsName.head {name : String} (h : IsName name) :
    ∃ c cs, name.toList = c :: cs ∧ c.isAlpha = true := by
  cases hlist : name.toList with
  | nil => exact absurd (String.toList_eq_nil_iff.mp hlist) h.1
  | cons c cs => exact ⟨c, cs, rfl, List.all_eq_true.mp h.2 c (hlist ▸ List.mem_cons_self ..)⟩

/-- A bracket before a letter begins an element. -/
theorem readContent_element {c : Char} (hc : c.isAlpha = true) (fuel : ℕ) (cs : List Char) :
    readContent (fuel + 1) ('<' :: c :: cs) = (do
      let (tag, attributes, cs) ← readTag fuel (c :: cs)
      match cs with
      | '/' :: '>' :: cs =>
        let (elements, cs) ← readContent fuel cs
        return (.mk tag attributes [] :: elements, cs)
      | '>' :: cs =>
        let (children, cs) ← readContent fuel cs
        let cs ← cs.dropPrefix? ("</" ++ tag ++ ">").toList
        let (elements, cs) ← readContent fuel cs
        return (.mk tag attributes children :: elements, cs)
      | _ => none) := by
  have hslash : c ≠ '/' := by
    rintro rfl
    cases hc
  have hbang : c ≠ '!' := by
    rintro rfl
    cases hc
  rw [readContent]
  · exact fun _ heq => hslash (List.cons.inj heq).1
  · exact fun _ heq => hbang (List.cons.inj heq).1

theorem closeHead_cons {c : Char} (hc : c.isAlpha = false) (hspace : c ≠ ' ') (rest : List Char) :
    CloseHead (c :: rest) :=
  ⟨c, rest, rfl, hc, hspace⟩

theorem dropPrefix?_append {α : Type} [BEq α] [LawfulBEq α] (p rest : List α) :
    (p ++ rest).dropPrefix? p = some rest :=
  List.dropPrefix?_eq_some_iff.mpr ⟨p, rfl, beq_self_eq_true p⟩

/-- An element is read once its tag is. -/
theorem readContent_tag {tag inside : String} {attributes : List (String × String)}
    (htag : IsName tag) (hattributes : Attributes inside attributes) {fuel : ℕ}
    (hfuel : inside.length < fuel) (after : List Char) :
    CloseHead after → readContent (fuel + 1) ('<' :: (tag.toList ++ (inside.toList ++ after))) =
      (match after with
      | '/' :: '>' :: cs => do
        let (elements, cs) ← readContent fuel cs
        return (.mk tag attributes [] :: elements, cs)
      | '>' :: cs => do
        let (children, cs) ← readContent fuel cs
        let cs ← cs.dropPrefix? ("</" ++ tag ++ ">").toList
        let (elements, cs) ← readContent fuel cs
        return (.mk tag attributes children :: elements, cs)
      | _ => none) := by
  intro hafter
  obtain ⟨c, cs, hcs, hc⟩ := htag.head
  have htagged := readTag_append htag hattributes hafter hfuel
  rw [hcs, List.cons_append] at htagged ⊢
  rw [readContent_element hc, htagged]
  rfl

/-- **What the grammar derives, the reader reads**, up to where the content ends. -/
theorem Content.read {text : String} {elements : List Element} (h : Content text elements)
    {rest : List Char} (hrest : Stop rest) {fuel : ℕ} (hfuel : text.length < fuel) :
    readContent fuel (text.toList ++ rest) = some (elements, rest) := by
  induction h generalizing fuel rest with
  | nil =>
    obtain ⟨fuel, rfl⟩ := Nat.exists_eq_add_one_of_ne_zero (Nat.ne_zero_of_lt hfuel)
    exact readContent_stop hrest fuel
  | @space white text elements hwhite _ ih =>
    obtain ⟨fuel, rfl⟩ := Nat.exists_eq_add_one_of_ne_zero (Nat.ne_zero_of_lt hfuel)
    have hlength : 0 < white.length := by
      simp only [List.mem_cons, List.not_mem_nil, or_false] at hwhite
      rcases hwhite with rfl | rfl | rfl <;> decide
    rw [String.length_append] at hfuel
    rw [String.toList_append, List.append_assoc, readContent_space hwhite, ih hrest (by omega)]
  | @comment inside text elements hinside _ ih =>
    obtain ⟨fuel, rfl⟩ := Nat.exists_eq_add_one_of_ne_zero (Nat.ne_zero_of_lt hfuel)
    simp only [String.length_append] at hfuel
    have htext : ("<!--" ++ inside ++ "-->" ++ text).toList ++ rest =
        '<' :: '!' :: '-' :: '-' :: (inside.toList ++ '-' :: '-' :: '>' :: (text.toList ++ rest)) := by
      simp only [String.toList_append, List.append_assoc]
      rfl
    rw [htext, readContent, hinside.skip]
    exact ih hrest (by have : "<!--".length = 4 := rfl; omega)
  | @empty tag inside text attributes elements htag hattributes _ ih =>
    obtain ⟨fuel, rfl⟩ := Nat.exists_eq_add_one_of_ne_zero (Nat.ne_zero_of_lt hfuel)
    simp only [String.length_append] at hfuel
    have hopen : "<".length = 1 := rfl
    have htext : ("<" ++ tag ++ inside ++ "/>" ++ text).toList ++ rest =
        '<' :: (tag.toList ++ (inside.toList ++ '/' :: '>' :: (text.toList ++ rest))) := by
      simp only [String.toList_append, List.append_assoc]
      rfl
    have hclose : CloseHead ('/' :: '>' :: (text.toList ++ rest)) :=
      closeHead_cons (by decide) (by decide) _
    rw [htext, readContent_tag htag hattributes (by omega) _ hclose]
    simp only [Option.bind_eq_bind, Option.bind_some, ih hrest (show text.length < fuel by omega)]
    rfl
  | @element tag inside content text attributes children elements htag hattributes _ _ ihc ih =>
    obtain ⟨fuel, rfl⟩ := Nat.exists_eq_add_one_of_ne_zero (Nat.ne_zero_of_lt hfuel)
    simp only [String.length_append] at hfuel
    have hopen : "<".length = 1 := rfl
    have htext : ("<" ++ tag ++ inside ++ ">" ++ content ++ "</" ++ tag ++ ">" ++ text).toList ++ rest =
        '<' :: (tag.toList ++ (inside.toList ++ '>' :: (content.toList ++
          (("</" ++ tag ++ ">").toList ++ (text.toList ++ rest))))) := by
      simp only [String.toList_append, List.append_assoc]
      rfl
    have hclose : CloseHead ('>' :: (content.toList ++ (("</" ++ tag ++ ">").toList ++ (text.toList ++ rest)))) :=
      closeHead_cons (by decide) (by decide) _
    have hstop : Stop (("</" ++ tag ++ ">").toList ++ (text.toList ++ rest)) := by
      refine .inr ⟨tag.toList ++ ('>' :: (text.toList ++ rest)), ?_⟩
      simp only [String.toList_append, List.append_assoc]
      rfl
    rw [htext, readContent_tag htag hattributes (by omega) _ hclose]
    simp only [Option.bind_eq_bind, Option.bind_some,
      ihc hstop (show content.length < fuel by omega), dropPrefix?_append,
      ih hrest (show text.length < fuel by omega)]
    rfl

/-- **A text is content of one list of elements.** -/
theorem Content.unique {text : String} {elements elements' : List Element}
    (h : Content text elements) (h' : Content text elements') : elements = elements' := by
  have hread := h.read (.inl rfl) (Nat.lt_succ_self text.length)
  rw [h'.read (.inl rfl) (Nat.lt_succ_self text.length)] at hread
  exact (congrArg Prod.fst (Option.some.inj hread)).symm

/-! ### Documents -/

/-- **A document is read as its element.** -/
theorem Document.read {text : String} {root : Element} (h : Document text root) :
    Markup.read text = some root := by
  obtain ⟨content, hcontent, rfl⟩ := h
  have hfuel : content.length < content.toList.length + 1 := by
    rw [String.length_toList]
    exact Nat.lt_succ_self _
  have hread := hcontent.read (.inl rfl) hfuel
  rw [List.append_nil] at hread
  rw [Markup.read, String.toList_append, dropPrefix?_append]
  simp only [Option.bind_eq_bind, Option.bind_some, hread]

/-- **A document has one element.** -/
theorem Document.unique {text : String} {root root' : Element} (h : Document text root)
    (h' : Document text root') :
    root = root' := Option.some.inj (h.read.symm.trans h'.read)

end DdcControl.Markup
