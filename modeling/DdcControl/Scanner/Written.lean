import DdcControl.Scanner.Generate

/-!
# What a generated profile says

`profile` is the element that a generated text writes: the monitor, its CAPS patch and
its active controls, each with the values it maps. Candidates that are not active stay
inside comments, whatever their texts are.

## What is proved

* `generate_document` — the text that `generate` returns is a document of `profile`.
-/

namespace DdcControl.Scanner

open Capabilities Database Fallible Markup

/-- An active control: the option it maps, at an address and with values. -/
structure ActiveControl where
  option : OptionControl
  code : UInt8
  values : List (String × UInt16)
  deriving DecidableEq

/-- The active controls at a code. -/
def activeAt (scan : Scan) (options : Options) (code : UInt8) : List ActiveControl :=
  ((options code).filter fun candidate => (reasons scan options code candidate).isEmpty).map fun candidate =>
    ⟨candidate, code, matchingValues candidate (scan.advertised code)⟩

/-- The active controls of a profile. -/
def activeControls (scan : Scan) (options : Options) : List ActiveControl := scan.codes.flatMap (activeAt scan options)

/-- The `value` element of a mapped value. -/
def valueElement (value : String × UInt16) : Element :=
  .mk "value" [("id", cleaned value.1), ("value", "0x" ++ hexText value.2.toNat)] []

/-- The `control` element of an active control. -/
def ActiveControl.element (control : ActiveControl) : Element :=
  .mk "control" [("id", cleaned control.option.id), ("address", "0x" ++ hexText control.code.toNat)]
    (control.values.map valueElement)

/-- The `caps` element, if any code was seen. -/
def capsElements (scan : Scan) : List Element :=
  if scan.codes.isEmpty then [] else [.mk "caps" [("add", cleaned (normalizedCaps scan scan.codes))] []]

/-- The element of a profile. -/
def profile (scan : Scan) (options : Options) : Element :=
  .mk "monitor" [("name", cleaned (monitorName scan)), ("init", "standard")]
    (capsElements scan ++ [.mk "controls" [] ((activeControls scan options).map ActiveControl.element)])

/-! ### Characters -/

theorem isXmlCharacter_eq (c : Char) : isXmlCharacter c = isChar c := by
  have hle : c.toNat ≤ 0x10ffff := by
    have hvalid := c.valid
    have hnat : c.val.toNat = c.toNat := rfl
    simp only [UInt32.isValidChar, Nat.isValidChar] at hvalid
    omega
  simp [isXmlCharacter, isChar, hle]

theorem isChar_xmlChar (c : Char) : isChar (xmlChar c) = true := by
  unfold xmlChar
  split_ifs with h
  · rwa [isXmlCharacter_eq] at h
  · decide

theorem isChar_map_xmlChar (text : String) : ∀ c ∈ text.toList.map xmlChar, isChar c = true := by
  intro c hc
  obtain ⟨c', -, rfl⟩ := List.mem_map.mp hc
  exact isChar_xmlChar c'

theorem isChar_cleaned (text : String) : ∀ c ∈ (cleaned text).toList, isChar c = true := by
  rw [cleaned, String.toList_ofList]
  exact isChar_map_xmlChar text

theorem cleaned_of_isChar {value : String} (h : ∀ c ∈ value.toList, isChar c = true) :
    cleaned value = value := by
  have hmap : value.toList.map xmlChar = value.toList.map id := by
    refine List.map_congr_left fun c hc => ?_
    rw [xmlChar, isXmlCharacter_eq, if_pos (h c hc)]
    rfl
  rw [cleaned, hmap, List.map_id, String.ofList_toList]

/-- Pushing a character writes it, or a reference to it. -/
theorem pushCharacter_value {c : Char} (h : isChar c = true) :
    ∃ written, (∀ output, pushCharacter output c = .ok (output ++ written)) ∧
      ∀ text value, AttributeValue text value → AttributeValue (written ++ text)
        (String.singleton c ++ value) := by
  have hreference : ∀ name, (name, c) ∈ references →
      ∀ text value, AttributeValue text value → AttributeValue (name ++ text) (String.singleton c ++ value) :=
    fun _ hmem _ _ hvalue => .reference hmem hvalue
  unfold pushCharacter
  split_ifs with h1 h2 h3 h4 h5 h6 h7 h8 h9
  · exact ⟨"&amp;", fun _ => rfl, hreference _ (by simp [references, h1])⟩
  · exact ⟨"&lt;", fun _ => rfl, hreference _ (by simp [references, h2])⟩
  · exact ⟨"&gt;", fun _ => rfl, hreference _ (by simp [references, h3])⟩
  · exact ⟨"&quot;", fun _ => rfl, hreference _ (by simp [references, h4])⟩
  · exact ⟨"&apos;", fun _ => rfl, hreference _ (by simp [references, h5])⟩
  · exact ⟨"&#x9;", fun _ => rfl, hreference _ (by simp [references, h6])⟩
  · exact ⟨"&#xA;", fun _ => rfl, hreference _ (by simp [references, h7])⟩
  · exact ⟨"&#xD;", fun _ => rfl, hreference _ (by simp [references, h8])⟩
  · refine ⟨String.singleton c, fun output => by rw [String.push_eq_append],
      fun text value hvalue => ?_⟩
    exact .char (by simp [isLiteral, h, h1, h2, h4, h6, h7, h8]) hvalue
  · exact absurd (isXmlCharacter_eq c ▸ h) h9

/-- **Pushing a text of XML characters writes it**, with references. -/
theorem pushAttribute_value {input : String} (h : ∀ c ∈ input.toList, isChar c = true) :
    ∃ written, (∀ output, pushAttribute output input = .ok (output ++ written)) ∧
      AttributeValue written input := by
  have hpush : ∀ chars : List Char, (∀ c ∈ chars, isChar c = true) →
      ∃ written, (∀ output, chars.foldlM pushCharacter output = .ok (output ++ written)) ∧
        AttributeValue written (.ofList chars) := by
    intro chars hchars
    induction chars with
    | nil => exact ⟨"", fun output => by rw [List.foldlM_nil, String.append_empty]; rfl, .nil⟩
    | cons c chars ih =>
      rw [List.forall_mem_cons] at hchars
      obtain ⟨first, hfirst, hvalue⟩ := pushCharacter_value hchars.1
      obtain ⟨rest, hrest, hrestValue⟩ := ih hchars.2
      refine ⟨first ++ rest, fun output => ?_, String.ofList_cons ▸ hvalue _ _ hrestValue⟩
      rw [List.foldlM_cons, hfirst, ← String.append_assoc]
      exact hrest (output ++ first)
  obtain ⟨written, hwritten, hvalue⟩ := hpush _ h
  rw [String.ofList_toList] at hvalue
  exact ⟨written, hwritten, hvalue⟩

/-- **Only a text of XML characters is pushed.** -/
theorem pushAttribute_isOk {input output pushed : String}
    (h : pushAttribute output input = .ok pushed) :
    ∀ c ∈ input.toList, isChar c = true := by
  have hpush : ∀ (chars : List Char) (output : String), chars.foldlM pushCharacter output = .ok pushed →
      ∀ c ∈ chars, isChar c = true := by
    intro chars
    induction chars with
    | nil => exact fun _ _ => List.forall_mem_nil _
    | cons c chars ih =>
      intro output h
      obtain ⟨next, hnext, h⟩ := bind_eq_ok.mp h
      refine List.forall_mem_cons.mpr ⟨?_, ih next h⟩
      by_contra hc
      unfold pushCharacter at hnext
      rw [isXmlCharacter_eq] at hnext
      split_ifs at hnext <;> simp_all [isChar]
  exact hpush _ _ h

/-- **An attribute's text denotes the text it was made of**, cleaned. -/
theorem xmlAttribute_value (value : String) : AttributeValue (xmlAttribute value)
    (cleaned value) := by
  obtain ⟨written, hwritten, hvalue⟩ := pushAttribute_value (isChar_cleaned value)
  rwa [xmlAttribute, hwritten, String.empty_append]

/-- A hexadecimal text stands for itself. -/
theorem hexText_value (n : ℕ) : AttributeValue ("0x" ++ hexText n) ("0x" ++ hexText n) := by
  have hdigits : ∀ n < 16, isLiteral n.digitChar.toUpper = true := by decide
  refine .literal ?_
  rw [String.toList_append, List.all_append, Bool.and_eq_true]
  exact ⟨by decide, List.all_eq_true.mpr (forall_mem_hexText hdigits n)⟩

/-! ### White space -/

/-- A line break. -/
theorem newline {text : String} {elements : List Element} (h : Content text elements) :
    Content ("\n" ++ text) elements :=
  .space (by simp) h

/-- A tab. -/
theorem tab {text : String} {elements : List Element} (h : Content text elements) :
    Content ("\t" ++ text) elements :=
  .space (by simp) h

theorem no_blank : ∀ white ∈ ([] : List String), white ∈ [" ", "\t", "\n"] := by simp

theorem two_tabs : ∀ white ∈ ["\t", "\t"], white ∈ [" ", "\t", "\n"] := by simp

theorem three_tabs : ∀ white ∈ ["\t", "\t", "\t"], white ∈ [" ", "\t", "\n"] := by simp

/-! ### Comments -/

/-- With dashes apart, and a space at the end, a text is the inside of a comment. -/
theorem spaceDashes_commentText {chars : List Char} (h : ∀ c ∈ chars, isChar c = true) :
    CommentText (.ofList (spaceDashes false chars) ++ " ") ∧
      CommentText ("-" ++ (.ofList (spaceDashes true chars) ++ " ")) := by
  have hspace : CommentText " " := .char (c := ' ') (by decide) (by decide) .nil
  induction chars with
  | nil => exact ⟨hspace, .dash (c := ' ') (by decide) (by decide) .nil⟩
  | cons c chars ih =>
    rw [List.forall_mem_cons] at h
    obtain ⟨hfalse, htrue⟩ := ih h.2
    by_cases hc : c = '-'
    · subst hc
      refine ⟨?_, ?_⟩
      · rw [spaceDashes, if_neg (by simp), String.ofList_cons, String.append_assoc]
        exact htrue
      · -- the second of two dashes is put after a space
        rw [spaceDashes, if_pos (by simp), String.ofList_cons, String.ofList_cons,
          String.append_assoc, String.append_assoc, ← String.append_assoc]
        exact .dash (c := ' ') (by decide) (by decide) htrue
    · have hne : decide (c = '-') = false := decide_eq_false hc
      refine ⟨?_, ?_⟩
      · rw [spaceDashes, hne, if_neg (by simp), String.ofList_cons, String.append_assoc]
        exact .char h.1 hc hfalse
      · rw [spaceDashes, hne, if_neg (by simp), String.ofList_cons, String.append_assoc,
          ← String.append_assoc]
        exact .dash h.1 hc hfalse

/-- **A comment is a comment**: nothing in its text ends it. -/
theorem comment_content {whites : List String}
    (hwhites : ∀ white ∈ whites, white ∈ [" ", "\t", "\n"]) (text : String) :
    Content (comment (.join whites) text) [] := by
  have hinside := CommentText.char (c := ' ') (by decide) (by decide)
    (spaceDashes_commentText (isChar_map_xmlChar text)).1
  have := Content.blank hwhites (.comment hinside (newline .nil))
  have hopen : "<!-- " = "<!--" ++ String.singleton ' ' := rfl
  have hclose : " -->\n" = " " ++ ("-->" ++ ("\n" ++ "")) := rfl
  unfold comment
  simp only [hopen, hclose]
  simp only [String.append_assoc] at this ⊢
  exact this

/-- A comment inside the controls. -/
theorem comment_controls (text : String) : Content (comment "\t\t" text) [] :=
  comment_content two_tabs text

/-! ### Elements -/

/-- Two attributes, as the generator writes them. -/
theorem attributes_two {name name' text text' value value' : String} (hname : IsName name)
    (hname' : IsName name') (hne : name ≠ name') (hvalue : AttributeValue text value)
    (hvalue' : AttributeValue text' value') :
    Attributes (" " ++ name ++ "=\"" ++ text ++ "\"" ++ (" " ++ name' ++ "=\"" ++ text' ++ "\"" ++ ""))
      [(name, value), (name', value')] :=
  .cons hname hvalue (by simpa using hne) (.cons hname' hvalue' (by simp) .nil)

theorem valueElement_content (value : String × UInt16) :
    Content (valueXml value) [valueElement value] := by
  have hattributes := attributes_two (by decide : IsName "id") (by decide : IsName "value") (by decide)
    (xmlAttribute_value value.1) (hexText_value value.2.toNat)
  have := Content.blank three_tabs
    (.empty (by decide : IsName "value") hattributes (newline .nil))
  have hopen : "\t\t\t<value id=\"" = .join ["\t", "\t", "\t"] ++
      ("<" ++ ("value" ++ (" " ++ ("id" ++ "=\"")))) := rfl
  have hmiddle : "\" value=\"0x" = "\"" ++ (" " ++ ("value" ++ ("=\"" ++ "0x"))) := rfl
  have hclose : "\"/>\n" = "\"" ++ ("" ++ ("/>" ++ ("\n" ++ ""))) := rfl
  unfold valueXml
  simp only [hopen, hmiddle, hclose]
  simp only [String.append_assoc] at this ⊢
  exact this

theorem controlXml_content (control : ActiveControl) :
    Content (controlXml control.option control.code control.values) [control.element] := by
  obtain ⟨option, code, values⟩ := control
  have hattributes := attributes_two (by decide : IsName "id") (by decide : IsName "address") (by decide)
    (xmlAttribute_value option.id) (hexText_value code.toNat)
  have hopen : "\t\t<control id=\"" = .join ["\t", "\t"] ++ ("<" ++ ("control" ++ (" " ++ ("id" ++ "=\"")))) := rfl
  have hmiddle : "\" address=\"0x" = "\"" ++ (" " ++ ("address" ++ ("=\"" ++ "0x"))) := rfl
  unfold controlXml ActiveControl.element
  cases values with
  | nil =>
    have := Content.blank two_tabs
      (.empty (by decide : IsName "control") hattributes (newline .nil))
    have hclose : "/>\n" = "" ++ ("/>" ++ ("\n" ++ "")) := rfl
    rw [List.isEmpty_nil, if_pos rfl]
    simp only [hopen, hmiddle, hclose]
    simp only [String.append_assoc] at this ⊢
    exact this
  | cons value values =>
    have hvalues := Content.join fun value' (_ : value' ∈ value :: values) =>
      valueElement_content value'
    have hinside := (newline hvalues).append
      (.blank two_tabs .nil)
    have := Content.blank two_tabs
      (.element (by decide : IsName "control") hattributes hinside (newline .nil))
    have hend : ">\n" = "" ++ (">" ++ "\n") := rfl
    have hclose : "\t\t</control>\n" = .join ["\t", "\t"] ++
        ("" ++ ("</" ++ ("control" ++ (">" ++ ("\n" ++ ""))))) := rfl
    rw [List.append_nil, ← List.map_eq_flatMap] at this
    rw [List.isEmpty_cons, if_neg (by simp)]
    simp only [hopen, hmiddle, hend, hclose]
    simp only [String.append_assoc] at this ⊢
    exact this

theorem unknownNotes_content (control : OptionControl) (advertised : Option (List UInt16))
    (mapped : List (String × UInt16)) :
    Content (match advertised with
      | none => ""
      | some advertised =>
        let unknown := advertised.filter fun number => !mapped.any fun (_, mapped) =>
          mapped = number
        if unknown.isEmpty then ""
        else comment "\t\t"
          (control.id ++ ": advertised values without a database mapping: " ++ hexValues unknown ++
            ".\nDo not infer their meanings from the numbers alone.")) [] := by
  cases advertised with
  | none => exact .nil
  | some advertised =>
    simp only
    split_ifs
    · exact .nil
    · exact comment_controls _

theorem enumNotes_content (control : OptionControl) (advertised : Option (List UInt16))
    (mapped : List (String × UInt16)) :
    Content (enumNotes control advertised mapped) [] := by
  unfold enumNotes
  refine Content.append (unknownNotes_content control advertised mapped) (?_ : Content _ [])
  split_ifs
  · exact comment_controls _
  · exact .nil

theorem flatMap_ite {α β : Type*} (l : List α) (p : α → Bool) (f : α → β) :
    (l.flatMap fun a => if p a then [f a] else []) = (l.filter p).map f := by
  induction l with
  | nil => rfl
  | cons a l ih =>
    rw [List.flatMap_cons, ih, List.filter_cons]
    split <;> rfl

/-- The controls written for a candidate: its own if it is active. -/
theorem candidateXml_content (scan : Scan) (options : Options) (code : UInt8)
    (candidate : OptionControl) :
    Content (candidateXml scan options code candidate)
      (if (reasons scan options code candidate).isEmpty then
        [ActiveControl.element ⟨candidate, code, matchingValues candidate (scan.advertised code)⟩] else []) := by
  have hnotes : Content (if candidate.controlType = .list then
      enumNotes candidate (scan.advertised code) (matchingValues candidate (scan.advertised code)) else "") [] := by
    split_ifs
    · exact enumNotes_content ..
    · exact .nil
  unfold candidateXml
  simp only
  rw [← List.append_nil (ite _ _ _ : List Element)]
  refine .append ?_ hnotes
  split_ifs
  · exact (comment_controls _).append (controlXml_content ⟨candidate, code, _⟩)
  · exact (comment_controls _).append (comment_controls _)

theorem codeXml_content (scan : Scan) (options : Options) (code : UInt8) :
    Content (codeXml scan options code)
      ((activeAt scan options code).map ActiveControl.element) := by
  unfold codeXml activeAt
  refine (comment_controls _).append ?_
  split_ifs with hnone
  · rw [List.isEmpty_iff.mp hnone]
    exact comment_controls _
  · have := Content.join fun candidate (_ : candidate ∈ options code) =>
      candidateXml_content scan options code candidate
    rw [List.map_map]
    rwa [flatMap_ite] at this

theorem capsElements_content (scan : Scan) :
    Content (if scan.codes.isEmpty then "" else
        "\t<caps add=\"" ++ xmlAttribute (normalizedCaps scan scan.codes) ++ "\"/>\n")
          (capsElements scan) := by
  unfold capsElements
  split_ifs
  · exact .nil
  · have hattributes := Attributes.cons (by decide : IsName "add")
      (xmlAttribute_value (normalizedCaps scan scan.codes))
      (by simp) .nil
    have := tab
      (.empty (by decide : IsName "caps") hattributes (newline .nil))
    have hopen : "\t<caps add=\"" = "\t" ++ ("<" ++ ("caps" ++ (" " ++ ("add" ++ "=\"")))) := rfl
    have hclose : "\"/>\n" = "\"" ++ ("" ++ ("/>" ++ ("\n" ++ ""))) := rfl
    simp only [hopen, hclose]
    simp only [String.append_assoc] at this ⊢
    exact this

theorem controls_content (scan : Scan) (options : Options) :
    Content ("\t<controls>\n" ++ .join (scan.codes.map (codeXml scan options)) ++ "\t</controls>\n")
      [.mk "controls" [] ((activeControls scan options).map ActiveControl.element)] := by
  have hcodes := Content.join fun code (_ : code ∈ scan.codes) => codeXml_content scan options code
  have hinside := (newline hcodes).append (tab .nil)
  have := tab
    (.element (by decide : IsName "controls") .nil hinside (newline .nil))
  have hopen : "\t<controls>\n" = "\t" ++ ("<" ++ ("controls" ++ ("" ++ (">" ++ "\n")))) := rfl
  have hclose : "\t</controls>\n" = "\t" ++ ("" ++ ("</" ++ ("controls" ++ (">" ++ ("\n" ++ ""))))) := rfl
  rw [List.append_nil, ← List.map_flatMap] at this
  simp only [hopen, hclose]
  simp only [String.append_assoc] at this ⊢
  exact this

/-- **A generated text is a document of its profile.** -/
theorem generate_document (scan : Scan) (options : Options) :
    Document (generate scan options) (profile scan options) := by
  have hhead := comment_content no_blank (headComment scan)
  have hattributes := attributes_two (by decide : IsName "name") (by decide : IsName "init") (by decide)
    (xmlAttribute_value (monitorName scan))
      (AttributeValue.literal (by decide) : AttributeValue "standard" "standard")
  have hinside := newline
    ((capsElements_content scan).append (controls_content scan options))
  have := newline
    (hhead.append (.element (by decide : IsName "monitor") hattributes hinside (newline .nil)))
  refine ⟨_, this, ?_⟩
  have hdeclaration : "<?xml version=\"1.0\" encoding=\"UTF-8\"?>\n" =
      "<?xml version=\"1.0\" encoding=\"UTF-8\"?>" ++ "\n" := rfl
  have hopen : "<monitor name=\"" = "<" ++ ("monitor" ++ (" " ++ ("name" ++ "=\""))) := rfl
  have hinit : "\" init=\"standard\">\n" =
      "\"" ++ (" " ++ ("init" ++ ("=\"" ++ ("standard" ++ ("\"" ++ ("" ++ (">" ++ "\n"))))))) := rfl
  have hclose : "\t</controls>\n</monitor>\n" = "\t</controls>\n" ++
      ("</" ++ ("monitor" ++ (">" ++ ("\n" ++ "")))) := rfl
  unfold generate
  simp only [hdeclaration, hopen, hinit, hclose]
  simp only [String.append_assoc, String.join_nil]

end DdcControl.Scanner
