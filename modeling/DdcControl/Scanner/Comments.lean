import DdcControl.Library.MarkupComments
import DdcControl.Scanner.Written

/-!
# The comments of a generated profile

What the monitor and the vocabulary say of themselves is written into attributes and into
comments, and a candidate that is not active is written as an element inside a comment.

## What is proved

* `generate_wellFormed` — none of these texts becomes markup: a generated text is a document
  of `profile` alone, and its comments are comments.
* `candidate_enabled_iff` — the comment of a candidate is its element where no id has two
  dashes in a row; `comment` puts a space between them.
-/

namespace DdcControl.Scanner

open Capabilities Database Markup

/-! ### Monitor texts -/

/-- The codes of a scan are in order. -/
theorem codes_sorted (scan : Scan) : scan.codes.Pairwise fun code code' =>
    code.toNat < code'.toNat := by
  refine List.Pairwise.filter _ (List.pairwise_map.mpr ?_)
  refine List.Pairwise.imp_of_mem (fun {m n} hm hn hlt => ?_) List.pairwise_lt_range
  rw [List.mem_range] at hm hn
  simpa [Nat.mod_eq_of_lt hm, Nat.mod_eq_of_lt hn] using hlt

theorem activeControls_sorted (scan : Scan) (options : Options) :
    (activeControls scan options).Pairwise fun control control' =>
      control.code.toNat ≤ control'.code.toNat := by
  have hcode : ∀ code, ∀ control ∈ activeAt scan options code, control.code = code := by
    intro code control hcontrol
    obtain ⟨candidate, -, rfl⟩ := List.mem_map.mp hcontrol
    rfl
  refine List.pairwise_flatMap.mpr ⟨fun code _ => ?_,
    (codes_sorted scan).imp fun hlt control hcontrol control' hcontrol' => ?_⟩
  · refine List.pairwise_of_forall_mem_list fun control hcontrol control' hcontrol' => ?_
    rw [hcode code control hcontrol, hcode code control' hcontrol']
  · rw [hcode _ control hcontrol, hcode _ control' hcontrol']
    exact hlt.le

/-- **No text of a monitor or a vocabulary becomes markup.** A generated text is a document
of its profile and of nothing else: one `monitor`, at most one `caps`, one `controls` with
the active controls by their codes, each attribute denoting its text with U+FFFD for what is
no XML character. And no comment in it has two dashes in a row, or one at its end. -/
theorem generate_wellFormed (scan : Scan) (options : Options) :
    (∀ root, Document (generate scan options) root ↔ root =
        .mk "monitor" [("name", cleaned (monitorName scan)), ("init", "standard")]
          (capsElements scan ++ [.mk "controls" [] ((activeControls scan options).map ActiveControl.element)])) ∧
      (capsElements scan).length ≤ 1 ∧
      ((activeControls scan options).Pairwise fun control control' => control.code.toNat ≤ control'.code.toNat) ∧
      ∀ inside ∈ comments none (generate scan options).toList,
        ¬['-', '-'] <:+: inside.toList ∧ inside.toList.getLast? ≠ some '-' := by
  have hdocument := generate_document scan options
  refine ⟨fun root => ⟨fun h => h.unique hdocument, ?_⟩, ?_, activeControls_sorted scan options,
    fun inside hinside => ?_⟩
  · rintro rfl
    exact hdocument
  · unfold capsElements
    split_ifs <;> simp
  · obtain ⟨hapart, hlast⟩ := (hdocument.comments inside hinside).apart
    exact ⟨apart_iff.mp hapart, hlast⟩

/-! ### Candidates -/

/-- What stands in a comment. -/
def commentInside (text : String) : String := " " ++ .ofList (spaceDashes false (text.toList.map xmlChar)) ++ " "

/-- What stands in the comment of a candidate. -/
def candidateInside (scan : Scan) (code : UInt8) (candidate : OptionControl) : String :=
  commentInside ("\n" ++ controlXml candidate code (matchingValues candidate (scan.advertised code)) ++ "\t\t")

/-- The element of a candidate, with the ids as the vocabulary has them. -/
def candidateElement (scan : Scan) (code : UInt8) (candidate : OptionControl) : Element :=
  .mk "control" [("id", candidate.id), ("address", "0x" ++ hexText code.toNat)]
    ((matchingValues candidate (scan.advertised code)).map fun value =>
      .mk "value" [("id", value.1), ("value", "0x" ++ hexText value.2.toNat)] [])

/-- `str::trim`. -/
def trimmed (text : String) : List Char :=
  ((text.toList.dropWhile isWhitespace).reverse.dropWhile isWhitespace).reverse

/-- A text whose dashes are apart and whose characters are XML characters. -/
def Plain (text : String) : Prop := Apart text.toList ∧ Characters text

theorem trimmed_eq {text : String} {blank blank' body : List Char} {c d : Char}
    (htext : text.toList = blank ++ c :: (body ++ d :: blank'))
    (hblank : blank.all isWhitespace = true) (hblank' : blank'.all isWhitespace = true)
    (hc : isWhitespace c = false) (hd : isWhitespace d = false) :
    trimmed text = c :: (body ++ [d]) := by
  have hreverse : (c :: (body ++ d :: blank')).reverse = blank'.reverse ++ d :: (c :: body).reverse := by simp
  rw [trimmed, htext, List.dropWhile_append_of_pos (List.all_eq_true.mp hblank),
    List.dropWhile_cons_of_neg (by simp [hc]), hreverse, List.dropWhile_append_of_pos
      (by simpa using hblank'), List.dropWhile_cons_of_neg (by simp [hd])]
  simp

/-! ### Dashes -/

/-- **Dashes that are apart are left as they are**, and no others. -/
theorem spaceDashes_eq_self {cs : List Char} (previous : Bool) :
    spaceDashes previous cs = cs ↔ (previous = true → cs.head? ≠ some '-') ∧ Apart cs := by
  induction cs generalizing previous with
  | nil => simp [spaceDashes, apart_nil]
  | cons c cs ih =>
    rw [spaceDashes, apart_cons]
    by_cases hc : c = '-'
    · subst hc
      cases previous
      · simp [ih]
      · simp
    · simp [hc, ih]

/-- A character but a dash makes a new start. -/
theorem spaceDashes_append {c : Char} (hc : c ≠ '-') (cs cs' : List Char) (previous : Bool) :
    spaceDashes previous (cs ++ c :: cs') = spaceDashes previous cs ++ c :: spaceDashes false cs' := by
  induction cs generalizing previous with
  | nil => simp [spaceDashes, hc]
  | cons d cs ih =>
    rw [List.cons_append, spaceDashes, spaceDashes, ih, ih]
    split_ifs <;> simp

theorem cleaned_apart (text : String) : Apart (cleaned text).toList ↔ Apart text.toList := by
  have hdash : ∀ c, xmlChar c = '-' ↔ c = '-' := by
    intro c
    unfold xmlChar
    split_ifs with hc
    · rfl
    · refine iff_of_false (by decide) ?_
      rintro rfl
      exact hc (by decide)
  rw [cleaned, String.toList_ofList, Apart, List.isChain_map]
  simp only [hdash]
  rfl

/-- References and replacements hide no dashes. -/
theorem xmlAttribute_apart (text : String) : Apart (xmlAttribute text).toList ↔ Apart text.toList :=
  (xmlAttribute_value text).apart_iff.trans (cleaned_apart text)

theorem hexText_plain (n : ℕ) : '-' ∉ (hexText n).toList := fun hmem =>
  forall_mem_hexText (P := fun c => c ≠ '-') (by decide) n '-' hmem rfl

theorem valueXml_apart (values : List (String × UInt16)) :
    Apart (String.join (values.map valueXml)).toList ↔ ∀ value ∈ values, Apart value.1.toList := by
  induction values with
  | nil => simp [apart_nil]
  | cons value values ih =>
    have htext : (String.join ((value :: values).map valueXml)).toList = "\t\t\t<value id=\"".toList ++
        ((xmlAttribute value.1).toList ++ (("\" value=\"0x" ++ hexText value.2.toNat ++ "\"/>\n").toList ++
          (String.join (values.map valueXml)).toList)) := by
      rw [List.map_cons, String.join_cons]
      unfold valueXml
      simp only [String.toList_append, List.append_assoc]
    have hplain : '-' ∉ ("\" value=\"0x" ++ hexText value.2.toNat ++ "\"/>\n").toList := by
      simp [String.toList_append, hexText_plain]
    have hopen : '-' ∉ "\t\t\t<value id=\"".toList := by decide
    rw [htext, apart_plain_append hopen, apart_append_plain hplain (by simp),
      xmlAttribute_apart, ih, List.forall_mem_cons]

/-- **The element of a candidate has adjacent dashes where an id has.** -/
theorem controlXml_apart (control : OptionControl) (code : UInt8)
    (values : List (String × UInt16)) :
    Apart (controlXml control code values).toList ↔
      Apart control.id.toList ∧ ∀ value ∈ values, Apart value.1.toList := by
  have hplain : '-' ∉ ("\" address=\"0x" ++ hexText code.toNat ++ "\"").toList := by
    simp [String.toList_append, hexText_plain]
  have hend : ∀ tail : String, Apart ("\t\t<control id=\"" ++ xmlAttribute control.id ++ "\" address=\"0x" ++
      hexText code.toNat ++ "\"" ++ tail).toList ↔ Apart control.id.toList ∧ Apart tail.toList := by
    intro tail
    have htext : ("\t\t<control id=\"" ++ xmlAttribute control.id ++ "\" address=\"0x" ++
        hexText code.toNat ++ "\"" ++
        tail).toList = "\t\t<control id=\"".toList ++ ((xmlAttribute control.id).toList ++
          (("\" address=\"0x" ++ hexText code.toNat ++ "\"").toList ++ tail.toList)) := by
      simp only [String.toList_append, List.append_assoc]
    have hopen : '-' ∉ "\t\t<control id=\"".toList := by decide
    rw [htext, apart_plain_append hopen, apart_append_plain hplain (by simp), xmlAttribute_apart]
  unfold controlXml
  rw [hend]
  refine and_congr_right fun _ => ?_
  cases values with
  | nil =>
    have hempty : '-' ∉ "/>\n".toList := by decide
    exact iff_of_true (apart_plain hempty) (List.forall_mem_nil _)
  | cons value values =>
    have hopen : '-' ∉ ">\n".toList := by decide
    have hclose : '-' ∉ "\t\t</control>\n".toList := by decide
    rw [List.isEmpty_cons, if_neg (by simp), String.toList_append, String.toList_append,
      List.append_assoc, apart_plain_append hopen, ← valueXml_apart, apart_append_plain_end hclose]

/-! ### The comment of a candidate -/

theorem commentInside_text (text : String) : CommentText (commentInside text) := by
  have := CommentText.char (c := ' ') (by decide) (by decide) (spaceDashes_commentText (isChar_map_xmlChar text)).1
  rwa [← String.append_assoc] at this

theorem comment_commented (text : String) :
    Commented (comment "\t\t" text) [commentInside text] := by
  have hcomment := commented_comment (commentInside_text text)
  have := ((commented_plain (by decide : '<' ∉ "\t\t".toList)).append hcomment).append
    (commented_plain (by decide : '<' ∉ "\n".toList))
  rw [List.nil_append, List.append_nil] at this
  have hopen : "<!-- " = "<!--" ++ " " := rfl
  have hclose : " -->\n" = " " ++ ("-->" ++ "\n") := rfl
  unfold comment
  rw [hopen, hclose]
  simpa only [commentInside, String.append_assoc] using this

/-- **A candidate that is held back stands in a comment of its text.** -/
theorem candidateXml_mentions {scan : Scan} {options : Options} {code : UInt8}
    {candidate : OptionControl} (hheld : reasons scan options code candidate ≠ []) :
    Mentions (candidateXml scan options code candidate) (candidateInside scan code candidate) := by
  have hnotes : ∃ insides, Commented (if candidate.controlType = .list then
      enumNotes candidate (scan.advertised code)
        (matchingValues candidate (scan.advertised code)) else "") insides := by
    split_ifs
    · obtain ⟨insides, h, -⟩ := (enumNotes_content candidate (scan.advertised code) _).commented
      exact ⟨insides, h⟩
    · exact ⟨[], fun _ => rfl⟩
  obtain ⟨insides, hnotes⟩ := hnotes
  have hempty : (reasons scan options code candidate).isEmpty = false := by simpa using hheld
  unfold candidateXml
  simp only [hempty, Bool.false_eq_true, if_false]
  refine Mentions.append ((comment_commented _).mentions ?_) hnotes
  exact ⟨_, comment_commented _, List.mem_singleton.mpr rfl⟩

/-- **It stands in a comment of the profile.** -/
theorem generate_mentions {scan : Scan} {options : Options} {code : UInt8}
    {candidate : OptionControl} (hcode : code ∈ scan.codes) (hcandidate : candidate ∈ options code)
    (hheld : reasons scan options code candidate ≠ []) :
    Mentions (generate scan options) (candidateInside scan code candidate) := by
  have hcandidates := Mentions.join (fun other _ => (candidateXml_content scan options code other).commented.imp
    fun _ h => h.1) hcandidate (candidateXml_mentions hheld)
  have hcodeXml : Mentions (codeXml scan options code) (candidateInside scan code candidate) := by
    unfold codeXml
    rw [if_neg (by simpa using List.ne_nil_of_mem hcandidate)]
    exact (comment_commented _).mentions hcandidates
  have hcodes := Mentions.join (fun other _ => (codeXml_content scan options other).commented.imp fun _ h => h.1)
    hcode hcodeXml
  obtain ⟨heads, hhead, -⟩ := (comment_content no_blank (headComment scan)).commented
  obtain ⟨caps, hcaps, -⟩ := (capsElements_content scan).commented
  have hname := commented_plain (xmlAttribute_value (monitorName scan)).noBracket
  have hopen :=
    ((commented_opening (by decide : '<' ∉ "monitor name=\"".toList) rfl (by decide)).append hname).append
    (commented_plain (by decide : '<' ∉ "\" init=\"standard\">\n".toList))
  have hcontrols := (commented_plain (by decide : '<' ∉ "\t".toList)).append
    (commented_opening (by decide : '<' ∉ "controls>\n".toList) rfl (by decide))
  have hclose := ((commented_plain (by decide : '<' ∉ "\t".toList)).append
    (commented_opening (by decide : '<' ∉ "/controls>\n".toList) rfl (by decide))).append
    (commented_opening (by decide : '<' ∉ "/monitor>\n".toList) rfl (by decide))
  have hdeclaration := commented_declaration.append (commented_plain (by decide : '<' ∉ "\n".toList))
  have :=
    (((((hdeclaration.append hhead).append hopen).append hcaps).append hcontrols).mentions hcodes).append hclose
  have hdeclarationText : "<?xml version=\"1.0\" encoding=\"UTF-8\"?>\n" =
      "<?xml version=\"1.0\" encoding=\"UTF-8\"?>" ++ "\n" := rfl
  have hopenText : "<monitor name=\"" = "<" ++ "monitor name=\"" := rfl
  have hcontrolsText : "\t<controls>\n" = "\t" ++ ("<" ++ "controls>\n") := rfl
  have hcloseText : "\t</controls>\n</monitor>\n" = "\t" ++
      (("<" ++ "/controls>\n") ++ ("<" ++ "/monitor>\n")) := rfl
  unfold generate
  simp only [hdeclarationText, hopenText, hcontrolsText, hcloseText]
  simpa only [String.append_assoc, String.join_nil] using this

/-! ### Its text -/

section Candidate

variable (scan : Scan) (code : UInt8) (candidate : OptionControl)

/-- The text of an element begins with its tag and ends with one, white space aside. -/
theorem controlXml_shape (control : OptionControl) (code : UInt8)
    (values : List (String × UInt16)) :
    ∃ middle, (controlXml control code values).toList = '\t' :: '\t' :: '<' :: (middle ++ ['>', '\n']) := by
  have hopen : "\t\t<control id=\"".toList = '\t' :: '\t' :: '<' :: "control id=\"".toList := rfl
  unfold controlXml
  cases values with
  | nil =>
    have hclose : "/>\n".toList = "/".toList ++ ['>', '\n'] := rfl
    rw [List.isEmpty_nil, if_pos rfl]
    simp only [String.toList_append, hopen, hclose, List.cons_append, ← List.append_assoc]
    exact ⟨_, rfl⟩
  | cons value values =>
    have hclose : "\t\t</control>\n".toList = "\t\t</control".toList ++ ['>', '\n'] := rfl
    rw [List.isEmpty_cons, if_neg (by simp)]
    simp only [String.toList_append, hopen, hclose, List.cons_append, ← List.append_assoc]
    exact ⟨_, rfl⟩

/-- The element of a candidate, its ids cleaned, as it is written. -/
def writtenCandidate : ActiveControl := ⟨candidate, code, matchingValues candidate (scan.advertised code)⟩

/-- What stands in the comment is the element with its dashes apart. -/
theorem candidateInside_toList : (candidateInside scan code candidate).toList = ' ' :: (spaceDashes false
    ('\n' :: ((controlXml candidate code (matchingValues candidate (scan.advertised code))).toList ++ ['\t', '\t'])) ++
      [' ']) := by
  have hcontrol := (controlXml_content (writtenCandidate scan code candidate)).characters
  have hlegal : ∀ c ∈ '\n' :: ((controlXml candidate code (matchingValues candidate (scan.advertised code))).toList ++
      ['\t', '\t']), xmlChar c = id c := by
    intro c hc
    have hchar : isChar c = true := by
      rcases List.mem_cons.mp hc with rfl | hc
      · decide
      · rcases List.mem_append.mp hc with hc | hc
        · exact hcontrol c hc
        · have htabs : Characters "\t\t" := by decide
          exact htabs c hc
    rw [xmlChar, isXmlCharacter_eq, if_pos hchar, id]
  have htext : ("\n" ++ controlXml candidate code (matchingValues candidate (scan.advertised code)) ++ "\t\t").toList =
      '\n' :: ((controlXml candidate code (matchingValues candidate (scan.advertised code))).toList ++ ['\t', '\t']) := by
    have hnewline : "\n".toList = ['\n'] := rfl
    have htabs : "\t\t".toList = ['\t', '\t'] := rfl
    rw [String.toList_append, String.toList_append, hnewline, htabs, List.append_assoc,
      List.singleton_append]
  have hspace : " ".toList = [' '] := rfl
  rw [candidateInside, commentInside, htext, List.map_congr_left hlegal, List.map_id,
    String.toList_append, String.toList_append, hspace, String.toList_ofList, List.append_assoc,
    List.singleton_append]

/-- The ids of a candidate have no two dashes in a row. -/
def DashesApart : Prop :=
  Apart candidate.id.toList ∧ ∀ value ∈ matchingValues candidate (scan.advertised code), Apart value.1.toList

/-- **White space aside, the comment is the element exactly if no id has two dashes in a
row.** -/
theorem candidateInside_trimmed : trimmed (candidateInside scan code candidate) =
      trimmed (controlXml candidate code (matchingValues candidate (scan.advertised code))) ↔
    DashesApart scan code candidate := by
  obtain ⟨middle, hmiddle⟩ := controlXml_shape candidate code (matchingValues candidate (scan.advertised code))
  have hspaced : spaceDashes false ('\n' :: '\t' :: '\t' :: '<' :: (middle ++ ['>', '\n'] ++ ['\t', '\t'])) =
      '\n' :: '\t' :: '\t' :: '<' :: (spaceDashes false middle ++ '>' :: ['\n', '\t', '\t']) := by
    have hend := spaceDashes_append (by decide : '>' ≠ '-') middle ['\n', '\t', '\t'] false
    rw [List.append_assoc]
    exact congrArg (fun cs => '\n' :: '\t' :: '\t' :: '<' :: cs) hend
  have hinside := candidateInside_toList scan code candidate
  rw [hmiddle, List.cons_append, List.cons_append, List.cons_append, hspaced] at hinside
  have htrimInside : trimmed (candidateInside scan code candidate) =
      '<' :: (spaceDashes false middle ++ ['>']) := by
    have htext : (candidateInside scan code candidate).toList = [' ', '\n', '\t', '\t'] ++
        '<' :: (spaceDashes false middle ++ '>' :: ['\n', '\t', '\t', ' ']) := by
      rw [hinside]
      simp
    exact trimmed_eq htext (by decide) (by decide) (by decide) (by decide)
  have htrimControl : trimmed (controlXml candidate code (matchingValues candidate (scan.advertised code))) =
      '<' :: (middle ++ ['>']) := by
    have htext : (controlXml candidate code (matchingValues candidate (scan.advertised code))).toList =
        ['\t', '\t'] ++ '<' :: (middle ++ '>' :: ['\n']) := hmiddle
    exact trimmed_eq htext (by decide) (by decide) (by decide) (by decide)
  have hmiddleApart : Apart (controlXml candidate code (matchingValues candidate (scan.advertised code))).toList ↔
      Apart middle := by
    have hopen : '-' ∉ ['\t', '\t', '<'] := by decide
    have hclose : '-' ∉ ['>', '\n'] := by decide
    rw [hmiddle]
    exact (apart_plain_append hopen).trans (apart_append_plain_end hclose)
  rw [htrimInside, htrimControl, DashesApart, ← controlXml_apart candidate code, hmiddleApart,
    List.cons_inj_right, List.append_left_inj, spaceDashes_eq_self]
  simp

/-- Without its wrapper, the comment is the element. -/
theorem candidateInside_content (h : DashesApart scan code candidate) :
    Content (candidateInside scan code candidate)
      [(writtenCandidate scan code candidate).element] := by
  have hcontrol := controlXml_content (writtenCandidate scan code candidate)
  have hends : ∀ white ∈ ["\t", "\t", " "], white ∈ [" ", "\t", "\n"] := by simp
  have hcontent : Content (" " ++ ("\n" ++ (_ ++ (.join ["\t", "\t", " "] ++ "")))) _ :=
    .space (by simp) (newline (hcontrol.append (.blank hends .nil)))
  have htext : (candidateInside scan code candidate).toList =
      (" " ++ ("\n" ++ (controlXml candidate code (matchingValues candidate (scan.advertised code)) ++
        (String.join ["\t", "\t", " "] ++ "")))).toList := by
    have hapart : Apart ('\n' :: ((controlXml candidate code
        (matchingValues candidate (scan.advertised code))).toList ++ ['\t', '\t'])) := by
      refine apart_cons.mpr ⟨by simp, (apart_append_plain_end (by decide)).mpr ?_⟩
      exact (controlXml_apart ..).mpr h
    rw [candidateInside_toList, (spaceDashes_eq_self false).mpr ⟨by simp, hapart⟩]
    simp [String.toList_append]
  rw [String.toList_inj.mp htext]
  exact hcontent

end Candidate

/-! ### Enabling a candidate -/

theorem cleaned_eq_self {text : String} : cleaned text = text ↔ Characters text := by
  refine ⟨fun h => ?_, cleaned_of_isChar⟩
  rw [← h]
  exact isChar_cleaned text

/-- The ids are written as they are if they are of XML characters. -/
theorem writtenCandidate_element (scan : Scan) (code : UInt8) (candidate : OptionControl) :
    (writtenCandidate scan code candidate).element = candidateElement scan code candidate ↔
      Characters candidate.id ∧
        ∀ value ∈ matchingValues candidate (scan.advertised code), Characters value.1 := by
  have hvalues : ∀ values : List (String × UInt16), (values.map valueElement = values.map fun value =>
      .mk "value" [("id", value.1), ("value", "0x" ++ hexText value.2.toNat)] []) ↔
        ∀ value ∈ values, Characters value.1 := by
    intro values
    rw [List.map_inj_left]
    exact forall₂_congr fun value _ => by simp [valueElement, cleaned_eq_self]
  simp only [writtenCandidate, ActiveControl.element, candidateElement, Element.mk.injEq,
    List.cons.injEq, Prod.mk.injEq, true_and, and_true, cleaned_eq_self, hvalues]

/-- **A candidate can be enabled by removing its wrapper, exactly where no id has two dashes
in a row.** Its comment stands in the profile; it is the candidate's element, white space
aside, and is read as it with the ids of the vocabulary, if and only if each id keeps its
dashes apart and is of XML characters. -/
theorem candidate_enabled_iff {scan : Scan} {options : Options} {code : UInt8} {candidate : OptionControl}
    (hcode : code ∈ scan.codes) (hcandidate : candidate ∈ options code)
    (hheld : reasons scan options code candidate ≠ []) :
    candidateInside scan code candidate ∈ comments none (generate scan options).toList ∧
      ((trimmed (candidateInside scan code candidate) =
            trimmed (controlXml candidate code (matchingValues candidate (scan.advertised code))) ∧
          Content (candidateInside scan code candidate) [candidateElement scan code candidate]) ↔
        (¬['-', '-'] <:+: candidate.id.toList ∧ Characters candidate.id) ∧
          ∀ value ∈ matchingValues candidate (scan.advertised code),
            ¬['-', '-'] <:+: value.1.toList ∧ Characters value.1) := by
  refine ⟨(generate_mentions hcode hcandidate hheld).mem_comments, ?_⟩
  rw [candidateInside_trimmed]
  constructor
  · rintro ⟨hapart, hcontent⟩
    have helement := List.cons.inj ((candidateInside_content scan code candidate hapart).unique hcontent)
    obtain ⟨hid, hvalues⟩ := (writtenCandidate_element scan code candidate).mp helement.1
    exact ⟨⟨apart_iff.mp hapart.1, hid⟩, fun value hvalue => ⟨apart_iff.mp (hapart.2 value hvalue),
      hvalues value hvalue⟩⟩
  · rintro ⟨⟨hid, hidLegal⟩, hvalues⟩
    have hapart : DashesApart scan code candidate :=
      ⟨apart_iff.mpr hid, fun value hvalue => apart_iff.mpr (hvalues value hvalue).1⟩
    have helement := (writtenCandidate_element scan code candidate).mpr
      ⟨hidLegal, fun value hvalue => (hvalues value hvalue).2⟩
    exact ⟨hapart, helement ▸ candidateInside_content scan code candidate hapart⟩

/-- A command control of an id. -/
def resetControl (id : String) : OptionControl := ⟨false, id, "Reset", .command, .none, some "0x04", [⟨"go", none, some "1"⟩]⟩

/-- A vocabulary of it. -/
def resetVocabulary (id : String) : OptionsDb := ⟨[⟨"Other", [⟨"Misc", none, [resetControl id]⟩]⟩]⟩

/-- The vocabulary by its address hint. -/
def resetIndex (id : String) : Options := Function.update (fun _ => []) 0x04 [resetControl id]

/-- A monitor that advertises it with its value. -/
def resetScan : Scan where
  pnpId := "ABC1234"
  name := "Monitor"
  caps := { monitorType := .unknown, vcp := fun code => if code = 0x04 then some ⟨some [1]⟩ else none }
  readings _ := none

theorem indexOptions_reset (id : String) :
    indexOptions (resetVocabulary id) = .ok (resetIndex id) := rfl

theorem resetScan_codes : (0x04 : UInt8) ∈ resetScan.codes :=
  List.mem_filter.mpr ⟨mem_allCodes _, by decide⟩

theorem resetControl_held (id : String) :
    reasons resetScan (resetIndex id) 0x04 (resetControl id) ≠ [] := by
  simp [reasons, resetScan]

/-- The candidate `reset` can be enabled. -/
theorem candidate_enabled_reset :
    candidateInside resetScan 0x04 (resetControl "reset") ∈ comments none (generate resetScan (resetIndex "reset")).toList ∧
      trimmed (candidateInside resetScan 0x04 (resetControl "reset")) =
        trimmed (controlXml (resetControl "reset") 0x04 [("go", 1)]) ∧
      Content (candidateInside resetScan 0x04 (resetControl "reset"))
        [candidateElement resetScan 0x04 (resetControl "reset")] := by
  obtain ⟨hcomment, hiff⟩ := candidate_enabled_iff resetScan_codes
    (List.mem_singleton.mpr rfl : resetControl "reset" ∈ resetIndex "reset" 0x04) (resetControl_held "reset")
  have hvalues : matchingValues (resetControl "reset") (resetScan.advertised 0x04) = [("go", 1)] := by decide
  rw [hvalues] at hiff
  exact ⟨hcomment, hiff.mpr (by decide)⟩

/-- The candidate `factory--reset` cannot: its comment has a space between the dashes. -/
theorem candidate_altered_dashes : indexOptions (resetVocabulary "factory--reset") = .ok (resetIndex "factory--reset") ∧
    (0x04 : UInt8) ∈ resetScan.codes ∧ resetControl "factory--reset" ∈ resetIndex "factory--reset" 0x04 ∧
    reasons resetScan (resetIndex "factory--reset") 0x04 (resetControl "factory--reset") ≠ [] ∧
    candidateInside resetScan 0x04 (resetControl "factory--reset") ∈
      comments none (generate resetScan (resetIndex "factory--reset")).toList ∧
    trimmed (candidateInside resetScan 0x04 (resetControl "factory--reset")) ≠
      trimmed (controlXml (resetControl "factory--reset") 0x04
        (matchingValues (resetControl "factory--reset") (resetScan.advertised 0x04))) := by
  have hmem : resetControl "factory--reset" ∈ resetIndex "factory--reset" 0x04 :=
    List.mem_singleton.mpr rfl
  refine ⟨indexOptions_reset _, resetScan_codes, hmem, resetControl_held _,
    (generate_mentions resetScan_codes hmem (resetControl_held _)).mem_comments, fun h => ?_⟩
  have hapart := ((candidateInside_trimmed _ _ _).mp h).1
  exact apart_iff.mp hapart ⟨"factory".toList, "reset".toList, rfl⟩

end DdcControl.Scanner
