import DdcControl.Scanner.Profile

/-!
# Loading generated profiles

The scanner chooses its active controls by address hints and by what the monitor
advertises, the loader looks them up by ids. `VocabularyAgrees` says where the two come to
the same: the vocabulary has one control of each active id, and every value that is mapped
has a name and an id of its own.

## What is proved

* `generate_loads_iff` — a generated profile passes the strict load in both modes, and the
  tree has its active controls, exactly where the vocabulary agrees, the monitor's id names
  a profile and the document is within the loader's limits.
-/

namespace DdcControl.Scanner

open Capabilities Context Database Fallible Markup

/-! ### One input -/

/-- The name of the input, in a vocabulary that has one. -/
def inputName (named : Bool) : Option String := if named then some "HDMI" else none

/-- An `options.xml` with one input. -/
def inputText (named : Bool) : String :=
  "<options dbversion=\"3\" date=\"20060101\"><group name=\"Input\"><subgroup name=\"Source\">" ++
    "<control id=\"input\" name=\"Input source\" type=\"list\" address=\"0x60\"><value id=\"hdmi\"" ++
    (if named then " name=\"HDMI\"" else "") ++ " value=\"0x11\"/></control></subgroup></group></options>"

/-- The document as a tree. -/
def inputTree (named : Bool) : Xml :=
  let value := ⟨none, "id", "hdmi"⟩ :: (inputName named).toList.map (fun name => ⟨none, "name", name⟩) ++
    [⟨none, "value", "0x11"⟩]
  .element "options" [⟨none, "dbversion", "3"⟩, ⟨none, "date", "20060101"⟩]
    [.element "group" [⟨none, "name", "Input"⟩]
      [.element "subgroup" [⟨none, "name", "Source"⟩]
        [.element "control" [⟨none, "id", "input"⟩, ⟨none, "name", "Input source"⟩, ⟨none, "type", "list"⟩,
            ⟨none, "address", "0x60"⟩]
          [.element "value" value [] 1] 1] 1] 1] 1

/-- Its one control. -/
def inputControl (named : Bool) : OptionControl :=
  ⟨false, "input", "Input source", .list, .none, some "0x60", [⟨"hdmi", inputName named, some "0x11"⟩]⟩

/-- The vocabulary. -/
def inputVocabulary (named : Bool) : OptionsDb := ⟨[⟨"Input", [⟨"Source", none, [inputControl named]⟩]⟩]⟩

/-- The vocabulary by its address hints. -/
def inputIndex (named : Bool) : Options := Function.update (fun _ => []) 0x60 [inputControl named]

/-- A monitor that advertises the input, and answers for it. -/
def inputScan : Scan where
  pnpId := "ABC1234"
  name := "Monitor"
  caps := Caps.default.patched ⟨none, [⟨0x60, some [0x11]⟩]⟩ .add
  readings code := if code = 0x60 then some ⟨0x11, 0x11⟩ else none

/-- The element of its profile. -/
def inputProfile : Element :=
  .mk "monitor" [("name", "Monitor"), ("init", "standard")]
    [.mk "caps" [("add", "(vcp(60(11)))")] [],
      .mk "controls" [] [.mk "control" [("id", "input"), ("address", "0x60")]
        [.mk "value" [("id", "hdmi"), ("value", "0x11")] []]]]

/-- The profile as a tree. -/
def inputProfileTree : Xml :=
  .element "monitor" [⟨none, "name", "Monitor"⟩, ⟨none, "init", "standard"⟩]
    [.element "caps" [⟨none, "add", "(vcp(60(11)))"⟩] [] 11,
      .element "controls" []
        [.element "control" [⟨none, "id", "input"⟩, ⟨none, "address", "0x60"⟩]
          [.element "value" [⟨none, "id", "hdmi"⟩, ⟨none, "value", "0x11"⟩] [] 16] 15] 12] 10

/-- What is read of the two documents. -/
def inputDocument (named : Bool) (bytes : List UInt8) : Except String Xml :=
  if (utf8 "<?xml").isPrefixOf bytes then .ok inputProfileTree
  else if bytes = utf8 (inputText named) then .ok (inputTree named)
  else .error "unknown document"

theorem inputDocument_options (named : Bool) :
    inputDocument named (utf8 (inputText named)) = .ok (inputTree named) := by
  have hprefix : ¬ ((utf8 "<?xml").isPrefixOf (utf8 (inputText named))) = true := by cases named <;> decide
  rw [inputDocument, if_neg hprefix, if_pos rfl]

theorem parse_inputTree (named : Bool) : parseRoot (inputTree named) = .ok (inputVocabulary named) := by
  cases named <;> decide

theorem indexOptions_input (named : Bool) :
    indexOptions (inputVocabulary named) = .ok (inputIndex named) := by
  cases named <;> rfl

/-- The attributes of the trees are made of these texts. -/
def inputTexts : List String :=
  ["3", "20060101", "Input", "Source", "input", "Input source", "list", "0x60", "hdmi", "HDMI", "0x11", "Monitor", "standard",
    "(vcp(60(11)))"]

theorem inputTexts_isChar : ∀ text ∈ inputTexts, ∀ c ∈ text.toList, isChar c = true := by
  have hall : (inputTexts.all fun text => text.toList.all isChar) = true := by decide +kernel
  exact fun text htext => List.all_eq_true.mp (List.all_eq_true.mp hall text htext)

theorem inputTrees_all {P : String → Prop} (h : ∀ text ∈ inputTexts, P text) (named : Bool) :
    (inputTree named).All (fun attr => P attr.value) ∧ inputProfileTree.All fun attr =>
      P attr.value := by
  simp only [inputTexts, List.forall_mem_cons] at h
  obtain ⟨h1, h2, h3, h4, h5, h6, h7, h8, h9, h10, h11, h12, h13, h14, -⟩ := h
  have hvalue : ∀ attr ∈ (⟨none, "id", "hdmi"⟩ :: (inputName named).toList.map (fun name => ⟨none, "name", name⟩) ++
      [⟨none, "value", "0x11"⟩] : List XmlAttribute), P attr.value := by
    cases named <;> simp [inputName, h9, h10, h11]
  refine ⟨.element (by simp [h1, h2]) ?_, .element (by simp [h12, h13]) ?_⟩
  · refine List.forall_mem_singleton.mpr (.element (by simp [h3]) ?_)
    refine List.forall_mem_singleton.mpr (.element (by simp [h4]) ?_)
    refine List.forall_mem_singleton.mpr (.element (by simp [h5, h6, h7, h8]) ?_)
    exact List.forall_mem_singleton.mpr (.element hvalue (List.forall_mem_nil _))
  · refine List.forall_mem_cons.mpr ⟨.element (by simp [h14]) (List.forall_mem_nil _), ?_⟩
    refine List.forall_mem_singleton.mpr (.element (List.forall_mem_nil _) ?_)
    refine List.forall_mem_singleton.mpr (.element (by simp [h5, h8]) ?_)
    exact List.forall_mem_singleton.mpr (.element (by simp [h9, h11]) (List.forall_mem_nil _))

/-- A reader of the two documents. -/
def inputReader (named : Bool) : XmlReader where
  document := inputDocument named
  root_isElement bytes tree h := by
    unfold inputDocument at h
    split_ifs at h <;> cases h <;> rfl
  noNul bytes tree h := by
    have hfree : ∀ text ∈ inputTexts, NulFree text := fun text htext => nulFree_of_isChar (inputTexts_isChar text htext)
    unfold inputDocument at h
    split_ifs at h <;> cases h
    · exact (inputTrees_all hfree named).2
    · exact (inputTrees_all hfree named).1

theorem inputReader_document (named : Bool) :
    (inputReader named).document = inputDocument named := rfl

theorem parse_input (named : Bool) : parse (inputReader named)
    (utf8 (inputText named)) = .ok (inputVocabulary named) := by
  rw [parse, inputReader_document, inputDocument_options]
  exact parse_inputTree named

theorem characters_input (named : Bool) :
    ∀ tree, (inputReader named).document (utf8 (inputText named)) = .ok tree → tree.Characters := by
  intro tree h
  rw [inputReader_document, inputDocument_options] at h
  cases h
  exact (inputTrees_all inputTexts_isChar named).1

theorem codes_input : inputScan.codes = [0x60] := by decide +kernel

theorem reasons_input (named : Bool) : reasons inputScan (inputIndex named) 0x60 (inputControl named) = [] := by
  cases named <;> decide +kernel

theorem activeControls_input (named : Bool) :
    activeControls inputScan (inputIndex named) = [⟨inputControl named, 0x60, [("hdmi", 0x11)]⟩] := by
  have hmatching : matchingValues (inputControl named) (inputScan.advertised 0x60) = [("hdmi", 0x11)] := by
    cases named <;> decide
  have hindex : inputIndex named 0x60 = [inputControl named] := Function.update_self ..
  rw [activeControls, codes_input, List.flatMap_singleton, activeAt, hindex,
    List.filter_cons_of_pos (by rw [reasons_input]; rfl), List.filter_nil, List.map_singleton, hmatching]

theorem profile_input (named : Bool) : profile inputScan (inputIndex named) = inputProfile := by
  rw [profile, capsElements_of_ne (by rw [codes_input]; simp), activeControls_input]
  have hcaps : cleaned (normalizedCaps inputScan inputScan.codes) = "(vcp(60(11)))" := by
    rw [codes_input]
    decide +kernel
  have hname : cleaned (monitorName inputScan) = "Monitor" := by decide
  have hid : cleaned "input" = "input" := by decide
  have hvalue : cleaned "hdmi" = "hdmi" := by decide
  have haddress : "0x" ++ hexText (0x60 : UInt8).toNat = "0x60" := by decide
  have hnumber : "0x" ++ hexText (0x11 : UInt16).toNat = "0x11" := by decide
  have hcontrol : ActiveControl.element ⟨inputControl named, 0x60, [("hdmi", 0x11)]⟩ =
      .mk "control" [("id", "input"), ("address", "0x60")] [.mk "value" [("id", "hdmi"),
        ("value", "0x11")] []] := by
    rw [ActiveControl.element, List.map_singleton, valueElement, haddress, hnumber, hvalue,
      inputControl, hid]
  rw [hcaps, hname, List.map_singleton, hcontrol]
  rfl

theorem caps_input : Caps.parse (utf8 "(vcp(60(11)))") = .ok inputScan.caps := by
  unfold Caps.parse
  rw [Caps.apply_eq_patched (by decide : Capabilities.parse (utf8 "(vcp(60(11)))") = .ok ⟨none, [⟨0x60, some [0x11]⟩]⟩)]
  rfl

theorem reads_input (named : Bool) : (inputReader named).Reads (generate inputScan (inputIndex named))
    (profile inputScan (inputIndex named)) := by
  intro _
  have hprefix : (utf8 "<?xml").isPrefixOf (utf8 (generate inputScan (inputIndex named))) = true := by
    have hdeclaration : utf8 "<?xml" <+: utf8 "<?xml version=\"1.0\" encoding=\"UTF-8\"?>\n" := by decide
    rw [List.isPrefixOf_iff_prefix]
    unfold generate
    simp only [utf8_append, List.append_assoc]
    exact hdeclaration.trans (List.prefix_append _ _)
  have hdocument : inputDocument named (utf8 (generate inputScan (inputIndex named))) =
      .ok inputProfileTree := if_pos hprefix
  refine ⟨inputProfileTree, hdocument, ?_⟩
  rw [profile_input]
  refine ⟨_, 10, rfl, _, _, rfl, ⟨_, 11, rfl, rfl⟩, _, _, rfl, ⟨_, 12, rfl, ?_⟩, rfl⟩
  exact ⟨_, _, rfl, ⟨_, 15, rfl, _, _, rfl, ⟨_, 16, rfl, rfl⟩, rfl⟩, rfl⟩

theorem withinLimits_input (named : Bool) : WithinLimits inputScan (inputIndex named) where
  name := by
    rw [Short, maxAttribute]
    decide
  caps _ := by
    rw [Short, maxAttribute, codes_input]
    decide +kernel
  ids control h := by
    rw [activeControls_input, List.mem_singleton] at h
    subst h
    simp only [List.forall_mem_singleton, inputControl, Short, maxAttribute]
    decide
  elements := by
    rw [codes_input, activeControls_input, if_neg (by simp), List.map_singleton, List.sum_singleton]
    show 2 + 1 + (1 + 1) ≤ 4000000
    decide

/-! ### Every profile -/

section Translated

variable (translate : String → List UInt8)

/-- The database of a vocabulary, with a generated profile installed under the monitor's id. -/
def generatedContext (x : XmlReader) (installed : Std.TreeMap String (Except String Node)) (options : OptionsDb) (scan : Scan)
    (index : Options) : DbContext :=
  ⟨installed.insert scan.pnpId (parseXml x (utf8 (generate scan index))), options, none⟩

/-- The profile passes the strict load in a mode, and the tree has its active controls, at
their addresses and with the values written. -/
def LoadsActive (x : XmlReader) (installed : Std.TreeMap String (Except String Node)) (options : OptionsDb) (scan : Scan)
    (index : Options) (caps : Caps) (validateAll : Bool) : Prop :=
  ∃ assembly, createDbProtected translate (generatedContext x installed options scan index) ⟨false, validateAll⟩
      scan.pnpId 0 (.start translate options caps) = .ok assembly ∧
    ((treeControls assembly.table.groups).map treeMapping).Perm ((activeControls scan index).map ActiveControl.mapping)

/-- The vocabulary has one control of each active id, and its mapped values are unambiguous. -/
def VocabularyAgrees (options : OptionsDb) (scan : Scan) (index : Options) : Prop :=
  ∀ control ∈ activeControls scan index, options.controls.countP (fun option => option.id = control.option.id) = 1 ∧
    Unambiguous control.option (scan.advertised control.code)

section Vocabulary

variable {x : XmlReader} {file : List UInt8} {options : OptionsDb} (hparse : parse x file = .ok options) {index : Options}
  (hindex : indexOptions options = .ok index) {scan : Scan}
include hparse hindex

/-- Active controls are the vocabulary's. -/
theorem activeControls_compatible : Compatible options (activeControls scan index) where
  ids := activeControls_nodup scan index
  codes _ h _ h' := eq_of_code h h'
  known _ h := indexOptions_mem hindex (mem_activeControls.mp h).2.1
  types _ h := (reasons_eq_nil (mem_activeControls.mp h).2.2.1).2.2
  available _ h := parse_available hparse h

variable (hchars : ∀ tree, x.document file = .ok tree → tree.Characters)
include hchars

/-- The ids of active controls are written as they are. -/
theorem cleaned_activeControls :
    ∀ control ∈ activeControls scan index, cleaned control.option.id = control.option.id ∧
    ∀ value ∈ control.values, cleaned value.1 = value.1 := by
  intro control h
  obtain ⟨-, hmem, -, hvalues⟩ := mem_activeControls.mp h
  obtain ⟨hid, hids⟩ := parse_isChar hparse hchars (indexOptions_mem hindex hmem)
  refine ⟨cleaned_of_isChar hid, fun value hvalue => ?_⟩
  obtain ⟨optionValue, hoption, hmapped⟩ := (mem_values_iff hvalues).mp hvalue
  rw [mappedEntry_fst hmapped]
  exact cleaned_of_isChar (hids optionValue hoption)

variable {input : List UInt8} (hcaps : Caps.parse input = .ok scan.caps)
  (hreads : x.Reads (generate scan index) (profile scan index)) {installed : Std.TreeMap String (Except String Node)}
  {caps : Caps}
include hcaps hreads

/-- A profile that the loader reads, under a valid name, loads where the vocabulary agrees. -/
theorem loadsActive_iff {node : Node} (hname : isValidMonitorProfileName scan.pnpId = true)
    (hnode : parseXml x (utf8 (generate scan index)) = .ok node) :
    (∀ validateAll, LoadsActive translate x installed options scan index caps validateAll) ↔
      VocabularyAgrees options scan index := by
  have hresolve : (generatedContext x installed options scan index).resolve scan.pnpId true =
      .ok node := by
    rw [DbContext.resolve, DbContext.root?, generatedContext, Option.filter_none]
    simp only [Std.TreeMap.getElem?_insert_self, hnode]
  have hisNode := parseXml_ok hreads (generate_document scan index) (height_profile scan index) hnode
  have hactive : Compatible options (activeControls scan index) :=
    activeControls_compatible hparse hindex
  obtain ⟨build, table, hfresh, hload⟩ :=
    createDbProtected_generated translate hcaps hname hresolve hisNode
    (cleaned_activeControls hparse hindex hchars) caps
  unfold VocabularyAgrees
  rw [← addControls_generated_iff translate hactive (fun control h => (mem_activeControls.mp h).2.2.2) hfresh]
  refine forall_congr' fun validateAll => ?_
  constructor
  · rintro ⟨assembly, hassembly, hperm⟩
    obtain ⟨table', hadd, hassembly⟩ := bind_eq_ok.mp ((hload validateAll).symm.trans hassembly)
    cases hassembly
    exact ⟨table', hadd, hperm⟩
  · rintro ⟨table', hadd, hperm⟩
    exact ⟨⟨build, table'⟩, (hload validateAll).trans (bind_eq_ok.mpr ⟨table', hadd, rfl⟩), hperm⟩

/-- A profile that loads has a valid name, is within the limits, and agrees with the vocabulary. -/
theorem agrees_of_loads (h : ∀ validateAll, LoadsActive translate x installed options scan index caps validateAll) :
    isValidMonitorProfileName scan.pnpId = true ∧ WithinLimits scan index ∧
    VocabularyAgrees options scan index := by
  obtain ⟨assembly, hassembly, -⟩ := h true
  obtain ⟨build, root, -, hcount, hroot, -⟩ := createDbProtected_eq_ok translate hassembly
  have hname : isValidMonitorProfileName scan.pnpId = true := by
    obtain ⟨_, hvalid, -⟩ := bind_eq_ok.mp hcount
    simpa using hvalid
  have hnode : parseXml x (utf8 (generate scan index)) = .ok root := by
    rw [DbContext.rootOf, DbContext.root?, generatedContext, Option.filter_none] at hroot
    simpa using hroot
  have hloadable :=
    (parseXml_isOk hreads (generate_document scan index) (height_profile scan index)).mp ⟨root, hnode⟩
  exact ⟨hname, (loadable_profile_iff (cleaned_activeControls hparse hindex hchars)).mp hloadable,
    (loadsActive_iff translate hparse hindex hchars hcaps hreads hname hnode).mp h⟩

/-- **Which generated profiles load.** For every vocabulary, scan and initial CAPS: the
profile passes the strict load in both modes, and the tree has exactly its active controls
with what the profile says of them, if and only if the monitor's id names a profile, the
document is within the loader's limits and the vocabulary agrees with what was mapped. -/
theorem generate_loads_iff :
    (∀ validateAll, LoadsActive translate x installed options scan index caps validateAll) ↔
      isValidMonitorProfileName scan.pnpId = true ∧ WithinLimits scan index ∧ VocabularyAgrees options scan index := by
  refine ⟨agrees_of_loads translate hparse hindex hchars hcaps hreads, ?_⟩
  rintro ⟨hname, hlimits, hagrees⟩
  have hloadable := (loadable_profile_iff (cleaned_activeControls hparse hindex hchars)).mpr hlimits
  obtain ⟨node, hnode⟩ :=
    (parseXml_isOk hreads (generate_document scan index) (height_profile scan index)).mpr hloadable
  exact (loadsActive_iff translate hparse hindex hchars hcaps hreads hname hnode).mpr hagrees

end Vocabulary

end Translated

/-- With a name, the input is loaded. -/
theorem generate_loads_named :
    LoadsActive utf8 (inputReader true) ∅ (inputVocabulary true) inputScan (inputIndex true) .default false ∧
      LoadsActive utf8 (inputReader true) ∅ (inputVocabulary true) inputScan (inputIndex true) .default true := by
  have hagrees : VocabularyAgrees (inputVocabulary true) inputScan (inputIndex true) :=
    fun control h => by
    rw [activeControls_input, List.mem_singleton] at h
    subst h
    refine ⟨by decide, fun value hvalue _ => ?_⟩
    obtain rfl := List.mem_singleton.mp hvalue
    exact ⟨rfl, by decide⟩
  have hloads : ∀ validateAll, LoadsActive utf8 (inputReader true) ∅
      (inputVocabulary true) inputScan (inputIndex true) .default
      validateAll :=
    (generate_loads_iff utf8 (parse_input true) (indexOptions_input true) (characters_input true) caps_input
      (reads_input true)).mpr ⟨by decide, withinLimits_input true, hagrees⟩
  exact ⟨hloads false, hloads true⟩

/-- Without one the generator maps it as well, and the loader refuses the profile. -/
theorem generate_refused_unnamed : parse (inputReader false) (utf8 (inputText false)) = .ok (inputVocabulary false) ∧
    (∀ tree, (inputReader false).document (utf8 (inputText false)) = .ok tree → tree.Characters) ∧
    indexOptions (inputVocabulary false) = .ok (inputIndex false) ∧
    Caps.parse (utf8 "(vcp(60(11)))") = .ok inputScan.caps ∧
    (inputReader false).Reads (generate inputScan (inputIndex false)) (profile inputScan (inputIndex false)) ∧
    (activeControls inputScan (inputIndex false)).map ActiveControl.mapping = [⟨"input", 0x60, [("hdmi", 0x11)]⟩] ∧
    ¬ ∀ validateAll, LoadsActive utf8 (inputReader false) ∅ (inputVocabulary false) inputScan (inputIndex false) .default
      validateAll := by
  refine ⟨parse_input false, characters_input false, indexOptions_input false, caps_input,
    reads_input false,
    by rw [activeControls_input]; rfl, fun h => ?_⟩
  obtain ⟨-, -, hagrees⟩ := agrees_of_loads utf8 (parse_input false) (indexOptions_input false)
    (characters_input false) caps_input
    (reads_input false) h
  have hmem : (⟨inputControl false, 0x60, [("hdmi", 0x11)]⟩ : ActiveControl) ∈
      activeControls inputScan (inputIndex false) := by
    rw [activeControls_input]
    exact List.mem_singleton_self _
  have hnamed := ((hagrees _ hmem).2 ⟨"hdmi", none, some "0x11"⟩ (List.mem_singleton_self _) (by decide)).1
  cases hnamed

end DdcControl.Scanner
