import DdcControl.Context.Load
import DdcControl.Database.Validation

/-!
# The session's context and its monitor file

A process has at most one context. `ddcci_init_db` replaces it, `ddcci_release_db` drops
it, and `ddcci_set_monitor_file` overrides the profile of one PNP id in it, once the
profile and all its includes have been validated.

## The model

The guarded global is the state of a `StateM`; an operation that fails is an `ExceptT`
over it, so that what it wrote before it failed stays written. `MonitorPath` is the path
of a monitor file, with what reading it returns.

## What is proved

* `reachable_nulFree` — no text of a context a process can hold has a NUL character.
* `setMonitorFile_sound` — an accepted monitor file can always be loaded, from any CAPS
  and with or without fault tolerance; a rejected one leaves the context as it was.
-/

namespace DdcControl.Context

open Fallible Database Wire Cbor Capabilities

/-! ### Names of monitor files -/

/-- `u8::is_ascii_uppercase`. -/
def isAsciiUppercase (byte : UInt8) : Bool := 65 ≤ byte && byte ≤ 90

/-- `u8::is_ascii_lowercase`. -/
def isAsciiLowercase (byte : UInt8) : Bool := 97 ≤ byte && byte ≤ 122

/-- `u8::is_ascii_hexdigit`. -/
def isAsciiHexdigit (byte : UInt8) : Bool :=
  (48 ≤ byte && byte ≤ 57) || (65 ≤ byte && byte ≤ 70) || (97 ≤ byte && byte ≤ 102)

/-- `is_valid_pnp_id`. -/
def isValidPnpId (id : String) : Bool :=
  let bytes := utf8 id
  bytes.length = 7 && (bytes.take 3).all isAsciiUppercase && (bytes.drop 3).all isAsciiHexdigit

/-- The path of a monitor file: how it is displayed, its file name if that is text, and
what reading it returns. -/
structure MonitorPath where
  display : String
  fileName : Option String
  contents : Except String (List UInt8)

/-- `str::strip_suffix`. -/
def stripSuffix (stop text : String) : Option String := (stop.toList.isSuffixOf? text.toList).map String.ofList

/-- The PNP id a monitor file is named after. -/
def MonitorPath.pnpid (path : MonitorPath) : Option String :=
  (path.fileName.bind (stripSuffix ".xml")).filter fun id => isValidPnpId id && !(utf8 id).any isAsciiLowercase

/-! ### Operations on the context -/

/-- A fallible operation on the session's context. -/
abbrev SessionM := ExceptT String (StateM (Option DbContext))

/-- `init_db_inner`. -/
def initDb (c : Ciborium) (sha : Sha256) (x : XmlReader) (dir : DataDir) : SessionM Unit := do
  set (none : Option DbContext)
  let context ← loadContext c sha x dir
  set (some context)

/-- `ddcci_release_db`. -/
def releaseDb : SessionM Unit := set (none : Option DbContext)

section Translated

variable (translate : String → List UInt8)

/-- The validation of `set_monitor_file_inner`: the override and its includes are
interpreted in full, on CAPS without any code. -/
def validateMonitorFile (context : DbContext) (display pnpid : String) : Except String Unit := do
  let assembly ← (createDbProtected translate context ⟨false, true⟩ pnpid 0
    (.start translate context.options .default)).mapError fun error =>
      "Invalid monitor file " ++ display ++ ": " ++ error.message
  reject (assembly.build.init = .unknown) ("Invalid monitor file " ++ display ++ ": init mode not set.")

/-- `set_monitor_file_inner`. -/
def setMonitorFile (x : XmlReader) (path : MonitorPath) : SessionM String := do
  let pnpid ← orError path.pnpid
    ("Invalid monitor filename " ++ path.display ++ ": expected a PNP ID such as DEL1234.xml.")
  let guard ← get
  let context ← orError guard "Database must be initialized before loading a monitor file."
  let bytes ← path.contents.mapError fun error => "Cannot access " ++ path.display ++ ": " ++ error
  let root ← parseXml x bytes
  let context := { context with monitorFile := some ⟨pnpid, root⟩ }
  validateMonitorFile translate context path.display pnpid
  set (some context)
  return pnpid

/-- A call of one of the functions that change the context. -/
inductive Call where
  | init (dir : DataDir)
  | setMonitorFile (path : MonitorPath)
  | release

/-- The context after a call. -/
def Call.next (c : Ciborium) (sha : Sha256) (x : XmlReader) (guard : Option DbContext) : Call → Option DbContext
  | .init dir => ((initDb c sha x dir).run guard).2
  | .setMonitorFile path => ((Context.setMonitorFile translate x path).run guard).2
  | .release => (releaseDb.run guard).2

/-- The contexts a process can hold: it starts without one. -/
def Reachable (c : Ciborium) (sha : Sha256) (x : XmlReader) (guard : Option DbContext) : Prop :=
  ∃ calls : List Call, calls.foldl (Call.next translate c sha x) none = guard

/-! ### What the calls do -/

/-- What an accepted monitor file has gone through. -/
structure AcceptedFile (x : XmlReader) (path : MonitorPath) (guard : Option DbContext) (pnpid : String)
    (context : DbContext) : Prop where
  id : path.pnpid = some pnpid
  root : ∃ bytes root before, parseXml x bytes = .ok root ∧ guard = some before ∧
    context = { before with monitorFile := some ⟨pnpid, root⟩ }
  valid : validateMonitorFile translate context path.display pnpid = .ok ()

/-- A check on the way: where it fails the call ends, and the context stays. -/
theorem run_bind_check {α β : Type} (check : Except String α) (rest : α → SessionM β)
    (guard : Option DbContext) :
    ((monadLift check : SessionM α) >>= rest).run guard =
      match check with
      | .ok a => (rest a).run guard
      | .error e => (.error e, guard) := by
  cases check <;> rfl

theorem run_bind_get {β : Type} (rest : Option DbContext → SessionM β) (guard : Option DbContext) :
    ((get : SessionM _) >>= rest).run guard = (rest guard).run guard := rfl

/-- **The context is written last**: a call that sets a monitor file has replaced the
context by one with the file, validated, or has left it. -/
theorem setMonitorFile_run (x : XmlReader) (path : MonitorPath) (guard : Option DbContext) :
    (∃ pnpid context, (setMonitorFile translate x path).run guard = (.ok pnpid, some context) ∧
        AcceptedFile translate x path guard pnpid context) ∨
      ∃ e, (setMonitorFile translate x path).run guard = (.error e, guard) := by
  unfold setMonitorFile
  rw [run_bind_check]
  split
  case h_2 => exact .inr ⟨_, rfl⟩
  rename_i pnpid hid
  rw [run_bind_get, run_bind_check]
  split
  case h_2 => exact .inr ⟨_, rfl⟩
  rename_i before hguard
  rw [run_bind_check]
  split
  case h_2 => exact .inr ⟨_, rfl⟩
  rename_i bytes _
  rw [run_bind_check]
  split
  case h_2 => exact .inr ⟨_, rfl⟩
  rename_i root hroot
  rw [run_bind_check]
  split
  case h_2 => exact .inr ⟨_, rfl⟩
  rename_i hvalid
  exact .inl ⟨pnpid, _, rfl, orError_eq_ok.mp hid,
    ⟨bytes, root, before, hroot, orError_eq_ok.mp hguard, rfl⟩, hvalid⟩

/-- A call of `ddcci_init_db` leaves a context that it loaded, or none. -/
theorem initDb_run {c : Ciborium} {sha : Sha256} {x : XmlReader} {dir : DataDir}
    {guard : Option DbContext} {context : DbContext}
    (h : ((initDb c sha x dir).run guard).2 = some context) :
    loadContext c sha x dir = .ok context := by
  have hrun : (initDb c sha x dir).run guard =
      ((monadLift (loadContext c sha x dir) : SessionM _) >>= fun context => set (some context)).run none := rfl
  rw [hrun, run_bind_check] at h
  split at h
  · rename_i hload
    cases h
    exact hload
  · cases h

/-- **No text of a context that a process can hold has a NUL character.** -/
theorem reachable_nulFree {c : Ciborium} {sha : Sha256} {x : XmlReader} {guard : Option DbContext}
    (h : Reachable translate c sha x guard) {context : DbContext} (hguard : guard = some context) :
    NulFreeContext context := by
  obtain ⟨calls, rfl⟩ := h
  refine List.foldlRecOn (motive := fun guard : Option DbContext => ∀ context, guard = some context →
    NulFreeContext context) calls _ ?_ ?_ context hguard
  · intro context h
    cases h
  intro guard hfree call _ context hnext
  cases call with
  | init dir => exact loadContext_nulFree (initDb_run hnext)
  | release => cases hnext
  | setMonitorFile path =>
    rcases setMonitorFile_run translate x path guard with ⟨pnpid, after, hrun, haccepted⟩ | ⟨e, hrun⟩
    · rw [Call.next, hrun] at hnext
      cases hnext
      obtain ⟨bytes, root, before, hroot, hbefore, rfl⟩ := haccepted.root
      have hbefore := hfree before hbefore
      refine ⟨hbefore.options, hbefore.profiles, fun file hfile => ?_⟩
      cases hfile
      exact parseXml_nulFree hroot
    · rw [Call.next, hrun] at hnext
      exact hfree context hnext

/-! ### An accepted monitor file can be loaded -/

/-- A load of the overridden profile is strict. -/
theorem AcceptedFile.tolerates {x : XmlReader} {path : MonitorPath} {guard : Option DbContext}
    {pnpid : String} {context : DbContext} (h : AcceptedFile translate x path guard pnpid context)
    (faulttolerance : Bool) :
    context.tolerates pnpid faulttolerance = false := by
  obtain ⟨_, root, before, -, -, rfl⟩ := h.root
  simp [DbContext.tolerates]

/-- **What was validated can be loaded**, from any CAPS. -/
theorem AcceptedFile.load {x : XmlReader} {path : MonitorPath} {guard : Option DbContext}
    {pnpid : String} {context : DbContext} (h : AcceptedFile translate x path guard pnpid context)
    (htranslate : TranslatesCStrings translate) (hcontext : NulFreeContext context) (caps : Caps)
    (faulttolerance : Bool) :
    ∃ monitor, (createDb translate (some context) pnpid caps faulttolerance).monitor = some monitor ∧
      monitor.init ≠ .unknown := by
  obtain ⟨validated, hvalidated, hvalid⟩ := bind_eq_ok.mp h.valid
  cases hvalidation : createDbProtected translate context ⟨false, true⟩ pnpid 0
      (.start translate context.options .default) with
  | error e => rw [hvalidation] at hvalidated; cases hvalidated
  | ok assembly =>
    rw [hvalidation] at hvalidated
    cases hvalidated
    have hinit : validated.build.init ≠ .unknown := by simpa using hvalid
    have hstart : SameBuild (.start translate context.options .default)
        (.start translate context.options caps) := rfl
    obtain ⟨loaded, hloaded, hbuild⟩ :=
      createDbProtected_validated translate context pnpid 0 hstart validated hvalidation
    have hstrict := h.tolerates translate faulttolerance
    have hassemble : assemble translate context pnpid caps faulttolerance = .ok loaded := by
      rw [assemble, hstrict]
      exact hloaded
    have halloc := assemble_allocates translate htranslate hcontext hassemble rfl
    rw [show validated.build = loaded.build from hbuild] at hinit
    have hpublish : publish false loaded =
        some (⟨loaded.build.name.getD [], loaded.build.init,
          pruneEmptyGroups loaded.table.groups⟩, loaded.table.caps) := by
      rw [publish, defaultInit, if_neg hinit]
      show ((allocMonitor loaded.build _).bind fun monitor => some (monitor, _)) = _
      rw [halloc]
      rfl
    refine ⟨⟨loaded.build.name.getD [], loaded.build.init, pruneEmptyGroups loaded.table.groups⟩,
      ?_, hinit⟩
    simp only [createDb, hassemble, hstrict, hpublish]

/-- **An accepted monitor file can always be loaded.** Whatever context a process holds,
where it accepts a file for a PNP id, it holds a context from which that id can be loaded
with every CAPS, tolerating faults or not, as a tree with an init mode; and where it
rejects one, it holds the context it held. -/
theorem setMonitorFile_sound (htranslate : TranslatesCStrings translate) {c : Ciborium} {sha : Sha256} {x : XmlReader}
    {guard : Option DbContext} (hguard : Reachable translate c sha x guard) (path : MonitorPath) :
    (∀ pnpid guard', (setMonitorFile translate x path).run guard = (.ok pnpid, guard') →
        ∀ caps faulttolerance, ∃ monitor, (createDb translate guard' pnpid caps faulttolerance).monitor = some monitor ∧
          monitor.init ≠ .unknown) ∧
      ∀ e guard', (setMonitorFile translate x path).run guard = (.error e, guard') → guard' = guard := by
  have hnext : Reachable translate c sha x ((setMonitorFile translate x path).run guard).2 := by
    obtain ⟨calls, rfl⟩ := hguard
    exact ⟨calls ++ [.setMonitorFile path], by rw [List.foldl_append]; rfl⟩
  rcases setMonitorFile_run translate x path guard with ⟨pnpid, context, hrun, haccepted⟩ | ⟨e,
    hrun⟩ <;> rw [hrun] at hnext ⊢
  · refine ⟨fun pnpid' guard' heq caps faulttolerance => ?_, fun e guard' heq => nomatch heq⟩
    cases heq
    exact haccepted.load translate htranslate (reachable_nulFree translate hnext rfl) caps faulttolerance
  · refine ⟨fun pnpid' guard' heq => (nomatch heq), fun e' guard' heq => ?_⟩
    cases heq
    rfl

end Translated

/-! ### Two documents -/

/-- The rest of an `options.xml` after its version. -/
@[irreducible] def groupsText : String :=
  "\" date=\"2026\"><group name=\"Picture\"><subgroup name=\"Colours\">" ++
    "<control name=\"Temperature\" id=\"temperature\" type=\"list\">" ++
    "<value name=\"Warm\" id=\"warm\"/><value name=\"Cool\" id=\"cool\"/></control></subgroup></group></options>"

/-- An `options.xml` that writes its version so. -/
def optionsText (version : String) : String := "<options dbversion=\"" ++ version ++ groupsText

/-- A profile. -/
@[irreducible] def profileText : String :=
  "<monitor name=\"Test\" init=\"standard\"><caps add=\"(vcp(14(04 05)))\"/><controls>" ++
    "<control id=\"temperature\" address=\"0x14\" delay=\"50\"><value id=\"warm\" value=\"0x4\"/>" ++
    "<value id=\"cool\" value=\"0x5\"/></control></controls></monitor>"

/-- An element of a document that is one line. -/
def lineElement (tag : String) (attributes : List (String × String)) (children : List Xml) : Xml :=
  .element tag (attributes.map fun entry => ⟨none, entry.1, entry.2⟩) children 1

/-- The groups as a tree. -/
def groupsTree : Xml :=
  lineElement "group" [("name", "Picture")] [lineElement "subgroup" [("name", "Colours")]
    [lineElement "control" [("name", "Temperature"), ("id", "temperature"), ("type", "list")]
      [lineElement "value" [("name", "Warm"), ("id", "warm")] [],
        lineElement "value" [("name", "Cool"), ("id", "cool")] []]]]

/-- The options as a tree. -/
def optionsTree (version : String) : Xml :=
  lineElement "options" [("dbversion", version), ("date", "2026")] [groupsTree]

/-- The profile as a tree. -/
def profileTree : Xml :=
  lineElement "monitor" [("name", "Test"), ("init", "standard")]
    [lineElement "caps" [("add", "(vcp(14(04 05)))")] [], lineElement "controls" []
      [lineElement "control" [("id", "temperature"), ("address", "0x14"), ("delay", "50")]
        [lineElement "value" [("id", "warm"), ("value", "0x4")] [],
          lineElement "value" [("id", "cool"), ("value", "0x5")] []]]]

/-- The values of the attributes in these trees, but the version. -/
def sampleValues : List String :=
  ["2026", "Picture", "Colours", "Temperature", "temperature", "list", "Warm", "warm", "Cool", "cool", "Test",
    "standard", "(vcp(14(04 05)))", "0x14", "50", "0x4", "0x5"]

theorem lineElement_all {P : XmlAttribute → Prop} {tag : String} {attributes : List (String × String)}
    {children : List Xml} (h : ∀ attr ∈ attributes, P ⟨none, attr.1, attr.2⟩)
    (hchildren : ∀ child ∈ children, child.All P) : (lineElement tag attributes children).All P :=
  .element (List.forall_mem_map.mpr h) hchildren

/-- What is true of the version and of these values is true of the attributes of the trees. -/
theorem sampleTrees_all {P : String → Prop} {version : String} (hversion : P version)
    (h : ∀ value ∈ sampleValues, P value) :
    (optionsTree version).All (fun attr => P attr.value) ∧ profileTree.All fun attr => P attr.value := by
  simp only [sampleValues, List.forall_mem_cons, List.not_mem_nil, false_imp_iff, implies_true, and_true] at h
  obtain ⟨hdate, hpicture, hcolours, htitle, hid, hlist, hWarm, hwarm, hCool, hcool, hname, hinit, hcaps,
    haddress, hdelay, hfour, hfive⟩ := h
  constructor
  · refine lineElement_all (by simpa using ⟨hversion, hdate⟩) (List.forall_mem_singleton.mpr ?_)
    refine lineElement_all (by simpa using hpicture) (List.forall_mem_singleton.mpr ?_)
    refine lineElement_all (by simpa using hcolours) (List.forall_mem_singleton.mpr ?_)
    refine lineElement_all (by simpa using ⟨htitle, hid, hlist⟩) ?_
    refine List.forall_mem_cons.mpr ⟨lineElement_all (by simpa using ⟨hWarm, hwarm⟩) (List.forall_mem_nil _), ?_⟩
    exact List.forall_mem_singleton.mpr (lineElement_all (by simpa using ⟨hCool, hcool⟩) (List.forall_mem_nil _))
  · refine lineElement_all (by simpa using ⟨hname, hinit⟩) ?_
    refine List.forall_mem_cons.mpr ⟨lineElement_all (by simpa using hcaps) (List.forall_mem_nil _), ?_⟩
    refine List.forall_mem_singleton.mpr (lineElement_all (by simp) (List.forall_mem_singleton.mpr ?_))
    refine lineElement_all (by simpa using ⟨hid, haddress, hdelay⟩) ?_
    refine List.forall_mem_cons.mpr ⟨lineElement_all (by simpa using ⟨hwarm, hfour⟩) (List.forall_mem_nil _), ?_⟩
    exact List.forall_mem_singleton.mpr (lineElement_all (by simpa using ⟨hcool, hfive⟩) (List.forall_mem_nil _))

/-- A reader of these two documents. -/
def versionReader (version : String) (hversion : NulFree version) : XmlReader where
  document bytes :=
    if bytes = utf8 (optionsText version) then .ok (optionsTree version)
    else if bytes = utf8 profileText then .ok profileTree
    else .error "unknown document"
  root_isElement bytes tree h := by
    split_ifs at h <;> cases h <;> rfl
  noNul bytes tree h := by
    have hall := sampleTrees_all (P := NulFree) hversion (by unfold NulFree; decide)
    split_ifs at h <;> cases h
    · exact hall.1
    · exact hall.2

theorem nulFree_three : NulFree "3" := by
  unfold NulFree
  decide

/-- The reader of these documents, with the version that is supported. -/
def sampleReader : XmlReader := versionReader "3" nulFree_three

/-- A data directory of XML sources: an options file alone. -/
def sampleDir : DataDir := ⟨.ok none, .ok none, .ok (.ofList [("options.xml", utf8 (optionsText "3"))])⟩

/-- The file `DEL1234.xml`. -/
def samplePath : MonitorPath := ⟨"DEL1234.xml", some "DEL1234.xml", .ok (utf8 profileText)⟩

/-- The context of a process that has read the directory. -/
def sampleGuard : Option DbContext := ((initDb .reference sha256 sampleReader sampleDir).run none).2

theorem sampleGuard_accepts : ((setMonitorFile utf8 sampleReader samplePath).run sampleGuard).1 = .ok "DEL1234" ∧
    ∀ caps faulttolerance, ∃ monitor,
      (createDb utf8 ((setMonitorFile utf8 sampleReader samplePath).run sampleGuard).2 "DEL1234" caps faulttolerance).monitor =
        some monitor ∧ monitor.init ≠ .unknown := by
  have haccepted : ((setMonitorFile utf8 sampleReader samplePath).run sampleGuard).1 =
      .ok "DEL1234" := by decide +kernel
  have hreachable : Reachable utf8 .reference sha256 sampleReader sampleGuard :=
    ⟨[.init sampleDir], rfl⟩
  refine ⟨haccepted, ?_⟩
  exact (setMonitorFile_sound utf8 (fun _ => nulFree_iff.mp) hreachable samplePath).1 "DEL1234" _
    (Prod.ext haccepted rfl)

end DdcControl.Context
