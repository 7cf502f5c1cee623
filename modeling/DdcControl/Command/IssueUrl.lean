import DdcControl.Library.Block
import DdcControl.Library.Percent
import DdcControl.Text

/-!
# URLs of issues

For a monitor that the database does not support, the command prints the URL of a form, with
what is known of the monitor filled in.

## The model

A C string is a `Block` of bytes that can be read up to a NUL. A store outside a block has no
result. `malloc` succeeds or not, and `free` is left out. `size_t` is `ℕ`. `isalnum` is that of
the C locale. The texts of a report are bytes, whatever they are.

## What is proved

* `urlEncode_eq` — the block of a field has room for its escapes and a NUL, and for no more.
* `buildIssueUrl_eq` — so has that of the URL.
* `buildIssueUrl_intact` — the form gets what the report holds, and nothing else.
-/

namespace DdcControl.Command

open Percent

/-! ### Fields -/

/-- `isalnum`, in the C locale. -/
def isalnum (c : UInt8) : Bool :=
  ('0'.toUInt8 ≤ c && c ≤ '9'.toUInt8) || ('A'.toUInt8 ≤ c && c ≤ 'Z'.toUInt8) || ('a'.toUInt8 ≤ c && c ≤ 'z'.toUInt8)

/-- The bytes that `url_encode` keeps. -/
def isKept (c : UInt8) : Bool :=
  isalnum c || c = '-'.toUInt8 || c = '_'.toUInt8 || c = '.'.toUInt8 || c = '~'.toUInt8

/-- The first pass of `url_encode`, which counts. -/
def encodedLen (s : List UInt8) : ℕ := s.foldl (fun len c => if isKept c then len + 1 else len + 3) 0

/-- A byte in the second pass, which writes: `out`, and `q - out`. -/
def urlEncodeByte : Block UInt8 × ℕ → UInt8 → Option (Block UInt8 × ℕ)
  | (out, q), c =>
    if isKept c then do
      let out ← out.store q c
      return (out, q + 1)
    else do
      let out ← Block.stores q (escape c ++ [0]) out -- `sprintf` writes a NUL as well
      return (out, q + 3)

/-- `url_encode`. -/
def urlEncode (allocated : Bool) (s : Block UInt8) : Option (Block UInt8) :=
  if s.isNone then some none
  else do
    let bytes ← s.upTo (· = 0) 0
    let out := .malloc allocated (encodedLen bytes + 1)
    if out.isNone then return none
    else do
      let (out, q) ← bytes.foldlM urlEncodeByte (out, 0)
      out.store q 0

/-! ### The URL -/

/-- `struct issue_report`, of texts or of what belongs to them. -/
structure IssueReport (α : Type) where
  monitorName : α
  pnpId : α
  device : α
  ddccontrolVersion : α
  fallbackProfile : α

/-- `base`. -/
def issueBase : List UInt8 :=
  utf8 "https://github.com/ddccontrol/ddccontrol-db/issues/new?template=unsupported-monitor.yml"

/-- A string, or the empty one for a null pointer. -/
def orEmpty (s : Block UInt8) : Block UInt8 := if s.isNone then .written [0] else s

/-- `snprintf`, of a text that is known. -/
def snprintf (out : Block UInt8) (size : ℕ) (text : List UInt8) : Option (Block UInt8) :=
  if size = 0 then some out else Block.stores 0 (text.take (size - 1) ++ [0]) out

/-- `build_issue_url`, with which fields and whether the URL can be allocated. -/
def buildIssueUrl (allocated : IssueReport Bool) (urlAllocated : Bool) (report : IssueReport (Block UInt8)) :
    Option (Block UInt8) := do
  let encName ← urlEncode allocated.monitorName (orEmpty report.monitorName)
  let encPnp ← urlEncode allocated.pnpId (orEmpty report.pnpId)
  let encDev ← urlEncode allocated.device (orEmpty report.device)
  let encVer ← urlEncode allocated.ddccontrolVersion (orEmpty report.ddccontrolVersion)
  let encFallback ← urlEncode allocated.fallbackProfile (orEmpty report.fallbackProfile)
  if encName.isNone || encPnp.isNone || encDev.isNone || encVer.isNone || encFallback.isNone then return none
  else do
    let name ← encName.upTo (· = 0) 0
    let pnp ← encPnp.upTo (· = 0) 0
    let dev ← encDev.upTo (· = 0) 0
    let ver ← encVer.upTo (· = 0) 0
    let fallback ← encFallback.upTo (· = 0) 0
    let len := issueBase.length +
      (utf8 "&monitor_name=").length + name.length +
      (utf8 "&pnp_id=").length + pnp.length +
      (utf8 "&device=").length + dev.length +
      (utf8 "&ddccontrol_version=").length + ver.length +
      (utf8 "&fallback_profile=").length + fallback.length +
      1
    let url : Block UInt8 := .malloc urlAllocated len
    if url.isNone then return none
    else snprintf url len (issueBase ++ utf8 "&monitor_name=" ++ name ++ utf8 "&pnp_id=" ++ pnp ++ utf8 "&device=" ++ dev ++
      utf8 "&ddccontrol_version=" ++ ver ++ utf8 "&fallback_profile=" ++ fallback)

/-! ### What a field becomes -/

theorem length_escape (c : UInt8) : (escape c).length = 3 := rfl

theorem encodedLen_eq (s : List UInt8) : encodedLen s = (encode isKept s).length := by
  have hfold : ∀ n, s.foldl (fun len c => if isKept c then len + 1 else len + 3) n =
      n + (encode isKept s).length := by
    induction s with
    | nil => exact fun n => rfl
    | cons c s ih =>
      intro n
      rw [List.foldl_cons, ih, encode_cons, List.length_append, encodeByte]
      split_ifs
      · rw [List.length_singleton]
        omega
      · rw [length_escape]
        omega
  exact (hfold 0).trans (Nat.zero_add _)

/-- What a byte writes; the NUL after an escape is in the room of what comes next. -/
theorem urlEncodeByte_eq (front : List UInt8) {c : UInt8} {room : List (Option UInt8)} {n : ℕ}
    (h : room.length = (encodeByte isKept c).length + (n + 1)) :
    ∃ left, left.length = n + 1 ∧ urlEncodeByte (some (front.map some ++ room), front.length) c =
      some (some ((front ++ encodeByte isKept c).map some ++ left), (front ++ encodeByte isKept c).length) := by
  have hfront : front.length = (front.map some).length := (List.length_map _).symm
  unfold encodeByte at h ⊢
  unfold urlEncodeByte
  dsimp only
  split_ifs at h ⊢ with hkept
  · obtain ⟨b, left, rfl⟩ := List.exists_cons_of_length_eq_add_one (h.trans (Nat.add_comm _ _))
    refine ⟨left, Nat.succ.inj (h.trans (Nat.add_comm _ _)), ?_⟩
    rw [hfront, Block.store_append]
    simp
  · have hroom : (room.take 4).length = (escape c ++ [0]).length := by
      rw [List.length_take, h]
      exact Nat.min_eq_left (by rw [length_escape]; omega)
    refine ⟨some 0 :: room.drop 4, by rw [List.length_cons, List.length_drop, h, length_escape]; omega, ?_⟩
    have hstores := Block.stores_append (front.map some) (room.drop 4) hroom
    rw [List.take_append_drop] at hstores
    rw [hfront, hstores]
    simp [length_escape]

/-- The second pass fills the room that the first has counted. -/
theorem urlEncodeByte_foldlM (front : List UInt8) {s : List UInt8} {room : List (Option UInt8)}
    (h : room.length = (encode isKept s).length + 1) :
    ∃ last, s.foldlM urlEncodeByte (some (front.map some ++ room), front.length) =
      some (some ((front ++ encode isKept s).map some ++ [last]), (front ++ encode isKept s).length) := by
  induction s generalizing front room with
  | nil =>
    obtain ⟨last, rfl⟩ := List.length_eq_one_iff.mp h
    exact ⟨last, by rw [encode, List.flatMap_nil, List.append_nil]; rfl⟩
  | cons c s ih =>
    rw [encode_cons, List.length_append, Nat.add_assoc] at h
    obtain ⟨left, hleft, hbyte⟩ := urlEncodeByte_eq front h
    obtain ⟨last, hrest⟩ := ih (front ++ encodeByte isKept c) hleft
    refine ⟨last, ?_⟩
    rw [List.foldlM_cons, hbyte, Option.bind_eq_bind, Option.bind_some, hrest, encode_cons,
      List.append_assoc]

/-- **The block of a field has room for its escapes and a NUL, and for no more.** -/
theorem urlEncode_eq {block : Block UInt8} {s : List UInt8} (h : block.upTo (· = 0) 0 = some s)
    (allocated : Bool) :
    urlEncode allocated block = some (if allocated then Block.written (encode isKept s ++ [0]) else none) := by
  have hnull : block.isNone = false := by
    cases block with
    | none => cases h
    | some elements => rfl
  rw [urlEncode, hnull, if_neg Bool.false_ne_true, h, Option.bind_eq_bind, Option.bind_some]
  cases allocated with
  | false => rfl
  | true =>
    have hroom : (List.replicate (encodedLen s + 1) (none : Option UInt8)).length =
        (encode isKept s).length + 1 := by
      rw [List.length_replicate, encodedLen_eq]
    obtain ⟨last, hfold⟩ := urlEncodeByte_foldlM [] hroom
    change s.foldlM urlEncodeByte (some (List.replicate _ none), 0) = _ at hfold
    change (s.foldlM urlEncodeByte (some (List.replicate _ none), 0)).bind _ = _
    have hstore := Block.store_append ((encode isKept s).map some) [] last (0 : UInt8)
    rw [List.length_map] at hstore
    rw [hfold, Option.bind_some]
    exact hstore.trans (by simp [Block.written])

example : urlEncode true (.written (utf8 "100%" ++ [0])) = some (.written (utf8 "100%25" ++ [0])) := by decide

/-! ### What the URL becomes -/

/-- The pairs that the form gets. -/
def IssueReport.parameters (texts : IssueReport (List UInt8)) : List (List UInt8 × List UInt8) :=
  [(utf8 "monitor_name", texts.monitorName), (utf8 "pnp_id", texts.pnpId), (utf8 "device", texts.device),
    (utf8 "ddccontrol_version", texts.ddccontrolVersion), (utf8 "fallback_profile", texts.fallbackProfile)]

/-- The texts of a report can be read; a null pointer is an empty text. -/
structure IssueReport.Reads (report : IssueReport (Block UInt8)) (texts : IssueReport (List UInt8)) : Prop where
  monitorName : (orEmpty report.monitorName).upTo (· = 0) 0 = some texts.monitorName
  pnpId : (orEmpty report.pnpId).upTo (· = 0) 0 = some texts.pnpId
  device : (orEmpty report.device).upTo (· = 0) 0 = some texts.device
  ddccontrolVersion : (orEmpty report.ddccontrolVersion).upTo (· = 0) 0 = some texts.ddccontrolVersion
  fallbackProfile : (orEmpty report.fallbackProfile).upTo (· = 0) 0 = some texts.fallbackProfile

/-- Everything could be allocated. -/
def IssueReport.all (allocated : IssueReport Bool) : Bool :=
  allocated.monitorName && allocated.pnpId && allocated.device && allocated.ddccontrolVersion && allocated.fallbackProfile

/-- The URL of a report. -/
def issueUrl (texts : IssueReport (List UInt8)) : List UInt8 := issueBase ++ ampersand :: query isKept texts.parameters

theorem encode_nulFree (s : List UInt8) : 0 ∉ encode isKept s :=
  (encode_encoded s).not_mem (by decide) (by decide) (by decide)

/-- A text without NUL is read back, to the NUL after it. -/
theorem upTo_nul {s : List UInt8} (h : 0 ∉ s) :
    (Block.written (s ++ [0])).upTo (· = 0) 0 = some s := by
  have hall : ∀ b ∈ s, decide (b = 0) = false := fun b hb =>
    decide_eq_false (ne_of_mem_of_not_mem hb h)
  rw [Block.written, List.map_append]
  exact Block.upTo_go hall rfl []

theorem upTo_encode (s : List UInt8) :
    (Block.written (encode isKept s ++ [0])).upTo (· = 0) 0 = some (encode isKept s) :=
      upTo_nul (encode_nulFree s)

theorem snprintf_eq (text : List UInt8) :
    snprintf (.malloc true (text.length + 1)) (text.length + 1) text =
      some (.written (text ++ [0])) := by
  have hroom : (List.replicate (text.length + 1) (none : Option UInt8)).length = (text ++ [0]).length := by simp
  have hstores := Block.stores_append [] [] hroom
  rw [List.append_nil, List.append_nil, List.nil_append, List.nil_append] at hstores
  rw [snprintf, if_neg (Nat.succ_ne_zero _), Nat.add_sub_cancel, List.take_length]
  exact hstores

/-- What is printed is the URL. -/
theorem issueUrl_eq (texts : IssueReport (List UInt8)) :
    issueBase ++ utf8 "&monitor_name=" ++ encode isKept texts.monitorName ++
      utf8 "&pnp_id=" ++ encode isKept texts.pnpId ++ utf8 "&device=" ++ encode isKept texts.device ++
      utf8 "&ddccontrol_version=" ++ encode isKept texts.ddccontrolVersion ++
      utf8 "&fallback_profile=" ++ encode isKept texts.fallbackProfile = issueUrl texts := by
  have hname : utf8 "&monitor_name=" = ampersand :: (encode isKept (utf8 "monitor_name") ++ [equals]) := by decide
  have hpnp : utf8 "&pnp_id=" = ampersand :: (encode isKept (utf8 "pnp_id") ++ [equals]) := by decide
  have hdev : utf8 "&device=" = ampersand :: (encode isKept (utf8 "device") ++ [equals]) := by decide
  have hver : utf8 "&ddccontrol_version=" =
      ampersand :: (encode isKept (utf8 "ddccontrol_version") ++ [equals]) := by
    decide
  have hfallback : utf8 "&fallback_profile=" =
      ampersand :: (encode isKept (utf8 "fallback_profile") ++ [equals]) := by
    decide
  rw [hname, hpnp, hdev, hver, hfallback]
  simp [issueUrl, query, IssueReport.parameters, writePair, List.intercalate]

/-- **The block of the URL has room for it and a NUL, and for no more.** -/
theorem buildIssueUrl_eq {report : IssueReport (Block UInt8)} {texts : IssueReport (List UInt8)}
    (h : report.Reads texts) (allocated : IssueReport Bool) (urlAllocated : Bool) :
    buildIssueUrl allocated urlAllocated report =
      some (if allocated.all && urlAllocated then Block.written (issueUrl texts ++ [0]) else none) := by
  have hwritten : ∀ allocated e,
      (if allocated then Block.written (e ++ [0]) else none : Block UInt8).isNone = !allocated := by
    rintro (_ | _) e <;> rfl
  rw [buildIssueUrl, urlEncode_eq h.monitorName, Option.bind_eq_bind, Option.bind_some,
    urlEncode_eq h.pnpId, Option.bind_some, urlEncode_eq h.device, Option.bind_some,
    urlEncode_eq h.ddccontrolVersion, Option.bind_some,
    urlEncode_eq h.fallbackProfile, Option.bind_some]
  simp only [hwritten, ← Bool.not_and, Bool.not_eq_true']
  by_cases hall : allocated.all = true
  case neg =>
    have hfailed : allocated.all = false := by simpa using hall
    rw [hfailed, Bool.false_and, if_neg Bool.false_ne_true]
    exact if_pos hfailed
  have hlen : issueBase.length + (utf8 "&monitor_name=").length + (encode isKept texts.monitorName).length +
      (utf8 "&pnp_id=").length + (encode isKept texts.pnpId).length +
      (utf8 "&device=").length + (encode isKept texts.device).length +
      (utf8 "&ddccontrol_version=").length + (encode isKept texts.ddccontrolVersion).length +
      (utf8 "&fallback_profile=").length + (encode isKept texts.fallbackProfile).length =
        (issueUrl texts).length := by
    rw [← issueUrl_eq]
    simp only [List.length_append]
  obtain ⟨hfields, hfallback⟩ := (Bool.and_eq_true ..).mp hall
  obtain ⟨hfields, hver⟩ := (Bool.and_eq_true ..).mp hfields
  obtain ⟨hfields, hdev⟩ := (Bool.and_eq_true ..).mp hfields
  obtain ⟨hname, hpnp⟩ := (Bool.and_eq_true ..).mp hfields
  rw [hall, Bool.true_and, hname, hpnp, hdev, hver, hfallback, if_neg (by decide)]
  simp only [if_true, upTo_encode, Option.bind_eq_bind, Option.bind_some, hlen, issueUrl_eq]
  cases urlAllocated with
  | false => rfl
  | true => exact snprintf_eq (issueUrl texts)

/-! ### What the form gets -/

/-- The keys are written as they are. -/
theorem encode_key (texts : IssueReport (List UInt8)) :
    ∀ pair ∈ texts.parameters, encode isKept pair.1 = pair.1 := by
  have hkept : ∀ key : List UInt8, key.all isKept = true → encode isKept key = key := fun key h =>
    encode_of_kept (List.all_eq_true.mp h)
  simp only [IssueReport.parameters, List.forall_mem_cons]
  refine ⟨hkept _ ?_, hkept _ ?_, hkept _ ?_, hkept _ ?_, hkept _ ?_, nofun⟩ <;> decide

theorem issueBase_eq : issueBase = utf8 "https://github.com/ddccontrol/ddccontrol-db/issues/new" ++
    '?'.toUInt8 :: writePair isKept (utf8 "template", utf8 "unsupported-monitor.yml") := by
  decide +kernel

/-- The query of the URL has the template first. -/
theorem queryOf_issueUrl (texts : IssueReport (List UInt8)) : queryOf (issueUrl texts) =
    query isKept ((utf8 "template", utf8 "unsupported-monitor.yml") :: texts.parameters) := by
  have hquery : issueUrl texts = utf8 "https://github.com/ddccontrol/ddccontrol-db/issues/new" ++
      '?'.toUInt8 :: query isKept ((utf8 "template", utf8 "unsupported-monitor.yml") :: texts.parameters) := by
    rw [issueUrl, issueBase_eq]
    simp [query, IssueReport.parameters, List.intercalate_cons_cons]
  rw [hquery]
  exact queryOf_append (by decide +kernel) (not_mem_query (by decide) (by decide) (by decide))

/-- **The form gets what the report holds, and nothing else.** -/
theorem buildIssueUrl_intact {report : IssueReport (Block UInt8)} {texts : IssueReport (List UInt8)}
    (h : report.Reads texts) : ∃ url rest,
      (∀ allocated urlAllocated, buildIssueUrl allocated urlAllocated report =
        some (if allocated.all && urlAllocated then Block.written (url ++ [0]) else none)) ∧
      0 ∉ url ∧
      url = issueBase ++ ampersand :: rest ∧
      List.Forall₂ (fun pair field => ∃ e, field = pair.1 ++ equals :: e ∧ Encoded isKept e ∧ decode e = pair.2)
        texts.parameters (rest.splitOn ampersand) ∧
      parameters rest = texts.parameters ∧
      parameters (queryOf url) = (utf8 "template", utf8 "unsupported-monitor.yml") :: texts.parameters := by
  have hne : texts.parameters ≠ [] := List.cons_ne_nil _ _
  refine ⟨issueUrl texts, query isKept texts.parameters, buildIssueUrl_eq h, ?_, rfl, ?_,
    parameters_query (by decide) (by decide) (by decide) hne, ?_⟩
  · simp only [issueUrl, List.mem_append, List.mem_cons, not_or]
    exact ⟨by decide +kernel, by decide, not_mem_query (by decide) (by decide) (by decide)⟩
  · rw [splitOn_query (by decide) hne, List.forall₂_map_right_iff, List.forall₂_same]
    intro pair hpair
    refine ⟨encode isKept pair.2, ?_, encode_encoded pair.2, decode_encode (by decide) pair.2⟩
    rw [writePair, encode_key texts pair hpair]
  · rw [queryOf_issueUrl, parameters_query (by decide) (by decide) (by decide) (List.cons_ne_nil _ _)]

/-- A name that would override the device, and fields that are not given. -/
theorem buildIssueUrl_intact_override : ∃ url rest,
    buildIssueUrl ⟨true, true, true, true, true⟩ true
      ⟨.written (utf8 "&device=x" ++ [0]), none, .written (utf8 "dev:/dev/i2c-4" ++ [0]), none, none⟩ =
        some (Block.written (url ++ [0])) ∧
      url = issueBase ++ ampersand :: rest ∧
      parameters rest = [(utf8 "monitor_name", utf8 "&device=x"), (utf8 "pnp_id", []),
        (utf8 "device", utf8 "dev:/dev/i2c-4"), (utf8 "ddccontrol_version", []), (utf8 "fallback_profile", [])] := by
  have hreads : IssueReport.Reads
      ⟨.written (utf8 "&device=x" ++ [0]), none, .written (utf8 "dev:/dev/i2c-4" ++ [0]),
        none, none⟩
      ⟨utf8 "&device=x", [], utf8 "dev:/dev/i2c-4", [], []⟩ := by
    constructor <;> decide
  obtain ⟨url, rest, hbuild, -, hurl, -, hparameters, -⟩ := buildIssueUrl_intact hreads
  exact ⟨url, rest, hbuild _ true, hurl, hparameters⟩

end DdcControl.Command
