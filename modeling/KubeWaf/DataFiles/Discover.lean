import KubeWaf.DataFiles.Lists
import KubeWaf.Lib.ExceptLemmas
import Mathlib

/-!
# Resolving the data files of a WAF

`DiscoverAndResolvePhraseFiles` of `internal/dataplane/config/phrasefiles.go`: the basenames that
the directives reference are resolved one after the other, from the stock CRS pack or from a
Ready list, and the bodies are injected next to the directives. The main result is the closure of
what it publishes (`discover_closed`): the directives reference nothing that is not injected.
-/

namespace KubeWaf.DataFiles

open Lib List

variable {crs : CrsData} {ns : Namespace} {res : PhraseFilesResult} {directives : List (List Char)}
  {waf : WafFiles}

/-- `MaxPhraseFilesRawBytes`, 2 MiB. -/
def maxPhraseFilesRawBytes : ℕ := 2 * 1024 * 1024

/-- The stock CRS pack, `internal/coraza/crsdata`. -/
structure CrsData where
  isKnown : List Char → Bool
  read : List Char → Except String Bytes

/-- The fields of a WAF that the resolution reads. -/
structure WafFiles where
  ns : String
  phraseListPolicy : String
  deriving DecidableEq

/-- The lists that a resolved RuleSet refers to by name. -/
structure RuleSetLists where
  phraseListRefs : List String := []
  ipListRefs : List String := []
  deriving DecidableEq

/-- A refusal: the reason and the message of the condition. -/
structure Refusal where
  reason : String
  message : String
  deriving DecidableEq

structure PhraseFilesResult where
  files : List (List Char × Bytes) := []
  directives : List (List Char)
  droppedBasenames : List (List Char) := []
  overrideCRSCount : ℕ := 0
  rawBytes : ℕ := 0
  contentHash : String := ""
  conditionReason : String := "PhraseListsResolved"
  conditionMessage : String := "no phrase files to inject"
  ready : Bool := true
  error : Option String := none
  deriving DecidableEq

/-- A result that refuses to publish. -/
def PhraseFilesResult.refuse (res : PhraseFilesResult) (r : Refusal) : PhraseFilesResult :=
  { res with
    ready := false, error := some r.message, conditionReason := r.reason,
    conditionMessage := r.message }

/-! ## References by name -/

/-- `collectRuleSetLocalRefs`: the names that are not empty. Go visits the set in some order. -/
def collectRuleSetLocalRefs (field : RuleSetLists → List String) (resolved : List RuleSetLists) :
    List String :=
  ((resolved.flatMap field).filter (· ≠ "")).dedup

/-- `checkPhraseListRefs` and `checkIPListRefs`; `none` is success. -/
def checkListRefs (field kind : String) (lists : List DataList) (names : List String) :
    Option String :=
  names.findSome? fun name =>
    match lists.find? (·.name = name) with
    | none => some (field ++ " " ++ Go.quoted name ++ ": " ++ Go.quoted name ++ " not found")
    | some l =>
      if l.ready then none
      else some (field ++ " " ++ Go.quoted name ++ ": " ++ kind ++ " is not Ready")

/-- Both checks, in the order of the source. -/
def checkRefs (ns : Namespace) (resolved : List RuleSetLists) : Option Refusal :=
  match checkListRefs "phraseListRefs" "PhraseList" ns.phraseLists
      (collectRuleSetLocalRefs (·.phraseListRefs) resolved) with
  | some e => some ⟨"PhraseListRefNotReady", e⟩
  | none =>
    (checkListRefs "ipListRefs" "IPList" ns.ipLists
      (collectRuleSetLocalRefs (·.ipListRefs) resolved)).map fun e => ⟨"IPListRefNotReady", e⟩

/-! ## One basename -/

def labelCRSData : String := "seclang.kubewaf.io/crs-data"
def annotationAllowCRSOverride : String := "seclang.kubewaf.io/allow-crs-override"

/-- A list of the stock pack. -/
def isStockPack (l : DataList) : Bool := l.labels.lookup labelCRSData = some "true"

def allowOverride (l : DataList) : Bool :=
  l.annotations.lookup annotationAllowCRSOverride = some "true"

def crsOverrideNotAllowed (l : DataList) (base : List Char) : String :=
  "CRSOverrideNotAllowed: PhraseList " ++ Go.quoted l.name
    ++ " would override stock CRS basename " ++ Go.quoted (String.ofList base)
    ++ "; use a pack PhraseList (label " ++ labelCRSData ++ "=true) or set annotation "
    ++ annotationAllowCRSOverride ++ "=true"

/-- A stock basename: a list of the pack or one that may override it, else the embedded file.
The flag says that the body overrides the pack. -/
def resolveStock (crs : CrsData) (ns : Namespace) (base : List Char) :
    Except Refusal (Bytes × Bool) :=
  match lookupReadyPhraseList ns base with
  | .error e => .error ⟨"PhraseListLookupFailed", e⟩
  | .ok (some l) =>
    if !isStockPack l && !allowOverride l then
      .error ⟨"CRSOverrideNotAllowed", crsOverrideNotAllowed l base⟩
    else
      match resolvePhraseListBody ns l with
      | .error e => .error ⟨"PhraseListBodyFailed", e⟩
      | .ok body => .ok (body, !isStockPack l)
  | .ok none =>
    let missing (err : String) : Refusal :=
      ⟨"CRSDataPackMissing", "stock CRS data file " ++ Go.quoted (String.ofList base)
        ++ " missing from operator pack: " ++ err⟩
    match crs.read base with
    | .error e => .error (missing e)
    | .ok [] => .error (missing "<nil>")
    | .ok (b :: body) => .ok (b :: body, false)

/-- A custom basename; `none` where no Ready list has it. -/
def resolveCustom (ns : Namespace) (base : List Char) : Except Refusal (Option Bytes) :=
  match lookupReadyDataFileBody ns base with
  | .error e => .error ⟨"DataFileLookupFailed", e⟩
  | .ok found => .ok (found.map (·.1))

/-- What the loop over the basenames has gathered. -/
structure Gathered where
  files : List (List Char × Bytes) := []
  missingCustom : List (List Char) := []
  overrideCRSCount : ℕ := 0

/-- The loop over the basenames. It stops at the first refusal. -/
def gather (crs : CrsData) (ns : Namespace) : List (List Char) → Gathered →
    Gathered × Option Refusal
  | [], g => (g, none)
  | base :: bases, g =>
    if crs.isKnown base then
      match resolveStock crs ns base with
      | .error r => (g, some r)
      | .ok (body, isOverride) =>
        gather crs ns bases
          { g with
            files := g.files ++ [(base, body)]
            overrideCRSCount := g.overrideCRSCount + if isOverride then 1 else 0 }
    else
      match resolveCustom ns base with
      | .error r => (g, some r)
      | .ok (some body) => gather crs ns bases { g with files := g.files ++ [(base, body)] }
      | .ok none => gather crs ns bases { g with missingCustom := g.missingCustom ++ [base] }

/-! ## The whole resolution -/

/-- The size of the bodies. -/
def rawSize (files : List (List Char × Bytes)) : ℕ := (files.map (·.2.length)).sum

section
-- the SHA-256 of some bytes, in hexadecimal
variable (sha256Hex : Bytes → String)

def hashPhraseFiles (files : List (List Char × Bytes)) : String :=
  if files = [] then ""
  else
    sha256Hex ((files.insertionSort fun a b => a.1 ≤ b.1).flatMap fun f =>
      (String.ofList f.1).toUTF8.toList ++ 0 :: f.2 ++ [0])

/-- The last part: the budget, the hash and the message. -/
def PhraseFilesResult.finish (res : PhraseFilesResult) : PhraseFilesResult :=
  let raw := rawSize res.files
  if maxPhraseFilesRawBytes < raw then
    { ({ res with rawBytes := raw } : PhraseFilesResult).refuse
        ⟨"PhraseFilesTooLarge", "PhraseFilesTooLarge: injected raw size " ++ toString raw
          ++ " exceeds " ++ toString maxPhraseFilesRawBytes⟩ with files := [] }
  else
    { res with
      rawBytes := raw
      contentHash := hashPhraseFiles sha256Hex res.files
      conditionMessage :=
        if res.conditionReason = "PhraseListsResolved" then
          "injected " ++ toString res.files.length ++ " data files (" ++ toString raw ++ " bytes)"
        else res.conditionMessage }

/-- What becomes of the custom basenames that no list has. -/
def PhraseFilesResult.settleMissing (res : PhraseFilesResult) (waf : WafFiles)
    (missing : List (List Char)) : PhraseFilesResult :=
  match missing with
  | [] => res.finish sha256Hex
  | base :: _ =>
    if waf.phraseListPolicy = "IgnoreUnknown" then
      ({ res with
          droppedBasenames := missing
          directives := dropSecLangLinesWithBasenames res.directives missing
          conditionReason := "IgnoredUnknownPhraseLists"
          conditionMessage := "dropped SecLang lines referencing unresolved basenames: "
            ++ ", ".intercalate (missing.map String.ofList) } : PhraseFilesResult).finish sha256Hex
    else
      res.refuse ⟨"DataFileNotFound", "DataFileNotFound: basename "
        ++ Go.quoted (String.ofList base) ++ " is not a stock CRS data file and no Ready PhraseList "
        ++ "or IPList was found in namespace " ++ Go.quoted waf.ns⟩

/-- The part behind the scan, for the basenames that it has found. -/
def resolveBasenames (crs : CrsData) (ns : Namespace) (waf : WafFiles)
    (directives bases : List (List Char)) : PhraseFilesResult :=
  let g := gather crs ns bases {}
  let res : PhraseFilesResult :=
    { directives := directives, files := g.1.files, overrideCRSCount := g.1.overrideCRSCount }
  match g.2 with
  | some r => res.refuse r
  | none => res.settleMissing sha256Hex waf g.1.missingCustom

/-- The part behind the check for a nil WAF. -/
def discoverFor (crs : CrsData) (ns : Namespace) (waf : WafFiles) (directives : List (List Char))
    (resolved : List RuleSetLists) : PhraseFilesResult :=
  match checkRefs ns resolved with
  | some r => ({ directives := directives } : PhraseFilesResult).refuse r
  | none =>
    if scanPmFromFileBasenames directives = [] then
      { directives := directives
        conditionMessage := "no @pmFromFile/@ipMatchFromFile basenames in assembled SecLang" }
    else resolveBasenames sha256Hex crs ns waf directives (scanPmFromFileBasenames directives)

/-- `DiscoverAndResolvePhraseFiles`, with `cluster` for the namespaces that the client reads. -/
def discoverAndResolvePhraseFiles (crs : CrsData) (cluster : String → Namespace)
    (waf : Option WafFiles) (directives : List (List Char)) (resolved : List RuleSetLists) :
    PhraseFilesResult :=
  match waf with
  | none => { directives := directives, ready := false, error := some "waf is nil" }
  | some waf => discoverFor sha256Hex crs (cluster waf.ns) waf directives resolved

end

/-! ## Closure -/

/-- The basenames that have a body. -/
def fileNames (files : List (List Char × Bytes)) : List (List Char) := files.map (·.1)

lemma gather_complete {bases : List (List Char)} {g g' : Gathered}
    (h : gather crs ns bases g = (g', none)) {base : List Char}
    (hbase : base ∈ bases ∨ base ∈ fileNames g.files ∨ base ∈ g.missingCustom) :
    base ∈ fileNames g'.files ∨ base ∈ g'.missingCustom := by
  induction bases generalizing g with
  | nil =>
    rw [gather, Prod.mk.injEq] at h
    rw [← h.1]
    exact hbase.resolve_left not_mem_nil
  | cons b bases ih =>
    -- a body for `b` joins the files, and nothing leaves them
    have hadd : ∀ body : Bytes,
        base ∈ bases ∨ base ∈ fileNames (g.files ++ [(b, body)]) ∨ base ∈ g.missingCustom := by
      intro body
      rw [fileNames, map_append, mem_append]
      rcases hbase with hb | hb | hb
      · rcases mem_cons.mp hb with rfl | hb
        · exact Or.inr (Or.inl (Or.inr mem_cons_self))
        · exact Or.inl hb
      · exact Or.inr (Or.inl (Or.inl hb))
      · exact Or.inr (Or.inr hb)
    rw [gather] at h
    by_cases hknown : crs.isKnown b
    · rw [if_pos hknown] at h
      cases hres : resolveStock crs ns b with
      | error r =>
        rw [hres] at h
        exact absurd (congrArg Prod.snd h) (Option.some_ne_none _)
      | ok r =>
        rw [hres] at h
        exact ih h (hadd r.1)
    · rw [if_neg hknown] at h
      cases hres : resolveCustom ns b with
      | error r =>
        rw [hres] at h
        exact absurd (congrArg Prod.snd h) (Option.some_ne_none _)
      | ok found =>
        rw [hres] at h
        cases found with
        | some body => exact ih h (hadd body)
        | none =>
          refine ih h ?_
          rw [mem_append]
          rcases hbase with hb | hb | hb
          · rcases mem_cons.mp hb with rfl | hb
            · exact Or.inr (Or.inr (Or.inr mem_cons_self))
            · exact Or.inl hb
          · exact Or.inr (Or.inl hb)
          · exact Or.inr (Or.inr (Or.inl hb))

/-- What a result publishes is closed: what the scan finds in its directives has a body, and the
bodies fit the budget. -/
def PhraseFilesResult.Closed (res : PhraseFilesResult) : Prop :=
  (∀ base ∈ scanPmFromFileBasenames res.directives, base ∈ fileNames res.files)
    ∧ rawSize res.files ≤ maxPhraseFilesRawBytes

lemma finish_closed (sha256Hex : Bytes → String)
    (hfiles : ∀ base ∈ scanPmFromFileBasenames res.directives, base ∈ fileNames res.files)
    (h : (res.finish sha256Hex).ready = true) : (res.finish sha256Hex).Closed := by
  rw [PhraseFilesResult.finish] at h ⊢
  by_cases hraw : maxPhraseFilesRawBytes < rawSize res.files
  · simp only [if_pos hraw] at h
    exact absurd h Bool.false_ne_true
  · simp only [if_neg hraw]
    exact ⟨hfiles, not_lt.mp hraw⟩

lemma settleMissing_closed (sha256Hex : Bytes → String) {missing : List (List Char)}
    (hfiles : ∀ base ∈ scanPmFromFileBasenames res.directives,
      base ∈ fileNames res.files ∨ base ∈ missing)
    (h : (res.settleMissing sha256Hex waf missing).ready = true) :
    (res.settleMissing sha256Hex waf missing).Closed := by
  cases missing with
  | nil =>
    exact finish_closed sha256Hex
      (fun base hbase => (hfiles base hbase).resolve_right not_mem_nil) h
  | cons b missing =>
    rw [PhraseFilesResult.settleMissing] at h ⊢
    by_cases hpolicy : waf.phraseListPolicy = "IgnoreUnknown"
    · rw [if_pos hpolicy] at h ⊢
      refine finish_closed sha256Hex (fun base hbase => ?_) h
      -- the drop has removed each directive that references a missing basename
      obtain ⟨hscan, hkept⟩ : base ∈ scanPmFromFileBasenames res.directives ∧ base ∉ b :: missing :=
        scan_of_drop hbase
      exact (hfiles base hscan).resolve_right hkept
    · rw [if_neg hpolicy] at h
      exact absurd h Bool.false_ne_true

lemma resolveBasenames_closed (sha256Hex : Bytes → String)
    (h : (resolveBasenames sha256Hex crs ns waf directives
      (scanPmFromFileBasenames directives)).ready = true) :
    (resolveBasenames sha256Hex crs ns waf directives
      (scanPmFromFileBasenames directives)).Closed := by
  rw [resolveBasenames] at h ⊢
  cases hgather : gather crs ns (scanPmFromFileBasenames directives) {} with
  | mk g refusal =>
    rw [hgather] at h
    cases refusal with
    | some r => exact absurd h Bool.false_ne_true
    | none =>
      exact settleMissing_closed sha256Hex
        (fun base hbase => gather_complete hgather (Or.inl hbase)) h

lemma discoverFor_closed (sha256Hex : Bytes → String) {resolved : List RuleSetLists}
    (h : (discoverFor sha256Hex crs ns waf directives resolved).ready = true) :
    (discoverFor sha256Hex crs ns waf directives resolved).Closed := by
  rw [discoverFor] at h ⊢
  cases hrefs : checkRefs ns resolved with
  | some r =>
    rw [hrefs] at h
    exact absurd h Bool.false_ne_true
  | none =>
    rw [hrefs] at h
    by_cases hscan : scanPmFromFileBasenames directives = []
    · simp only [if_pos hscan]
      refine ⟨fun base hbase => ?_, Nat.zero_le _⟩
      rw [hscan] at hbase
      exact absurd hbase not_mem_nil
    · simp only [if_neg hscan] at h ⊢
      exact resolveBasenames_closed sha256Hex h

/-- Whatever the WAF, its directives and the cluster: a resolution that is Ready and without an
error has a body for each basename that its directives reference, within 2 MiB. -/
theorem discover_closed (sha256Hex : Bytes → String) (crs : CrsData)
    (cluster : String → Namespace) (waf : Option WafFiles) (directives : List (List Char))
    (resolved : List RuleSetLists)
    (hready : (discoverAndResolvePhraseFiles sha256Hex crs cluster waf directives
      resolved).ready = true)
    (_herror : (discoverAndResolvePhraseFiles sha256Hex crs cluster waf directives
      resolved).error = none) :
    (discoverAndResolvePhraseFiles sha256Hex crs cluster waf directives resolved).Closed := by
  cases waf with
  | none => exact absurd hready Bool.false_ne_true
  | some waf => exact discoverFor_closed sha256Hex hready

/-- A resolution that drops one directive and has a body for the other. -/
theorem discover_closed_bots :
    let crs : CrsData := ⟨fun _ => false, fun _ => .error "file does not exist"⟩
    let ns : Namespace :=
      { name := "prod"
        phraseLists :=
          [{ name := "bots", fileName := "bots.data".toList, ready := true, content := [98, 111] }] }
    let directives :=
      ["SecRule REQUEST_HEADERS \"@pmFromFile bots.data\" \"id:1,deny\"".toList,
        "# blocked\nSecRule REMOTE_ADDR \"@ipMatchF gone.data\" \"id:2,deny\"".toList]
    let res := discoverAndResolvePhraseFiles (fun _ => "") crs (fun _ => ns)
      (some ⟨"prod", "IgnoreUnknown"⟩) directives []
    res.directives = directives.take 1 ∧ res.Closed := by
  refine ⟨by decide +kernel, discover_closed _ _ _ _ _ _ (by decide +kernel) (by decide +kernel)⟩

end KubeWaf.DataFiles
