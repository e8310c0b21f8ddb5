import KubeWaf.Dataplane.Directives
import KubeWaf.DataFiles.FromFile
import KubeWaf.References.Assembly

/-!
# The document of a probe

`internal/probeassemble`: the resolved rules of a RuleSet or WAF as one SecLang document for the
probe's engine. The package does not import the dataplane; it has its own sort, its own
application of the assigned ids and its own renderers of the CRS tuning. The sort keys, the
comparison and `ApplyAssignedIDs` are copies of those of `internal/references2` and
`internal/seclang`, so the models of the latter stand for both.
-/

namespace KubeWaf.Probe

open Lib Seclang References

/-! ## CRS tuning -/

structure CRSUpdateTarget where
  id : Int
  removeTargets : List String
  deriving DecidableEq

/-- `CRSTuning` of the probe. -/
structure CRSTuning where
  paranoiaLevel : Option Int
  inboundAnomalyThreshold : Option Int
  outboundAnomalyThreshold : Option Int
  removeByID : List Int
  removeByTag : List String
  updateTargetByID : List CRSUpdateTarget
  deriving DecidableEq

def crsTuningFromWAF (t : Option Dataplane.CRSTuning) : Option CRSTuning :=
  t.map fun t =>
    { paranoiaLevel := t.paranoiaLevel
      inboundAnomalyThreshold := t.inboundAnomalyThreshold
      outboundAnomalyThreshold := t.outboundAnomalyThreshold
      removeByID := t.removeByID
      removeByTag := t.removeByTag
      updateTargetByID := t.updateTargetByID.map fun te => ⟨te.id, te.removeTargets⟩ }

def crsSetupVersionStamp : ℕ := 427

def stampOnly900990 : String := Dataplane.setupAction crsSetupVersionStamp none none none

def crsSetupActions (crs : Option CRSTuning) : List String :=
  match crs with
  | none => []
  | some crs =>
    [Dataplane.setupAction crsSetupVersionStamp crs.paranoiaLevel crs.inboundAnomalyThreshold
      crs.outboundAnomalyThreshold]

def crsExclusions (crs : Option CRSTuning) : List String :=
  match crs with
  | none => []
  | some crs =>
    crs.removeByID.map Dataplane.removeByIDDirective
      ++ crs.removeByTag.map Dataplane.removeByTagDirective
      ++ crs.updateTargetByID.filterMap fun te =>
        Dataplane.updateTargetDirective te.id te.removeTargets

/-! ## The document -/

def probePreamble : List (List Char) :=
  ["SecRuleEngine On".toList, "SecRequestBodyAccess On".toList,
    "SecResponseBodyAccess Off".toList]

def joinDocument (parts : List (List (List Char))) : List Char :=
  Go.joinLines ((parts.flatten.map Go.trim).filter (· ≠ []))

def splitLines (s : List Char) : List (List Char) :=
  if s = [] then [] else (Go.lines s).filter fun line => Go.trim line ≠ []

def countNonEmptyLines (doc : List Char) : ℕ := (DataFiles.secLangLines doc).length

structure AssemblyResult where
  directives : List Char
  rulesLoaded : ℕ
  actionsLoaded : ℕ := 0
  directivesCount : ℕ
  dataFileBasenames : List (List Char)
  deriving DecidableEq

/-- What stands ahead of the rules: the preamble, and the setup actions or the stamp. -/
def headLines (stamp : Bool) (crs : Option CRSTuning) : List (List Char) :=
  let setup := if crs.isSome then crsSetupActions crs else if stamp then [stampOnly900990] else []
  probePreamble ++ setup.map String.toList

/-- What stands behind the rules. -/
def tailLines (crs : Option CRSTuning) : List (List Char) :=
  (crsExclusions crs).map String.toList

def assembleFromRuleLines (ruleLines : List (List Char)) (stamp : Bool)
    (crs : Option CRSTuning) : AssemblyResult :=
  let doc := joinDocument [headLines stamp crs, ruleLines, tailLines crs]
  { directives := doc
    rulesLoaded := ruleLines.countP DataFiles.isSecLangLine
    directivesCount := countNonEmptyLines doc
    dataFileBasenames := DataFiles.scanPmFromFileBasenames ruleLines }

/-! ## The rules -/

def errRuleIDsUnresolved : String := "RuleIDsUnresolved"

/-- The metadata has a positive id. -/
def hasRuleID (metadata : Option SecRuleMetadata) : Bool := metadata.any fun m => 0 < m.id

def ensureRuleIDs (sr : SecRule) : Except String Unit :=
  if sr.spec.isSingleRuleForm then
    if hasRuleID sr.spec.metadata then .ok () else .error errRuleIDsUnresolved
  else if sr.spec.secRules = [] then .error errRuleIDsUnresolved
  else if sr.spec.secRules.all fun rule => hasRuleID rule.metadata then .ok ()
  else .error errRuleIDsUnresolved

section
variable {α : Type} (lib : Crslang α) (text : List (SeclangDirective α) → String)

/-- `seclangLines` of a rule or an action. -/
def seclangLines : LangItem → Except String (List (List Char))
  | .secRule sr =>
    let withIDs := applyAssignedIDs sr []
    match ensureRuleIDs withIDs with
    | .error e => .error ("secrule " ++ sr.ns ++ "/" ++ sr.name ++ ": " ++ e)
    | .ok () =>
      match convertSecRule lib withIDs with
      | .error e => .error ("convert SecRule " ++ sr.ns ++ "/" ++ sr.name ++ ": " ++ e)
      | .ok dirs => .ok (splitLines (text dirs).toList)
  | .secAction sa =>
    match convertSecAction lib sa with
    | .error e => .error ("convert SecAction " ++ sa.ns ++ "/" ++ sa.name ++ ": " ++ e)
    | .ok dirs => .ok (splitLines (text dirs).toList)

def assembleResolved (objects : List Object) (stamp : Bool) (crs : Option CRSTuning) :
    Except String AssemblyResult := do
  let items := sortItems (objects.filterMap Object.langItem?)
  let ruleLines ← items.mapM (seclangLines lib text)
  return { assembleFromRuleLines ruleLines.flatten stamp crs with
    rulesLoaded := items.countP fun item => item.kind == "SecRule"
    actionsLoaded := items.countP fun item => item.kind == "SecAction" }

end

end KubeWaf.Probe
