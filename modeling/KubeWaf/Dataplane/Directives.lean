import KubeWaf.Lib.GoStrings

/-!
# The directives of a WAF

`BuildDirectives` of `internal/dataplane/config/build.go`: what the engine is configured with
around the rules of a WAF, and the renderers of `WAF.spec.crs`. `internal/probeassemble/preamble.go`
has its own copy of the two renderers, over its own type of the tuning.
-/

namespace KubeWaf.Dataplane

open Lib

structure TargetExclusion where
  id : Int
  removeTargets : List String := []
  deriving DecidableEq

/-- `CRSTuning` of the WAF's spec. -/
structure CRSTuning where
  paranoiaLevel : Option Int := none
  inboundAnomalyThreshold : Option Int := none
  outboundAnomalyThreshold : Option Int := none
  removeByID : List Int := []
  removeByTag : List String := []
  updateTargetByID : List TargetExclusion := []
  deriving DecidableEq

/-! ## Renderers -/

/-- The setup action for the levels and thresholds that are set, with the version stamp. -/
def setupAction (stamp : ℕ) (paranoia inbound outbound : Option Int) : String :=
  let sets := ["setvar:tx.crs_setup_version=" ++ toString stamp]
    ++ (match paranoia with
      | none => []
      | some pl => ["setvar:tx.detection_paranoia_level=" ++ toString pl,
          "setvar:tx.blocking_paranoia_level=" ++ toString pl])
    ++ (match inbound with
      | none => []
      | some n => ["setvar:tx.inbound_anomaly_score_threshold=" ++ toString n])
    ++ (match outbound with
      | none => []
      | some n => ["setvar:tx.outbound_anomaly_score_threshold=" ++ toString n])
  "SecAction \"id:900990,phase:1,nolog,pass," ++ ",".intercalate sets ++ "\""

def removeByIDDirective (id : Int) : String := "SecRuleRemoveById " ++ toString id

def removeByTagDirective (tag : String) : String := "SecRuleRemoveByTag " ++ tag

/-- The update of a rule's targets; none without targets to remove. -/
def updateTargetDirective (id : Int) (targets : List String) : Option String :=
  if targets = [] then none
  else
    some ("SecRuleUpdateTargetById " ++ toString id ++ " \""
      ++ "|".intercalate (targets.map ("!" ++ ·)) ++ "\"")

def crsSetupVersionStamp : ℕ := 427

def crsSetupActions (crs : Option CRSTuning) : List String :=
  match crs with
  | none => []
  | some crs =>
    [setupAction crsSetupVersionStamp crs.paranoiaLevel crs.inboundAnomalyThreshold
      crs.outboundAnomalyThreshold]

def crsExclusions (crs : Option CRSTuning) : List String :=
  match crs with
  | none => []
  | some crs =>
    crs.removeByID.map removeByIDDirective ++ crs.removeByTag.map removeByTagDirective
      ++ crs.updateTargetByID.filterMap fun te => updateTargetDirective te.id te.removeTargets

/-! ## `BuildDirectives` -/

/-- The fields of a WAF that `BuildDirectives` reads. -/
structure WafDirectives where
  annotations : List (String × String) := []
  logLevel : Int := 0
  mode : String := ""
  crsEnable : Bool := false
  crs : Option CRSTuning := none
  deriving DecidableEq

def secRuleEngineValue (waf : WafDirectives) : String :=
  if waf.mode = "DetectionOnly" then "DetectionOnly" else "On"

def ftwProfileEnabled (waf : WafDirectives) : Bool :=
  match waf.annotations.lookup "kubewaf.io/ftw-profile" with
  | none => false
  | some v =>
    String.ofList ((Go.trimFunc Go.isSpace v.toList).map Go.toLower) ∈ ["true", "1", "yes"]

/-- The directives ahead of the CRS and the rules. -/
def engineDirectives (waf : WafDirectives) : List String :=
  let logLevel := if waf.logLevel = 0 then 1 else waf.logLevel
  ["Include @kubewaf-defaults", "SecRuleEngine " ++ secRuleEngineValue waf,
    "SecDebugLogLevel " ++ toString logLevel]
    ++ if ftwProfileEnabled waf then ["Include @ftw-conf"] else []

def buildDirectives (waf : WafDirectives) (rules : List String) : List String :=
  engineDirectives waf
    ++ (if waf.crsEnable then
          ["Include @crs-setup-conf"] ++ crsSetupActions waf.crs
            ++ ["Include @owasp_crs/*.conf"] ++ crsExclusions waf.crs
        else crsSetupActions waf.crs)
    ++ rules
    ++ if waf.crsEnable then [] else crsExclusions waf.crs

lemma buildDirectives_pathB {waf : WafDirectives} (h : waf.crsEnable = false)
    (rules : List String) :
    buildDirectives waf rules
      = engineDirectives waf ++ (crsSetupActions waf.crs ++ (rules ++ crsExclusions waf.crs)) := by
  rw [buildDirectives, h]
  simp

end KubeWaf.Dataplane
