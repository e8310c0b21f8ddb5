import KubeWaf.Seclang.FromCrs
import KubeWaf.Seclang.Labels

/-!
# The CRS converter

`cmd/crs-converter/main.go`. A parsed file is a list of groups of directives, each with an
optional marker behind it. It is written either as one `SecRule` with a legacy bag or as one
`SecRule` in the single-rule form for each rule. Reading the file is crslang's task, and
writing the YAML is left out.
-/

namespace KubeWaf.Crs

open Lib Seclang

/-! ## Parsed files -/

/-- The name of a `types.ConfigurationDirective`. -/
inductive ConfigurationName where
  | unset
  | secMarker
  | other (k : ℕ)
deriving DecidableEq

/-- `types.ConfigurationDirective` -/
structure ConfigurationDirective where
  name : ConfigurationName := .unset
  parameter : String := ""
deriving DecidableEq

/-- A directive of a group. The converter skips what is not a rule. -/
inductive GroupDirective (α : Type) where
  | rule (r : RuleWithCondition α)
  | other
deriving DecidableEq

/-- An element of `DirectiveList`. -/
structure DirectiveGroup (α : Type) where
  directives : List (GroupDirective α)
  marker : ConfigurationDirective := {}
deriving DecidableEq

structure RuleEntry (α : Type) where
  rule : RuleWithCondition α
  marker : String
deriving DecidableEq

section
variable {α : Type}

def GroupDirective.rule? : GroupDirective α → Option (RuleWithCondition α)
  | .rule r => some r
  | .other => none

/-- The rules of a group, in order. -/
def DirectiveGroup.rules (g : DirectiveGroup α) : List (RuleWithCondition α) :=
  g.directives.filterMap GroupDirective.rule?

/-- The marker of a group; empty when it has none. -/
def DirectiveGroup.markerName (g : DirectiveGroup α) : String :=
  if g.marker.name = .secMarker then g.marker.parameter else ""

/-- The inner loop of `processFile`: the marker goes to the last rule. -/
def groupEntries (marker : String) : List (RuleWithCondition α) → List (RuleEntry α)
  | [] => []
  | [r] => [⟨r, marker⟩]
  | r :: rs => ⟨r, ""⟩ :: groupEntries marker rs

/-- The entries that `processFile` collects. -/
def fileEntries (file : List (DirectiveGroup α)) : List (RuleEntry α) :=
  file.flatMap fun g => groupEntries g.markerName g.rules

/-! ## Bag mode -/

/-- A generated `SecRule` with its labels. -/
structure Generated where
  labels : List (String × String)
  secRule : SecRule
deriving DecidableEq

section
variable (lib : Crslang α) (labels : List (String × String)) (ns : String)

def writeBagMode (crName : String) (entries : List (RuleEntry α)) : Except String Generated :=
  match entries.mapM fun e => convertCrsRule lib e.rule.head e.marker with
  | .error e => .error ("convert rule: " ++ e)
  | .ok secRules => .ok { labels, secRule := { ns, name := crName, spec := { secRules } } }

/-! ## One-per-rule mode -/

/-- The characters that `nonDNS` keeps. -/
def isDNSChar (c : Char) : Bool :=
  ('a' ≤ c && c ≤ 'z') || ('0' ≤ c && c ≤ '9') || c == '-'

def sanitizeName (s : String) : String :=
  let t := Go.trimFunc (· == '-') (Go.replaceRuns isDNSChar (s.toList.map Go.toLower))
  let t := if t.isEmpty then "rule".toList else t
  String.ofList (if 63 < t.length then (t.take 63).rdropWhile (· == '-') else t)

/-- `ruleCRName`, for the id in the metadata of a rule. -/
def ruleCRName (namePrefix fileCRName : String) (id : Int) (index : ℕ) : String :=
  if 0 < id then sanitizeName (namePrefix ++ toString id)
  else sanitizeName (fileCRName ++ "-n" ++ toString (index + 1))

/-- The value of a key of `usedNames`. -/
def usedCount (usedNames : List (String × ℕ)) (name : String) : Option ℕ :=
  usedNames.lookup name

/-- The name of the next rule, with a number behind it if it is taken, and `usedNames` after. -/
def nextName (usedNames : List (String × ℕ)) (name : String) : String × List (String × ℕ) :=
  match usedCount usedNames name with
  | some n => (name ++ "-" ++ toString (n + 1), (name, n + 1) :: usedNames)
  | none => (name, (name, 1) :: usedNames)

/-- The id in the metadata of a spec, zero without metadata. -/
def specID (spec : SecRuleSpec) : Int := (spec.metadata.map (·.id)).getD 0

/-- The labels of one rule. -/
def ruleLabels (spec : SecRuleSpec) : List (String × String) :=
  match spec.metadata with
  | none => labels
  | some m =>
    if m.id ≤ 0 then labels
    else
      let rlabels := setLabel labels labelID (toString m.id)
      let rlabels := setLabel rlabels labelOrder (toString spec.order)
      let rlabels := if m.phase = "" then rlabels else setLabel rlabels labelPhase m.phase
      m.tags.foldl (fun rlabels tag =>
        if tagToLabelKey tag = "" then rlabels
        else setLabel rlabels (tagToLabelKey tag) "true") rlabels

/-- The loop of `writeOnePerRuleMode`. -/
def generateRules (namePrefix fileCRName : String) :
    ℕ → List (String × ℕ) → List (RuleEntry α) → Except String (List Generated)
  | _, _, [] => .ok []
  | index, usedNames, e :: entries =>
    match convertCrsRuleToSingleForm lib e.rule e.marker with
    | .error e => .error ("convert rule to single form: " ++ e)
    | .ok spec => do
      -- the order is set once more when it is still zero
      let spec := if spec.order = 0 then orderFromID spec else spec
      let (name, usedNames) :=
        nextName usedNames (ruleCRName namePrefix fileCRName (specID spec) index)
      let rest ← generateRules namePrefix fileCRName (index + 1) usedNames entries
      return { labels := ruleLabels labels spec, secRule := { ns, name, spec } } :: rest

def writeOnePerRuleMode (namePrefix fileCRName : String) (entries : List (RuleEntry α)) :
    Except String (List Generated) :=
  generateRules lib labels ns namePrefix fileCRName 0 [] entries

end

end

end KubeWaf.Crs
