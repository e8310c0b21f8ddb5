import KubeWaf.Lib.GoStrings
import KubeWaf.Lib.QuotedFields

/-!
# One physical line per directive

`collapseSecLangLineContinuations` (`api/seclang/v1beta1/convert/secrule.go`) rewrites the text that
crslang prints: it joins continued lines, and takes the quotes off `status`, `initcol`, `skipAfter`
and `severity`. Each of its steps is a replacement over the whole text.
-/

namespace KubeWaf.Seclang

open Lib

/-- `seclangLineCont`: a backslash, the end of the line, and the next line's indent. -/
def seclangLineCont : Matcher Char (List Char)
  | '\\' :: '\n' :: s => some ([], s.dropWhile fun c => c == ' ' || c == '\t')
  | '\\' :: '\r' :: '\n' :: s => some ([], s.dropWhile fun c => c == ' ' || c == '\t')
  | _ => none

/-- `status:'(\d+)'`, replaced by `status:$1`. -/
def statusQuoted : Matcher Char (List Char) :=
  quotedField "status:".toList '\'' fun x => if x ≠ [] ∧ x.all Char.isDigit then some x else none

/-- `initcol:'([^']*)'`, replaced by `initcol:$1`. -/
def initcolQuoted : Matcher Char (List Char) := quotedField "initcol:".toList '\'' some

/-- `skipAfter:'([^']*)'`, replaced by `skipAfter:$1`. -/
def skipAfterQuoted : Matcher Char (List Char) := quotedField "skipAfter:".toList '\'' some

/-- The names of `severityNameToLevel`, at the places of their levels. -/
inductive Severity
  | emergency | alert | critical | error | warning | notice | info | debug
deriving DecidableEq

def Severity.name : Severity → List Char
  | .emergency => "EMERGENCY".toList
  | .alert => "ALERT".toList
  | .critical => "CRITICAL".toList
  | .error => "ERROR".toList
  | .warning => "WARNING".toList
  | .notice => "NOTICE".toList
  | .info => "INFO".toList
  | .debug => "DEBUG".toList

def Severity.level : Severity → Char
  | .emergency => '0'
  | .alert => '1'
  | .critical => '2'
  | .error => '3'
  | .warning => '4'
  | .notice => '5'
  | .info => '6'
  | .debug => '7'

def severities : List Severity :=
  [.emergency, .alert, .critical, .error, .warning, .notice, .info, .debug]

/-- `severityNameToLevel[strings.ToUpper(strings.TrimSpace(x))]` -/
def severityOf (x : List Char) : Option Severity :=
  let name := (Go.trimFunc Go.isSpace x).map Go.toUpper
  severities.find? fun sev => sev.name == name

/-- What stands behind `severity:` for the quoted text `x`. -/
def severityText (x : List Char) : List Char :=
  match severityOf x with
  | some sev => [sev.level]
  | none => x

/-- `severity:'([^']*)'` with the function that replaces its matches. -/
def severityQuoted : Matcher Char (List Char) :=
  quotedField "severity:".toList '\'' fun x => some (severityText x)

/-- `strings.ReplaceAll` of a severity's name by its level. -/
def severityNamed (sev : Severity) : Matcher Char (List Char) :=
  literalTo ("severity:".toList ++ sev.name) ("severity:".toList ++ [sev.level])

/-- The same for the name in lower case. -/
def severityLower (sev : Severity) : Matcher Char (List Char) :=
  literalTo ("severity:".toList ++ sev.name.map Go.toLower) ("severity:".toList ++ [sev.level])

/-- A run over `severityNameToLevel`: the order is the runtime's. -/
structure MapOrder where
  order : List Severity
  perm : order.Perm severities

/-- The order in which the names are declared. -/
def declaredOrder : MapOrder := ⟨severities, List.Perm.refl _⟩

/-- The replacements of `collapseSecLangLineContinuations`, in their order. -/
def collapseSteps (run : MapOrder) : List (Matcher Char (List Char)) :=
  [seclangLineCont, literalTo ",    ".toList ",".toList, statusQuoted, initcolQuoted,
    skipAfterQuoted, severityQuoted]
    ++ run.order.flatMap fun sev => [severityNamed sev, severityLower sev]

def applySteps (steps : List (Matcher Char (List Char))) (s : List Char) : List Char :=
  steps.foldl (fun s m => replaceAll m s) s

def collapseSecLangLineContinuations (run : MapOrder) (s : List Char) : List Char :=
  if s = [] then s
  else
    (applySteps (collapseSteps run) s).rdropWhile (fun c => c ∈ [' ', '\t', '\r', '\n'])
      ++ ['\n']

/-! ## The text of a list of rules -/

/-- The part of a rule that says what it looks for, with the lines above it and its indent. -/
structure Detection where
  above : ℕ
  indent : ℕ
  vars : List Char
  operator : List Char
deriving DecidableEq

/-- The rule up to the quote behind its operator. -/
def Detection.text (d : Detection) : List Char :=
  List.replicate d.above '\n' ++ (List.replicate d.indent ' '
    ++ ("SecRule ".toList ++ (d.vars ++ (" \"".toList ++ d.operator))))

/-- What crslang prints behind the operator: the action list starts on a line of its own. -/
def printedActions (actions : List Char) : List Char := " \\\n    \"".toList ++ actions

/-- The rendering of crslang: the rules with their action lists, and the line breaks behind the
last one. -/
def toSeclang (rules : List (Detection × List Char)) (below : ℕ) : List Char :=
  framed '"' (rules.map fun r => (r.1.text, printedActions r.2)) (List.replicate below '\n')

/-- What has to stay: each detection part, and the number of quotes in what stands between it and
the quote at the rule's end, so that an action list starts and ends where it did. -/
def ruleShapes (rules : List (Detection × List Char)) : List (List Char × ℕ) :=
  rules.map fun r => (r.1.text, (printedActions r.2).count '"')

/-- The collapsed text is that of rules with the same detection parts. -/
def KeepsDetections (run : MapOrder) (rules : List (Detection × List Char)) (below : ℕ) : Prop :=
  ∃ below', Framed '"' (ruleShapes rules) (List.replicate below' '\n')
    (collapseSecLangLineContinuations run (toSeclang rules below))

end KubeWaf.Seclang
