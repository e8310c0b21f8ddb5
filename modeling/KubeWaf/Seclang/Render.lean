import KubeWaf.Seclang.Convert

/-!
# Rendering a rule

`internal/seclang/render.go`. Printing directives is left to crslang: `text` stands for
`ConvertToSecLangString`.
-/

namespace KubeWaf.Seclang

open Lib

/-- A rule's metadata with an id filled in where it has none. -/
def withAssignedID (metadata : Option SecRuleMetadata) (id : Int) : SecRuleMetadata :=
  let m := metadata.getD {}
  if m.id ≤ 0 then { m with id := id } else m

/-- The loop of `applyAssignedIDs` over a legacy bag. -/
def assignBagIDs : List SecLangSecRule → List Int → List SecLangSecRule
  | [], _ => []
  | rules, [] => rules
  | rule :: rules, id :: ids =>
    (if id ≤ 0 then rule else { rule with metadata := some (withAssignedID rule.metadata id) })
      :: assignBagIDs rules ids

def applyAssignedIDs (sr : SecRule) (assignedIDs : List Int) : SecRule :=
  match if assignedIDs.isEmpty then sr.status.assignedIDs else assignedIDs with
  | [] => sr
  | id :: ids =>
    if sr.spec.isSingleRuleForm then
      if id ≤ 0 then sr
      else { sr with spec := { sr.spec with metadata := some (withAssignedID sr.spec.metadata id) } }
    else { sr with spec := { sr.spec with secRules := assignBagIDs sr.spec.secRules (id :: ids) } }

/-- `RenderResult`, as `RenderSecRule` fills it. -/
structure RenderResult (α : Type) where
  directives : List (SeclangDirective α)
  secLang : String
deriving DecidableEq

section
variable {α : Type} (lib : Crslang α) (text : List (SeclangDirective α) → String)

def renderSecRule (sr : SecRule) (assignedIDs : List Int) : Except String (RenderResult α) :=
  match convertSecRule lib (applyAssignedIDs sr assignedIDs) with
  | .error e => .error ("convert: " ++ e)
  | .ok [] => .error "convert produced no directives"
  | .ok (d :: dirs) =>
    let secLang := text (d :: dirs)
    if Go.containsStr secLang "t:unknown" then
      .error ("rendered SecLang contains t:unknown (unsupported transformation); " ++
        "SecRule must not become Ready")
    else .ok { directives := d :: dirs, secLang }

/-- `ConvertSecActionToString`, together with the directives behind the text. -/
def renderSecAction (sa : SecAction) : Except String (RenderResult α) :=
  (convertSecAction lib sa).map fun dirs => { directives := dirs, secLang := text dirs }

end

/-- A printer for directives that shows the id of each rule. -/
def plainText {α : Type} (dirs : List (SeclangDirective α)) : String :=
  "\n".intercalate (dirs.map fun d => match d with
    | .rule r => "SecRule id:" ++ toString r.head.metadata.id
    | .secMarker name => "SecMarker " ++ name)

/-- The operators of `linesText`: those that read a file, and `rx` for the others. -/
def operatorText : CrsEnum OperatorType → String
  | .known .pmFromFile => "pmFromFile"
  | .known .ipMatchFromFile => "ipMatchFromFile"
  | _ => "rx"

/-- A link on a line of its own, with its operators, its id and its flow actions. -/
def linkText (link : RuleLink PlainAction) : String :=
  let operators := link.conditions.map fun c =>
    "@" ++ operatorText c.operator.name ++ " " ++ c.operator.value
  let id := if 0 < link.metadata.id then ["id:" ++ toString link.metadata.id] else []
  let flow := link.actions.flowActions.map fun a => match a.param with
    | none => a.key
    | some v => a.key ++ ":" ++ v
  "SecRule REQUEST_URI \"" ++ " ".intercalate operators ++ "\" \""
    ++ ",".intercalate (id ++ flow) ++ "\""

/-- A printer for directives with a line for each link of a rule. -/
def linesText (dirs : List (SeclangDirective PlainAction)) : String :=
  "\n".intercalate (dirs.flatMap fun d => match d with
    | .rule r => r.links.map linkText
    | .secMarker name => ["SecMarker " ++ name])

lemma applyAssignedIDs_unassigned {sr : SecRule} (h : sr.status.assignedIDs = []) :
    applyAssignedIDs sr sr.status.assignedIDs = sr := by
  rw [applyAssignedIDs, h]
  rfl

lemma renderSecRule_eq_ok {α : Type} {lib : Crslang α}
    {text : List (SeclangDirective α) → String} {sr : SecRule} {ids : List Int}
    {res : RenderResult α} (h : renderSecRule lib text sr ids = .ok res) :
    convertSecRule lib (applyAssignedIDs sr ids) = .ok res.directives := by
  unfold renderSecRule at h
  split at h
  · cases h
  · cases h
  · next d dirs hconv =>
    simp only at h
    split at h
    · cases h
    · cases h
      exact hconv

lemma renderSecRule_secLang {α : Type} {lib : Crslang α}
    {text : List (SeclangDirective α) → String} {sr : SecRule} {ids : List Int}
    {res : RenderResult α} (h : renderSecRule lib text sr ids = .ok res) :
    res.secLang = text res.directives := by
  unfold renderSecRule at h
  split at h
  · cases h
  · cases h
  · simp only at h
    split at h
    · cases h
    · cases h
      rfl

end KubeWaf.Seclang
