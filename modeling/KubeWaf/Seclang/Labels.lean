import KubeWaf.Lib.GoStrings

/-!
# Labels of a rule

`api/seclang/v1beta1/labels.go`: the label keys under which rules are selected.
-/

namespace KubeWaf.Seclang

open Lib

def labelID : String := "seclang.kubewaf.io/id"
def labelPhase : String := "seclang.kubewaf.io/phase"
def labelOrder : String := "seclang.kubewaf.io/order"
def labelTagPrefix : String := "seclang.kubewaf.io/tag."

/-- The characters that `nonLabel` keeps. -/
def isLabelChar (c : Char) : Bool :=
  ('a' ≤ c && c ≤ 'z') || ('0' ≤ c && c ≤ '9') || c == '.' || c == '_' || c == '-'

/-- The characters that are trimmed off the ends. -/
def isLabelPunct (c : Char) : Bool := c == '-' || c == '.' || c == '_'

/-- One character of a tag as it stands in a label. -/
def labelChar (c : Char) : Char :=
  let c := Go.toLower c
  if c = '/' then '.' else if c = ' ' then '-' else if isLabelChar c then c else '-'

/-- The longest label name that Kubernetes accepts. -/
def maxSuffix : ℕ := 63

def tagToLabelKey (tag : String) : String :=
  let t := Go.trimFunc isLabelPunct ((Go.trimFunc Go.isSpace tag.toList).map labelChar)
  if t.isEmpty then ""
  else
    let t := if maxSuffix < t.length then (t.take maxSuffix).rdropWhile isLabelPunct else t
    let t :=
      match t with
      | [] => ['t', '-']
      | c :: _ => if isLabelPunct c then (['t', '-'] ++ t).take maxSuffix else t
    labelTagPrefix ++ String.ofList t

example : tagToLabelKey " OWASP_CRS/ATTACK XSS " = "seclang.kubewaf.io/tag.owasp_crs.attack-xss" := by
  decide

/-- Assignment to a key of a label map. -/
def setLabel (labels : List (String × String)) (key value : String) : List (String × String) :=
  if labels.any fun l => l.1 == key then
    labels.map fun l => if l.1 == key then (key, value) else l
  else labels ++ [(key, value)]

end KubeWaf.Seclang
