import KubeWaf.Seclang.Convert
import KubeWaf.Seclang.YamlSanitize
import Mathlib

/-!
# From crslang to a `SecRule`

The other direction of `convert/secrule.go`, which the CRS converter uses: a crslang rule
becomes one entry of a legacy bag (`ConvertCrsRule`) or a spec in the single-rule form
(`ConvertCrsRuleToSingleForm`).
-/

namespace KubeWaf.Seclang

/-- The Go conversion of an `int` to an `int32`. -/
def int32 (n : Int) : Int := n.bmod (2 ^ 32)

section
variable {α : Type} (lib : Crslang α)

/-! ## One link -/

/-- The operator of a condition. An always-match condition, whose operator crslang leaves
empty, gets `unconditionalMatch`. -/
def convertCrsOperator (condition : CrsCondition) : Operator :=
  let name := operatorMapper condition.operator.name
  { negate := condition.operator.negate
    value := condition.operator.value
    name :=
      if condition.alwaysMatch && (name == .text "" || name == .known .unknownOperator) then
        .known .unconditionalMatch
      else name }

/-- The loop body of `ConvertCrsRule` over `source.Conditions`. -/
def convertCrsCondition (condition : CrsCondition) : Except String Condition := do
  let transformations ← mapCRSTransformations lib condition.transformations
  return {
    alwaysMatch := condition.alwaysMatch
    script := condition.script
    vars := condition.vars.map fun v =>
      { name := variableReverseMapper v.name, excluded := v.excluded }
    collections := condition.collections.map fun c =>
      { arguments := c.arguments, excluded := c.excluded, count := c.count,
        name := collectionReverseMapper c.name }
    operator := convertCrsOperator condition
    transformations }

/-- `ConvertCrsRule`. It does not look at the `ChainedRule`, so a link is all it needs. -/
def convertCrsRule (source : RuleLink α) (secMarker : String) : Except String SecLangSecRule := do
  let conditions ← source.conditions.mapM (convertCrsCondition lib)
  return {
    metadata := some
      { source.metadata with comment := sanitizeRuleComment source.metadata.comment }
    conditions
    actions := some (secActionToAPI lib source.actions)
    secMarker }

/-! ## The single-rule form -/

def filterOutChain (flow : List FlowAction) : List FlowAction :=
  flow.filter fun f => f.type != .known .chain

/-- The actions of a link without `chain`, which the number of matches implies. -/
def withoutChain (actions : SecRuleActions) : SecRuleActions :=
  { actions with flow := filterOutChain actions.flow }

/-- The match entry of a condition. -/
def Condition.toMatch (c : Condition) : Match where
  vars := c.vars
  collections := c.collections
  operator := c.operator
  transformations := c.transformations
  alwaysMatch := c.alwaysMatch
  script := c.script

/-- The loop of `ConvertCrsRuleToSingleForm` along the chain. -/
def walkChain (spec : SecRuleSpec) (first : Bool) : List (RuleLink α) → Except String SecRuleSpec
  | [] => .ok spec
  | cur :: chained => do
    let legacy ← convertCrsRule lib cur ""
    let spec :=
      if first then
        { spec with metadata := legacy.metadata, actions := legacy.actions.map withoutChain }
      else spec
    -- only the first condition of a link is taken
    let m := (legacy.conditions.head?.map Condition.toMatch).getD {}
    let m := if first then m else { m with actions := legacy.actions.map withoutChain }
    -- a rule without chain spreads its conditions over the matches
    if chained.isEmpty && 1 < legacy.conditions.length && spec.matchLinks.isEmpty then
      return { spec with matchLinks := spec.matchLinks ++ legacy.conditions.map Condition.toMatch }
    else
      walkChain { spec with matchLinks := spec.matchLinks ++ [m] } false chained

/-- The sort key that a spec without one gets from the id of its rule. -/
def orderFromID (spec : SecRuleSpec) : SecRuleSpec :=
  match spec.metadata with
  | none => spec
  | some m => if 0 < m.id then { spec with order := int32 m.id } else spec

def convertCrsRuleToSingleForm (source : RuleWithCondition α) (markerAfter : String) :
    Except String SecRuleSpec := do
  let spec ← walkChain lib { markerAfter } true source.links
  return orderFromID spec

end

end KubeWaf.Seclang
