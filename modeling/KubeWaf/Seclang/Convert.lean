import KubeWaf.Seclang.Crslang

/-!
# `ConvertSecRule`

The conversion of a `SecRule` into crslang directives (`convert/secrule.go`), in its two
forms: the canonical `metadata` + `match[]` form, which becomes one chain, and the legacy
bag `secLangRules[]`, which is cut into chains along the `chain` flow actions.
-/

namespace KubeWaf.Seclang

section
variable {α : Type} (lib : Crslang α)

/-! ## Actions of a link -/

def stripDisruptiveActions (actions : Option SecRuleActions) : Option SecRuleActions :=
  actions.map fun a => { a with disruptiveAction := none }

def hasChainInActions (a : SecRuleActions) : Bool :=
  a.flow.any fun f => f.type == .known .chain

/-- `ensureChainAction`: the actions with a `chain` flow action present. -/
def ensureChainAction (actions : Option SecRuleActions) : SecRuleActions :=
  let out := actions.getD {}
  if hasChainInActions out then out
  else { out with flow := out.flow ++ [{ type := .known .chain, value := "" }] }

/-- `removeChainFromFlowActions`, on the crslang side. -/
def removeChainFromFlowActions (link : RuleLink α) : RuleLink α :=
  { link with actions := { link.actions with
      flowActions := link.actions.flowActions.filter fun fa => lib.getKey fa != "chain" } }

/-! ## One link -/

/-- The loop body of `secLangSecRuleToRuleWithCondition` over `secRule.Conditions`. -/
def convertCondition (cond : Condition) : Except String CrsCondition := do
  let operator : CrsOperator :=
    -- an always-match condition keeps the unknown operator, so that it renders as SecAction
    if cond.alwaysMatch then { name := .known .unknownOperator }
    else
      { negate := cond.operator.negate
        value := cond.operator.value
        name := if cond.operator.name = .text "" then .zero
          else operatorForwardMapper cond.operator.name }
  let transformations ← mapAPITransformations lib cond.transformations
  return {
    alwaysMatch := cond.alwaysMatch
    script := cond.script
    vars := cond.vars.map fun v => { name := variableMapper v.name, excluded := v.excluded }
    collections := cond.collections.map fun c =>
      { arguments := c.arguments, excluded := c.excluded, count := c.count,
        name := collectionMapper c.name }
    operator
    transformations }

/-- The optional actions of a rule; none leave the zero value. -/
def convertActions (actions : Option SecRuleActions) : Except String (SeclangActions α) :=
  match actions with
  | none => .ok {}
  | some a => secActionToCSR lib a

/-- `secLangSecRuleToRuleWithCondition`. The Go function returns a list that always has this
one rule in it. -/
def secLangSecRuleToRuleWithCondition (secRule : SecLangSecRule) :
    Except String (RuleLink α) := do
  let conditions ← secRule.conditions.mapM (convertCondition lib)
  let actions ← convertActions lib secRule.actions
  return { metadata := secRule.metadata.getD {}, conditions, actions }

def matchToRuleWithCondition (metadata : Option SecRuleMetadata) (m : Match)
    (actions : Option SecRuleActions) (needChain : Bool) : Except String (RuleLink α) :=
  secLangSecRuleToRuleWithCondition lib
    { metadata
      conditions := [m.toCondition]
      actions := if needChain then some (ensureChainAction actions) else actions }

/-- `alwaysMatchToRuleWithCondition`: variables, collections and script are not carried. -/
def alwaysMatchToRuleWithCondition (metadata : Option SecRuleMetadata) (m : Match)
    (actions : Option SecRuleActions) : Except String (RuleLink α) := do
  let transformations ← mapAPITransformations lib m.transformations
  let actions ← convertActions lib actions
  return {
    metadata := metadata.getD {}
    conditions := [{ alwaysMatch := true, operator := { name := .known .unknownOperator },
                     transformations }]
    actions }

/-! ## The single-rule form -/

/-- The marker directive that follows a rule, if one is set. -/
def markerDirectives (marker : String) : List (SeclangDirective α) :=
  if marker = "" then [] else [.secMarker marker]

/-- The actions `convertSingleRuleForm` gives to the link at index `i` out of `n`. -/
def linkActions (spec : SecRuleSpec) (m : Match) (i n : ℕ) : Option SecRuleActions :=
  match m.actions with
  | none =>
    if i = 0 then spec.actions
    else if i + 1 = n then stripDisruptiveActions spec.actions
    else none
  | some a => if i = 0 then some a else stripDisruptiveActions (some a)

/-- The body of the loop over `matches`: the link at index `i` out of `n`. -/
def convertLink (spec : SecRuleSpec) (m : Match) (i n : ℕ) : Except String (RuleLink α) := do
  let metadata := if i = 0 then spec.metadata else none
  let link ← matchToRuleWithCondition lib metadata m (linkActions spec m i n)
    (i + 1 ≠ n ∧ 1 < n)
  if i = 0 then return link
  let link := if i + 1 = n then removeChainFromFlowActions lib link else link
  return { link with actions := { link.actions with disruptiveAction := none } }

/-- The links from index `i` on. -/
def convertLinks (spec : SecRuleSpec) (n : ℕ) : ℕ → List Match → Except String (List (RuleLink α))
  | _, [] => .ok []
  | i, m :: ms => do
    let link ← convertLink lib spec m i n
    let rest ← convertLinks spec n (i + 1) ms
    return link :: rest

/-- The links of the single-rule form as a rule. -/
def chainOf : List (RuleLink α) → List (SeclangDirective α)
  | [] => []
  | head :: chain => [.rule { head, chain }]

/-- The entry of a match list that is a single always-match one. -/
def pureAlwaysMatch : List Match → Option Match
  | [m] => if m.alwaysMatch then some m else none
  | _ => none

def convertSingleRuleForm (source : SecRule) : Except String (List (SeclangDirective α)) := do
  -- metadata without match is an always-match rule
  let ms := if source.spec.matchLinks.isEmpty then [{ alwaysMatch := true }]
    else source.spec.matchLinks
  match pureAlwaysMatch ms with
  | some m =>
    let actions := if m.actions.isSome then m.actions else source.spec.actions
    let link ← alwaysMatchToRuleWithCondition lib source.spec.metadata m actions
    return .rule { head := link } :: markerDirectives source.spec.markerAfter
  | none =>
    let links ← convertLinks lib source.spec ms.length 0 ms
    return chainOf links ++ markerDirectives source.spec.markerAfter

/-! ## The legacy bag -/

def hasChainInFlow (secRule : SecLangSecRule) : Bool :=
  match secRule.actions with
  | none => false
  | some a => hasChainInActions a

/-- The inner loop of `convertLegacySecLangRules`: the entries chained to `cur`, the marker
of the last entry consumed, and what is left of the bag. -/
def consumeChain (cur : SecLangSecRule) : List SecLangSecRule →
    Except String (List (RuleLink α) × String × List SecLangSecRule)
  | [] => .ok ([], cur.secMarker, [])
  | next :: rest =>
    if hasChainInFlow cur then do
      let link ← secLangSecRuleToRuleWithCondition lib next
      let (links, marker, rest') ← consumeChain next rest
      return (removeChainFromFlowActions lib link :: links, marker, rest')
    else .ok ([], cur.secMarker, next :: rest)

/-- The outer loop of `convertLegacySecLangRules`. A turn consumes at least one entry, so the
length of the bag bounds the number of turns. -/
def convertBag : ℕ → List SecLangSecRule → Except String (List (SeclangDirective α))
  | 0, _ => .ok []
  | _ + 1, [] => .ok []
  | n + 1, secRule :: rest => do
    let head ← secLangSecRuleToRuleWithCondition lib secRule
    let (chain, lastMarker, rest') ← consumeChain lib secRule rest
    -- the marker on the last link wins over the one on the first
    let marker := if lastMarker = "" then secRule.secMarker else lastMarker
    let more ← convertBag n rest'
    return .rule { head, chain } :: markerDirectives marker ++ more

def convertLegacySecLangRules (source : SecRule) : Except String (List (SeclangDirective α)) := do
  let target ← convertBag lib source.spec.secRules.length source.spec.secRules
  return target ++ markerDirectives source.spec.markerAfter

def convertSecRule (source : SecRule) : Except String (List (SeclangDirective α)) :=
  if source.spec.isSingleRuleForm then convertSingleRuleForm lib source
  else convertLegacySecLangRules lib source

/-- `ConvertSecAction`: a SecAction is routed through the single-rule form. -/
def convertSecAction (source : SecAction) : Except String (List (SeclangDirective α)) :=
  convertSecRule lib
    { ns := source.ns
      name := source.name
      spec :=
        { metadata := source.spec.metadata
          matchLinks := [{ alwaysMatch := true, transformations := source.spec.transformations }]
          actions := some source.spec.actions } }

end

end KubeWaf.Seclang
