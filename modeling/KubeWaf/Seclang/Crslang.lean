import KubeWaf.Lib.GoStrings
import KubeWaf.Seclang.Types

/-!
# The crslang side

The crslang types that conversion reads and builds, and the functions of that library it
calls. The library is not part of this repository: its action type is a type parameter `α`
and its functions are the fields of `Crslang α`. The conversions between the two action
models (`convert/actions.go`) and the mappers (`convert/zz_generated_*.go`,
`convert/transformations.go`) follow.
-/

namespace KubeWaf.Seclang

open Lib

/-- A crslang enumeration: a constant that has an API counterpart, the constant crslang uses
for "unknown", the zero value of the Go type, or a constant without API counterpart. -/
inductive CrsEnum (τ : Type) where
  | known (a : τ)
  | unknown
  | zero
  | extra (k : ℕ)
deriving DecidableEq

/-- The argument of `types.NewActionOnly` and `types.NewActionWithParam`. -/
inductive CrsActionType where
  | data (t : CrsEnum DataActionType)
  | disruptive (t : CrsEnum DisruptiveActionType)
  | flow (t : CrsEnum FlowActionType)
  | nonDisruptive (t : CrsEnum NonDisruptiveActionType)
deriving DecidableEq

/-- `types.SetvarAction`, with the collection and the operation as they print. -/
structure SetvarAction where
  collection : String
  operation : String
  assignments : List (String × String)
deriving DecidableEq

/-- The crslang functions the conversion calls. `setvar` is the type switch on
`types.SetvarAction`. -/
structure Crslang (α : Type) where
  getKey : α → String
  toText : α → String
  setvar : α → Option SetvarAction
  newActionOnly : CrsActionType → Except String α
  newActionWithParam : CrsActionType → String → Except String α
  transformationString : CrsEnum Transformation → String

structure CrsVariable where
  name : CrsEnum VariableName
  excluded : Bool
deriving DecidableEq

structure CrsCollection where
  name : CrsEnum CollectionName
  arguments : List String
  excluded : List String
  count : Bool
deriving DecidableEq

structure CrsOperator where
  negate : Bool := false
  name : CrsEnum OperatorType := .zero
  value : String := ""
deriving DecidableEq

structure CrsCondition where
  vars : List CrsVariable := []
  collections : List CrsCollection := []
  operator : CrsOperator := {}
  transformations : List (CrsEnum Transformation) := []
  alwaysMatch : Bool := false
  script : String := ""
deriving DecidableEq

structure SeclangActions (α : Type) where
  dataActions : List α := []
  disruptiveAction : Option α := none
  flowActions : List α := []
  nonDisruptiveActions : List α := []
deriving DecidableEq

/-- One link of a `types.RuleWithCondition`: the rule without its `ChainedRule`. -/
structure RuleLink (α : Type) where
  metadata : SecRuleMetadata := {}
  conditions : List CrsCondition := []
  actions : SeclangActions α := {}
deriving DecidableEq

/-- `types.RuleWithCondition`. The `ChainedRule` pointers are followed into a list: `chain`
holds the links after the head, in order. -/
structure RuleWithCondition (α : Type) where
  head : RuleLink α
  chain : List (RuleLink α) := []
deriving DecidableEq

/-- The links of a rule, head first. -/
def RuleWithCondition.links {α : Type} (r : RuleWithCondition α) : List (RuleLink α) :=
  r.head :: r.chain

/-- `types.SeclangDirective`, as far as conversion produces it: rules and `SecMarker`s. -/
inductive SeclangDirective (α : Type) where
  | rule (r : RuleWithCondition α)
  | secMarker (name : String)
deriving DecidableEq

/-! ## Generated mappers

Every case of the generated `switch` statements maps a constant to the constant of the same
name; the mappers differ in what their `default` returns. -/

/-- The shape of the mappers from the API to crslang. -/
def toCrsEnum {τ : Type} (default : CrsEnum τ) : ApiEnum τ → CrsEnum τ
  | .known a => .known a
  | .text _ => default

/-- The shape of the mappers from crslang to the API. -/
def toApiEnum {τ : Type} (default : ApiEnum τ) : CrsEnum τ → ApiEnum τ
  | .known a => .known a
  | _ => default

def variableMapper : ApiEnum VariableName → CrsEnum VariableName := toCrsEnum .zero
def variableReverseMapper : CrsEnum VariableName → ApiEnum VariableName := toApiEnum (.text "")
def collectionMapper : ApiEnum CollectionName → CrsEnum CollectionName :=
  toCrsEnum (.known .UNKNOWN_COLLECTION)
def collectionReverseMapper : CrsEnum CollectionName → ApiEnum CollectionName :=
  toApiEnum (.known .UNKNOWN_COLLECTION)
def operatorForwardMapper : ApiEnum OperatorType → CrsEnum OperatorType :=
  toCrsEnum (.known .eq)
def operatorMapper : CrsEnum OperatorType → ApiEnum OperatorType := toApiEnum (.text "")
def transformationMapper : ApiEnum Transformation → CrsEnum Transformation := toCrsEnum .zero
def transformationReverseMapper : CrsEnum Transformation → ApiEnum Transformation :=
  toApiEnum (.text "")
def dataActionMapper : ApiEnum DataActionType → CrsEnum DataActionType := toCrsEnum .unknown
def disruptiveActionMapper : ApiEnum DisruptiveActionType → CrsEnum DisruptiveActionType :=
  toCrsEnum .unknown
def flowActionMapper : ApiEnum FlowActionType → CrsEnum FlowActionType :=
  toCrsEnum (.known .flowUnknown)
def nonDisruptiveActionMapper :
    ApiEnum NonDisruptiveActionType → CrsEnum NonDisruptiveActionType :=
  toCrsEnum .unknown

/-! ## Transformations (`convert/transformations.go`) -/

section
variable {α : Type} (lib : Crslang α)

def validateAPITransformation (t : ApiEnum Transformation) : Except String Unit :=
  match Go.trimSpace (t.toText Transformation.text) with
  | "" => .error "empty transformation is not allowed (CRS normalizePath must map to normalisePath)"
  | "unknownTransformation" | "unknown" =>
    .error ("unknown transformation is not allowed " ++
      "(would render as t:unknown and trap ModSecurity wasm)")
  | _ => .ok ()

/-- `FromCRSTransformation`: American spellings are aliased before the mapper is asked. -/
def fromCRSTransformation (src : CrsEnum Transformation) :
    Except String (ApiEnum Transformation) :=
  match lib.transformationString src with
  | "normalizePath" | "normalisePath" => .ok (.known .normalisePath)
  | "normalizePathWin" | "normalisePathWin" => .ok (.known .normalisePathWin)
  | "unknown" | "" =>
    .error s!"unsupported SecLang transformation {Go.quoted (lib.transformationString src)}"
  | s =>
    match validateAPITransformation (transformationReverseMapper src) with
    | .error e => .error s!"unsupported SecLang transformation {Go.quoted s}: {e}"
    | .ok () => .ok (transformationReverseMapper src)

def toCRSTransformation (src : ApiEnum Transformation) :
    Except String (CrsEnum Transformation) :=
  match Go.trimSpace (src.toText Transformation.text) with
  | "" => .error "empty transformation is not allowed"
  | "unknownTransformation" | "unknown" => .error "unknown transformation is not allowed"
  | "normalizePath" | "normalisePath" => .ok (.known .normalisePath)
  | "normalizePathWin" | "normalisePathWin" => .ok (.known .normalisePathWin)
  | _ =>
    let got := transformationMapper src
    if got = .known .unknownTransformation ∨ lib.transformationString got = "unknown" then
      .error s!"unsupported transformation {Go.quoted (src.toText Transformation.text)}"
    else .ok got

/-- The shape of `mapAPITransformations` and `mapCRSTransformations`: convert a list, and
prefix the first error with the index it occurred at. -/
def mapIndexed {τ σ : Type} (f : τ → Except String σ) (ts : List τ) : Except String (List σ) :=
  go 0 ts
where
  go (i : ℕ) : List τ → Except String (List σ)
    | [] => .ok []
    | t :: ts =>
      match f t with
      | .error e => .error s!"transformations[{i}]: {e}"
      | .ok s =>
        match go (i + 1) ts with
        | .error e => .error e
        | .ok rest => .ok (s :: rest)

def mapAPITransformations (ts : List (ApiEnum Transformation)) :
    Except String (List (CrsEnum Transformation)) :=
  mapIndexed (toCRSTransformation lib) ts

def mapCRSTransformations (ts : List (CrsEnum Transformation)) :
    Except String (List (ApiEnum Transformation)) :=
  mapIndexed (fromCRSTransformation lib) ts

/-! ## Actions (`convert/actions.go`) -/

/-- The text after `key:` of a printed action, without the outer quotes. -/
def actionValue (a : α) : String :=
  Go.trimQuotes (Go.trimPrefixStr (lib.toText a) (lib.getKey a ++ ":"))

def flowActionToAPI (a : α) : FlowAction :=
  let type := ApiEnum.ofText FlowActionType.text FlowActionType.all (lib.getKey a)
  match type with
  | .known .skip | .known .skipAfter => { type, value := actionValue lib a }
  | _ => { type, value := "" }

def dataActionToAPI (a : α) : DataAction :=
  let type := ApiEnum.ofText DataActionType.text DataActionType.all (lib.getKey a)
  let s := lib.toText a
  match Go.afterColon s with
  | some rest => { type, value := Go.trimQuotes (Go.trimSpace rest) }
  | none =>
    if (lib.getKey a).length < s.length then
      { type, value := Go.trimQuotes (Go.trimSpace (Go.trimPrefixStr s (lib.getKey a))) }
    else { type, value := "" }

/-- `NonDisruptiveActionToAPI`: a `setvar` yields one API action per assignment. -/
def nonDisruptiveActionToAPI (a : α) : List NonDisruptiveAction :=
  match lib.setvar a with
  | some sv => sv.assignments.map fun asg =>
      { type := .known .setVar,
        value := sv.collection ++ "." ++ asg.1 ++ sv.operation ++ asg.2 }
  | none =>
    let type := ApiEnum.ofText NonDisruptiveActionType.text NonDisruptiveActionType.all
      (lib.getKey a)
    match type with
    | .known .ctl | .known .exec | .known .expireVar | .known .initCol | .known .logData
    | .known .setEnv | .known .setVar | .known .setRsc | .known .setSid | .known .setUid =>
      [{ type, value := actionValue lib a }]
    | _ => [{ type, value := "" }]

def disruptiveActionToAPI (a : α) : DisruptiveAction :=
  let type := ApiEnum.ofText DisruptiveActionType.text DisruptiveActionType.all (lib.getKey a)
  match type with
  | .known .redirect => { type, value := actionValue lib a }
  | _ => { type, value := "" }

def secActionToAPI (source : SeclangActions α) : SecRuleActions where
  data := source.dataActions.map (dataActionToAPI lib)
  flow := source.flowActions.map (flowActionToAPI lib)
  nonDisruptive := source.nonDisruptiveActions.flatMap (nonDisruptiveActionToAPI lib)
  disruptiveAction := source.disruptiveAction.map (disruptiveActionToAPI lib)

/-- `actionToCSR`: an action without value is an `ActionOnly`. -/
def actionToCSR (targetType : CrsActionType) (value : String) : Except String α :=
  if value = "" then lib.newActionOnly targetType else lib.newActionWithParam targetType value

def dataActionToCSR (a : DataAction) : Except String α :=
  actionToCSR lib (.data (dataActionMapper a.type)) a.value

def disruptiveActionToCSR (a : DisruptiveAction) : Except String α :=
  actionToCSR lib (.disruptive (disruptiveActionMapper a.type)) a.value

def flowActionToCSR (a : FlowAction) : Except String α :=
  actionToCSR lib (.flow (flowActionMapper a.type)) a.value

def nonDisruptiveActionToCSR (a : NonDisruptiveAction) : Except String α :=
  actionToCSR lib (.nonDisruptive (nonDisruptiveActionMapper a.type)) a.value

/-- `SecActionToCSR`. A missing disruptive action stays missing. -/
def secActionToCSR (source : SecRuleActions) : Except String (SeclangActions α) := do
  let dataActions ← source.data.mapM (dataActionToCSR lib)
  let disruptiveAction ← source.disruptiveAction.mapM (disruptiveActionToCSR lib)
  let flowActions ← source.flow.mapM (flowActionToCSR lib)
  let nonDisruptiveActions ← source.nonDisruptive.mapM (nonDisruptiveActionToCSR lib)
  return { dataActions, disruptiveAction, flowActions, nonDisruptiveActions }

end

/-! ## An instance

crslang on the actions that have no parameter or one: an action prints as `key` or as
`key:'value'`, and the unknown types are refused. -/

structure PlainAction where
  key : String
  param : Option String := none
deriving DecidableEq

/-- The key of an action type, if it has one. -/
def CrsActionType.key? : CrsActionType → Option String
  | .data (.known t) => some t.text
  | .disruptive (.known t) => some t.text
  | .flow (.known t) => some t.text
  | .nonDisruptive (.known t) => some t.text
  | _ => none

def plainCrslang : Crslang PlainAction where
  getKey a := a.key
  toText a := match a.param with
    | none => a.key
    | some v => a.key ++ ":'" ++ v ++ "'"
  setvar _ := none
  newActionOnly t := match t.key? with
    | some key => .ok { key }
    | none => .error "unknown action"
  newActionWithParam t v := match t.key? with
    | some key => .ok { key, param := some v }
    | none => .error "unknown action"
  transformationString
    | .known .unknownTransformation | .unknown | .zero => "unknown"
    | .known t => t.text
    | .extra _ => "normalizePath"

end KubeWaf.Seclang
