import KubeWaf.Lib.InsertBehind
import KubeWaf.Seclang.Collapse

/-!
# Putting `initcol` actions back

`ConvertToSecLangString` (`api/seclang/v1beta1/convert/secrule.go`) collapses the text that crslang
prints. crslang prints one action for each key, so `expandMultiInitcol` collects the `initcol`
parameters of all directives and puts those that the text does not contain behind the first
`initcol:` of the text.
-/

namespace KubeWaf.Seclang

open Lib

/-- An action as `expandMultiInitcol` sees it: its key, what `GetParam` gives where the action has
that method, and its text. -/
structure PrintableAction where
  key : List Char
  getParam : Option (List Char)
  text : List Char
deriving DecidableEq

/-- The parameter of an `initcol` action. -/
def PrintableAction.param (a : PrintableAction) : List Char :=
  match a.getParam with
  | some p => p
  | none =>
    Go.trimFunc (fun c => c == '\'' || c == '"') (Go.trimPrefix a.text "initcol:".toList)

/-- A `SecRule` or `SecAction` without its chained rule: the non-disruptive actions, where it has
actions. -/
structure ChainLink where
  nonDisruptive : Option (List PrintableAction)
deriving DecidableEq

/-- The `initcol` parameters of a link. -/
def ChainLink.params (l : ChainLink) : List (List Char) :=
  match l.nonDisruptive with
  | none => []
  | some actions =>
    ((actions.filter fun a => a.key == "initcol".toList).map PrintableAction.param).filter
      fun p => !p.isEmpty

/-- An unformatted directive: a rule or an action with the rules chained to it, or a directive
without actions. -/
inductive PlainDirective
  | chain (first : ChainLink) (chained : List ChainLink)
  | other
deriving DecidableEq

/-- The links of a directive, in the order in which they are printed. -/
def PlainDirective.links : PlainDirective → List ChainLink
  | .chain first chained => first :: chained
  | .other => []

/-- `collect` on a rule and the rules chained to it: the chained rule comes first. -/
def collectLinks : List ChainLink → List (List Char)
  | [] => []
  | l :: chained => collectLinks chained ++ l.params

def PlainDirective.collect (d : PlainDirective) : List (List Char) := collectLinks d.links

/-- What ends an action in the text. -/
def endsAction (c : Char) : Bool := c == ',' || c == '"' || c == '\n'

def initcolKey : List Char := "initcol:".toList

def initcolToken (p : List Char) : List Char := initcolKey ++ p

/-- One round of the loop of `expandMultiInitcol`. -/
def insertMissing (raw p : List Char) : List Char :=
  if Go.contains raw (initcolToken p) then raw
  else
    match cutBehind initcolKey endsAction raw with
    | none => raw
    | some (upto, behind) => upto ++ ',' :: (initcolToken p ++ behind)

def expandMultiInitcol (raw : List Char) (dirs : List PlainDirective) : List Char :=
  let params := dirs.flatMap PlainDirective.collect
  if params.length ≤ 1 then raw else params.foldl insertMissing raw

/-- `ConvertToSecLangString`, with the text that crslang prints for the directives. -/
def convertToSecLangString (run : MapOrder) (printed : List Char) (dirs : List PlainDirective) :
    List Char :=
  expandMultiInitcol (collapseSecLangLineContinuations run printed) dirs

/-! ## Action lists in the text -/

/-- The action list holds the token of a parameter. -/
def HasToken (actions p : List Char) : Prop := initcolToken p ∈ actions.splitOnP endsAction

instance (actions p : List Char) : Decidable (HasToken actions p) :=
  inferInstanceAs (Decidable (_ ∈ _))

/-- A link in the text: what stands ahead of its action list, and the action list. -/
structure PrintedLink where
  link : ChainLink
  ahead : List Char
  actions : List Char
deriving DecidableEq

/-- The link's part of the text: the quote in the middle is the one behind the operator, or the one
ahead of the action list of a `SecAction`. -/
def PrintedLink.segment (l : PrintedLink) : List Char × List Char := (l.ahead, l.actions)

def PrintedLink.params (l : PrintedLink) : List (List Char) := l.link.params

/-- The text of the links. -/
def linksText (links : List PrintedLink) (tail : List Char) : List Char :=
  framed '"' (links.map PrintedLink.segment) tail

/-- How the collapsed text of crslang is made up: one part for each link with actions, and in each
action list only `initcol` tokens of the link itself. -/
structure Rendering (run : MapOrder) (printed : List Char) (dirs : List PlainDirective) where
  links : List PrintedLink
  tail : List Char
  links_eq : links.map PrintedLink.link
    = (dirs.flatMap PlainDirective.links).filter fun l => l.nonDisruptive.isSome
  text_eq : collapseSecLangLineContinuations run printed = linksText links tail
  own : ∀ l ∈ links, ∀ p, HasToken l.actions p → p ∈ l.params

/-- The action list has a token for each parameter of its link, and for no parameter that only
others of the links have. -/
def PrintedLink.Holds (links : List PrintedLink) (l : PrintedLink) : Prop :=
  (∀ p ∈ l.params, HasToken l.actions p) ∧
    ∀ other ∈ links, ∀ p ∈ other.params, p ∉ l.params → ¬ HasToken l.actions p

/-- The text is that of the same links, with action lists that have as many quotes as before and
hold what belongs to their link. -/
def StayWithRules {run : MapOrder} {printed : List Char} {dirs : List PlainDirective}
    (r : Rendering run printed dirs) (out : List Char) : Prop :=
  ∃ links, links.map (fun l => (l.link, l.ahead, l.actions.count '"'))
      = r.links.map (fun l => (l.link, l.ahead, l.actions.count '"')) ∧
    out = linksText links r.tail ∧ ∀ l ∈ links, l.Holds links

end KubeWaf.Seclang
