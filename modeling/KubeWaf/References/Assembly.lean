import KubeWaf.Lib.StableSort
import KubeWaf.References.Cluster
import KubeWaf.Seclang.Render

/-!
# Assembling SecLang

`internal/references2/helpers.go`: the resolved rules are sorted by an order key and rendered
one after the other.
-/

namespace KubeWaf.References

open Lib Seclang

/-- `langItem`, a rule or an action to assemble. -/
inductive LangItem where
  | secRule (sr : SecRule)
  | secAction (sa : SecAction)
deriving DecidableEq

/-- The item of an object; other kinds have none. -/
def Object.langItem? (o : Object) : Option LangItem :=
  match o.content with
  | .secRule spec status => some (.secRule ⟨o.ns, o.name, spec, status⟩)
  | .secAction spec status => some (.secAction ⟨o.ns, o.name, spec, status⟩)
  | _ => none

def countSecLangObjects (objects : List Object) : ℕ × ℕ :=
  (objects.countP fun o => o.kind == "SecRule", objects.countP fun o => o.kind == "SecAction")

/-! ## Order -/

/-- `math.MaxInt32` -/
def maxInt32 : Int := 2147483647

/-- The id of the first entry of a bag that has one. -/
def firstBagID (rules : List SecLangSecRule) : Option Int :=
  rules.findSome? fun rule => rule.metadata.bind fun m => if 0 < m.id then some m.id else none

def secRuleSortKey (sr : SecRule) : Int :=
  if sr.spec.order ≠ 0 then sr.spec.order
  else if 0 < sr.status.ruleID then sr.status.ruleID
  else
    match sr.spec.metadata.bind fun m => if 0 < m.id then some m.id else none with
    | some id => id
    | none => (firstBagID sr.spec.secRules).getD maxInt32

def secActionSortKey (sa : SecAction) : Int :=
  match sa.spec.metadata.bind fun m => if 0 < m.id then some m.id else none with
  | some id => id
  | none => maxInt32

namespace LangItem

def kind : LangItem → String
  | .secRule _ => "SecRule"
  | .secAction _ => "SecAction"

def key : LangItem → Int
  | .secRule sr => secRuleSortKey sr
  | .secAction sa => secActionSortKey sa

def ns : LangItem → String
  | .secRule sr => sr.ns
  | .secAction sa => sa.ns

def name : LangItem → String
  | .secRule sr => sr.name
  | .secAction sa => sa.name

/-- The comparison that `GetSecLang` sorts with. -/
def less (a b : LangItem) : Bool :=
  if a.key ≠ b.key then a.key < b.key
  else if a.name ≠ b.name then a.name < b.name
  else a.kind < b.kind

/-- What the comparison compares. -/
def rank (a : LangItem) : Int ×ₗ String ×ₗ String := toLex (a.key, toLex (a.name, a.kind))

lemma less_iff {a b : LangItem} : less a b = true ↔ a.rank < b.rank := by
  unfold less rank
  rw [Prod.Lex.toLex_lt_toLex]
  simp only [Prod.Lex.toLex_lt_toLex]
  split_ifs with hkey hname <;> simp_all

lemma not_less_iff (a b : LangItem) : less b a = false ↔ a.rank ≤ b.rank := by
  rw [← Bool.not_eq_true, less_iff, not_lt]

end LangItem

/-- `sort.SliceStable` with that comparison. -/
def sortItems (items : List LangItem) : List LangItem :=
  items.insertionSort fun a b => LangItem.less b a = false

lemma sortItems_perm (items : List LangItem) : (sortItems items).Perm items :=
  List.perm_insertionSort _ items

/-! ## Rendering -/

section
variable {α : Type} (lib : Crslang α) (text : List (SeclangDirective α) → String)

def renderItem : LangItem → Except String (RenderResult α)
  | .secRule sr =>
    match renderSecRule lib text sr sr.status.assignedIDs with
    | .error e => .error ("secrule " ++ sr.ns ++ "/" ++ sr.name ++ ": " ++ e)
    | .ok res => .ok res
  | .secAction sa => renderSecAction lib text sa

/-- `GetSecLang`, with the directives behind each text. -/
def assemble (objects : List Object) : Except String (List (RenderResult α)) :=
  (sortItems (objects.filterMap Object.langItem?)).mapM (renderItem lib text)

def getSecLang (objects : List Object) : Except String (List String) :=
  (assemble lib text objects).map (List.map (·.secLang))

end

/-- A SecRule object of one namespace. -/
def ruleObject (name : String) (spec : SecRuleSpec) : Object where
  group := "seclang.kubewaf.io"
  version := "v1beta1"
  ns := "shop"
  name
  content := .secRule spec {}

/-- A match entry on the request URI. -/
def uriMatch (name : OperatorType) (value : String) : Match where
  vars := [⟨.known .REQUEST_URI, false⟩]
  operator := { name := .known name, value }

end KubeWaf.References
