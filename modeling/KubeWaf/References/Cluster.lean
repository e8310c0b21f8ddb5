import KubeWaf.Lib.GoStrings
import KubeWaf.Seclang.Types
import Mathlib.Data.List.Sort
import Mathlib.Data.Prod.Lex
import Mathlib.Data.String.Basic

/-!
# The objects the resolver reads and writes

Stored objects, the references between them and the API server's answers to `Get`, `List`
and `Update`. The API server stores an object of one of the three rule kinds only when it
fits the schema of its kind, so a stored object is decoded once and for all (`Content`), and
`FromUnstructured` cannot fail on it.

The parts of apimachinery the resolver calls are parameters (`Apimachinery`).
-/

namespace KubeWaf.References

open Lib Seclang

structure GroupVersionKind where
  group : String
  version : String
  kind : String
deriving DecidableEq

/-! ## Label selectors -/

abbrev Labels := List (String × String)

structure LabelSelectorRequirement where
  key : String
  operator : String
  values : List String := []
deriving DecidableEq

/-- `metav1.LabelSelector`. -/
structure LabelSelector where
  matchLabels : Labels := []
  matchExpressions : List LabelSelectorRequirement := []
deriving DecidableEq

/-- What the resolver takes from apimachinery and from the client. -/
structure Apimachinery where
  /-- `metav1.LabelSelectorAsSelector`, with the method `Matches` of its result. -/
  labelSelectorAsSelector : LabelSelector → Except String (Labels → Bool)
  /-- The error of a read of a kind that the API server does not serve. -/
  noMatchError : GroupVersionKind → Option String
  /-- The error of `Get` for an object that does not exist. -/
  notFoundError : GroupVersionKind → String → String

/-- One requirement of a selector, as `LabelSelectorAsSelector` reads it. -/
def requirementMatches (r : LabelSelectorRequirement) : Except String (Labels → Bool) :=
  match r.operator with
  | "In" =>
    if r.values.isEmpty then .error "for 'in', 'notin' operators, values set can't be empty"
    else .ok fun labels => (labels.lookup r.key).any (r.values.contains ·)
  | "NotIn" =>
    if r.values.isEmpty then .error "for 'in', 'notin' operators, values set can't be empty"
    else .ok fun labels => (labels.lookup r.key).all fun v => !r.values.contains v
  | "Exists" =>
    if r.values.isEmpty then .ok fun labels => (labels.lookup r.key).isSome
    else .error "values set must be empty for exists and does not exist"
  | "DoesNotExist" =>
    if r.values.isEmpty then .ok fun labels => (labels.lookup r.key).isNone
    else .error "values set must be empty for exists and does not exist"
  | op => .error (Go.quoted op ++ " is not a valid label selector operator")

/-- The behaviour that Kubernetes documents, on a server with the kinds of this project. -/
def kubernetes : Apimachinery where
  labelSelectorAsSelector sel := do
    let requirements ← sel.matchExpressions.mapM requirementMatches
    return fun labels =>
      (sel.matchLabels.all fun l => labels.lookup l.1 == some l.2) &&
        requirements.all (· labels)
  noMatchError gvk :=
    if gvk ∈ [⟨"seclang.kubewaf.io", "v1beta1", "SecRule"⟩,
        ⟨"seclang.kubewaf.io", "v1beta1", "SecAction"⟩,
        ⟨"waf.kubewaf.io", "v1beta1", "RuleSet"⟩, ⟨"", "v1", "ConfigMap"⟩] then none
    else some ("no matches for kind " ++ Go.quoted gvk.kind ++ " in version "
      ++ Go.quoted (gvk.group ++ "/" ++ gvk.version))
  notFoundError gvk name :=
    gvk.kind ++ "." ++ gvk.group ++ " " ++ Go.quoted name ++ " not found"

/-! ## References -/

structure RuleRef where
  kind : String := ""
  name : String := ""
  ns : String := ""
  version : String := ""
  group : String := ""
  selector : Option LabelSelector := none
deriving DecidableEq

/-- `gatewayv1.FromNamespaces` -/
inductive FromNamespaces where
  | All | Selector | Same | None
deriving DecidableEq

def FromNamespaces.text : FromNamespaces → String
  | .All => "All"
  | .Selector => "Selector"
  | .Same => "Same"
  | .None => "None"

/-- `RuleNamespaces`, the policy of a RuleSet about other namespaces. -/
structure RuleNamespaces where
  fromNs : Option (ApiEnum FromNamespaces) := none
  selector : Option LabelSelector := none
deriving DecidableEq

/-- `RuleSetSpec`, without the phrase and IP lists, which only the publisher reads. -/
structure RuleSetSpec where
  ruleRefs : List RuleRef := []
  allowedRules : RuleNamespaces := {}
deriving DecidableEq

structure RuleSet where
  ns : String
  name : String
  spec : RuleSetSpec
deriving DecidableEq

/-- `WAF`, with the references of its spec. -/
structure WAF where
  ns : String
  name : String
  ruleSetRefs : List RuleRef := []
deriving DecidableEq

/-! ## Stored objects -/

/-- A kind other than the three that the resolver decodes. -/
def OtherKind : Type := {kind : String // kind ∉ ["SecRule", "SecAction", "RuleSet"]}
deriving DecidableEq

/-- The kind of an object, with its spec and status. -/
inductive Content where
  | secRule (spec : SecRuleSpec) (status : SecRuleStatus)
  | secAction (spec : SecActionSpec) (status : SecActionStatus)
  | ruleSet (spec : RuleSetSpec)
  | other (kind : OtherKind)
deriving DecidableEq

def Content.kind : Content → String
  | .secRule .. => "SecRule"
  | .secAction .. => "SecAction"
  | .ruleSet _ => "RuleSet"
  | .other k => k.val

/-- `unstructured.Unstructured` -/
@[ext] structure Object where
  group : String
  version : String
  ns : String
  name : String
  labels : Labels := []
  finalizers : List String := []
  content : Content
deriving DecidableEq

namespace Object

/-- `GetKind` -/
def kind (o : Object) : String := o.content.kind

def gvk (o : Object) : GroupVersionKind := ⟨o.group, o.version, o.kind⟩

/-- The decoded object, when it is a RuleSet. -/
def asRuleSet (o : Object) : Option RuleSet :=
  match o.content with
  | .ruleSet spec => some ⟨o.ns, o.name, spec⟩
  | _ => none

/-- The back references stored on a SecRule or SecAction. -/
def ruleSetRefs (o : Object) : List RuleSetRef :=
  match o.content with
  | .secRule _ status => status.ruleSetRefs
  | .secAction _ status => status.ruleSetRefs
  | _ => []

end Object

/-- What makes a stored object unique: its kind within its group, namespace and name, in the
order in which the API server lists objects. -/
abbrev ObjectKey := String ×ₗ String ×ₗ String ×ₗ String

def Object.key (o : Object) : ObjectKey := toLex (o.group, toLex (o.kind, toLex (o.ns, o.name)))

lemma Object.key_eq_iff {o o' : Object} :
    o.key = o'.key ↔ o.group = o'.group ∧ o.kind = o'.kind ∧ o.ns = o'.ns ∧ o.name = o'.name := by
  simp [Object.key]

/-- `corev1.Namespace` -/
structure Namespace where
  name : String
  labels : Labels := []
deriving DecidableEq

/-- The kind of RuleSets. -/
def ruleSetGVK : GroupVersionKind := ⟨"waf.kubewaf.io", "v1beta1", "RuleSet"⟩

lemma noWAFs_nodup : (([] : List WAF).map fun w => (w.ns, w.name)).Nodup := List.nodup_nil

/-- What the API server stores, with the objects in the order in which it lists them. -/
structure Cluster where
  objects : List Object := []
  wafs : List WAF := []
  namespaces : List Namespace := []
  sorted : objects.Pairwise fun o o' => o.key < o'.key := by decide
  wafs_nodup : (wafs.map fun w => (w.ns, w.name)).Nodup := by decide

namespace Cluster

lemma keys_nodup (c : Cluster) : (c.objects.map Object.key).Nodup := by
  rw [List.Nodup, List.pairwise_map]
  exact c.sorted.imp fun h => h.ne

/-! ## Reading -/

/-- `Get` of one object of a dynamic kind. -/
def get (api : Apimachinery) (c : Cluster) (gvk : GroupVersionKind) (name ns : String) :
    Except String Object :=
  match api.noMatchError gvk with
  | some e => .error e
  | none =>
    match c.objects.find? fun o => o.gvk == gvk && o.ns == ns && o.name == name with
    | some o => .ok o
    | none => .error (api.notFoundError gvk name)

/-- `List` with a label selector. The client takes the kind of the items from the kind of
the list, without its suffix. -/
def list (api : Apimachinery) (c : Cluster) (listGVK : GroupVersionKind)
    (selector : Labels → Bool) : Except String (List Object) :=
  let gvk := { listGVK with kind := Go.trimSuffixStr listGVK.kind "List" }
  match api.noMatchError gvk with
  | some e => .error e
  | none => .ok (c.objects.filter fun o => o.gvk == gvk && selector o.labels)

/-- `Get` of a namespace. -/
def getNamespace (api : Apimachinery) (c : Cluster) (name : String) : Except String Namespace :=
  match c.namespaces.find? fun ns => ns.name == name with
  | some ns => .ok ns
  | none => .error (api.notFoundError ⟨"", "v1", "Namespace"⟩ name)

/-! ## Writing -/

/-- The stored object after a plain `Update` to `new`: SecRule and SecAction have a status
subresource, so their stored status stays. -/
def merged (stored new : Object) : Object :=
  { stored with
    labels := new.labels
    finalizers := new.finalizers
    content :=
      match stored.content, new.content with
      | .secRule _ status, .secRule spec _ => .secRule spec status
      | .secAction _ status, .secAction spec _ => .secAction spec status
      | .ruleSet _, .ruleSet spec => .ruleSet spec
      | content, _ => content }

lemma merged_kind (stored new : Object) : (merged stored new).kind = stored.kind := by
  unfold merged Object.kind
  cases stored.content <;> cases new.content <;> rfl

lemma merged_key (stored new : Object) : (merged stored new).key = stored.key := by
  rw [Object.key_eq_iff, merged_kind]
  exact ⟨rfl, rfl, rfl, rfl⟩

/-- The objects after an `Update` to `new`. -/
def updatedObjects (objects : List Object) (new : Object) : List Object :=
  objects.map fun o => if o.key = new.key then merged o new else o

lemma updatedObjects_keys (objects : List Object) (new : Object) :
    (updatedObjects objects new).map Object.key = objects.map Object.key := by
  rw [updatedObjects, List.map_map]
  refine List.map_congr_left fun o _ => ?_
  by_cases ho : o.key = new.key
  · simp [if_pos ho, merged_key]
  · simp [if_neg ho]

def update (c : Cluster) (new : Object) : Cluster :=
  { c with
    objects := updatedObjects c.objects new
    sorted := by
      rw [← List.pairwise_map (f := Object.key), updatedObjects_keys, List.pairwise_map]
      exact c.sorted }

end Cluster

end KubeWaf.References
