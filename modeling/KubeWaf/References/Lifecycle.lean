import KubeWaf.Lib.Finalizers
import KubeWaf.References.Locking

/-!
# The life of a referenced rule

RuleSets and WAFs put a finalizer on the rules they reference (`lockObject`), take it off when they
are deleted (`CleanupBackReferences` of `internal/controller/controller.go`), and the controllers of
the rules look at it when a rule is deleted (`internal/controller/seclang/secrule_controller.go` and
`secaction_controller.go`, which do the same). This module has what these functions read and write:
finalizers, deletion marks and the back references in the status of a rule. Which rules an owner
references depends on specs, which users edit at any time, so an owner may lock any rule.

Each reconcile is one event, and its requests succeed, apart from the reads of the owners.
-/

namespace KubeWaf.References

open Lib Seclang

/-! ## Objects -/

inductive RuleKind where
  | secRule
  | secAction
deriving DecidableEq

structure RuleKey where
  kind : RuleKind
  ns : String
  name : String
deriving DecidableEq

inductive OwnerKind where
  | ruleSet
  | waf
deriving DecidableEq

def OwnerKind.text : OwnerKind → String
  | .ruleSet => "RuleSet"
  | .waf => "WAF"

structure OwnerKey where
  kind : OwnerKind
  ns : String
  name : String
deriving DecidableEq

/-- A SecRule or SecAction: its `status.ruleSetRefs`. -/
abbrev Rule := Finalized (List RuleSetRef)

/-- A RuleSet or WAF. -/
abbrev Owner := Finalized Unit

structure Lifecycle where
  rules : RuleKey → Option Rule
  owners : OwnerKey → Option Owner

namespace Lifecycle

def setRule (s : Lifecycle) (k : RuleKey) (x : Option Rule) : Lifecycle :=
  { s with rules := Function.update s.rules k x }

def setOwner (s : Lifecycle) (owner : OwnerKey) (y : Option Owner) : Lifecycle :=
  { s with owners := Function.update s.owners owner y }

variable (s : Lifecycle) (k : RuleKey) (x : Option Rule) (owner : OwnerKey) (y : Option Owner)

@[simp] lemma setOwner_rules : (s.setOwner owner y).rules = s.rules := rfl

@[simp] lemma setRule_rules_self : (s.setRule k x).rules k = x := Function.update_self _ _ _

@[simp] lemma setOwner_owners_self : (s.setOwner owner y).owners owner = y :=
  Function.update_self _ _ _

lemma setRule_rules_of_ne {k' : RuleKey} (h : k' ≠ k) : (s.setRule k x).rules k' = s.rules k' :=
  Function.update_of_ne h _ _

lemma setOwner_owners_of_ne {owner' : OwnerKey} (h : owner' ≠ owner) :
    (s.setOwner owner y).owners owner' = s.owners owner' :=
  Function.update_of_ne h _ _

end Lifecycle

/-- `controller.Finalizer` -/
def finalizer : String := "finalizer.kubewaf.io"

def wafFinalizer : String := "waf.kubewaf.io/ecds"

/-! ## Back references -/

/-- `ownerKindOf`: the kind in the type metadata, or else that of the Go type. -/
def ownerKindOf (typeKind : String) (owner : OwnerKey) : String :=
  if typeKind ≠ "" then typeKind else owner.kind.text

def matchesOwner (ref : RuleSetRef) (ownerKind ownerName ownerNS : String) : Bool :=
  if ref.name ≠ ownerName ∨ ref.ns ≠ ownerNS then false
  else if ownerKind = "" ∨ ref.kind = "" then true
  else ref.kind = ownerKind

def filterRefs (refs : List RuleSetRef) (ownerKind ownerName ownerNS : String) :
    List RuleSetRef × Bool :=
  (refs.filter fun ref => !matchesOwner ref ownerKind ownerName ownerNS,
    refs.any fun ref => matchesOwner ref ownerKind ownerName ownerNS)

/-- `stripSecRuleBackRef` and `stripSecActionBackRef` -/
def stripBackRef (x : Rule) (ownerKind ownerName ownerNS : String) : Option Rule :=
  let (filtered, removed) := filterRefs x.object ownerKind ownerName ownerNS
  if !removed then some x
  else
    let x := x.withObject filtered
    if 0 < filtered.length then some x else x.removeFinalizers [ruleSetRefFinalizer]

/-! ## Reconciles -/

/-- `Reconcile` of a SecRule or SecAction, as far as finalizers go. With a deletion mark the owners
are fetched, but whether they are there makes no difference: only a read that fails in another way
(`fetchFails`) puts the removal off. -/
def reconcileRule (fetchFails : RuleSetRef → Bool) (x : Rule) : Option Rule :=
  if x.deleting then
    if x.object.any fetchFails then some x
    else x.removeFinalizers [ruleSetRefFinalizer, finalizer]
  else some (x.addFinalizer finalizer)

/-- The finalizers that the reconciler of an owner puts on it. -/
def OwnerKind.finalizers : OwnerKind → List String
  | .ruleSet => [finalizer]
  | .waf => [wafFinalizer, finalizer]

def cleanupBackReferences (s : Lifecycle) (typeKind : String) (owner : OwnerKey) : Lifecycle :=
  { s with rules := fun k => (s.rules k).bind fun x =>
      stripBackRef x (ownerKindOf typeKind owner) owner.name owner.ns }

/-- `Reconcile` of a RuleSet or WAF, apart from the rules it locks. -/
def reconcileOwner (s : Lifecycle) (typeKind : String) (owner : OwnerKey) (y : Owner) : Lifecycle :=
  if y.deleting then
    (cleanupBackReferences s typeKind owner).setOwner owner
      (y.removeFinalizers owner.kind.finalizers)
  else s.setOwner owner (some (owner.kind.finalizers.foldl Finalized.addFinalizer y))

/-- What users do. -/
inductive UserEvent where
  | createRule (k : RuleKey)
  | deleteRule (k : RuleKey)
  | createOwner (owner : OwnerKey)
  | deleteOwner (owner : OwnerKey)
deriving DecidableEq

inductive LifecycleEvent where
  | user (e : UserEvent)
  /-- An owner locks a rule that it references. -/
  | lock (owner : OwnerKey) (k : RuleKey)
  /-- An owner locks a RuleSet that it references. -/
  | lockRuleSet (owner ruleSet : OwnerKey)
  | reconcileRule (k : RuleKey) (fetchFails : RuleSetRef → Bool)
  /-- A typed client may leave the type metadata of the owner empty. -/
  | reconcileOwner (owner : OwnerKey) (typeMeta : Bool)

/-- A request that the API server refuses changes nothing. -/
def Lifecycle.userStep (s : Lifecycle) : UserEvent → Lifecycle
  | .createRule k => s.setRule k (some ((s.rules k).getD (.new [])))
  | .deleteRule k => s.setRule k ((s.rules k).bind Finalized.delete)
  | .createOwner owner => s.setOwner owner (some ((s.owners owner).getD (.new ())))
  | .deleteOwner owner => s.setOwner owner ((s.owners owner).bind Finalized.delete)

/-- The update of `lockObject` keeps the stored status, so the back reference that it adds is
lost. -/
def lockRule (x : Rule) : Rule := x.addFinalizer ruleSetRefFinalizer

def Lifecycle.step (s : Lifecycle) : LifecycleEvent → Lifecycle
  | .user e => s.userStep e
  | .lock owner k =>
    if (s.owners owner).any (!·.deleting) then s.setRule k ((s.rules k).map lockRule) else s
  | .lockRuleSet owner ruleSet =>
    if (s.owners owner).any (!·.deleting) ∧ ruleSet.kind = .ruleSet then
      s.setOwner ruleSet ((s.owners ruleSet).map (·.addFinalizer ruleSetRefFinalizer))
    else s
  | .reconcileRule k fetchFails =>
    s.setRule k ((s.rules k).bind (References.reconcileRule fetchFails))
  | .reconcileOwner owner typeMeta =>
    match s.owners owner with
    | none => s
    | some y => References.reconcileOwner s (if typeMeta then owner.kind.text else "") owner y

def Lifecycle.run (s : Lifecycle) (events : List LifecycleEvent) : Lifecycle :=
  events.foldl Lifecycle.step s

/-! ## The lock is that of the resolver -/

end KubeWaf.References
