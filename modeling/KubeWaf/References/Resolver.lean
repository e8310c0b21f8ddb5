import KubeWaf.References.Cluster

/-!
# Resolving rule references

`internal/references2/resolver.go`. `reconcileRefs` expands the references of an owner into
objects, descending into every RuleSet it meets. It keeps no record of the RuleSets it has
been to, so the model bounds the depth of the recursion, and `none` says that the bound was
reached. With `lock` it also writes to the objects, so the state of the API server is passed
along.
-/

namespace KubeWaf.References

open Lib Seclang

/-! ## Owners -/

/-- The owner of a list of references. `typeKind` is the kind in the object's own type
metadata, which a typed client may leave empty. -/
inductive Source where
  | waf (typeKind : String) (w : WAF)
  | ruleSet (typeKind : String) (rs : RuleSet)
  | unstructured (o : Object)
deriving DecidableEq

namespace Source

/-- `GetNamespace` -/
def ns : Source → String
  | .waf _ w => w.ns
  | .ruleSet _ rs => rs.ns
  | .unstructured o => o.ns

/-- `GetName` -/
def name : Source → String
  | .waf _ w => w.name
  | .ruleSet _ rs => rs.name
  | .unstructured o => o.name

/-- `GetObjectKind().GroupVersionKind().Kind` -/
def kind : Source → String
  | .waf typeKind _ => typeKind
  | .ruleSet typeKind _ => typeKind
  | .unstructured o => o.kind

end Source

def namespacesPolicy : Source → Option RuleNamespaces
  | .ruleSet _ rs => some rs.spec.allowedRules
  | .unstructured o => o.asRuleSet.map (·.spec.allowedRules)
  | .waf .. => none

/-! ## Errors -/

/-- The errors of `allowedObject`. -/
inductive AllowedError where
  | crossNamespace (sourceNs sourceName ns name : String)
  | selectorRequired
  | getNamespace (ns err : String)
  | invalidSelector (err : String)
  | selectorMismatch (ns : String)
  | unknownFrom (fromText : String)
deriving DecidableEq

def AllowedError.text : AllowedError → String
  | .crossNamespace sourceNs sourceName ns name =>
    "cross-namespace reference from " ++ sourceNs ++ "/" ++ sourceName ++ " to " ++ ns ++ "/"
      ++ name ++ " not allowed (allowedRules.from=Same)"
  | .selectorRequired => "allowedRules.selector required when from=Selector"
  | .getNamespace ns err => "failed to get namespace " ++ ns ++ ": " ++ err
  | .invalidSelector err => "invalid allowedRules.selector: " ++ err
  | .selectorMismatch ns => "namespace " ++ ns ++ " does not match allowedRules.selector"
  | .unknownFrom fromText => "unknown allowedRules.from " ++ Go.quoted fromText

/-- The error of an `Update`, as `apierrors.IsConflict` tells them apart. -/
inductive UpdateError where
  | conflict (err : String)
  | other (err : String)
deriving DecidableEq

inductive ReferenceCause where
  | lookupRef (err : String)
  | allowedObject (err : AllowedError)
  | lockObject (err : String)
deriving DecidableEq

def ReferenceCause.text : ReferenceCause → String
  | .lookupRef err => "lookupRef=" ++ err
  | .allowedObject err => "allowedObject=" ++ err.text
  | .lockObject err => "lockObject=" ++ err

structure ReferenceError where
  index : ℕ
  ref : RuleRef
  err : ReferenceCause
deriving DecidableEq

/-- `ReferenceError.Error` -/
def ReferenceError.error (e : ReferenceError) : String :=
  "RuleRef[" ++ toString e.index ++ "] (kind=" ++ e.ref.kind ++ " name=" ++ e.ref.name ++ "): "
    ++ e.err.text

/-! ## Looking a reference up -/

def applyRuleRefDefaults (ref : RuleRef) (ownerNS : String) : RuleRef :=
  let ref := if ref.ns = "" then { ref with ns := ownerNS } else ref
  let version := if ref.version = "" then "v1beta1" else ref.version
  if ref.kind = "SecRule" ∨ ref.kind = "SecAction" then
    { ref with
      group := if ref.group = "" then "seclang.kubewaf.io" else ref.group
      version := version }
  else if ref.kind = "RuleSet" ∨ ref.kind = "" then
    { ref with
      kind := "RuleSet"
      group := if ref.group = "" then "waf.kubewaf.io" else ref.group
      version := version }
  else ref

def RuleRef.gvk (ref : RuleRef) : GroupVersionKind := ⟨ref.group, ref.version, ref.kind⟩

/-- The kind of a list of objects of a kind. -/
def listKind (kind : String) : String :=
  if Go.hasSuffixStr kind "List" then kind else kind ++ "List"

section
variable (api : Apimachinery) (c : Cluster)

def getDynamicObjects (gvk : GroupVersionKind) (name ns : String) : Except String (List Object) :=
  (c.get api gvk name ns).map fun o => [o]

/-- `listDynamicObjects`: the namespace of the reference is not passed on. -/
def listDynamicObjects (gvk : GroupVersionKind) (selector : Labels → Bool) :
    Except String (List Object) :=
  c.list api { gvk with kind := listKind gvk.kind } selector

def lookupRef (ref : RuleRef) : Except String (List Object) :=
  match ref.selector with
  | some sel =>
    match api.labelSelectorAsSelector sel with
    | .error e => .error e
    | .ok selector => listDynamicObjects api c ref.gvk selector
  | none =>
    if ref.name ≠ "" then getDynamicObjects api c ref.gvk ref.name ref.ns
    else .error "wrong reference definition"

/-! ## Policy -/

/-- The part of `allowedObject` for `From=Selector`. -/
def allowedBySelector (selector : Option LabelSelector) (ns : String) : Option AllowedError :=
  match selector with
  | none => some .selectorRequired
  | some sel =>
    match c.getNamespace api ns with
    | .error e => some (.getNamespace ns e)
    | .ok stored =>
      match api.labelSelectorAsSelector sel with
      | .error e => some (.invalidSelector e)
      | .ok selector => if selector stored.labels then none else some (.selectorMismatch ns)

/-- `allowedObject`: `none` when the reference is allowed. -/
def allowedObject (o : Object) (source : Source) : Option AllowedError :=
  if source.ns = o.ns then none
  else
    match namespacesPolicy source with
    | none => none
    | some policy =>
      match policy.fromNs.getD (.known .Same) with
      | .known .All => none
      | .known .Same | .text "" => some (.crossNamespace source.ns source.name o.ns o.name)
      | .known .Selector => allowedBySelector api c policy.selector o.ns
      | .known .None => some (.unknownFrom FromNamespaces.None.text)
      | .text s => some (.unknownFrom s)

end

/-! ## Locking -/

/-- `controller.RuleSetRefFinalizer` -/
def ruleSetRefFinalizer : String := "ruleSetRef.kubewaf.io"

/-- `controllerutil.AddFinalizer` -/
def addFinalizer (o : Object) (finalizer : String) : Object × Bool :=
  if finalizer ∈ o.finalizers then (o, false)
  else ({ o with finalizers := o.finalizers ++ [finalizer] }, true)

/-- The entry that `AddRuleSetRef` writes for an owner. -/
def Source.backRef (source : Source) : RuleSetRef := ⟨source.kind, source.ns, source.name⟩

/-- `AddRuleSetRef` on the back references of a SecRule or a SecAction. -/
def addRuleSetRef (refs : List RuleSetRef) (source : Source) : List RuleSetRef × Bool :=
  if source.backRef ∈ refs then (refs, false) else (refs ++ [source.backRef], true)

/-- The back reference written onto a dynamic object. -/
def addBackRef (o : Object) (source : Source) : Object × Bool :=
  match o.content with
  | .secRule spec status =>
    let (refs, updated) := addRuleSetRef status.ruleSetRefs source
    ({ o with content := .secRule spec { status with ruleSetRefs := refs } }, updated)
  | .secAction spec status =>
    let (refs, updated) := addRuleSetRef status.ruleSetRefs source
    ({ o with content := .secAction spec { status with ruleSetRefs := refs } }, updated)
  | _ => (o, false)

/-- The API server between two calls: what it stores, and the number of updates it has been
sent, by which the environment decides which of them fail. -/
structure State where
  cluster : Cluster
  updates : ℕ := 0

section
variable (api : Apimachinery) (faults : ℕ → Option UpdateError)

/-- The client's `Update`: the object as the server answers it, or the error. -/
def sendUpdate (o : Object) (st : State) : Except UpdateError Object × State :=
  let st' := { st with updates := st.updates + 1 }
  match faults st.updates with
  | some e => (.error e, st')
  | none =>
    match st.cluster.objects.find? fun stored => stored.key == o.key with
    | none => (.error (.other (api.notFoundError o.gvk o.name)), st')
    | some stored => (.ok (Cluster.merged stored o), { st' with cluster := st.cluster.update o })

/-- `lockObject`: the error, the object as it is in memory afterwards, and the new state. -/
def lockObject (o : Object) (source : Source) (st : State) :
    Option UpdateError × Object × State :=
  let (o, updatedFirst) := addFinalizer o ruleSetRefFinalizer
  let (o, updatedSecond) := addBackRef o source
  if updatedFirst || updatedSecond then
    match sendUpdate api faults o st with
    | (.error e, st) => (some e, o, st)
    | (.ok stored, st) => (none, stored, st)
  else (none, o, st)

/-! ## The expansion -/

/-- What a call returns: the objects and the reference errors, both in order. -/
structure Outcome where
  objects : List Object := []
  errors : List ReferenceError := []
deriving DecidableEq

def Outcome.append (a b : Outcome) : Outcome := ⟨a.objects ++ b.objects, a.errors ++ b.errors⟩

/-- A call of the resolver: references, owner and state to outcome and state. -/
abbrev Call := List RuleRef → Source → State → Option (Outcome × State)

/-- An object that passed the policy and the lock: a RuleSet is expanded before it is
appended itself. -/
def expandObject (rec : Call) (o : Object) (st : State) : Option (Outcome × State) :=
  match o.asRuleSet with
  | some rs => do
    let (nested, st) ← rec rs.spec.ruleRefs (.ruleSet o.kind rs) st
    some (nested.append { objects := [o] }, st)
  | none => some ({ objects := [o] }, st)

/-- One round of the inner loop of `reconcileRefs`. -/
def visitObject (rec : Call) (lock : Bool) (ref : RuleRef) (source : Source) (o : Object)
    (st : State) : Option (Outcome × State) :=
  match allowedObject api st.cluster o source with
  | some e => some ({ errors := [⟨1, ref, .allowedObject e⟩] }, st)
  | none =>
    if lock then
      match lockObject api faults o source st with
      | (some (.other e), _, st) => some ({ errors := [⟨2, ref, .lockObject e⟩] }, st)
      | (_, o, st) => expandObject rec o st
    else expandObject rec o st

/-- The inner loop of `reconcileRefs`, over the objects a reference was looked up to. -/
def visitObjects (rec : Call) (lock : Bool) (ref : RuleRef) (source : Source) :
    List Object → State → Option (Outcome × State)
  | [], st => some ({}, st)
  | o :: os, st => do
    let (a, st) ← visitObject api faults rec lock ref source o st
    let (b, st) ← visitObjects rec lock ref source os st
    some (a.append b, st)

/-- One round of the outer loop of `reconcileRefs`. -/
def visitRef (rec : Call) (lock : Bool) (source : Source) (ref : RuleRef) (st : State) :
    Option (Outcome × State) :=
  match lookupRef api st.cluster (applyRuleRefDefaults ref source.ns) with
  | .error e => some ({ errors := [⟨0, ref, .lookupRef e⟩] }, st)
  | .ok items => visitObjects api faults rec lock ref source items st

/-- The outer loop of `reconcileRefs`, over the references. -/
def visitRefs (rec : Call) (lock : Bool) (source : Source) :
    List RuleRef → State → Option (Outcome × State)
  | [], st => some ({}, st)
  | ref :: refs, st => do
    let (a, st) ← visitRef api faults rec lock source ref st
    let (b, st) ← visitRefs rec lock source refs st
    some (a.append b, st)

/-- `reconcileRefs`, with recursion to the given depth. -/
def reconcileRefs (lock : Bool) : ℕ → Call
  | 0, _, _, _ => none
  | n + 1, refs, source, st =>
    visitRefs api faults (reconcileRefs lock n) lock source refs st

def addUpdateReconcile (n : ℕ) : Call := reconcileRefs api faults true n

end

/-- `Resolve`: nothing is written, so the state and the fate of updates play no role. -/
def resolve (api : Apimachinery) (c : Cluster) (n : ℕ) (refs : List RuleRef) (source : Source) :
    Option Outcome :=
  (reconcileRefs api (fun _ => none) false n refs source ⟨c, 0⟩).map Prod.fst

end KubeWaf.References
