import KubeWaf.References.Cluster

/-!
# What the webhooks check of rule references

`internal/webhook/rule_ref.go`. Each reference is judged by itself; the objects it leads to
are not looked at.
-/

namespace KubeWaf.Webhook

open Lib Seclang References

def allowedRuleRefKinds : List String := ["", "SecRule", "SecAction", "RuleSet", "ConfigMap"]

def allowedWAFRefKinds : List String := ["", "RuleSet"]

def validateRuleRef (ref : RuleRef) (ownerKind : String) (index : ℕ) : Except String Unit :=
  let path := "spec.ruleRefs[" ++ toString index ++ "]"
  let hasName := Go.trimSpace ref.name ≠ ""
  let hasSelector := ref.selector.isSome
  if ¬ hasName ∧ ¬ hasSelector then .error (path ++ ": name or selector is required")
  else if hasName ∧ hasSelector then .error (path ++ ": name and selector are mutually exclusive")
  else
    let kind := Go.trimSpace ref.kind
    if ownerKind = "WAF" then
      if kind ∈ allowedWAFRefKinds then .ok ()
      else .error (path ++ ": WAF may only reference kind RuleSet (got " ++ Go.quoted kind ++ ")")
    else if kind ∈ allowedRuleRefKinds then .ok ()
    else .error (path ++ ": unsupported kind " ++ Go.quoted kind
      ++ " (want SecRule, SecAction, RuleSet, or ConfigMap)")

/-- The loop of `ValidateRuleRefs`, from position `index` on. -/
def validateRuleRefsFrom (ownerKind : String) : ℕ → List RuleRef → Except String Unit
  | _, [] => .ok ()
  | index, ref :: refs => do
    validateRuleRef ref ownerKind index
    validateRuleRefsFrom ownerKind (index + 1) refs

def validateRuleRefs (refs : List RuleRef) (ownerKind : String) : Except String Unit :=
  validateRuleRefsFrom ownerKind 0 refs

def validateAllowedRules (a : RuleNamespaces) : Except String Unit :=
  match a.fromNs with
  | none => .ok ()
  | some (.known .All) | some (.known .Same) | some (.text "") => .ok ()
  | some (.known .Selector) =>
    if a.selector.isNone then
      .error "spec.allowedRules.selector is required when from=Selector"
    else .ok ()
  | some (.known .None) => .ok ()
  | some (.text s) => .error ("spec.allowedRules.from: unsupported value " ++ Go.quoted s)

/-- The checks of `RuleSetValidator` on the part of the spec that is modelled. -/
def validateRuleSet (rs : RuleSetSpec) : Except String Unit := do
  validateRuleRefs rs.ruleRefs "RuleSet"
  validateAllowedRules rs.allowedRules

/-- Everything stored passed its webhook. -/
def Accepted (c : Cluster) : Prop :=
  (∀ o ∈ c.objects, ∀ rs, o.asRuleSet = some rs → validateRuleSet rs.spec = .ok ()) ∧
  ∀ w ∈ c.wafs, validateRuleRefs w.ruleSetRefs "WAF" = .ok ()

end KubeWaf.Webhook
