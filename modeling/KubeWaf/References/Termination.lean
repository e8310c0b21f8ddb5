import KubeWaf.References.Locking
import KubeWaf.Webhook.RuleRef

/-!
# When resolution ends

The resolver descends into every RuleSet it meets and keeps no record of where it has been.
Over a finite store its recursion is finite exactly when no RuleSet in reach leads back to
itself.
-/

namespace KubeWaf.References

open Lib Seclang Webhook List

section
variable {api : Apimachinery} {c : Cluster} {v : Node}

lemma step_mem {w : Node} (h : Step api c v w) :
    w ∈ (c.objects.filterMap Object.asRuleSet).map RuleSet.node := by
  obtain ⟨o, rs, ⟨ref, -, hmatch, -⟩, hrs, rfl⟩ := h
  exact mem_map_of_mem (mem_filterMap.mpr ⟨o, hmatch.1, hrs⟩)

lemma reached_finite (v : Node) : {u | Reached (nodeLines api c) v u}.Finite := by
  have hsub : {u | Reached (nodeLines api c) v u} ⊆
      {u | u ∈ v :: (c.objects.filterMap Object.asRuleSet).map RuleSet.node} := by
    intro u hu
    rcases Relation.ReflTransGen.cases_tail (reached_iff.mp hu) with rfl | ⟨w, -, hstep⟩
    · exact mem_cons_self
    · exact mem_cons_of_mem v (step_mem hstep)
  exact (finite_toSet _).subset hsub

lemma acc_iff_acyclic : Acc (Child (nodeLines api c)) v ↔ Acyclic api c v := by
  have hrel : (fun a b => Child (nodeLines api c) b a) = Step api c := by
    funext a b
    exact propext child_iff_step
  rw [acc_iff_no_cycle (reached_finite v), Acyclic, hrel]
  simp [reached_iff]

lemma expand_terminates_iff_acyclic :
    (∃ n r, expand (nodeLines api c) n v = some r) ↔ Acyclic api c v := by
  rw [expand_terminates_iff_acc, acc_iff_acyclic]

lemma resolve_terminates_iff :
    (∃ n out, resolve api c n v.refs v.source = some out) ↔ Acyclic api c v := by
  rw [← expand_terminates_iff_acyclic]
  simp only [resolve_eq_expand, Option.map_eq_some_iff]
  constructor
  · rintro ⟨n, out, r, hr, -⟩
    exact ⟨n, r, hr⟩
  · rintro ⟨n, r, hr⟩
    exact ⟨n, toOutcome r, r, hr, rfl⟩

/-- Both entry points return, whatever updates fail, exactly when no RuleSet that the owner
reaches refers back to itself. -/
theorem resolution_returns_iff_acyclic (api : Apimachinery) (c : Cluster) (w : WAF)
    (typeKind : String) :
    ((∃ n out, resolve api c n w.ruleSetRefs (.waf typeKind w) = some out) ∧
      ∀ faults, ∃ n out,
        addUpdateReconcile api faults n w.ruleSetRefs (.waf typeKind w) ⟨c, 0⟩ = some out) ↔
      Acyclic api c (w.node typeKind) := by
  constructor
  · rintro ⟨hresolve, -⟩
    exact resolve_terminates_iff (v := w.node typeKind).mp hresolve
  · intro hacyclic
    refine ⟨resolve_terminates_iff (v := w.node typeKind).mpr hacyclic, fun faults => ?_⟩
    -- a locking run needs no more depth than the read-only one
    obtain ⟨n, r, hr⟩ := expand_terminates_iff_acyclic.mpr hacyclic
    have htracks : Tracks c faults r (addUpdateReconcile api faults n w.ruleSetRefs
        (.waf typeKind w) ⟨c, 0⟩) := addUpdateReconcile_tracks (SameRules.refl c) hr
    obtain ⟨out, st, hout, -⟩ := htracks
    exact ⟨n, _, hout⟩

end

/-- The RuleSet `base`, which refers to itself by name. -/
def selfReferringSet : Object where
  group := "waf.kubewaf.io"
  version := "v1beta1"
  ns := "shop"
  name := "base"
  content := .ruleSet { ruleRefs := [{ kind := "RuleSet", name := "base" }] }

/-- A WAF that refers to `base`. -/
def frontWAF : WAF where
  ns := "shop"
  name := "front"
  ruleSetRefs := [{ kind := "RuleSet", name := "base" }]

/-- The node of `base`. -/
def selfReferringNode : Node :=
  ⟨[{ kind := "RuleSet", name := "base" }], .ruleSet "RuleSet"
    ⟨"shop", "base", { ruleRefs := [{ kind := "RuleSet", name := "base" }] }⟩⟩

def selfReference : Cluster where
  objects := [selfReferringSet]
  wafs := [frontWAF]

/-- The webhooks accept the RuleSet that refers to itself, and resolution does not return. -/
theorem resolution_selfReference_diverges :
    Accepted selfReference ∧ ∃ w ∈ selfReference.wafs, ∀ n,
      resolve kubernetes selfReference n w.ruleSetRefs (.waf "WAF" w) = none := by
  have hwaf : nodeLines kubernetes selfReference (frontWAF.node "WAF") =
      [.branch selfReferringSet selfReferringNode] := by decide
  have hself : nodeLines kubernetes selfReference selfReferringNode =
      [.branch selfReferringSet selfReferringNode] := by decide
  have hcyclic : ¬ Acyclic kubernetes selfReference (frontWAF.node "WAF") := by
    refine not_not.mpr ⟨selfReferringNode, .single (child_iff_step.mp ⟨selfReferringSet, ?_⟩),
      .single (child_iff_step.mp ⟨selfReferringSet, ?_⟩)⟩
    · rw [hwaf]
      exact mem_singleton_self _
    · rw [hself]
      exact mem_singleton_self _
  refine ⟨⟨by decide, by decide⟩, frontWAF, mem_singleton_self _, fun n => ?_⟩
  rw [← resolve_terminates_iff] at hcyclic
  by_contra hreturns
  obtain ⟨out, hout⟩ := Option.ne_none_iff_exists'.mp hreturns
  exact hcyclic ⟨n, out, hout⟩

end KubeWaf.References
