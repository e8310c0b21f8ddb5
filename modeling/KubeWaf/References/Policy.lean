import KubeWaf.References.Termination
import Mathlib

/-!
# Namespaces and references

What `spec.allowedRules` and the namespace of a reference keep out. The policy of a RuleSet is
applied to every object before it is used (`resolve_respects_allowedRules`). The namespace of
a reference is used for a lookup by name only: a reference by labels is listed over all
namespaces, and what is left of its namespace is what the policy of the owner enforces
(`explicitNamespace_confines_iff`).
-/

namespace KubeWaf.References

open Lib Seclang List

section
variable {api : Apimachinery} {c : Cluster}

/-! ## Policies admit by `All` and `Selector` only -/

lemma not_admittedBy {policy : RuleNamespaces} {ns : String}
    (hall : policy.fromNs ≠ some (.known .All)) (hsel : policy.fromNs ≠ some (.known .Selector)) :
    ¬ AdmittedBy api c policy ns := by
  rintro (h | ⟨h, -⟩)
  · exact hall h
  · exact hsel h

/-- Over an acyclic graph `Resolve` returns, every object it returns is reached over edges
that the policy of their owner allows, and a policy other than `All` and `Selector` allows no
other namespace. -/
theorem resolve_respects_allowedRules (api : Apimachinery) (c : Cluster) (v : Node)
    (hacyclic : Acyclic api c v) :
    (∃ n out, resolve api c n v.refs v.source = some out) ∧
    (∀ n out, resolve api c n v.refs v.source = some out →
      ∀ o ∈ out.objects, Reachable api c v o) ∧
    ∀ source policy o, namespacesPolicy source = some policy →
      policy.fromNs ≠ some (.known .All) → policy.fromNs ≠ some (.known .Selector) →
      allowedObject api c o source = none → source.ns = o.ns := by
  refine ⟨resolve_terminates_iff.mpr hacyclic, ?_, ?_⟩
  · intro n out hout o ho
    exact (mem_objects_iff_reachable hout).mp ho
  · intro source policy o hpolicy hall hsel hallowed
    rcases allowedObject_eq_none_iff.mp hallowed with hns | hadmits
    · exact hns
    · exact absurd (hadmits policy hpolicy) (not_admittedBy hall hsel)

end

/-- A rule of the namespace `team-a`. -/
def teamRule : Object where
  group := "seclang.kubewaf.io"
  version := "v1beta1"
  ns := "team-a"
  name := "deny"
  content := .secRule {} {}

/-- A RuleSet of the platform that takes rules from the namespaces labelled `team`. -/
def platformSet : Object where
  group := "waf.kubewaf.io"
  version := "v1beta1"
  ns := "platform"
  name := "base"
  content := .ruleSet {
    ruleRefs := [{ kind := "SecRule", ns := "team-a", name := "deny" }]
    allowedRules := {
      fromNs := some (.known .Selector)
      selector := some { matchExpressions := [{ key := "team", operator := "Exists" }] } } }

def platformCluster : Cluster where
  objects := [teamRule, platformSet]
  namespaces := [{ name := "team-a", labels := [("team", "a")] }]
  wafs_nodup := noWAFs_nodup

/-- A WAF of another namespace that uses the RuleSet of the platform. -/
def shopWAF : WAF where
  ns := "shop"
  name := "front"
  ruleSetRefs := [{ kind := "RuleSet", ns := "platform", name := "base" }]

theorem resolve_platformCluster_reachable :
    Reachable kubernetes platformCluster (shopWAF.node "WAF") teamRule := by
  have hout : resolve kubernetes platformCluster 2 shopWAF.ruleSetRefs (.waf "WAF" shopWAF) =
      some { objects := [teamRule, platformSet] } := by decide
  have hacyclic : Acyclic kubernetes platformCluster (shopWAF.node "WAF") :=
    resolve_terminates_iff.mp ⟨2, _, hout⟩
  exact (resolve_respects_allowedRules kubernetes platformCluster _ hacyclic).2.1 2 _ hout
    teamRule mem_cons_self

/-! ## The namespace of a reference -/

/-- The label selector of a reference picks out nothing, whatever is stored: there is none,
its kind is not served, it is invalid, or no labels satisfy it. -/
def SelectsNothing (api : Apimachinery) (ref : RuleRef) : Prop :=
  ∀ sel selector, ref.selector = some sel → api.labelSelectorAsSelector sel = .ok selector →
    api.noMatchError ref.selectedGVK = none →
    ∀ labels, selector labels = false

/-- A policy that admits no other namespace, whatever labels namespaces have. -/
def NeverAdmits (api : Apimachinery) (policy : RuleNamespaces) : Prop :=
  policy.fromNs ≠ some (.known .All) ∧
  (policy.fromNs = some (.known .Selector) → ∀ sel selector, policy.selector = some sel →
    api.labelSelectorAsSelector sel = .ok selector → ∀ labels, selector labels = false)

/-- What confines a reference to the namespace it names: it selects by name, or in vain, or
its owner is a RuleSet of that namespace that never admits another one. -/
def Confines (api : Apimachinery) (source : Source) (ref : RuleRef) : Prop :=
  SelectsNothing api (applyRuleRefDefaults ref source.ns) ∨
  source.ns = ref.ns ∧ ∃ policy, namespacesPolicy source = some policy ∧ NeverAdmits api policy

/-- Two clusters with the same objects in namespace `n`, and the same labels on namespaces. -/
structure AgreeOn (n : String) (c c' : Cluster) : Prop where
  objects : (c.objects.filter fun o => o.ns == n) = c'.objects.filter fun o => o.ns == n
  namespaces : c.namespaces = c'.namespaces

section
variable {api : Apimachinery} {source : Source} {ref : RuleRef} {n : String}

@[simp] lemma applyRuleRefDefaults_selector (ref : RuleRef) (ns : String) :
    (applyRuleRefDefaults ref ns).selector = ref.selector := by
  simp only [applyRuleRefDefaults]
  split_ifs <;> rfl

lemma applyRuleRefDefaults_ns (ref : RuleRef) (ns : String) :
    (applyRuleRefDefaults ref ns).ns = if ref.ns = "" then ns else ref.ns := by
  simp only [applyRuleRefDefaults]
  split_ifs <;> rfl

lemma not_admittedBy_of_neverAdmits {c : Cluster} {policy : RuleNamespaces} {ns : String}
    (h : NeverAdmits api policy) : ¬ AdmittedBy api c policy ns := by
  rintro (hall | ⟨hsel, sel, selector, stored, hs, hok, -, hlabels⟩)
  · exact h.1 hall
  · rw [h.2 hsel sel selector hs hok] at hlabels
    cases hlabels

lemma directObjects_ns_of_confines (hns : ref.ns ≠ "") (h : Confines api source ref)
    (c : Cluster) {o : Object} (ho : o ∈ directObjects api c source ref) : o.ns = ref.ns := by
  obtain ⟨⟨-, hmatch⟩, hallowed⟩ := mem_directObjects_iff.mp ho
  cases hsel : (applyRuleRefDefaults ref source.ns).selector with
  | none =>
    rw [hsel] at hmatch
    rw [hmatch.2.2.2.1, applyRuleRefDefaults_ns, if_neg hns]
  | some sel =>
    rw [hsel] at hmatch
    obtain ⟨hgvk, hserved, selector, hok, hlabels⟩ := hmatch
    rcases h with hnothing | ⟨hsource, policy, hpolicy, hnever⟩
    · rw [hgvk] at hserved
      rw [hnothing sel selector hsel hok hserved] at hlabels
      cases hlabels
    · rcases hallowed with hsame | hadmits
      · rw [← hsame, hsource]
      · exact absurd (hadmits policy hpolicy) (not_admittedBy_of_neverAdmits hnever)

lemma get_inNamespace {c c' : Cluster} (hc : AgreeOn n c c') (gvk : GroupVersionKind)
    (name : String) : c.get api gvk name n = c'.get api gvk name n := by
  have hfind : ∀ d : Cluster, (d.objects.find? fun o => o.gvk == gvk && o.ns == n && o.name == name) =
      (d.objects.filter fun o => o.ns == n).find? fun o => o.gvk == gvk && o.name == name := by
    intro d
    rw [find?_filter]
    congr 1
    funext o
    cases o.gvk == gvk <;> cases o.ns == n <;> cases o.name == name <;> rfl
  unfold Cluster.get
  rw [hfind, hfind, hc.objects]

lemma directObjects_inNamespace {c c' : Cluster} (hc : AgreeOn n c c') (source : Source)
    (ref : RuleRef) :
    ((directObjects api c source ref).filter fun o => o.ns == n) =
      (directObjects api c' source ref).filter fun o => o.ns == n := by
  have hallowed : (fun o => (allowedObject api c o source).isNone) =
      fun o => (allowedObject api c' o source).isNone := by
    funext o
    rw [allowedObject_congr hc.namespaces rfl rfl source]
  by_cases hbyName : (applyRuleRefDefaults ref source.ns).selector = none ∧
      (applyRuleRefDefaults ref source.ns).ns ≠ n
  · -- found by name, the object is in the namespace of the reference
    have hnone : ∀ e : Cluster,
        ((directObjects api e source ref).filter fun o => o.ns == n) = [] := by
      intro e
      rw [filter_eq_nil_iff]
      intro o ho
      have hmatch := (mem_directObjects_iff.mp ho).1.2
      simp only [hbyName.1] at hmatch
      rw [beq_iff_eq, hmatch.2.2.2.1]
      exact hbyName.2
    rw [hnone c, hnone c']
  unfold directObjects
  rw [hallowed]
  generalize applyRuleRefDefaults ref source.ns = d at hbyName ⊢
  unfold lookupRef
  cases hselector : d.selector with
  | some sel =>
    simp only
    cases api.labelSelectorAsSelector sel with
    | error e => rfl
    | ok selector =>
      simp only [listDynamicObjects, Cluster.list]
      cases api.noMatchError _ with
      | some e => rfl
      | none =>
        -- the filters commute, so the one for the namespace can come first
        simp only [filter_filter]
        have hfirst : ∀ (objects : List Object) (q : Object → Bool),
            (objects.filter fun o => o.ns == n && q o) =
              (objects.filter fun o => o.ns == n).filter q := by
          intro objects q
          rw [filter_filter]
          refine filter_congr fun o _ => ?_
          rw [Bool.and_comm]
        rw [hfirst, hfirst, hc.objects]
  | none =>
    simp only
    split_ifs with hname
    · simp only [getDynamicObjects]
      have hn : d.ns = n := not_not.mp fun hn => hbyName ⟨hselector, hn⟩
      rw [hn, get_inNamespace hc]
    · rfl

lemma directObjects_congr {c c' : Cluster} (hc : AgreeOn n c c')
    (h : ∀ c, ∀ o ∈ directObjects api c source ref, o.ns = n) :
    directObjects api c source ref = directObjects api c' source ref := by
  have hfilter : ∀ d : Cluster, (directObjects api d source ref).filter (fun o => o.ns == n) =
      directObjects api d source ref := by
    intro d
    rw [filter_eq_self]
    intro o ho
    rw [beq_iff_eq]
    exact h d o ho
  rw [← hfilter c, ← hfilter c', directObjects_inNamespace hc]

/-- A content of a given kind. -/
def contentOfKind (kind : String) : Content :=
  if hrule : kind = "SecRule" then .secRule {} {}
  else if haction : kind = "SecAction" then .secAction {} {}
  else if hset : kind = "RuleSet" then .ruleSet {}
  else .other ⟨kind, by simp [hrule, haction, hset]⟩

lemma contentOfKind_kind (kind : String) : (contentOfKind kind).kind = kind := by
  unfold contentOfKind
  split_ifs with hrule haction hset
  · exact hrule.symm
  · exact haction.symm
  · exact hset.symm
  · rfl

/-- An object of a given kind with given labels. -/
def plantedObject (gvk : GroupVersionKind) (ns : String) (labels : Labels) : Object where
  group := gvk.group
  version := gvk.version
  ns := ns
  name := "planted"
  labels := labels
  content := contentOfKind gvk.kind

lemma plantedObject_gvk (gvk : GroupVersionKind) (ns : String) (labels : Labels) :
    (plantedObject gvk ns labels).gvk = gvk := by
  rw [Object.gvk, Object.kind, plantedObject, contentOfKind_kind]

/-- A cluster with one object, and one namespace with labels. -/
def oneObject (gvk : GroupVersionKind) (ns : String) (labels nsLabels : Labels) : Cluster where
  objects := [plantedObject gvk ns labels]
  namespaces := [{ name := ns, labels := nsLabels }]
  sorted := pairwise_singleton _ _
  wafs_nodup := noWAFs_nodup

lemma mem_directObjects_oneObject {sel : LabelSelector} {selector : Labels → Bool}
    {labels nsLabels : Labels} {ns : String} (hsel : ref.selector = some sel)
    (hok : api.labelSelectorAsSelector sel = .ok selector) (hlabels : selector labels = true)
    {gvk : GroupVersionKind} (hgvk : gvk = (applyRuleRefDefaults ref source.ns).selectedGVK)
    (hserved : api.noMatchError gvk = none)
    (hallowed : source.ns = ns ∨ ∀ policy, namespacesPolicy source = some policy →
      AdmittedBy api (oneObject gvk ns labels nsLabels) policy ns) :
    ∃ o ∈ directObjects api (oneObject gvk ns labels nsLabels) source ref, o.ns = ns := by
  have hkind := plantedObject_gvk gvk ns labels
  refine ⟨plantedObject gvk ns labels,
    mem_directObjects_iff.mpr ⟨⟨mem_singleton_self _, ?_⟩, hallowed⟩, rfl⟩
  rw [applyRuleRefDefaults_selector, hsel]
  refine ⟨hkind.trans hgvk, ?_, selector, hok, hlabels⟩
  rw [hkind]
  exact hserved

lemma exists_ne_string (n : String) : ∃ m, m ≠ n := by
  by_cases hn : n = "a"
  · exact ⟨"b", by rw [hn]; decide⟩
  · exact ⟨"a", Ne.symm hn⟩

lemma confines_of_directObjects_ns
    (h : ∀ c, ∀ o ∈ directObjects api c source ref, o.ns = ref.ns) :
    Confines api source ref := by
  by_contra hnot
  unfold Confines at hnot
  rw [not_or] at hnot
  obtain ⟨hsome, hpolicy⟩ := hnot
  -- some labels satisfy the selector of a kind that is served
  unfold SelectsNothing at hsome
  push Not at hsome
  obtain ⟨sel, selector, hsel, hok, hserved, labels, hlabels⟩ := hsome
  rw [applyRuleRefDefaults_selector] at hsel
  replace hlabels := eq_true_of_ne_false hlabels
  generalize hgvk : (applyRuleRefDefaults ref source.ns).selectedGVK = gvk at hserved
  have hplant : ∀ ns nsLabels, ns ≠ ref.ns →
      ¬ (source.ns = ns ∨ ∀ policy, namespacesPolicy source = some policy →
        AdmittedBy api (oneObject gvk ns labels nsLabels) policy ns) := by
    intro ns nsLabels hns hallowed
    obtain ⟨o, ho, hons⟩ := mem_directObjects_oneObject hsel hok hlabels hgvk.symm hserved
      hallowed
    exact hns (hons.symm.trans (h _ o ho))
  obtain ⟨m, hm⟩ := exists_ne_string ref.ns
  cases hsource : namespacesPolicy source with
  | none =>
    refine hplant m [] hm (.inr fun policy hp => ?_)
    rw [hsource] at hp
    cases hp
  | some policy =>
    by_cases hns : source.ns = ref.ns
    · -- the owner is in the named namespace, so its policy can be made to admit another one
      have hadmits : ¬ NeverAdmits api policy :=
        fun hnever => hpolicy ⟨hns, policy, hsource, hnever⟩
      have hforall : ∀ nsLabels, ¬ AdmittedBy api (oneObject gvk m labels nsLabels) policy m := by
        intro nsLabels hadmitted
        refine hplant m nsLabels hm (.inr fun policy' hp => ?_)
        rw [hsource] at hp
        cases hp
        exact hadmitted
      refine hadmits ⟨fun hall => hforall [] (.inl hall), ?_⟩
      intro hfrom psel pselector hpsel hpok l
      rw [← Bool.not_eq_true]
      intro hl
      have hget : (oneObject gvk m labels l).getNamespace api m = .ok { name := m, labels := l } := by
        simp [Cluster.getNamespace, oneObject]
      exact hforall l (.inr ⟨hfrom, psel, pselector, _, hpsel, hpok, hget, hl⟩)
    · exact hplant source.ns [] hns (.inl rfl)

end

/-- A reference with a namespace resolves to objects of that namespace only, and to the same
ones in any two clusters that agree on it, exactly when it selects by name, selects in vain,
or its owner is a RuleSet of that namespace that never admits another one. -/
theorem explicitNamespace_confines_iff (api : Apimachinery) (source : Source) (ref : RuleRef)
    (hns : ref.ns ≠ "") :
    ((∀ c, ∀ o ∈ directObjects api c source ref, o.ns = ref.ns) ∧
      ∀ c c', AgreeOn ref.ns c c' →
        directObjects api c source ref = directObjects api c' source ref) ↔
      Confines api source ref := by
  constructor
  · rintro ⟨h, -⟩
    exact confines_of_directObjects_ns h
  · intro h
    have hin : ∀ c, ∀ o ∈ directObjects api c source ref, o.ns = ref.ns :=
      fun c o ho => directObjects_ns_of_confines hns h c ho
    exact ⟨hin, fun c c' hc => directObjects_congr hc hin⟩

/-- A reference by name to the RuleSet of the platform. -/
def platformRef : RuleRef := { kind := "RuleSet", ns := "platform", name := "base" }

theorem platformRef_confined :
    platformRef.ns ≠ "" ∧
      platformSet ∈ directObjects kubernetes platformCluster (.waf "WAF" shopWAF) platformRef ∧
      platformSet.ns = platformRef.ns := by
  have hmem : platformSet ∈
      directObjects kubernetes platformCluster (.waf "WAF" shopWAF) platformRef := by decide
  have hconfines : Confines kubernetes (.waf "WAF" shopWAF) platformRef := by
    refine .inl fun sel selector hsel => ?_
    cases hsel
  refine ⟨by decide, hmem, ?_⟩
  exact ((explicitNamespace_confines_iff kubernetes (.waf "WAF" shopWAF) platformRef
    (by decide)).mpr hconfines).1 platformCluster platformSet hmem

/-- A reference by labels to RuleSets of the platform. -/
def labelledRef : RuleRef where
  kind := "RuleSet"
  ns := "platform"
  selector := some { matchLabels := [("crs", "enabled")] }

/-- A RuleSet that a tenant has given the label that the WAF asks for. -/
def tenantSet : Object where
  group := "waf.kubewaf.io"
  version := "v1beta1"
  ns := "tenant"
  name := "allow-all"
  labels := [("crs", "enabled")]
  content := .ruleSet {}

/-- A WAF asks for labelled RuleSets of `platform` and gets the one of `tenant`, so that it
depends on more than the namespace it named. -/
theorem labelledRef_escapes :
    ∃ source ref c c' o, ref.ns ≠ "" ∧ AgreeOn ref.ns c c' ∧
      o ∈ directObjects kubernetes c source ref ∧ o.ns ≠ ref.ns ∧
      directObjects kubernetes c source ref ≠ directObjects kubernetes c' source ref := by
  refine ⟨.waf "WAF" shopWAF, labelledRef, { objects := [tenantSet] }, {}, tenantSet,
    by decide, ⟨by decide, rfl⟩, by decide, by decide, by decide⟩

end KubeWaf.References
