import KubeWaf.References.Expansion

/-!
# The reference graph

What the resolver is for, said without it: which objects a reference means, which of them the
policy of the owner admits, and which objects a WAF can reach that way. The lines that the
resolver writes out are the edges of this graph.
-/

namespace KubeWaf.References

open Lib Seclang List

variable {o o' : Object} {gvk : GroupVersionKind} {ref : RuleRef} {source : Source} {v : Node}

/-- The kind of the objects that a reference by labels selects. -/
def selectedKind (kind : String) : String := Go.trimSuffixStr (listKind kind) "List"

def RuleRef.selectedGVK (ref : RuleRef) : GroupVersionKind :=
  ⟨ref.group, ref.version, selectedKind ref.kind⟩

section
variable (api : Apimachinery) (c : Cluster)

/-- The stored object `o` is meant by a reference with its defaults filled in. -/
def RefMatches (ref : RuleRef) (o : Object) : Prop :=
  o ∈ c.objects ∧
  match ref.selector with
  | some sel =>
    o.gvk = ref.selectedGVK ∧ api.noMatchError o.gvk = none ∧
      ∃ selector, api.labelSelectorAsSelector sel = .ok selector ∧ selector o.labels = true
  | none =>
    ref.name ≠ "" ∧ o.gvk = ref.gvk ∧ api.noMatchError o.gvk = none ∧ o.ns = ref.ns ∧
      o.name = ref.name

/-- A policy lets a RuleSet take rules from another namespace. -/
def AdmittedBy (policy : RuleNamespaces) (ns : String) : Prop :=
  policy.fromNs = some (.known .All) ∨
  policy.fromNs = some (.known .Selector) ∧ ∃ sel selector stored,
    policy.selector = some sel ∧ api.labelSelectorAsSelector sel = .ok selector ∧
    c.getNamespace api ns = .ok stored ∧ selector stored.labels = true

/-- An owner may use an object: it is in the owner's namespace, or the owner's policy, when
it has one, admits the namespace of the object. -/
def Allowed (source : Source) (o : Object) : Prop :=
  source.ns = o.ns ∨ ∀ policy, namespacesPolicy source = some policy → AdmittedBy api c policy o.ns

/-- An owner refers to an object and may use it. -/
def Edge (v : Node) (o : Object) : Prop :=
  ∃ ref ∈ v.refs, RefMatches api c (applyRuleRefDefaults ref v.source.ns) o ∧
    Allowed api c v.source o

/-- An owner refers to a RuleSet, which is the next owner. -/
def Step (v w : Node) : Prop := ∃ o rs, Edge api c v o ∧ o.asRuleSet = some rs ∧ w = rs.node

/-- An owner reaches an object over any number of RuleSets. -/
def Reachable (v : Node) (o : Object) : Prop :=
  ∃ u, Relation.ReflTransGen (Step api c) v u ∧ Edge api c u o

/-- No RuleSet that `v` reaches refers back to itself, directly or over others. -/
def Acyclic (v : Node) : Prop :=
  ¬ ∃ u, Relation.ReflTransGen (Step api c) v u ∧ Relation.TransGen (Step api c) u u

end

/-! ## Lookups -/

section
variable {api : Apimachinery} {c : Cluster} {ns : String}

lemma Cluster.eq_of_key_eq (ho : o ∈ c.objects) (ho' : o' ∈ c.objects) (h : o.key = o'.key) :
    o = o' :=
  inj_on_of_nodup_map c.keys_nodup ho ho' h

lemma key_eq_of_gvk_eq (hgvk : o.gvk = o'.gvk) (hns : o.ns = o'.ns) (hname : o.name = o'.name) :
    o.key = o'.key := by
  rw [Object.gvk, Object.gvk, GroupVersionKind.mk.injEq] at hgvk
  exact Object.key_eq_iff.mpr ⟨hgvk.1, hgvk.2.2, hns, hname⟩

lemma get_eq_ok_iff {name : String} :
    c.get api gvk name ns = .ok o ↔
      o ∈ c.objects ∧ o.gvk = gvk ∧ api.noMatchError gvk = none ∧ o.ns = ns ∧ o.name = name := by
  unfold Cluster.get
  cases hserved : api.noMatchError gvk with
  | some e => simp
  | none =>
    simp only [true_and]
    constructor
    · intro h
      split at h
      · next o' hfind =>
        cases h
        have hmem := mem_of_find?_eq_some hfind
        have hp := find?_some hfind
        simp only [Bool.and_eq_true, beq_iff_eq] at hp
        exact ⟨hmem, hp.1.1, hp.1.2, hp.2⟩
      · cases h
    · rintro ⟨hmem, rfl, rfl, rfl⟩
      split
      · next o' hfind =>
        have hp := find?_some hfind
        simp only [Bool.and_eq_true, beq_iff_eq] at hp
        have hkey : o'.key = o.key := key_eq_of_gvk_eq hp.1.1 hp.1.2 hp.2
        rw [Cluster.eq_of_key_eq (mem_of_find?_eq_some hfind) hmem hkey]
      · next hfind =>
        have hnone := find?_eq_none.mp hfind o hmem
        simp at hnone

lemma mem_getDynamicObjects_iff {name : String} :
    (∃ items, getDynamicObjects api c gvk name ns = .ok items ∧ o ∈ items) ↔
      o ∈ c.objects ∧ o.gvk = gvk ∧ api.noMatchError gvk = none ∧ o.ns = ns ∧ o.name = name := by
  rw [← get_eq_ok_iff, getDynamicObjects]
  cases c.get api gvk name ns with
  | error e => simp [Except.map]
  | ok o' => simp [Except.map, eq_comm]

lemma mem_listDynamicObjects_iff {selector : Labels → Bool} :
    (∃ items, listDynamicObjects api c gvk selector = .ok items ∧ o ∈ items) ↔
      o ∈ c.objects ∧ o.gvk = ⟨gvk.group, gvk.version, selectedKind gvk.kind⟩ ∧
        api.noMatchError ⟨gvk.group, gvk.version, selectedKind gvk.kind⟩ = none ∧
        selector o.labels = true := by
  unfold listDynamicObjects Cluster.list selectedKind
  cases hserved : api.noMatchError
      ⟨gvk.group, gvk.version, Go.trimSuffixStr (listKind gvk.kind) "List"⟩ with
  | some e => simp [hserved]
  | none => simp [hserved]

lemma mem_lookupRef_iff :
    (∃ items, lookupRef api c ref = .ok items ∧ o ∈ items) ↔ RefMatches api c ref o := by
  unfold lookupRef RefMatches
  cases ref.selector with
  | some sel =>
    simp only
    cases api.labelSelectorAsSelector sel with
    | error e => simp
    | ok selector =>
      simp only [Except.ok.injEq, exists_eq_left']
      rw [mem_listDynamicObjects_iff]
      refine and_congr_right fun _ => and_congr_right fun hgvk => ?_
      rw [hgvk, RuleRef.gvk]
  | none =>
    simp only
    by_cases hname : ref.name = ""
    · simp [hname]
    · rw [if_pos hname, mem_getDynamicObjects_iff]
      refine and_congr_right fun _ => ?_
      rw [and_iff_right hname]
      refine and_congr_right fun hgvk => ?_
      rw [hgvk]

/-! ## The policy check -/

lemma allowedBySelector_eq_none_iff {selector : Option LabelSelector} :
    allowedBySelector api c selector ns = none ↔ ∃ sel s stored,
      selector = some sel ∧ api.labelSelectorAsSelector sel = .ok s ∧
      c.getNamespace api ns = .ok stored ∧ s stored.labels = true := by
  unfold allowedBySelector
  cases selector with
  | none => simp
  | some sel =>
    cases hget : c.getNamespace api ns with
    | error e => simp
    | ok stored =>
      cases hls : api.labelSelectorAsSelector sel with
      | error e => simp [hls]
      | ok s => simp [hls]

lemma allowedObject_eq_none_iff :
    allowedObject api c o source = none ↔ Allowed api c source o := by
  unfold allowedObject Allowed
  by_cases hns : source.ns = o.ns
  · simp [hns]
  · rw [if_neg hns]
    cases hpolicy : namespacesPolicy source with
    | none => simp
    | some policy =>
      simp only [hns, false_or, Option.some.injEq, forall_eq', AdmittedBy]
      cases hfrom : policy.fromNs with
      | none => simp
      | some f =>
        simp only [Option.getD_some, Option.some.injEq]
        split
        · simp
        · simp
        · simp
        · simp [allowedBySelector_eq_none_iff]
        · simp
        · simp

lemma allowedObject_congr {c' : Cluster} (hc : c.namespaces = c'.namespaces)
    (hns : o.ns = o'.ns) (hname : o.name = o'.name) (source : Source) :
    allowedObject api c o source = allowedObject api c' o' source := by
  have hsel : ∀ selector ns,
      allowedBySelector api c selector ns = allowedBySelector api c' selector ns := by
    intro selector ns
    unfold allowedBySelector Cluster.getNamespace
    rw [hc]
  unfold allowedObject
  rw [hns, hname]
  simp [hsel]

/-! ## The lines are the edges -/

lemma objectLine_out_eq_inr_iff :
    (objectLine api c ref source o').out = .inr o ↔ o' = o ∧ Allowed api c source o := by
  unfold objectLine
  rw [← allowedObject_eq_none_iff]
  cases hallowed : allowedObject api c o' source with
  | some e =>
    simp only [Line.out, reduceCtorEq, false_iff, not_and]
    intro ho
    rw [← ho, hallowed]
    exact Option.some_ne_none e
  | none =>
    rw [Object.line_out, Sum.inr.injEq]
    constructor
    · intro ho
      exact ⟨ho, ho ▸ hallowed⟩
    · exact And.left

lemma exists_refLines_iff :
    (∃ l ∈ refLines api c source ref, l.out = .inr o) ↔
      RefMatches api c (applyRuleRefDefaults ref source.ns) o ∧ Allowed api c source o := by
  rw [← mem_lookupRef_iff, refLines]
  cases lookupRef api c (applyRuleRefDefaults ref source.ns) with
  | error e => simp [Line.out]
  | ok items =>
    simp only [mem_map, exists_exists_and_eq_and, objectLine_out_eq_inr_iff,
      Except.ok.injEq, exists_eq_left']
    constructor
    · rintro ⟨o', ho', rfl, hallowed⟩
      exact ⟨ho', hallowed⟩
    · rintro ⟨ho, hallowed⟩
      exact ⟨o, ho, rfl, hallowed⟩

/-- The objects that one reference of an owner resolves to directly. -/
def directObjects (api : Apimachinery) (c : Cluster) (source : Source) (ref : RuleRef) :
    List Object :=
  match lookupRef api c (applyRuleRefDefaults ref source.ns) with
  | .error _ => []
  | .ok items => items.filter fun o => (allowedObject api c o source).isNone

lemma itemLines_refLines (source : Source) (ref : RuleRef) :
    itemLines (refLines api c source ref) =
      (directObjects api c source ref).map fun o => (o, o.asRuleSet.map RuleSet.node) := by
  unfold refLines directObjects
  cases lookupRef api c (applyRuleRefDefaults ref source.ns) with
  | error e => rfl
  | ok items =>
    have hline : ∀ o, (objectLine api c ref source o).item? =
        if (allowedObject api c o source).isNone then some (o, o.asRuleSet.map RuleSet.node)
        else none := by
      intro o
      unfold objectLine
      cases allowedObject api c o source with
      | some e => rfl
      | none =>
        unfold Object.line
        cases o.asRuleSet <;> rfl
    simp only [itemLines, filterMap_map, Function.comp_def, hline]
    induction items with
    | nil => rfl
    | cons o items ih =>
      rw [filterMap_cons, filter_cons]
      split <;> simp_all

lemma mem_directObjects_iff :
    o ∈ directObjects api c source ref ↔
      RefMatches api c (applyRuleRefDefaults ref source.ns) o ∧ Allowed api c source o := by
  rw [← mem_lookupRef_iff, ← allowedObject_eq_none_iff, directObjects]
  cases lookupRef api c (applyRuleRefDefaults ref source.ns) with
  | error e => simp
  | ok items => simp

lemma exists_nodeLines_iff : (∃ l ∈ nodeLines api c v, l.out = .inr o) ↔ Edge api c v o := by
  unfold nodeLines Edge
  simp only [mem_flatMap, ← exists_refLines_iff]
  constructor
  · rintro ⟨l, ⟨ref, href, hl⟩, hout⟩
    exact ⟨ref, href, l, hl, hout⟩
  · rintro ⟨ref, href, l, hl, hout⟩
    exact ⟨l, ⟨ref, href, hl⟩, hout⟩

lemma eq_line_of_mem_nodeLines {l : Line Node Object ReferenceError}
    (hl : l ∈ nodeLines api c v) (hout : l.out = .inr o) : l = o.line := by
  obtain ⟨ref, -, hl⟩ := mem_flatMap.mp hl
  unfold refLines at hl
  split at hl
  · rw [mem_singleton.mp hl] at hout
    cases hout
  · obtain ⟨o', -, rfl⟩ := mem_map.mp hl
    obtain ⟨rfl, hallowed⟩ := objectLine_out_eq_inr_iff.mp hout
    rw [objectLine, allowedObject_eq_none_iff.mpr hallowed]

lemma child_iff_step {w : Node} : Child (nodeLines api c) w v ↔ Step api c v w := by
  unfold Child Step
  constructor
  · rintro ⟨o, hbranch⟩
    have hline := eq_line_of_mem_nodeLines hbranch rfl
    unfold Object.line at hline
    split at hline
    · next rs hrs =>
      cases hline
      exact ⟨o, rs, exists_nodeLines_iff.mp ⟨_, hbranch, rfl⟩, hrs, rfl⟩
    · cases hline
  · rintro ⟨o, rs, hedge, hrs, rfl⟩
    obtain ⟨l, hl, hout⟩ := exists_nodeLines_iff.mpr hedge
    have hline := eq_line_of_mem_nodeLines hl hout
    simp only [Object.line, hrs] at hline
    exact ⟨o, hline ▸ hl⟩

lemma reached_iff {u : Node} :
    Reached (nodeLines api c) v u ↔ Relation.ReflTransGen (Step api c) v u := by
  have hrel : (fun v w => Child (nodeLines api c) w v) = Step api c := by
    funext v w
    exact propext child_iff_step
  rw [Reached, hrel]

lemma mem_itemsOf_iff_reachable {n : ℕ} {r : List (ReferenceError ⊕ Object)}
    (h : expand (nodeLines api c) n v = some r) : o ∈ itemsOf r ↔ Reachable api c v o := by
  have hinr : o ∈ itemsOf r ↔ Sum.inr o ∈ r := by
    rw [itemsOf, mem_filterMap]
    constructor
    · rintro ⟨x, hx, hright⟩
      rw [← Sum.getRight?_eq_some_iff.mp hright]
      exact hx
    · intro hx
      exact ⟨_, hx, rfl⟩
  rw [hinr, mem_expand_iff h]
  unfold Reachable
  constructor
  · rintro ⟨u, hu, hl⟩
    exact ⟨u, reached_iff.mp hu, exists_nodeLines_iff.mp hl⟩
  · rintro ⟨u, hu, hedge⟩
    exact ⟨u, reached_iff.mpr hu, exists_nodeLines_iff.mpr hedge⟩

lemma mem_objects_iff_reachable {n : ℕ} {out : Outcome}
    (h : resolve api c n v.refs v.source = some out) : o ∈ out.objects ↔ Reachable api c v o := by
  obtain ⟨r, hr, rfl⟩ := resolve_eq_some h
  exact mem_itemsOf_iff_reachable hr

end

end KubeWaf.References
