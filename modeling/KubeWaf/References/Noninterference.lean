import KubeWaf.References.Policy
import Mathlib

/-!
# What other namespaces can do to a WAF

A WAF that keeps to one namespace, with RuleSets that take rules from their own namespace
only. Its objects do not depend on other namespaces. Its reference errors do: a reference by
labels is listed over all namespaces, and each object found elsewhere is rejected with an
error of its own. So the WAF resolves alike in two clusters that agree on its namespace
exactly when its label selectors find the same names outside of it.
-/

namespace KubeWaf.References

open Lib Seclang List

variable {o : Object} {u : Node} {rs : RuleSet} {ref : RuleRef} {selector : Labels → Bool}
  {gvk : GroupVersionKind}

/-- A RuleSet that takes rules from its own namespace only. -/
def SameOnly (rs : RuleSet) : Prop :=
  rs.spec.allowedRules.fromNs = none ∨ rs.spec.allowedRules.fromNs = some (.known .Same)

/-- The references of an owner stay in namespace `n`: it attaches RuleSets only, all RuleSets
in reach are in `n` and take rules from there only, and no reference names another namespace. -/
structure LocalGraph (api : Apimachinery) (c : Cluster) (n : String) (v : Node) : Prop where
  attached : ∀ o, Edge api c v o → o.asRuleSet.isSome
  ruleSets : ∀ o rs, Reachable api c v o → o.asRuleSet = some rs →
    o.gvk = ruleSetGVK ∧ o.ns = n ∧ SameOnly rs
  names : ∀ u, Relation.ReflTransGen (Step api c) v u →
    ∀ ref ∈ u.refs, ref.selector = none → ref.ns = "" ∨ ref.ns = n

/-- The names of the objects outside of `n` that a reference finds. -/
def foreignMatches (api : Apimachinery) (c : Cluster) (n : String) (ref : RuleRef) :
    List (String × String) :=
  match lookupRef api c (applyRuleRefDefaults ref n) with
  | .error _ => []
  | .ok items => (items.filter fun o => o.ns != n).map fun o => (o.ns, o.name)

lemma AgreeOn.symm {n : String} {c c' : Cluster} (h : AgreeOn n c c') : AgreeOn n c' c :=
  ⟨h.objects.symm, h.namespaces.symm⟩

lemma AgreeOn.mem {n : String} {c c' : Cluster} (h : AgreeOn n c c') (ho : o ∈ c.objects)
    (hns : o.ns = n) : o ∈ c'.objects := by
  have hfilter : o ∈ c.objects.filter fun o => o.ns == n :=
    mem_filter.mpr ⟨ho, beq_iff_eq.mpr hns⟩
  rw [h.objects] at hfilter
  exact mem_of_mem_filter hfilter

section
variable {api : Apimachinery} {c c' : Cluster} {n a b x y : String} {w : WAF} {typeKind : String}

/-! ## Owners of the graph -/

lemma reached_cases {v : Node} (hu : Relation.ReflTransGen (Step api c) v u) :
    u = v ∨ ∃ o rs, Reachable api c v o ∧ o.asRuleSet = some rs ∧ u = rs.node := by
  rcases Relation.ReflTransGen.cases_tail hu with rfl | ⟨x, hx, o, rs, hedge, hrs, rfl⟩
  · exact .inl rfl
  · exact .inr ⟨o, rs, ⟨x, hx, hedge⟩, hrs, rfl⟩

lemma asRuleSet_ns (h : o.asRuleSet = some rs) : rs.ns = o.ns ∧ rs.name = o.name := by
  unfold Object.asRuleSet at h
  split at h
  · cases h
    exact ⟨rfl, rfl⟩
  · cases h

lemma allowedObject_sameOnly (h : SameOnly rs) (o : Object) :
    allowedObject api c o (.ruleSet "RuleSet" rs) =
      if rs.ns = o.ns then none else some (.crossNamespace rs.ns rs.name o.ns o.name) := by
  unfold allowedObject
  by_cases hns : rs.ns = o.ns
  · rw [if_pos hns]
    exact if_pos hns
  · rw [if_neg hns, if_neg (show ¬ (Source.ruleSet "RuleSet" rs).ns = o.ns from hns)]
    simp only [namespacesPolicy]
    rcases h with h | h <;> rw [h] <;> rfl

lemma LocalGraph.source_ns (h : LocalGraph api c n (w.node typeKind)) (hw : w.ns = n)
    (hu : Relation.ReflTransGen (Step api c) (w.node typeKind) u) : u.source.ns = n := by
  rcases reached_cases hu with rfl | ⟨o, rs, ho, hrs, rfl⟩
  · exact hw
  · exact (asRuleSet_ns hrs).1.trans (h.ruleSets o rs ho hrs).2.1

lemma LocalGraph.directObjects_ns (h : LocalGraph api c n (w.node typeKind))
    (hu : Relation.ReflTransGen (Step api c) (w.node typeKind) u) (href : ref ∈ u.refs)
    (ho : o ∈ directObjects api c u.source ref) : o.ns = n := by
  obtain ⟨hmatch, hallowed⟩ := mem_directObjects_iff.mp ho
  have hedge : Edge api c u o := ⟨ref, href, hmatch, hallowed⟩
  rcases reached_cases hu with rfl | ⟨p, rs, hp, hrs, rfl⟩
  · obtain ⟨rs, hrs⟩ := Option.isSome_iff_exists.mp (h.attached o hedge)
    exact (h.ruleSets o rs ⟨_, .refl, hedge⟩ hrs).2.1
  · obtain ⟨-, hpn, hsame⟩ := h.ruleSets p rs hp hrs
    rw [← allowedObject_eq_none_iff, RuleSet.node, allowedObject_sameOnly hsame] at hallowed
    split at hallowed
    · next hns => rw [← hns, (asRuleSet_ns hrs).1, hpn]
    · cases hallowed

/-! ## The objects agree -/

lemma itemLines_nodeLines (api : Apimachinery) (c : Cluster) (u : Node) :
    itemLines (nodeLines api c u) = u.refs.flatMap fun ref =>
      (directObjects api c u.source ref).map fun o => (o, o.asRuleSet.map RuleSet.node) := by
  unfold nodeLines
  simp only [← itemLines_refLines]
  exact filterMap_flatMap ..

section Agreement
variable (hc : AgreeOn n c c') (hl : LocalGraph api c n (w.node typeKind))
  (hl' : LocalGraph api c' n (w.node typeKind))
include hc hl hl'

lemma itemLines_agree (hu : Relation.ReflTransGen (Step api c) (w.node typeKind) u) :
    Relation.ReflTransGen (Step api c') (w.node typeKind) u ∧
      ∀ ref ∈ u.refs, directObjects api c u.source ref = directObjects api c' u.source ref := by
  have hobjects : ∀ {u : Node}, Relation.ReflTransGen (Step api c) (w.node typeKind) u →
      Relation.ReflTransGen (Step api c') (w.node typeKind) u →
      ∀ ref ∈ u.refs, directObjects api c u.source ref = directObjects api c' u.source ref := by
    intro u hu hu' ref href
    have hin : ∀ o ∈ directObjects api c u.source ref, (o.ns == n) = true :=
      fun o ho => beq_iff_eq.mpr (hl.directObjects_ns hu href ho)
    have hin' : ∀ o ∈ directObjects api c' u.source ref, (o.ns == n) = true :=
      fun o ho => beq_iff_eq.mpr (hl'.directObjects_ns hu' href ho)
    rw [← filter_eq_self.mpr hin, directObjects_inNamespace hc, filter_eq_self.mpr hin']
  induction hu with
  | refl => exact ⟨.refl, hobjects .refl .refl⟩
  | @tail u x hu hstep ih =>
    -- the RuleSet behind this step is among the objects of `u`, which are the same
    obtain ⟨hu', hsame⟩ := ih
    obtain ⟨o, rs, ⟨ref, href, hmatch, hallowed⟩, hrs, rfl⟩ := hstep
    have ho : o ∈ directObjects api c u.source ref := mem_directObjects_iff.mpr ⟨hmatch, hallowed⟩
    rw [hsame ref href] at ho
    obtain ⟨hmatch', hallowed'⟩ := mem_directObjects_iff.mp ho
    have hx' := hu'.tail ⟨o, rs, ⟨ref, href, hmatch', hallowed'⟩, hrs, rfl⟩
    exact ⟨hx', hobjects (hu.tail ⟨o, rs, ⟨ref, href, hmatch, hallowed⟩, hrs, rfl⟩) hx'⟩

lemma itemLines_nodeLines_agree (hu : Reached (nodeLines api c) (w.node typeKind) u) :
    itemLines (nodeLines api c u) = itemLines (nodeLines api c' u) := by
  have hsame := (itemLines_agree hc hl hl' (reached_iff.mp hu)).2
  rw [itemLines_nodeLines, itemLines_nodeLines]
  refine flatMap_congr fun ref href => ?_
  rw [hsame ref href]

end Agreement

/-! ## The errors of a RuleSet -/

/-- The error for an object outside of the RuleSet's namespace. -/
def rejection (rs : RuleSet) (ref : RuleRef) (found : String × String) : ReferenceError :=
  ⟨1, ref, .allowedObject (.crossNamespace rs.ns rs.name found.1 found.2)⟩

lemma rejection_injective (rs : RuleSet) (ref : RuleRef) :
    Function.Injective (rejection rs ref) := by
  intro a b hab
  simp only [rejection, ReferenceError.mk.injEq, ReferenceCause.allowedObject.injEq,
    AllowedError.crossNamespace.injEq, true_and] at hab
  exact Prod.ext hab.1 hab.2

lemma faultLines_refLines (hns : rs.ns = n) (hsame : SameOnly rs) (ref : RuleRef) :
    faultLines (refLines api c (.ruleSet "RuleSet" rs) ref) =
      match lookupRef api c (applyRuleRefDefaults ref n) with
      | .error e => [⟨0, ref, .lookupRef e⟩]
      | .ok _ => (foreignMatches api c n ref).map (rejection rs ref) := by
  unfold refLines foreignMatches
  rw [Source.ns, hns]
  cases lookupRef api c (applyRuleRefDefaults ref n) with
  | error e => rfl
  | ok items =>
    simp only [faultLines, filterMap_map, map_map]
    induction items with
    | nil => rfl
    | cons o items ih =>
      rw [filterMap_cons, filter_cons]
      by_cases ho : o.ns = n
      · have hline : ((objectLine api c ref (.ruleSet "RuleSet" rs) o).out).getLeft? = none := by
          unfold objectLine
          rw [allowedObject_sameOnly hsame, if_pos (hns.trans ho.symm)]
          simp only [Object.line_out]
          rfl
        simp only [Function.comp_apply, hline, ho, bne_self_eq_false, Bool.false_eq_true, if_false]
        exact ih
      · have hline : ((objectLine api c ref (.ruleSet "RuleSet" rs) o).out).getLeft? =
            some (rejection rs ref (o.ns, o.name)) := by
          unfold objectLine
          rw [allowedObject_sameOnly hsame, if_neg fun h => ho (h.symm.trans hns)]
          rfl
        have hne : (o.ns != n) = true := bne_iff_ne.mpr ho
        simp only [Function.comp_apply, hline, hne, if_true, map_cons]
        rw [← ih]
        rfl

/-- The error is a rejection by `rs` of an object that `ref` found. -/
def raisedBy (rs : RuleSet) (ref : RuleRef) (e : ReferenceError) : Bool :=
  e.ref == ref &&
    match e.err with
    | .allowedObject (.crossNamespace _ sourceName _ _) => sourceName == rs.name
    | _ => false

lemma faultLines_nodeLines (u : Node) :
    faultLines (nodeLines api c u) = u.refs.flatMap fun ref =>
      faultLines (refLines api c u.source ref) := by
  unfold nodeLines faultLines
  exact filterMap_flatMap ..

lemma filter_raisedBy_refLines (hns : rs.ns = n) (hsame : SameOnly rs) (ref ref' : RuleRef) :
    (faultLines (refLines api c (.ruleSet "RuleSet" rs) ref')).filter (raisedBy rs ref) =
      if ref' = ref then (foreignMatches api c n ref).map (rejection rs ref) else [] := by
  rw [faultLines_refLines hns hsame]
  split_ifs with href
  · subst href
    unfold foreignMatches
    cases lookupRef api c (applyRuleRefDefaults ref' n) with
    | error e => simp [raisedBy]
    | ok items =>
      refine filter_eq_self.mpr fun e he => ?_
      obtain ⟨found, -, rfl⟩ := mem_map.mp he
      simp [raisedBy, rejection]
  · have hother : ∀ e : ReferenceError, e.ref = ref' → ¬ raisedBy rs ref e = true := by
      intro e he
      simp [raisedBy, he, href]
    rw [filter_eq_nil_iff]
    intro e he
    split at he
    · rw [mem_singleton.mp he]
      exact hother _ rfl
    · obtain ⟨found, -, rfl⟩ := mem_map.mp he
      exact hother _ rfl

lemma filter_raisedBy_nodeLines (hns : rs.ns = n) (hsame : SameOnly rs) (ref : RuleRef) :
    (faultLines (nodeLines api c rs.node)).filter (raisedBy rs ref) =
      (List.replicate (rs.spec.ruleRefs.count ref)
        ((foreignMatches api c n ref).map (rejection rs ref))).flatten := by
  rw [faultLines_nodeLines, RuleSet.node]
  simp only
  generalize rs.spec.ruleRefs = refs
  induction refs with
  | nil => rfl
  | cons ref' refs ih =>
    rw [flatMap_cons, filter_append, ih, filter_raisedBy_refLines hns hsame, count_cons]
    by_cases href : ref' = ref
    · simp [href, replicate_succ]
    · simp [href]

lemma allowedBySelector_ne_crossNamespace {selector : Option LabelSelector} {ns : String} :
    allowedBySelector api c selector ns ≠ some (.crossNamespace a b x y) := by
  unfold allowedBySelector
  split
  · simp
  · split
    · simp
    · split
      · simp
      · split <;> simp

lemma allowedObject_crossNamespace {source : Source}
    (h : allowedObject api c o source = some (.crossNamespace a b x y)) :
    b = source.name ∧ (namespacesPolicy source).isSome := by
  unfold allowedObject at h
  split at h
  · cases h
  · split at h
    · cases h
    · next policy hpolicy =>
      rw [hpolicy]
      refine ⟨?_, rfl⟩
      split at h
      · cases h
      · cases h
        rfl
      · cases h
        rfl
      · exact absurd h allowedBySelector_ne_crossNamespace
      · cases h
      · cases h

lemma mem_faultLines_crossNamespace {e : ReferenceError} (he : e ∈ faultLines (nodeLines api c u))
    (herr : e.err = .allowedObject (.crossNamespace a b x y)) :
    b = u.source.name ∧ (namespacesPolicy u.source).isSome := by
  rw [faultLines_nodeLines, mem_flatMap] at he
  obtain ⟨ref, -, he⟩ := he
  unfold faultLines refLines at he
  obtain ⟨l, hl, hout⟩ := mem_filterMap.mp he
  split at hl
  · rw [mem_singleton.mp hl] at hout
    cases hout
    cases herr
  · obtain ⟨o, -, rfl⟩ := mem_map.mp hl
    unfold objectLine at hout
    split at hout
    · next e' hallowed =>
      cases hout
      cases herr
      exact allowedObject_crossNamespace hallowed
    · rw [Object.line_out] at hout
      cases hout

/-! ## Equal errors -/

lemma LocalGraph.node_eq (hl : LocalGraph api c n (w.node typeKind))
    (ho : Reachable api c (w.node typeKind) o) (hrs : o.asRuleSet = some rs)
    (hu : Relation.ReflTransGen (Step api c) (w.node typeKind) u)
    (hpolicy : (namespacesPolicy u.source).isSome) (hname : rs.name = u.source.name) :
    u = rs.node := by
  rcases reached_cases hu with rfl | ⟨p, ps, hp, hps, rfl⟩
  · cases hpolicy
  · obtain ⟨hgvk, hns, -⟩ := hl.ruleSets o rs ho hrs
    obtain ⟨hgvk', hns', -⟩ := hl.ruleSets p ps hp hps
    have hname' : o.name = p.name := by
      rw [← (asRuleSet_ns hrs).2, hname]
      exact (asRuleSet_ns hps).2
    have hkey : o.key = p.key :=
      key_eq_of_gvk_eq (hgvk.trans hgvk'.symm) (hns.trans hns'.symm) hname'
    have hmem : ∀ {x : Object}, Reachable api c (w.node typeKind) x → x ∈ c.objects := by
      rintro x ⟨u, hu, ref, href, hmatch, hallowed⟩
      exact hmatch.1
    have hop : o = p := Cluster.eq_of_key_eq (hmem ho) (hmem hp) hkey
    rw [hop, hps] at hrs
    rw [Option.some.inj hrs]

section Agreement
variable (hc : AgreeOn n c c') (hl : LocalGraph api c n (w.node typeKind))
  (hl' : LocalGraph api c' n (w.node typeKind))
include hc hl hl'

lemma foreignMatches_eq_of_faults_eq {m : ℕ} {r r' : List (ReferenceError ⊕ Object)}
    (hr : expand (nodeLines api c) m (w.node typeKind) = some r)
    (hr' : expand (nodeLines api c') m (w.node typeKind) = some r')
    (hfaults : faultsOf r = faultsOf r') (ho : Reachable api c (w.node typeKind) o)
    (hrs : o.asRuleSet = some rs) (href : ref ∈ rs.spec.ruleRefs) :
    foreignMatches api c n ref = foreignMatches api c' n ref := by
  obtain ⟨-, hns, hsame⟩ := hl.ruleSets o rs ho hrs
  replace hns := (asRuleSet_ns hrs).1.trans hns
  have honly : ∀ d : Cluster, ∀ u, Relation.ReflTransGen (Step api c) (w.node typeKind) u →
      u ≠ rs.node → (faultLines (nodeLines api d u)).filter (raisedBy rs ref) = [] := by
    intro d u hu hne
    rw [filter_eq_nil_iff]
    intro e he hraised
    rw [raisedBy, Bool.and_eq_true] at hraised
    obtain ⟨-, hraised⟩ := hraised
    split at hraised
    · next herr =>
      obtain ⟨hsource, hpolicy⟩ := mem_faultLines_crossNamespace he herr
      rw [beq_iff_eq] at hraised
      exact hne (hl.node_eq ho hrs hu hpolicy (hraised.symm.trans hsource))
    · cases hraised
  have hu : Reached (nodeLines api c) (w.node typeKind) rs.node := by
    obtain ⟨u, hu, hedge⟩ := ho
    exact reached_iff.mpr (hu.tail ⟨o, rs, hedge, hrs, rfl⟩)
  have hrejections := faultLines_eq_of_expand_faults_eq (P := raisedBy rs ref) hr hr'
    (fun u hu => itemLines_nodeLines_agree hc hl hl' hu)
    (fun u hu hne => honly c u (reached_iff.mp hu) hne)
    (fun u hu hne => honly c' u
      (itemLines_agree hc.symm hl' hl (reached_iff.mp hu)).1 hne) hu hfaults
  rw [filter_raisedBy_nodeLines hns hsame, filter_raisedBy_nodeLines hns hsame] at hrejections
  have hmap := eq_of_flatten_replicate_eq (count_pos_iff.mpr href) hrejections
  exact map_injective_iff.mpr (rejection_injective rs ref) hmap

end Agreement

/-! ## Equal names outside -/

lemma map_eq_of_keys_eq {β : Type} {items items' : List Object} {f g : Object → β}
    (hkeys : items.map Object.key = items'.map Object.key)
    (h : ∀ o ∈ items, ∀ o' ∈ items', o.key = o'.key → f o = g o') :
    items.map f = items'.map g := by
  induction items generalizing items' with
  | nil =>
    rw [map_nil, eq_comm, map_eq_nil_iff] at hkeys
    rw [hkeys]
    rfl
  | cons o items ih =>
    rw [map_cons, eq_comm] at hkeys
    obtain ⟨o', items', rfl, ho, hrest⟩ := map_eq_cons_iff.mp hkeys
    rw [map_cons, map_cons, h o mem_cons_self o' mem_cons_self ho.symm]
    refine congrArg _ (ih hrest.symm fun p hp p' hp' => ?_)
    exact h p (mem_cons_of_mem o hp) p' (mem_cons_of_mem o' hp')

/-- The objects of one kind that a predicate on labels picks out. -/
def picked (c : Cluster) (gvk : GroupVersionKind) (selector : Labels → Bool) : List Object :=
  c.objects.filter fun o => o.gvk == gvk && selector o.labels

lemma mem_picked :
    o ∈ picked c gvk selector ↔ o ∈ c.objects ∧ o.gvk = gvk ∧ selector o.labels = true := by
  simp [picked]

lemma picked_sorted (c : Cluster) (gvk : GroupVersionKind) (selector : Labels → Bool) :
    ((picked c gvk selector).map Object.key).Pairwise (· < ·) := by
  rw [pairwise_map]
  exact c.sorted.filter _

lemma picked_keys_subset (hc : AgreeOn n c c')
    (hforeign : ((picked c gvk selector).filter fun o => o.ns != n).map (fun o => (o.ns, o.name)) =
      ((picked c' gvk selector).filter fun o => o.ns != n).map fun o => (o.ns, o.name))
    (ho : o ∈ picked c gvk selector) : ∃ o' ∈ picked c' gvk selector, o'.key = o.key := by
  obtain ⟨hmem, hgvk, hlabels⟩ := mem_picked.mp ho
  by_cases hns : o.ns = n
  · exact ⟨o, mem_picked.mpr ⟨hc.mem hmem hns, hgvk, hlabels⟩, rfl⟩
  · have hpair : (o.ns, o.name) ∈
        ((picked c gvk selector).filter fun o => o.ns != n).map fun o => (o.ns, o.name) :=
      mem_map.mpr ⟨o, mem_filter.mpr ⟨ho, bne_iff_ne.mpr hns⟩, rfl⟩
    rw [hforeign] at hpair
    obtain ⟨o', ho', hpair'⟩ := mem_map.mp hpair
    have ho'' := mem_of_mem_filter ho'
    obtain ⟨-, hgvk', -⟩ := mem_picked.mp ho''
    rw [Prod.mk.injEq] at hpair'
    exact ⟨o', ho'', key_eq_of_gvk_eq (hgvk'.trans hgvk.symm) hpair'.1 hpair'.2⟩

lemma picked_keys_eq (hc : AgreeOn n c c')
    (hforeign : ((picked c gvk selector).filter fun o => o.ns != n).map (fun o => (o.ns, o.name)) =
      ((picked c' gvk selector).filter fun o => o.ns != n).map fun o => (o.ns, o.name)) :
    (picked c gvk selector).map Object.key = (picked c' gvk selector).map Object.key := by
  refine List.Pairwise.eq_of_mem_iff (picked_sorted c gvk selector)
    (picked_sorted c' gvk selector) fun k => ?_
  rw [mem_map, mem_map]
  constructor
  · rintro ⟨o, ho, rfl⟩
    exact picked_keys_subset hc hforeign ho
  · rintro ⟨o, ho, rfl⟩
    exact picked_keys_subset hc.symm hforeign.symm ho

lemma lookupRef_labels {sel : LabelSelector} (hsel : ref.selector = some sel)
    (hok : api.labelSelectorAsSelector sel = .ok selector) (d : Cluster) :
    lookupRef api d ref =
      match api.noMatchError ref.selectedGVK with
      | some e => .error e
      | none => .ok (picked d ref.selectedGVK selector) := by
  unfold lookupRef
  rw [hsel]
  simp only [hok]
  rfl

lemma objectLine_congr (hc : AgreeOn n c c') (ref : RuleRef) (source : Source) (o : Object) :
    objectLine api c ref source o = objectLine api c' ref source o := by
  unfold objectLine
  rw [allowedObject_congr hc.namespaces rfl rfl source]

lemma refLines_agree (hc : AgreeOn n c c') {source : Source} (hns : source.ns = n)
    (hname : ref.selector = none → ref.ns = "" ∨ ref.ns = n)
    (hforeign : foreignMatches api c n ref = foreignMatches api c' n ref)
    (hline : ∀ o o', o.ns ≠ n → RefMatches api c (applyRuleRefDefaults ref n) o →
      o.ns = o'.ns → o.name = o'.name →
      objectLine api c ref source o = objectLine api c' ref source o') :
    refLines api c source ref = refLines api c' source ref := by
  have hlines : objectLine api c ref source = objectLine api c' ref source :=
    funext (objectLine_congr hc ref source)
  unfold refLines
  rw [hns]
  cases hsel : (applyRuleRefDefaults ref n).selector with
  | none =>
    have hd : (applyRuleRefDefaults ref n).ns = n := by
      rw [applyRuleRefDefaults_selector] at hsel
      rw [applyRuleRefDefaults_ns]
      split_ifs with hempty
      · rfl
      · exact (hname hsel).resolve_left hempty
    have hlookup : lookupRef api c (applyRuleRefDefaults ref n) =
        lookupRef api c' (applyRuleRefDefaults ref n) := by
      unfold lookupRef getDynamicObjects
      rw [hsel, hd, get_inNamespace hc]
    rw [hlookup, hlines]
  | some sel =>
    cases hok : api.labelSelectorAsSelector sel with
    | error e =>
      have hlookup : ∀ d : Cluster, lookupRef api d (applyRuleRefDefaults ref n) = .error e := by
        intro d
        unfold lookupRef
        rw [hsel]
        simp [hok]
      rw [hlookup, hlookup]
    | ok selector =>
      unfold foreignMatches at hforeign
      rw [lookupRef_labels hsel hok, lookupRef_labels hsel hok] at hforeign ⊢
      cases hserved : api.noMatchError (applyRuleRefDefaults ref n).selectedGVK with
      | some e => rfl
      | none =>
        rw [hserved] at hforeign
        simp only at hforeign ⊢
        refine map_eq_of_keys_eq (picked_keys_eq hc hforeign) fun o ho o' ho' hkey => ?_
        obtain ⟨hmem, hgvk, hlabels⟩ := mem_picked.mp ho
        obtain ⟨hmem', -, -⟩ := mem_picked.mp ho'
        obtain ⟨-, -, hons, honame⟩ := Object.key_eq_iff.mp hkey
        by_cases hon : o.ns = n
        · -- in the namespace it is the same object
          rw [Cluster.eq_of_key_eq (hc.mem hmem hon) hmem' hkey]
          exact objectLine_congr hc ref source o'
        · refine hline o o' hon ⟨hmem, ?_⟩ hons honame
          rw [hsel]
          exact ⟨hgvk, hgvk ▸ hserved, selector, hok, hlabels⟩

section Agreement
variable (hc : AgreeOn n c c') (hw : w.ns = n) (hl : LocalGraph api c n (w.node typeKind))
  (hl' : LocalGraph api c' n (w.node typeKind))
include hc hw hl hl'

omit hc in
lemma foreignMatches_waf (href : ref ∈ w.ruleSetRefs) :
    foreignMatches api c n ref = foreignMatches api c' n ref := by
  have hnil : ∀ {d : Cluster}, LocalGraph api d n (w.node typeKind) →
      foreignMatches api d n ref = [] := by
    intro d hd
    unfold foreignMatches
    cases hlookup : lookupRef api d (applyRuleRefDefaults ref n) with
    | error e => rfl
    | ok items =>
      rw [map_eq_nil_iff, filter_eq_nil_iff]
      intro o ho
      have hmatch : RefMatches api d (applyRuleRefDefaults ref w.ns) o :=
        hw ▸ mem_lookupRef_iff.mp ⟨items, hlookup, ho⟩
      have hdirect : o ∈ directObjects api d (.waf typeKind w) ref := by
        refine mem_directObjects_iff.mpr ⟨hmatch, .inr fun policy hpolicy => ?_⟩
        cases hpolicy
      have hons : o.ns = n := hd.directObjects_ns (u := w.node typeKind) .refl href hdirect
      simp [hons]
  rw [hnil hl, hnil hl']

lemma nodeLines_agree
    (hforeign : ∀ o rs, Reachable api c (w.node typeKind) o → o.asRuleSet = some rs →
      ∀ ref ∈ rs.spec.ruleRefs, foreignMatches api c n ref = foreignMatches api c' n ref)
    (hu : Relation.ReflTransGen (Step api c) (w.node typeKind) u) :
    nodeLines api c u = nodeLines api c' u := by
  unfold nodeLines
  refine flatMap_congr fun ref href => ?_
  have hns := hl.source_ns hw hu
  rcases reached_cases hu with rfl | ⟨p, rs, hp, hrs, rfl⟩
  · refine refLines_agree hc hns (hl.names _ hu ref href) (foreignMatches_waf hw hl hl' href) ?_
    intro o o' hon hmatch _ _
    -- the WAF would use the object, which is outside of the namespace
    refine absurd (hl.directObjects_ns hu href (mem_directObjects_iff.mpr ⟨?_, ?_⟩)) hon
    · rw [hns]
      exact hmatch
    · refine .inr fun policy hpolicy => ?_
      cases hpolicy
  · refine refLines_agree hc hns (hl.names _ hu ref href) (hforeign p rs hp hrs ref href) ?_
    intro o o' hon _ hons honame
    obtain ⟨-, -, hsame⟩ := hl.ruleSets p rs hp hrs
    have hrsns : rs.ns = n := hns
    unfold objectLine
    rw [RuleSet.node, allowedObject_sameOnly hsame, allowedObject_sameOnly hsame, ← hons, ← honame,
      if_neg fun h => hon (h.symm.trans hrsns)]

end Agreement

end

/-- Two clusters agree on the namespace of a WAF that keeps to it. Then the WAF resolves to
the same objects and the same errors in both exactly when the references of its RuleSets find
the same names outside of that namespace. -/
theorem resolve_noninterference_iff {api : Apimachinery} {c c' : Cluster} {n : String} {w : WAF}
    {typeKind : String} (hc : AgreeOn n c c') (hw : w.ns = n)
    (hl : LocalGraph api c n (w.node typeKind)) (hl' : LocalGraph api c' n (w.node typeKind))
    (hacyclic : Acyclic api c (w.node typeKind)) :
    (∃ m out, resolve api c m w.ruleSetRefs (.waf typeKind w) = some out ∧
      resolve api c' m w.ruleSetRefs (.waf typeKind w) = some out) ↔
    ∀ o rs, Reachable api c (w.node typeKind) o → o.asRuleSet = some rs →
      ∀ ref ∈ rs.spec.ruleRefs, foreignMatches api c n ref = foreignMatches api c' n ref := by
  constructor
  · rintro ⟨m, out, hout, hout'⟩ o rs ho hrs ref href
    obtain ⟨r, hr, hr₁⟩ := resolve_eq_some (v := w.node typeKind) hout
    obtain ⟨r', hr', hr₂⟩ := resolve_eq_some (v := w.node typeKind) hout'
    have hfaults : faultsOf r = faultsOf r' := congrArg Outcome.errors (hr₁.symm.trans hr₂)
    exact foreignMatches_eq_of_faults_eq hc hl hl' hr hr' hfaults ho hrs href
  · intro hforeign
    obtain ⟨m, out, hout⟩ := resolve_terminates_iff.mpr hacyclic
    refine ⟨m, out, hout, ?_⟩
    have hexpand := expand_congr
      (fun u hu => nodeLines_agree hc hw hl hl' hforeign (reached_iff.mp hu)) m
    have hsame := resolve_eq_expand api c' m (w.node typeKind)
    rw [← hexpand, ← resolve_eq_expand] at hsame
    exact hsame.trans hout

/-! ## A label planted in another namespace -/

/-- A rule of the shop with the label of its application. -/
def shopRule : Object where
  group := "seclang.kubewaf.io"
  version := "v1beta1"
  ns := "shop"
  name := "deny"
  labels := [("app", "shop")]
  content := .secRule {} {}

/-- All rules with that label. -/
def shopRef : RuleRef where
  kind := "SecRule"
  selector := some { matchLabels := [("app", "shop")] }

/-- The RuleSet of the shop. -/
def shopSet : Object where
  group := "waf.kubewaf.io"
  version := "v1beta1"
  ns := "shop"
  name := "base"
  content := .ruleSet { ruleRefs := [shopRef] }

/-- A rule of a tenant, with some labels. -/
def tenantRule (labels : Labels) : Object where
  group := "seclang.kubewaf.io"
  version := "v1beta1"
  ns := "tenant"
  name := "any"
  labels := labels
  content := .secRule {} {}

def shopCluster : Cluster where
  objects := [shopRule, shopSet]
  wafs_nodup := noWAFs_nodup

/-- The tenant's rule has labels of its own. -/
def unlabelledCluster : Cluster where
  objects := [shopRule, tenantRule [("app", "tenant")], shopSet]
  wafs_nodup := noWAFs_nodup

/-- The tenant's rule has the label of the shop. -/
def labelledCluster : Cluster where
  objects := [shopRule, tenantRule [("app", "shop")], shopSet]
  wafs_nodup := noWAFs_nodup

lemma localGraph_shop {c : Cluster} {out : Outcome}
    (hlines : nodeLines kubernetes c (frontWAF.node "WAF") =
      [.branch shopSet (RuleSet.node ⟨"shop", "base", { ruleRefs := [shopRef] }⟩)])
    (hout : resolve kubernetes c 2 frontWAF.ruleSetRefs (.waf "WAF" frontWAF) = some out)
    (hobjects : out.objects = [shopRule, shopSet]) :
    LocalGraph kubernetes c "shop" (frontWAF.node "WAF") := by
  have hreach : ∀ o rs, Reachable kubernetes c (frontWAF.node "WAF") o → o.asRuleSet = some rs →
      o = shopSet ∧ rs = ⟨"shop", "base", { ruleRefs := [shopRef] }⟩ := by
    intro o rs ho hrs
    have hmem := (mem_objects_iff_reachable (v := frontWAF.node "WAF") hout).mpr ho
    rw [hobjects, mem_cons, mem_singleton] at hmem
    rcases hmem with rfl | rfl
    · cases hrs
    · exact ⟨rfl, (Option.some.inj hrs).symm⟩
  refine ⟨fun o ho => ?_, fun o rs ho hrs => ?_, fun u hu ref href hsel => ?_⟩
  · obtain ⟨l, hl, hline⟩ := exists_nodeLines_iff.mpr ho
    rw [hlines, mem_singleton] at hl
    rw [hl] at hline
    cases hline
    rfl
  · obtain ⟨rfl, rfl⟩ := hreach o rs ho hrs
    exact ⟨rfl, rfl, .inl rfl⟩
  · rcases reached_cases hu with rfl | ⟨o, rs, ho, hrs, rfl⟩
    · rw [mem_singleton.mp href]
      exact .inl rfl
    · obtain ⟨rfl, rfl⟩ := hreach o rs ho hrs
      rw [mem_singleton.mp href] at hsel
      cases hsel

/-- A tenant's rule with other labels makes no difference to the shop. -/
theorem resolve_unlabelledCluster :
    AgreeOn "shop" shopCluster unlabelledCluster ∧
      ∃ m out, resolve kubernetes shopCluster m frontWAF.ruleSetRefs (.waf "WAF" frontWAF) =
          some out ∧
        resolve kubernetes unlabelledCluster m frontWAF.ruleSetRefs (.waf "WAF" frontWAF) =
          some out := by
  have hagree : AgreeOn "shop" shopCluster unlabelledCluster := ⟨by decide, rfl⟩
  have hout : resolve kubernetes shopCluster 2 frontWAF.ruleSetRefs (.waf "WAF" frontWAF) =
      some { objects := [shopRule, shopSet] } := by decide
  have hout' : resolve kubernetes unlabelledCluster 2 frontWAF.ruleSetRefs
      (.waf "WAF" frontWAF) = some { objects := [shopRule, shopSet] } := by decide
  refine ⟨hagree, (resolve_noninterference_iff hagree rfl (localGraph_shop (by decide) hout rfl)
    (localGraph_shop (by decide) hout' rfl)
    (resolve_terminates_iff.mp ⟨2, _, hout⟩)).mpr fun o rs ho hrs ref href => ?_⟩
  have hmem := (mem_objects_iff_reachable (v := frontWAF.node "WAF") hout).mpr ho
  rcases mem_cons.mp hmem with rfl | hmem
  · cases hrs
  · rw [mem_singleton.mp hmem] at hrs
    cases hrs
    rw [mem_singleton.mp href]
    decide

/-- A tenant that puts the label of the shop on a rule of its own gives the shop's WAF a
reference error, with which `BuildAndPublish` refuses to publish it. -/
theorem resolve_labelledCluster_rejects :
    ∃ (c c' : Cluster) (n : String) (w : WAF) (m : ℕ) (out out' : Outcome),
      AgreeOn n c c' ∧ w.ns = n ∧ LocalGraph kubernetes c n (w.node "WAF") ∧
      LocalGraph kubernetes c' n (w.node "WAF") ∧
      resolve kubernetes c m w.ruleSetRefs (.waf "WAF" w) = some out ∧
      resolve kubernetes c' m w.ruleSetRefs (.waf "WAF" w) = some out' ∧
      out.errors = [] ∧ out'.errors ≠ [] := by
  have hout : resolve kubernetes shopCluster 2 frontWAF.ruleSetRefs (.waf "WAF" frontWAF) =
      some { objects := [shopRule, shopSet] } := by decide
  have hout' : resolve kubernetes labelledCluster 2 frontWAF.ruleSetRefs (.waf "WAF" frontWAF) =
      some {
        objects := [shopRule, shopSet]
        errors := [⟨1, shopRef, .allowedObject (.crossNamespace "shop" "base" "tenant" "any")⟩] } := by
    decide
  exact ⟨shopCluster, labelledCluster, "shop", frontWAF, 2, _, _, ⟨by decide, rfl⟩, rfl,
    localGraph_shop (by decide) hout rfl, localGraph_shop (by decide) hout' rfl, hout, hout', rfl,
    cons_ne_nil _ _⟩

end KubeWaf.References
