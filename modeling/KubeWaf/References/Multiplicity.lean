import KubeWaf.References.Assembly
import KubeWaf.References.Termination

/-!
# How often a rule is loaded

The resolver appends an object each time a reference leads to it. A rule is therefore loaded
once for each trail of references that ends at it, and `GetSecLang` renders what it is given.
-/

namespace KubeWaf.References

open Lib Seclang List

/-- A trail of references from an owner to an object: at each step the position of a
reference in the owner's list, and the object that it resolves to. -/
inductive RefTrail (api : Apimachinery) (c : Cluster) : Node → List (ℕ × Object) → Object → Prop
  | direct {v : Node} {i : ℕ} {ref : RuleRef} {o : Object} (href : v.refs[i]? = some ref)
      (ho : o ∈ directObjects api c v.source ref) : RefTrail api c v [(i, o)] o
  | through {v : Node} {i : ℕ} {ref : RuleRef} {o : Object} {rs : RuleSet}
      {p : List (ℕ × Object)} {x : Object} (href : v.refs[i]? = some ref)
      (ho : o ∈ directObjects api c v.source ref) (hrs : o.asRuleSet = some rs)
      (hp : RefTrail api c rs.node p x) : RefTrail api c v ((i, o) :: p) x

/-- What identifies a rule: kind, namespace and name. Other objects have none. -/
def Object.ruleKey? (o : Object) : Option (String × String × String) :=
  if o.kind = "SecRule" ∨ o.kind = "SecAction" then some (o.kind, o.ns, o.name) else none

def LangItem.ruleKey (item : LangItem) : String × String × String :=
  (item.kind, item.ns, item.name)

lemma langItem_ruleKey (o : Object) : o.langItem?.map LangItem.ruleKey = o.ruleKey? := by
  unfold Object.langItem? Object.ruleKey? Object.kind
  cases h : o.content with
  | secRule spec status => rfl
  | secAction spec status => rfl
  | ruleSet spec => rfl
  | other k =>
    have hk := k.2
    simp only [mem_cons, not_mem_nil, or_false, not_or] at hk
    simp [Content.kind, hk.1, hk.2.1]

section
variable {api : Apimachinery} {c : Cluster} {v : Node}

/-! ## Lines by reference and object -/

/-- The lines of a reference at some position, each with the object it is for. -/
def labelledRefLines (api : Apimachinery) (c : Cluster) (source : Source) (ref : RuleRef) (i : ℕ) :
    List ((ℕ × Option Object) × Line Node Object ReferenceError) :=
  match lookupRef api c (applyRuleRefDefaults ref source.ns) with
  | .error e => [((i, none), .fault ⟨0, ref, .lookupRef e⟩)]
  | .ok items => items.map fun o => ((i, some o), objectLine api c ref source o)

/-- The lines of an owner, each with the position of its reference and the object found. -/
def labelledLines (api : Apimachinery) (c : Cluster) (v : Node) :
    List ((ℕ × Option Object) × Line Node Object ReferenceError) :=
  v.refs.zipIdx.flatMap fun ref => labelledRefLines api c v.source ref.1 ref.2

lemma labelledRefLines_snd (source : Source) (ref : RuleRef) (i : ℕ) :
    (labelledRefLines api c source ref i).map Prod.snd = refLines api c source ref := by
  unfold labelledRefLines refLines
  cases lookupRef api c (applyRuleRefDefaults ref source.ns) with
  | error e => rfl
  | ok items => simp [Function.comp_def]

lemma labelledLines_snd (v : Node) :
    (labelledLines api c v).map Prod.snd = nodeLines api c v := by
  unfold labelledLines nodeLines
  rw [map_flatMap]
  simp only [labelledRefLines_snd]
  rw [← flatMap_map Prod.fst (refLines api c v.source), zipIdx_map_fst]

lemma objects_nodup (c : Cluster) : c.objects.Nodup := c.keys_nodup.of_map

lemma lookupRef_nodup {ref : RuleRef} {items : List Object}
    (h : lookupRef api c ref = .ok items) : items.Nodup := by
  unfold lookupRef listDynamicObjects Cluster.list getDynamicObjects at h
  split at h
  · split at h
    · cases h
    · simp only at h
      split at h
      · cases h
      · cases h
        exact (objects_nodup c).filter _
  · split at h
    · cases hget : c.get api ref.gvk ref.name ref.ns with
      | error e =>
        rw [hget] at h
        cases h
      | ok o =>
        rw [hget] at h
        cases h
        exact nodup_singleton o
    · cases h

lemma labelledRefLines_fst (source : Source) (ref : RuleRef) (i : ℕ) :
    ((labelledRefLines api c source ref i).map Prod.fst).Nodup := by
  unfold labelledRefLines
  cases hlookup : lookupRef api c (applyRuleRefDefaults ref source.ns) with
  | error e => exact nodup_singleton _
  | ok items =>
    simp only [map_map]
    refine (lookupRef_nodup hlookup).map fun o o' ho => ?_
    simpa using ho

lemma eq_of_mem_labelledRefLines {source : Source} {ref : RuleRef} {i : ℕ}
    {l : (ℕ × Option Object) × Line Node Object ReferenceError}
    (hl : l ∈ labelledRefLines api c source ref i) : l.1.1 = i := by
  unfold labelledRefLines at hl
  split at hl
  · rw [mem_singleton.mp hl]
  · obtain ⟨o, -, rfl⟩ := mem_map.mp hl
    rfl

lemma labelledLines_fst (v : Node) : ((labelledLines api c v).map Prod.fst).Nodup := by
  unfold labelledLines
  rw [map_flatMap, nodup_flatMap]
  refine ⟨fun ref _ => labelledRefLines_fst v.source ref.1 ref.2, ?_⟩
  -- the labels of different references differ in the position
  have hidx : v.refs.zipIdx.Pairwise fun a b => a.2 ≠ b.2 := by
    rw [← pairwise_map (f := Prod.snd), zipIdx_map_snd]
    exact nodup_range'
  refine hidx.imp fun {a b} hab label ha hb => hab ?_
  obtain ⟨l, hl, rfl⟩ := mem_map.mp ha
  obtain ⟨l', hl', hll⟩ := mem_map.mp hb
  rw [← eq_of_mem_labelledRefLines hl, ← eq_of_mem_labelledRefLines hl', hll]

/-! ## Trails through lines are trails of references -/

lemma mem_labelledLines_iff {i : ℕ} {a : Option Object} {o : Object}
    {l : Line Node Object ReferenceError} (hout : l.out = .inr o) :
    ((i, a), l) ∈ labelledLines api c v ↔ a = some o ∧ l = o.line ∧
      ∃ ref, v.refs[i]? = some ref ∧ o ∈ directObjects api c v.source ref := by
  have hblock : ∀ ref j, ((i, a), l) ∈ labelledRefLines api c v.source ref j ↔
      j = i ∧ a = some o ∧ l = o.line ∧ o ∈ directObjects api c v.source ref := by
    intro ref j
    unfold labelledRefLines directObjects
    cases lookupRef api c (applyRuleRefDefaults ref v.source.ns) with
    | error e =>
      simp only [mem_singleton, Prod.mk.injEq, not_mem_nil, and_false, iff_false]
      rintro ⟨-, rfl⟩
      cases hout
    | ok items =>
      rw [mem_map, mem_filter, Option.isNone_iff_eq_none]
      constructor
      · rintro ⟨o', ho', heq⟩
        cases heq
        obtain ⟨rfl, hallowed⟩ := objectLine_out_eq_inr_iff.mp hout
        rw [← allowedObject_eq_none_iff] at hallowed
        exact ⟨rfl, rfl, by rw [objectLine, hallowed], ho', hallowed⟩
      · rintro ⟨rfl, rfl, rfl, ho, hallowed⟩
        exact ⟨o, ho, by rw [objectLine, hallowed]⟩
  unfold labelledLines
  rw [mem_flatMap]
  constructor
  · rintro ⟨⟨ref, j⟩, href, hl⟩
    obtain ⟨rfl, ha, hline, ho⟩ := (hblock ref j).mp hl
    exact ⟨ha, hline, ref, mem_zipIdx_iff_getElem?.mp href, ho⟩
  · rintro ⟨ha, hline, ref, href, ho⟩
    exact ⟨(ref, i), mem_zipIdx_iff_getElem?.mpr href, (hblock ref i).mpr ⟨rfl, ha, hline, ho⟩⟩

/-- The label of a step in a trail of references. -/
def stepLabel (s : ℕ × Object) : ℕ × Option Object := (s.1, some s.2)

lemma stepLabel_injective : Function.Injective stepLabel := by
  rintro ⟨i, o⟩ ⟨j, p⟩ h
  simpa [stepLabel] using h

lemma trail_of_refTrail {q : List (ℕ × Object)} {x : Object} (h : RefTrail api c v q x) :
    Trail (labelledLines api c) v (q.map stepLabel) (.inr x) := by
  induction h with
  | @direct v i ref o href ho =>
    refine ⟨o.line, ?_, .inl ⟨rfl, o.line_out⟩⟩
    exact (mem_labelledLines_iff o.line_out).mpr ⟨rfl, rfl, ref, href, ho⟩
  | @through v i ref o rs p x href ho hrs _ ih =>
    refine ⟨o.line, ?_, .inr ⟨o, rs.node, by rw [Object.line, hrs], ih⟩⟩
    exact (mem_labelledLines_iff o.line_out).mpr ⟨rfl, rfl, ref, href, ho⟩

lemma refTrail_of_trail {p : List (ℕ × Option Object)} {x : Object}
    (h : Trail (labelledLines api c) v p (.inr x)) :
    ∃ q, p = q.map stepLabel ∧ RefTrail api c v q x := by
  induction p generalizing v with
  | nil => cases h
  | cons a p ih =>
    obtain ⟨i, a⟩ := a
    obtain ⟨l, hl, hlast | ⟨o, w, rfl, hw⟩⟩ := h
    · obtain ⟨rfl, hout⟩ := hlast
      obtain ⟨rfl, -, ref, href, ho⟩ := (mem_labelledLines_iff hout).mp hl
      exact ⟨[(i, x)], rfl, .direct href ho⟩
    · obtain ⟨rfl, hline, ref, href, ho⟩ := (mem_labelledLines_iff rfl).mp hl
      obtain ⟨q, rfl, hq⟩ := ih hw
      unfold Object.line at hline
      split at hline
      · next rs hrs =>
        cases hline
        exact ⟨(i, o) :: q, rfl, .through href ho hrs hq⟩
      · cases hline

/-! ## Loaded once -/

lemma sortItems_ruleKeys (objects : List Object) :
    ((sortItems (objects.filterMap Object.langItem?)).map LangItem.ruleKey).Perm
      (objects.filterMap Object.ruleKey?) := by
  have hkeys : (objects.filterMap Object.langItem?).map LangItem.ruleKey =
      objects.filterMap Object.ruleKey? := by
    rw [map_filterMap]
    simp [langItem_ruleKey]
  rw [← hkeys]
  exact (sortItems_perm _).map _

lemma ruleKeys_nodup_iff {n : ℕ} {out : Outcome}
    (hout : resolve api c n v.refs v.source = some out) :
    (out.objects.filterMap Object.ruleKey?).Nodup ↔
      ∀ p q x y k, RefTrail api c v p x → RefTrail api c v q y →
        x.ruleKey? = some k → y.ruleKey? = some k → p = q := by
  obtain ⟨r, hr, rfl⟩ := resolve_eq_some hout
  have hkeys : (toOutcome r).objects.filterMap Object.ruleKey? =
      r.filterMap (Sum.elim (fun _ => none) Object.ruleKey?) := by
    rw [toOutcome, itemsOf, filterMap_filterMap]
    congr 1
    funext x
    cases x <;> rfl
  rw [hkeys, expand_nodup_iff labelledLines_snd labelledLines_fst hr]
  constructor
  · intro h p q x y k hp hq hx hy
    have hpq := h _ _ _ _ k (trail_of_refTrail hp) (trail_of_refTrail hq) hx hy
    exact map_injective_iff.mpr stepLabel_injective hpq
  · intro h p q x y k hp hq hx hy
    cases x with
    | inl e => cases hx
    | inr x =>
      cases y with
      | inl e => cases hy
      | inr y =>
        obtain ⟨p', rfl, hp'⟩ := refTrail_of_trail hp
        obtain ⟨q', rfl, hq'⟩ := refTrail_of_trail hq
        rw [h p' q' x y k hp' hq' hx hy]

end

/-- Over an acyclic graph, the list that `Resolve` returns has each rule at most once, and
`GetSecLang` renders each rule in reach exactly once, exactly when no rule is at the end of two
different trails of references. -/
theorem resolve_loads_once_iff (api : Apimachinery) (c : Cluster) (w : WAF) (typeKind : String)
    (hacyclic : Acyclic api c (w.node typeKind)) :
    (∃ n out, resolve api c n w.ruleSetRefs (.waf typeKind w) = some out ∧
      (out.objects.filterMap Object.ruleKey?).Nodup ∧
      ∀ x k, Reachable api c (w.node typeKind) x → x.ruleKey? = some k →
        ((sortItems (out.objects.filterMap Object.langItem?)).map LangItem.ruleKey).count k = 1) ↔
    ∀ p q x y k, RefTrail api c (w.node typeKind) p x → RefTrail api c (w.node typeKind) q y →
      x.ruleKey? = some k → y.ruleKey? = some k → p = q := by
  constructor
  · rintro ⟨n, out, hout, hnodup, -⟩
    exact (ruleKeys_nodup_iff (v := w.node typeKind) hout).mp hnodup
  · intro htrails
    obtain ⟨n, out, hout⟩ := resolve_terminates_iff.mpr hacyclic
    have hnodup := (ruleKeys_nodup_iff hout).mpr htrails
    refine ⟨n, out, hout, hnodup, fun x k hx hk => ?_⟩
    have hmem : k ∈ out.objects.filterMap Object.ruleKey? :=
      mem_filterMap.mpr ⟨x, (mem_objects_iff_reachable hout).mpr hx, hk⟩
    rw [(sortItems_ruleKeys out.objects).count_eq]
    exact count_eq_one_of_mem hnodup hmem

/-- A rule that RuleSets of the shop refer to by name. -/
def sharedRule : Object where
  group := "seclang.kubewaf.io"
  version := "v1beta1"
  ns := "shop"
  name := "deny"
  content := .secRule {} {}

/-- A RuleSet of the shop with that rule. -/
def denySet (name : String) : Object where
  group := "waf.kubewaf.io"
  version := "v1beta1"
  ns := "shop"
  name := name
  content := .ruleSet { ruleRefs := [{ kind := "SecRule", name := "deny" }] }

def oneSetCluster : Cluster where
  objects := [sharedRule, denySet "base"]

theorem resolve_oneSetCluster_loads_once :
    Acyclic kubernetes oneSetCluster (frontWAF.node "WAF") ∧
    ∃ n out, resolve kubernetes oneSetCluster n frontWAF.ruleSetRefs (.waf "WAF" frontWAF) =
        some out ∧
      (out.objects.filterMap Object.ruleKey?).Nodup ∧
      ∀ x k, Reachable kubernetes oneSetCluster (frontWAF.node "WAF") x → x.ruleKey? = some k →
        ((sortItems (out.objects.filterMap Object.langItem?)).map LangItem.ruleKey).count k
          = 1 := by
  have hout : resolve kubernetes oneSetCluster 2 frontWAF.ruleSetRefs (.waf "WAF" frontWAF) =
      some { objects := [sharedRule, denySet "base"] } := by decide
  have hacyclic : Acyclic kubernetes oneSetCluster (frontWAF.node "WAF") :=
    resolve_terminates_iff.mp ⟨2, _, hout⟩
  refine ⟨hacyclic, (resolve_loads_once_iff kubernetes oneSetCluster frontWAF "WAF" hacyclic).mpr ?_⟩
  exact (ruleKeys_nodup_iff (v := frontWAF.node "WAF") hout).mp (by decide)

/-- Two RuleSets with the same rule, both attached to one WAF. -/
def twoSetCluster : Cluster where
  objects := [sharedRule, denySet "base", denySet "extra"]

/-- The rule is loaded twice, and rendered twice. -/
theorem resolve_twoSetCluster_loads_twice :
    ∃ (w : WAF) (n : ℕ) (out : Outcome), Acyclic kubernetes twoSetCluster (w.node "WAF") ∧
      resolve kubernetes twoSetCluster n w.ruleSetRefs (.waf "WAF" w) = some out ∧
      ¬ (out.objects.filterMap Object.ruleKey?).Nodup ∧
      ((sortItems (out.objects.filterMap Object.langItem?)).map LangItem.ruleKey).count
        ("SecRule", "shop", "deny") = 2 := by
  let w : WAF := {
    ns := "shop"
    name := "front"
    ruleSetRefs := [{ kind := "RuleSet", name := "base" }, { kind := "RuleSet", name := "extra" }] }
  have hout : resolve kubernetes twoSetCluster 2 w.ruleSetRefs (.waf "WAF" w) =
      some { objects := [sharedRule, denySet "base", sharedRule, denySet "extra"] } := by decide
  exact ⟨w, 2, _, resolve_terminates_iff.mp ⟨2, _, hout⟩, hout, by decide, by decide⟩

end KubeWaf.References
