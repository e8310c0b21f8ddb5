import KubeWaf.References.Graph

/-!
# A locking run follows the read-only one

`AddUpdateReconcile` writes to the objects it meets while it is still looking references up.
All that its updates change in the store are finalizers: the back reference it adds is part of
the status, which a plain update does not touch. Lookups and policy checks do not read
finalizers, so a locking run meets the objects that a read-only run on the initial state
meets, whatever fails on the way.
-/

namespace KubeWaf.References

open Lib Seclang List

variable {st : State} {o₀ : Object} {r : List (ReferenceError ⊕ Object)}

/-- An object without its finalizers. -/
def Object.dropFinalizers (o : Object) : Object := { o with finalizers := [] }

/-- Two contents of the API server that differ in finalizers only. -/
structure SameRules (c c' : Cluster) : Prop where
  objects : c.objects.map Object.dropFinalizers = c'.objects.map Object.dropFinalizers
  wafs : c.wafs = c'.wafs
  namespaces : c.namespaces = c'.namespaces

lemma SameRules.refl (c : Cluster) : SameRules c c := ⟨rfl, rfl, rfl⟩

lemma SameRules.trans {a b c : Cluster} (hab : SameRules a b) (hbc : SameRules b c) :
    SameRules a c :=
  ⟨hab.objects.trans hbc.objects, hab.wafs.trans hbc.wafs, hab.namespaces.trans hbc.namespaces⟩

section Fields
variable {o o' : Object} (h : o.dropFinalizers = o'.dropFinalizers)
include h

lemma ns_eq_of_dropFinalizers : o.ns = o'.ns := by
  have := congrArg Object.ns h
  exact this

lemma name_eq_of_dropFinalizers : o.name = o'.name := by
  have := congrArg Object.name h
  exact this

lemma content_eq_of_dropFinalizers : o.content = o'.content := by
  have := congrArg Object.content h
  exact this

lemma key_eq_of_dropFinalizers : o.key = o'.key := by
  have := congrArg Object.key h
  exact this

lemma asRuleSet_eq_of_dropFinalizers : o.asRuleSet = o'.asRuleSet := by
  have := congrArg Object.asRuleSet h
  exact this

end Fields

/-! ## What a run reads -/

section
variable {api : Apimachinery} {c c' : Cluster}

lemma allowedObject_sameRules (hc : SameRules c c') {o o' : Object}
    (ho : o.dropFinalizers = o'.dropFinalizers) (source : Source) :
    allowedObject api c o source = allowedObject api c' o' source :=
  allowedObject_congr hc.namespaces (ns_eq_of_dropFinalizers ho) (name_eq_of_dropFinalizers ho)
    source

lemma filter_sameRules (hc : SameRules c c') (p : Object → Bool)
    (hp : ∀ o, p o.dropFinalizers = p o) :
    (c.objects.filter p).map Object.dropFinalizers =
      (c'.objects.filter p).map Object.dropFinalizers := by
  have hcomp : p ∘ Object.dropFinalizers = p := funext hp
  have hfilter : ∀ l : List Object,
      (l.filter p).map Object.dropFinalizers = (l.map Object.dropFinalizers).filter p := by
    intro l
    rw [filter_map, hcomp]
  rw [hfilter, hfilter, hc.objects]

lemma find_sameRules (hc : SameRules c c') (p : Object → Bool)
    (hp : ∀ o, p o.dropFinalizers = p o) :
    (c.objects.find? p).map Object.dropFinalizers =
      (c'.objects.find? p).map Object.dropFinalizers := by
  have hcomp : p ∘ Object.dropFinalizers = p := funext hp
  have hfind : ∀ l : List Object,
      (l.find? p).map Object.dropFinalizers = (l.map Object.dropFinalizers).find? p := by
    intro l
    rw [find?_map, hcomp]
  rw [hfind, hfind, hc.objects]

lemma lookupRef_sameRules (hc : SameRules c c') (ref : RuleRef) :
    (lookupRef api c ref).map (List.map Object.dropFinalizers) =
      (lookupRef api c' ref).map (List.map Object.dropFinalizers) := by
  unfold lookupRef
  cases ref.selector with
  | some sel =>
    simp only
    cases api.labelSelectorAsSelector sel with
    | error e => rfl
    | ok selector =>
      simp only [listDynamicObjects, Cluster.list]
      split
      · rfl
      · simp only [Except.map]
        rw [filter_sameRules hc _ fun o => rfl]
  | none =>
    simp only
    split
    · simp only [getDynamicObjects, Cluster.get]
      split
      · rfl
      · have hfind := find_sameRules hc
          (fun o => o.gvk == ref.gvk && o.ns == ref.ns && o.name == ref.name) fun o => rfl
        cases h : c.objects.find? fun o =>
            o.gvk == ref.gvk && o.ns == ref.ns && o.name == ref.name with
        | none =>
          rw [h, Option.map_none, eq_comm, Option.map_eq_none_iff] at hfind
          simp [hfind, Except.map]
        | some o =>
          rw [h, Option.map_some, eq_comm, Option.map_eq_some_iff] at hfind
          obtain ⟨o', ho', hdrop⟩ := hfind
          simp [ho', Except.map, hdrop]
    · rfl

end

/-! ## What a run writes -/

section
variable {api : Apimachinery} {faults : ℕ → Option UpdateError} {c : Cluster} (o : Object)
  (source : Source)

/-- The back references of a rule removed. -/
def Content.dropBackRefs : Content → Content
  | .secRule spec status => .secRule spec { status with ruleSetRefs := [] }
  | .secAction spec status => .secAction spec { status with ruleSetRefs := [] }
  | content => content

lemma merged_dropFinalizers {stored new : Object} (hlabels : new.labels = stored.labels)
    (hcontent : new.content.dropBackRefs = stored.content.dropBackRefs) :
    (Cluster.merged stored new).dropFinalizers = stored.dropFinalizers := by
  have hmerged : (Cluster.merged stored new).content = stored.content := by
    unfold Cluster.merged
    cases hs : stored.content <;> cases hn : new.content <;>
      simp_all [Content.dropBackRefs]
  exact Object.ext rfl rfl rfl rfl hlabels rfl hmerged

lemma addFinalizer_dropFinalizers (finalizer : String) :
    (addFinalizer o finalizer).1.dropFinalizers = o.dropFinalizers := by
  unfold addFinalizer
  split <;> rfl

lemma addBackRef_labels : (addBackRef o source).1.labels = o.labels := by
  unfold addBackRef
  split <;> rfl

lemma addBackRef_content :
    (addBackRef o source).1.content.dropBackRefs = o.content.dropBackRefs := by
  unfold addBackRef
  split
  · next h => rw [h, Content.dropBackRefs, Content.dropBackRefs]
  · next h => rw [h, Content.dropBackRefs, Content.dropBackRefs]
  · rfl

lemma addBackRef_key : (addBackRef o source).1.key = o.key := by
  unfold addBackRef
  split
  · next h => simp [Object.key, Object.kind, h, Content.kind]
  · next h => simp [Object.key, Object.kind, h, Content.kind]
  · rfl

lemma addBackRef_asRuleSet : (addBackRef o source).1.asRuleSet = o.asRuleSet := by
  unfold addBackRef
  split
  · next h => simp [Object.asRuleSet, h]
  · next h => simp [Object.asRuleSet, h]
  · rfl

lemma addRuleSetRef_unchanged {refs : List RuleSetRef} {source : Source}
    (h : (addRuleSetRef refs source).2 = false) : (addRuleSetRef refs source).1 = refs := by
  unfold addRuleSetRef at h ⊢
  split at h
  · next hmem => rw [if_pos hmem]
  · cases h

lemma addBackRef_unchanged {o : Object} {source : Source}
    (h : (addBackRef o source).2 = false) : (addBackRef o source).1 = o := by
  unfold addBackRef at h ⊢
  split at h
  · next spec status hs =>
    refine Object.ext rfl rfl rfl rfl rfl rfl ?_
    simp [hs, addRuleSetRef_unchanged h]
  · next spec status hs =>
    refine Object.ext rfl rfl rfl rfl rfl rfl ?_
    simp [hs, addRuleSetRef_unchanged h]
  · rfl

lemma update_sameRules {o stored : Object} (hmem : stored ∈ c.objects)
    (hkey : o.key = stored.key) (hlabels : o.labels = stored.labels)
    (hcontent : o.content.dropBackRefs = stored.content.dropBackRefs) :
    SameRules c (c.update o) := by
  refine ⟨?_, rfl, rfl⟩
  show c.objects.map _ = (Cluster.updatedObjects c.objects o).map _
  unfold Cluster.updatedObjects
  rw [map_map]
  refine map_congr_left fun x hx => ?_
  by_cases hxo : x.key = o.key
  · have hxs : x = stored := Cluster.eq_of_key_eq hx hmem (hxo.trans hkey)
    rw [Function.comp_apply, if_pos hxo, hxs, merged_dropFinalizers hlabels hcontent]
  · rw [Function.comp_apply, if_neg hxo]

/-- The object as `lockObject` sends it. -/
def lockedObject (o : Object) (source : Source) : Object :=
  (addBackRef (addFinalizer o ruleSetRefFinalizer).1 source).1

lemma lockedObject_key : (lockedObject o source).key = o.key := by
  rw [lockedObject, addBackRef_key]
  exact key_eq_of_dropFinalizers (addFinalizer_dropFinalizers o _)

lemma lockedObject_labels : (lockedObject o source).labels = o.labels := by
  rw [lockedObject, addBackRef_labels]
  have := congrArg Object.labels (addFinalizer_dropFinalizers o ruleSetRefFinalizer)
  exact this

lemma lockedObject_content :
    (lockedObject o source).content.dropBackRefs = o.content.dropBackRefs := by
  rw [lockedObject, addBackRef_content,
    content_eq_of_dropFinalizers (addFinalizer_dropFinalizers o _)]

lemma lockedObject_asRuleSet : (lockedObject o source).asRuleSet = o.asRuleSet := by
  rw [lockedObject, addBackRef_asRuleSet,
    asRuleSet_eq_of_dropFinalizers (addFinalizer_dropFinalizers o _)]

/-- What a successful or failed lock of a stored object does. -/
structure LockSpec (c : Cluster) (faults : ℕ → Option UpdateError) (o : Object)
    (res : Option UpdateError × Object × State) : Prop where
  sameRules : SameRules c res.2.2.cluster
  asRuleSet : res.2.1.asRuleSet = o.asRuleSet
  kind : res.2.1.kind = o.kind
  noFault : (∀ k, faults k = none) → res.1 = none ∧ res.2.1.dropFinalizers = o.dropFinalizers

lemma sendUpdate_lockedObject (hc : SameRules c st.cluster) {o : Object}
    (ho : o.dropFinalizers = o₀.dropFinalizers) (ho₀ : o₀ ∈ c.objects) (source : Source) :
    LockSpec c faults o
      (match sendUpdate api faults (lockedObject o source) st with
      | (.error e, st) => (some e, lockedObject o source, st)
      | (.ok stored, st) => (none, stored, st)) := by
  have hkind : (lockedObject o source).kind = o.kind :=
    (Object.key_eq_iff.mp (lockedObject_key o source)).2.1
  unfold sendUpdate
  cases hfault : faults st.updates with
  | some e =>
    refine ⟨hc, lockedObject_asRuleSet o source, hkind, fun hnone => ?_⟩
    rw [hnone] at hfault
    cases hfault
  | none =>
    -- the object is stored, with at most other finalizers
    have hstored : o.dropFinalizers ∈ st.cluster.objects.map Object.dropFinalizers := by
      rw [← hc.objects, ho]
      exact mem_map_of_mem ho₀
    obtain ⟨x, hx, hxo⟩ := mem_map.mp hstored
    have hxkey : x.key = (lockedObject o source).key := by
      rw [lockedObject_key, key_eq_of_dropFinalizers hxo]
    cases hfind : st.cluster.objects.find? fun stored =>
        stored.key == (lockedObject o source).key with
    | none =>
      have hnot := find?_eq_none.mp hfind x hx
      rw [beq_iff_eq] at hnot
      exact absurd hxkey hnot
    | some stored =>
      have hmem := mem_of_find?_eq_some hfind
      have hskey := find?_some hfind
      rw [beq_iff_eq] at hskey
      have hsx : stored = x := Cluster.eq_of_key_eq hmem hx (hskey.trans hxkey.symm)
      have hlabels : (lockedObject o source).labels = stored.labels := by
        rw [lockedObject_labels, hsx]
        have := congrArg Object.labels hxo
        exact this.symm
      have hcontent :
          (lockedObject o source).content.dropBackRefs = stored.content.dropBackRefs := by
        rw [lockedObject_content, hsx, content_eq_of_dropFinalizers hxo]
      have hdrop : (Cluster.merged stored (lockedObject o source)).dropFinalizers =
          o.dropFinalizers := by
        rw [merged_dropFinalizers hlabels hcontent, hsx, hxo]
      refine ⟨?_, asRuleSet_eq_of_dropFinalizers hdrop, ?_, fun _ => ⟨rfl, hdrop⟩⟩
      · exact hc.trans (update_sameRules hmem hskey.symm hlabels hcontent)
      · exact (Object.key_eq_iff.mp (key_eq_of_dropFinalizers hdrop)).2.1

lemma lockObject_spec (hc : SameRules c st.cluster) {o : Object}
    (ho : o.dropFinalizers = o₀.dropFinalizers) (ho₀ : o₀ ∈ c.objects) (source : Source) :
    LockSpec c faults o (lockObject api faults o source st) := by
  unfold lockObject
  simp only
  split
  · exact sendUpdate_lockedObject hc ho ho₀ source
  · next hupdated =>
    rw [Bool.or_eq_true, not_or, Bool.not_eq_true, Bool.not_eq_true] at hupdated
    obtain ⟨-, hsecond⟩ := hupdated
    have hdrop : (lockedObject o source).dropFinalizers = o.dropFinalizers := by
      rw [lockedObject, addBackRef_unchanged hsecond, addFinalizer_dropFinalizers]
    refine ⟨hc, lockedObject_asRuleSet o source, ?_, fun _ => ⟨rfl, hdrop⟩⟩
    exact (Object.key_eq_iff.mp (lockedObject_key o source)).2.1

/-! ## The loops of a locking run -/

/-- A locking run ends, leaves the rules as they are, and without failing updates returns the
listing `r`, up to finalizers. -/
def Tracks (c : Cluster) (faults : ℕ → Option UpdateError)
    (r : List (ReferenceError ⊕ Object)) (res : Option (Outcome × State)) : Prop :=
  ∃ out st, res = some (out, st) ∧ SameRules c st.cluster ∧
    ((∀ k, faults k = none) →
      out.objects.map Object.dropFinalizers = (itemsOf r).map Object.dropFinalizers ∧
      out.errors = faultsOf r)

lemma Tracks.append {a b : List (ReferenceError ⊕ Object)} {x : Option (Outcome × State)}
    {f : State → Option (Outcome × State)} (hx : Tracks c faults a x)
    (hf : ∀ st, SameRules c st.cluster → Tracks c faults b (f st)) :
    Tracks c faults (a ++ b)
      (x.bind fun p => (f p.2).bind fun q => some (p.1.append q.1, q.2)) := by
  obtain ⟨out₁, st₁, rfl, hc₁, hout₁⟩ := hx
  obtain ⟨out₂, st₂, hres, hc₂, hout₂⟩ := hf st₁ hc₁
  refine ⟨out₁.append out₂, st₂, by simp [hres], hc₂, fun hnone => ?_⟩
  obtain ⟨hobj₁, herr₁⟩ := hout₁ hnone
  obtain ⟨hobj₂, herr₂⟩ := hout₂ hnone
  simp [Outcome.append, hobj₁, hobj₂, herr₁, herr₂]

section Loops
variable {rec : Call} {E : Node → Option (List (ReferenceError ⊕ Object))}
  (hrec : ∀ v r st, SameRules c st.cluster → E v = some r →
    Tracks c faults r (rec v.refs v.source st))
include hrec

lemma expandObject_tracks (hc : SameRules c st.cluster) {o : Object}
    (hrs : o.asRuleSet = o₀.asRuleSet)
    (ho : (∀ k, faults k = none) → o.dropFinalizers = o₀.dropFinalizers)
    (hr : expandLine E o₀.line = some r) : Tracks c faults r (expandObject rec o st) := by
  unfold expandObject
  unfold Object.line at hr
  rw [hrs]
  cases h₀ : o₀.asRuleSet with
  | none =>
    rw [h₀] at hr
    cases hr
    exact ⟨_, _, rfl, hc, fun hnone => ⟨by simp [ho hnone], rfl⟩⟩
  | some rs =>
    rw [h₀] at hr
    obtain ⟨b, hb, rfl⟩ := expandLine_branch_eq_some.mp hr
    have hkind : o.kind = "RuleSet" := asRuleSet_kind (hrs.trans h₀)
    have hcall := hrec rs.node b st hc hb
    rw [RuleSet.node, ← hkind] at hcall
    have hself : ∀ st, SameRules c st.cluster →
        Tracks c faults [.inr o₀] (some ({ objects := [o] }, st)) :=
      fun st hst => ⟨_, _, rfl, hst, fun hnone => ⟨by simp [ho hnone], rfl⟩⟩
    exact hcall.append hself

lemma visitObject_tracks (hc : SameRules c st.cluster) (ref : RuleRef) (source : Source)
    {o : Object} (ho : o.dropFinalizers = o₀.dropFinalizers) (ho₀ : o₀ ∈ c.objects)
    (hr : expandLine E (objectLine api c ref source o₀) = some r) :
    Tracks c faults r (visitObject api faults rec true ref source o st) := by
  unfold visitObject
  rw [← allowedObject_sameRules hc ho.symm source]
  unfold objectLine at hr
  cases hallowed : allowedObject api c o₀ source with
  | some e =>
    rw [hallowed] at hr
    cases hr
    exact ⟨_, _, rfl, hc, fun _ => ⟨rfl, rfl⟩⟩
  | none =>
    rw [hallowed] at hr
    have hlock : LockSpec c faults o (lockObject api faults o source st) :=
      lockObject_spec hc ho ho₀ source
    simp only [if_true]
    split
    · -- a lock that failed for good: the object is skipped, and the run goes on
      next e o' st' hres =>
      rw [hres] at hlock
      refine ⟨_, _, rfl, hlock.sameRules, fun hnone => ?_⟩
      have herr := (hlock.noFault hnone).1
      cases herr
    · next err o' st' _ hres =>
      rw [hres] at hlock
      refine expandObject_tracks hrec hlock.sameRules ?_ ?_ hr
      · exact hlock.asRuleSet.trans (asRuleSet_eq_of_dropFinalizers ho)
      · exact fun hnone => (hlock.noFault hnone).2.trans ho

lemma visitObjects_tracks (hc : SameRules c st.cluster) (ref : RuleRef) (source : Source)
    {items items₀ : List Object}
    (hitems : items.map Object.dropFinalizers = items₀.map Object.dropFinalizers)
    (hmem : ∀ o ∈ items₀, o ∈ c.objects)
    (hr : expandLines E (items₀.map (objectLine api c ref source)) = some r) :
    Tracks c faults r (visitObjects api faults rec true ref source items st) := by
  induction items₀ generalizing items r st with
  | nil =>
    rw [map_nil, map_eq_nil_iff] at hitems
    subst hitems
    cases hr
    exact ⟨_, _, rfl, hc, fun _ => ⟨rfl, rfl⟩⟩
  | cons o₀ items₀ ih =>
    rw [map_cons] at hitems hr
    obtain ⟨o, items, rfl, ho, hrest⟩ := map_eq_cons_iff.mp hitems
    obtain ⟨a, b, ha, hb, rfl⟩ := expandLines_cons_eq_some.mp hr
    have hhead := visitObject_tracks hrec hc ref source ho (hmem o₀ mem_cons_self) ha
    exact hhead.append fun st' hc' =>
      ih hc' hrest (fun o ho => hmem o (mem_cons_of_mem o₀ ho)) hb

lemma visitRef_tracks (hc : SameRules c st.cluster) (source : Source) (ref : RuleRef)
    (hr : expandLines E (refLines api c source ref) = some r) :
    Tracks c faults r (visitRef api faults rec true source ref st) := by
  unfold visitRef
  unfold refLines at hr
  have hlookup : (lookupRef api c (applyRuleRefDefaults ref source.ns)).map
        (List.map Object.dropFinalizers) =
      (lookupRef api st.cluster (applyRuleRefDefaults ref source.ns)).map
        (List.map Object.dropFinalizers) :=
    lookupRef_sameRules hc (applyRuleRefDefaults ref source.ns)
  cases h₀ : lookupRef api c (applyRuleRefDefaults ref source.ns) with
  | error e =>
    rw [h₀] at hlookup hr
    cases h : lookupRef api st.cluster (applyRuleRefDefaults ref source.ns) with
    | error e' =>
      rw [h] at hlookup
      cases hlookup
      cases hr
      exact ⟨_, _, rfl, hc, fun _ => ⟨rfl, rfl⟩⟩
    | ok items =>
      rw [h] at hlookup
      cases hlookup
  | ok items₀ =>
    rw [h₀] at hlookup hr
    cases h : lookupRef api st.cluster (applyRuleRefDefaults ref source.ns) with
    | error e' =>
      rw [h] at hlookup
      cases hlookup
    | ok items =>
      rw [h] at hlookup
      have hitems := (Except.ok.inj hlookup).symm
      refine visitObjects_tracks hrec hc ref source hitems (fun o ho => ?_) hr
      exact (mem_lookupRef_iff.mp ⟨items₀, h₀, ho⟩).1

lemma visitRefs_tracks (hc : SameRules c st.cluster) (source : Source) (refs : List RuleRef)
    (hr : expandLines E (refs.flatMap (refLines api c source)) = some r) :
    Tracks c faults r (visitRefs api faults rec true source refs st) := by
  induction refs generalizing r st with
  | nil =>
    cases hr
    exact ⟨_, _, rfl, hc, fun _ => ⟨rfl, rfl⟩⟩
  | cons ref refs ih =>
    rw [flatMap_cons, expandLines_append] at hr
    obtain ⟨a, ha, hr⟩ := Option.bind_eq_some_iff.mp hr
    obtain ⟨b, hb, rfl⟩ := Option.map_eq_some_iff.mp hr
    have hhead := visitRef_tracks hrec hc source ref ha
    exact hhead.append fun st' hc' => ih hc' hb

end Loops

lemma addUpdateReconcile_tracks {n : ℕ} {v : Node} (hc : SameRules c st.cluster)
    (hr : expand (nodeLines api c) n v = some r) :
    Tracks c faults r (addUpdateReconcile api faults n v.refs v.source st) := by
  unfold addUpdateReconcile
  induction n generalizing v r st with
  | zero => cases hr
  | succ n ih => exact visitRefs_tracks (fun v r st hst hv => ih hst hv) hc v.source v.refs hr

end

end KubeWaf.References
