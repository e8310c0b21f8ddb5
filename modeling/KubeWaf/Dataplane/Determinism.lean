import KubeWaf.Dataplane.Injection
import KubeWaf.Dataplane.XdsClusters

/-!
# The hooks and the order of the index

Both hooks of the extension server loop over a Go map, in an order that Go does not specify. What
they return does not depend on it exactly if the WAFs of the index agree on the clusters they ask
for, and those that match one listener on the order of their filters
(`hooks_deterministic_iff`).
-/

namespace KubeWaf.Dataplane

open Lib List

/-! ## Clusters -/

section Clusters
variable {clusters : List Cluster} {add add' : Option Cluster} {n : String}

lemma head?_ensureCluster (clusters : List Cluster) (add : Option Cluster) :
    (ensureCluster clusters add).head? = clusters.head?.or add := by
  cases add with
  | none => simp [ensureCluster]
  | some c =>
    rw [ensureCluster]
    cases clusters with
    | nil => rfl
    | cons c' clusters => split_ifs <;> rfl

lemma find?_ensureCluster (clusters : List Cluster) (add : Option Cluster) (n : String) :
    (ensureCluster clusters add).find? (·.name = n) =
      (clusters.find? (·.name = n)).or (add.filter (·.name = n)) := by
  cases add with
  | none => simp [ensureCluster]
  | some c =>
    rw [ensureCluster]
    split_ifs with hany
    · obtain ⟨c', hc', hname⟩ := any_eq_true.mp hany
      by_cases hn : c.name = n
      · have hsome : (clusters.find? (·.name = n)).isSome :=
          find?_isSome.mpr ⟨c', hc', decide_eq_true ((of_decide_eq_true hname).trans hn)⟩
        obtain ⟨d, hd⟩ := Option.isSome_iff_exists.mp hsome
        rw [hd, Option.some_or]
      · simp [Option.filter, hn]
    · rw [find?_append]
      by_cases hn : c.name = n <;> simp [Option.filter, hn]

lemma filter_name {c : Cluster} (h : c.name = n) : (some c).filter (·.name = n) = some c :=
  if_pos (decide_eq_true h)

lemma ensureCluster_congr (hadd : ∀ c ∈ add, c.name = n) (hadd' : ∀ c ∈ add', c.name = n)
    (h : n ∈ clusters.map (·.name) ∨ add = add') :
    ensureCluster clusters add = ensureCluster clusters add' := by
  rcases h with h | rfl
  · rw [ensureCluster_of_mem fun c hc => hadd c hc ▸ h, ensureCluster_of_mem fun c hc => hadd' c hc ▸ h]
  · rfl

end Clusters

section Translate
variable {wasmCodeClusterHostPort : String → Option (String × ℕ)} {s : ExtensionServer}
  {cfgs cfgs' : List PortableConfig} {n : String} {c : Cluster}

/-- Some WAF of the index asks for an ECDS cluster of that name. -/
def ExtensionServer.AsksFor (s : ExtensionServer) (n : String) : Prop :=
  ∃ p, s.Indexes p ∧ ∃ c ∈ ecdsClusterOf s.opts p, c.name = n

lemma name_wasmClusters (hc : cfgs.findSome? (wasmClusterOf wasmCodeClusterHostPort) = some c) :
    c.name = wasmCodeCluster := by
  obtain ⟨q, _, hq⟩ := exists_of_findSome?_eq_some hc
  exact name_findSome_wasm hq

lemma name_buildECDSCluster (hcfgs : s.configs.Visits cfgs)
    (hc : buildECDSCluster s.opts cfgs = some c) :
    s.AsksFor c.name ∨ c.name = defaultECDSCluster := by
  rw [buildECDSCluster_eq] at hc
  cases hfind : cfgs.findSome? (ecdsClusterOf s.opts) with
  | some c' =>
    rw [hfind, Option.some_or, Option.some.injEq] at hc
    obtain ⟨p, hp, hp'⟩ := exists_of_findSome?_eq_some hfind
    exact .inl ⟨p, (GoMap.mem_of_visits hcfgs).mp hp, c', hp', congrArg _ hc⟩
  | none =>
    rw [hfind, Option.none_or, buildECDSCluster] at hc
    split_ifs at hc
    exact .inr (Option.some.inj hc ▸ rfl)

lemma find?_postTranslateModify (hcfgs : s.configs.Visits cfgs) (hasks : ¬s.AsksFor n)
    (hn : n ≠ defaultECDSCluster) :
    (postTranslateModify wasmCodeClusterHostPort s cfgs []).find? (·.name = n) =
      ((buildOTelCluster s.opts cfgs).filter (·.name = n)).or
        ((cfgs.findSome? (wasmClusterOf wasmCodeClusterHostPort)).filter (·.name = n)) := by
  have hecds : (buildECDSCluster s.opts cfgs).filter (·.name = n) = none := by
    rw [Option.filter_eq_none_iff]
    intro c hc hname
    rw [decide_eq_true_eq] at hname
    rcases name_buildECDSCluster hcfgs hc with h | h
    · exact hasks (hname ▸ h)
    · exact hn (hname.symm.trans h)
  rw [postTranslateModify_eq, find?_ensureCluster, find?_ensureCluster, find?_ensureCluster, hecds]
  simp

/-- The clusters that the WAFs of the index ask for do not depend on the order of the index. -/
structure ClustersAgree (wasmCodeClusterHostPort : String → Option (String × ℕ))
    (s : ExtensionServer) : Prop where
  ecds : s.configs.Agree (ecdsClusterOf s.opts)
  otel : s.AsksFor defaultOTelCluster ∨ s.configs.Agree otelClusterOf
  wasm : s.AsksFor wasmCodeCluster ∨ s.configs.Agree (wasmClusterOf wasmCodeClusterHostPort)

lemma buildOTelCluster_cons {p : PortableConfig} (hc : otelClusterOf p = some c) :
    buildOTelCluster s.opts (p :: cfgs) = some c := by
  rw [buildOTelCluster_eq, findSome?_cons, hc]
  rfl

lemma clustersAgree_of_deterministic
    (h : ∀ cfgs cfgs', s.configs.Visits cfgs → s.configs.Visits cfgs' →
      postTranslateModify wasmCodeClusterHostPort s cfgs [] =
        postTranslateModify wasmCodeClusterHostPort s cfgs' []) :
    ClustersAgree wasmCodeClusterHostPort s := by
  -- what a function reads off the result where the loop starts at a WAF is the same for all WAFs
  have hagree : ∀ {f : PortableConfig → Option Cluster} (read : List Cluster → Option Cluster),
      (∀ p cfgs c, s.configs.Visits (p :: cfgs) → f p = some c →
        read (postTranslateModify wasmCodeClusterHostPort s (p :: cfgs) []) = some c) →
      s.configs.Agree f := by
    intro f read hread p q hp hq a ha b hb
    obtain ⟨cfgs, hcfgs⟩ := GoMap.exists_visits_cons hp.choose_spec
    obtain ⟨cfgs', hcfgs'⟩ := GoMap.exists_visits_cons hq.choose_spec
    apply Option.some.inj
    rw [← hread p cfgs a hcfgs ha, ← hread q cfgs' b hcfgs' hb, h _ _ hcfgs hcfgs']
  refine ⟨?_, or_iff_not_imp_left.mpr fun hasks => ?_, or_iff_not_imp_left.mpr fun hasks => ?_⟩
  · apply hagree List.head?
    intro p cfgs c _ hc
    rw [postTranslateModify_eq, head?_ensureCluster, head?_ensureCluster, head?_ensureCluster,
      buildECDSCluster_eq, findSome?_cons, hc]
    rfl
  · apply hagree (List.find? (·.name = defaultOTelCluster))
    intro p cfgs c hcfgs hc
    rw [find?_postTranslateModify hcfgs hasks (by decide), buildOTelCluster_cons hc,
      filter_name (name_makeOTelCluster hc), Option.some_or]
  · apply hagree (List.find? (·.name = wasmCodeCluster))
    intro p cfgs c hcfgs hc
    have hotel : (buildOTelCluster s.opts (p :: cfgs)).filter (·.name = wasmCodeCluster) = none := by
      rw [Option.filter_eq_none_iff]
      intro c hc hname
      rw [decide_eq_true_eq, name_buildOTelCluster hc] at hname
      exact absurd hname (by decide)
    rw [find?_postTranslateModify hcfgs hasks (by decide), hotel, findSome?_cons, hc]
    exact filter_name (name_findSome_wasm hc)

lemma ClustersAgree.deterministic (h : ClustersAgree wasmCodeClusterHostPort s)
    (hcfgs : s.configs.Visits cfgs) (hcfgs' : s.configs.Visits cfgs') (clusters : List Cluster) :
    postTranslateModify wasmCodeClusterHostPort s cfgs clusters =
      postTranslateModify wasmCodeClusterHostPort s cfgs' clusters := by
  have hecds : buildECDSCluster s.opts cfgs = buildECDSCluster s.opts cfgs' := by
    rw [buildECDSCluster_eq, h.ecds.findSome?_eq hcfgs hcfgs', ← buildECDSCluster_eq]
  -- the name of an ECDS cluster is taken, whatever the other loops would add
  have hname : ∀ n, s.AsksFor n →
      n ∈ (ensureCluster clusters (buildECDSCluster s.opts cfgs')).map (·.name) := by
    rintro n ⟨p, hp, c, hc, rfl⟩
    obtain ⟨rest, hrest⟩ := GoMap.exists_visits_cons hp.choose_spec
    refine (mem_ensureCluster _ _ _).mpr (.inr ⟨c, ?_, rfl⟩)
    rw [buildECDSCluster_eq, h.ecds.findSome?_eq hcfgs' hrest, findSome?_cons, hc]
    rfl
  set first := ensureCluster clusters (buildECDSCluster s.opts cfgs')
  have hotel : ensureCluster first (buildOTelCluster s.opts cfgs) =
      ensureCluster first (buildOTelCluster s.opts cfgs') := by
    apply ensureCluster_congr (fun _ => name_buildOTelCluster) (fun _ => name_buildOTelCluster)
    refine h.otel.imp (hname _) fun hagree => ?_
    rw [buildOTelCluster_eq, hagree.findSome?_eq hcfgs hcfgs', ← buildOTelCluster_eq]
  rw [postTranslateModify_eq, postTranslateModify_eq, hecds, hotel]
  apply ensureCluster_congr (fun _ => name_wasmClusters) (fun _ => name_wasmClusters)
  refine h.wasm.imp (fun hasks => ?_) fun hagree => hagree.findSome?_eq hcfgs hcfgs'
  exact (mem_ensureCluster _ _ _).mpr (.inl (hname _ hasks))

end Translate

/-! ## Listeners -/

section Stubs
variable {stubs a b : List HttpFilter}

lemma toInsert_eq_filter (existing : List String) (stubs : List HttpFilter) :
    toInsert existing stubs = (toInsert [] stubs).filter (·.name ∉ existing) := by
  induction stubs generalizing existing with
  | nil => rfl
  | cons stub stubs ih =>
    rw [toInsert, toInsert, if_neg not_mem_nil, ih [stub.name]]
    split_ifs with h
    · rw [ih, filter_cons_of_neg (by simpa using h), filter_filter]
      refine filter_congr fun f _ => ?_
      by_cases hf : f.name = stub.name <;> simp [hf, h]
    · rw [ih, filter_cons_of_pos (by simpa using h), filter_filter]
      congr 1
      refine filter_congr fun f _ => ?_
      simp [Bool.and_comm]

lemma toInsert_append (a b : List HttpFilter) :
    toInsert [] (a ++ b) = toInsert [] a ++ (toInsert [] b).filter (·.name ∉ a.map (·.name)) := by
  induction a with
  | nil => simp [toInsert]
  | cons stub a ih =>
    rw [cons_append, toInsert, toInsert, if_neg not_mem_nil, if_neg not_mem_nil, toInsert_eq_filter,
      ih, filter_append, filter_filter, toInsert_eq_filter [stub.name] a, cons_append]
    congr 2
    refine filter_congr fun f _ => ?_
    simp

lemma toInsert_absorb (h : toInsert [] a <+: toInsert [] b) :
    toInsert [] (a ++ b) = toInsert [] b ∧ toInsert [] (b ++ a) = toInsert [] b := by
  obtain ⟨rest, hrest⟩ := h
  have hnodup := (toInsert_names b []).1
  rw [← hrest, map_append, nodup_append] at hnodup
  have hmem : ∀ {stubs : List HttpFilter} {f}, f ∈ toInsert [] stubs → f.name ∈ stubs.map (·.name) :=
    fun hf => (mem_names_toInsert.mp (mem_map_of_mem hf)).1
  constructor
  · rw [toInsert_append, ← hrest, filter_append, filter_eq_nil_iff.mpr,
      filter_eq_self.mpr, nil_append]
    · intro f hf
      rw [decide_eq_true_eq]
      intro hname
      have hname' := mem_names_toInsert.mpr ⟨hname, not_mem_nil⟩
      exact hnodup.2.2 _ hname' _ (mem_map_of_mem hf) rfl
    · intro f hf
      simpa using hmem hf
  · rw [toInsert_append, filter_eq_nil_iff.mpr, append_nil]
    intro f hf
    have hf' : f ∈ toInsert [] b := hrest ▸ mem_append_left _ hf
    simpa using hmem hf'

end Stubs

/-- The stubs of a WAF, each name once. -/
def firstStubs (p : PortableConfig) : List HttpFilter := toInsert [] (makeECDSFilterStubs p)

/-- One of the two lists of stubs continues the other. -/
def StubsAgree (p q : PortableConfig) : Prop :=
  firstStubs p <+: firstStubs q ∨ firstStubs q <+: firstStubs p

lemma toInsert_perm {cfgs cfgs' : List PortableConfig} (hperm : cfgs.Perm cfgs')
    (h : ∀ p ∈ cfgs, ∀ q ∈ cfgs, StubsAgree p q) :
    toInsert [] (cfgs.flatMap makeECDSFilterStubs) =
      toInsert [] (cfgs'.flatMap makeECDSFilterStubs) := by
  induction hperm with
  | nil => rfl
  | cons p _ ih =>
    rw [flatMap_cons, flatMap_cons, toInsert_append, toInsert_append, ih]
    exact fun p hp q hq => h p (mem_cons_of_mem _ hp) q (mem_cons_of_mem _ hq)
  | swap p q cfgs =>
    have hswap : toInsert [] (makeECDSFilterStubs q ++ makeECDSFilterStubs p) =
        toInsert [] (makeECDSFilterStubs p ++ makeECDSFilterStubs q) := by
      rcases h p (by simp) q (by simp) with hpq | hqp
      · exact (toInsert_absorb hpq).2.trans (toInsert_absorb hpq).1.symm
      · exact (toInsert_absorb hqp).1.trans (toInsert_absorb hqp).2.symm
    simp only [flatMap_cons]
    rw [← append_assoc, ← append_assoc, toInsert_append, hswap,
      toInsert_append (_ ++ makeECDSFilterStubs q)]
    congr 1
    refine filter_congr fun f _ => ?_
    simp [or_comm, and_comm]
  | trans hperm₁ _ ih₁ ih₂ =>
    refine (ih₁ h).trans (ih₂ fun p hp q hq => ?_)
    exact h p (hperm₁.mem_iff.mpr hp) q (hperm₁.mem_iff.mpr hq)

lemma injectFilters_perm {cfgs cfgs' : List PortableConfig} (hperm : cfgs.Perm cfgs')
    (h : ∀ p ∈ cfgs, ∀ q ∈ cfgs, StubsAgree p q) (l : Listener) :
    injectFilters l cfgs = injectFilters l cfgs' := by
  have hmanager : ∀ mgr, injectIntoManager mgr cfgs = injectIntoManager mgr cfgs' := by
    intro mgr
    rw [injectIntoManager, injectIntoManager, toInsert_eq_filter, toInsert_perm hperm h,
      ← toInsert_eq_filter, hperm.any_eq]
  have hchain : ∀ fc, injectIntoFilterChain fc cfgs = injectIntoFilterChain fc cfgs' := by
    intro fc
    induction fc with
    | nil => rfl
    | cons f fc ih => rw [injectIntoFilterChain, injectIntoFilterChain, ih]; simp [hmanager]
  simp [injectFilters, hchain]

/-- WAFs of the index that match one listener agree on the order of their stubs. -/
def ListenersAgree (s : ExtensionServer) : Prop :=
  ∀ p q, s.Indexes p → s.Indexes q → ∀ name, MatchesListener p name → MatchesListener q name →
    StubsAgree p q

section Listeners
variable {gzip : Gzip} {s : ExtensionServer} {cfgs cfgs' : List PortableConfig}

lemma listenersAgree_of_deterministic
    (h : ∀ cfgs cfgs', s.configs.Visits cfgs → s.configs.Visits cfgs' → ∀ req,
      postHTTPListenerModify gzip s cfgs req = postHTTPListenerModify gzip s cfgs' req) :
    ListenersAgree s := by
  intro p q hp hq name hpname hqname
  obtain ⟨cfgs, hcfgs⟩ := GoMap.exists_visits_cons hp.choose_spec
  obtain ⟨cfgs', hcfgs'⟩ := GoMap.exists_visits_cons hq.choose_spec
  obtain ⟨rest, hrest⟩ : ∃ rest, postHTTPListenerModify gzip s (p :: cfgs) _ = _ :=
    postHTTPListenerModify_emptyListener hpname cfgs
  obtain ⟨rest', hrest'⟩ : ∃ rest, postHTTPListenerModify gzip s (q :: cfgs') _ = _ :=
    postHTTPListenerModify_emptyListener hqname cfgs'
  have hfilters := congrArg Listener.filters (h _ _ hcfgs hcfgs' ⟨emptyListener name, []⟩)
  rw [hrest, hrest', filters_emptyListener, filters_emptyListener, flatMap_cons,
    flatMap_cons, toInsert_append, toInsert_append] at hfilters
  exact prefix_or_prefix_of_prefix ⟨_, hfilters⟩ (prefix_append _ _)

lemma ListenersAgree.deterministic (h : ListenersAgree s) (hcfgs : s.configs.Visits cfgs)
    (hcfgs' : s.configs.Visits cfgs') (req : ListenerRequest) :
    postHTTPListenerModify gzip s cfgs req = postHTTPListenerModify gzip s cfgs' req := by
  rw [postHTTPListenerModify, postHTTPListenerModify]
  by_cases hindex : FromIndex gzip s req
  · rw [matchingConfigs_of_fromIndex hindex, matchingConfigs_of_fromIndex hindex]
    by_cases hname : (parseListenerGateway req.listener.name).2 = ""
    · simp [hname]
    · simp only [hname, if_false]
      have hperm := (hcfgs.trans hcfgs'.symm).filter fun p => matchesGateway p
        (parseListenerGateway req.listener.name).1 (parseListenerGateway req.listener.name).2
      refine if_congr ?_ rfl (injectFilters_perm hperm ?_ req.listener)
      · rw [← length_eq_zero_iff, hperm.length_eq, length_eq_zero_iff]
      · intro p hp q hq
        obtain ⟨hp, hpname⟩ := mem_filter.mp hp
        obtain ⟨hq, hqname⟩ := mem_filter.mp hq
        rw [GoMap.mem_of_visits hcfgs] at hp hq
        exact h p q hp hq req.listener.name ⟨hname, hpname⟩ ⟨hname, hqname⟩
  · -- the policies of the request come before the index
    have hpolicy : req.extensionResources.filterMap (portableFromUnstructured gzip s.opts) ≠ [] :=
      fun hnil => hindex (filterMap_eq_nil_iff.mp hnil)
    simp only [matchingConfigs, if_pos hpolicy]

end Listeners

/-- Whatever the request, the hooks return the same in any two orders of the index. -/
def Deterministic (gzip : Gzip) (wasmCodeClusterHostPort : String → Option (String × ℕ))
    (s : ExtensionServer) : Prop :=
  ∀ cfgs cfgs', s.configs.Visits cfgs → s.configs.Visits cfgs' →
    (∀ req, postHTTPListenerModify gzip s cfgs req = postHTTPListenerModify gzip s cfgs' req) ∧
    ∀ clusters, postTranslateModify wasmCodeClusterHostPort s cfgs clusters =
      postTranslateModify wasmCodeClusterHostPort s cfgs' clusters

/-- The hooks do not depend on the order of the index exactly if its WAFs agree on the clusters
they ask for and, where they match one listener, on the order of their stubs. -/
theorem hooks_deterministic_iff (gzip : Gzip)
    (wasmCodeClusterHostPort : String → Option (String × ℕ)) (s : ExtensionServer) :
    Deterministic gzip wasmCodeClusterHostPort s ↔
      ListenersAgree s ∧ ClustersAgree wasmCodeClusterHostPort s := by
  constructor
  · intro h
    exact ⟨listenersAgree_of_deterministic fun cfgs cfgs' hcfgs hcfgs' => (h _ _ hcfgs hcfgs').1,
      clustersAgree_of_deterministic fun cfgs cfgs' hcfgs hcfgs' => (h _ _ hcfgs hcfgs').2 []⟩
  · intro h cfgs cfgs' hcfgs hcfgs'
    exact ⟨h.1.deterministic hcfgs hcfgs', h.2.deterministic hcfgs hcfgs'⟩

/-- Two WAFs on one gateway: their filters come in the order of the index. -/
theorem hooks_order_dependent :
    let s := gatewayIndex "kubewaf_ecds" "kubewaf_ecds"
    let a := gatewayWAF "a" "kubewaf_ecds"
    let b := gatewayWAF "b" "kubewaf_ecds"
    let req : ListenerRequest := ⟨emptyListener "shop/public/http", []⟩
    (s.configs.Visits [b, a] ∧ s.configs.Visits [a, b]) ∧
      postHTTPListenerModify ⟨some, some⟩ s [b, a] req ≠
        postHTTPListenerModify ⟨some, some⟩ s [a, b] req := by
  refine ⟨⟨gatewayIndex_visits _ _, (List.Perm.swap _ _ _).trans (gatewayIndex_visits _ _)⟩, ?_⟩
  decide +kernel

end KubeWaf.Dataplane
