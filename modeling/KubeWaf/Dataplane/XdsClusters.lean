import KubeWaf.Dataplane.ExtensionServer
import KubeWaf.Dataplane.FilterOrder
import Mathlib.Algebra.Order.Group.Multiset

/-!
# The clusters that injected filters refer to

`PostHTTPListenerModify` injects for every WAF that matches a listener a filter which fetches its
configuration through the ECDS cluster of that WAF. `PostTranslateModify` adds one ECDS cluster,
of the first WAF that it visits. Envoy rejects a listener that refers to a cluster which is not
there, so the WAFs that can match a listener are to agree on the name (`clusters_exist_iff`).
-/

namespace KubeWaf.Dataplane

open Lib List

variable {p : PortableConfig}

/-! ## Filters that are injected -/

/-- The HTTP filters of a chain. -/
def chainFilters (fc : List NetworkFilter) : List HttpFilter :=
  fc.flatMap fun f => (f.manager.map (·.httpFilters)).getD []

/-- The HTTP filters of a listener. -/
def Listener.filters (l : Listener) : List HttpFilter :=
  l.defaultFilterChain.toList.flatMap chainFilters ++ l.filterChains.flatMap chainFilters

/-- The filters of a listener that are not those of the one it was made from. -/
def Listener.injected (before after : Listener) : List HttpFilter :=
  after.filters.diff before.filters

lemma mem_diff_iff {α : Type} [DecidableEq α] {l₁ l₂ : List α} {new : Multiset α}
    (h : (l₁ : Multiset α) = l₂ + new) {a : α} : a ∈ l₁.diff l₂ ↔ a ∈ new := by
  rw [← Multiset.mem_coe, ← Multiset.coe_sub, h, add_tsub_cancel_left]

lemma injectStubs_filters (mgr : HttpConnectionManager) (stubs : List HttpFilter)
    (needAccessLog : Bool) :
    ((injectStubs mgr stubs needAccessLog).httpFilters : Multiset HttpFilter)
      = mgr.httpFilters + stubs := by
  have hsplice : (((spliceBefore isRouter stubs mgr.httpFilters).getD
      (mgr.httpFilters ++ stubs) : List HttpFilter) : Multiset HttpFilter)
      = mgr.httpFilters + stubs := by
    rw [Multiset.coe_add, Multiset.coe_eq_coe]
    cases h : spliceBefore isRouter stubs mgr.httpFilters with
    | none => exact .refl _
    | some filters => exact perm_of_spliceBefore h
  rw [injectStubs_httpFilters]
  split_ifs with hnil
  · rw [hnil, Multiset.coe_nil, add_zero]
  · exact hsplice

variable (cfgs : List PortableConfig)

/-- A list of filters gains stubs of the configurations and nothing else. -/
def GainsStubs (before after : List HttpFilter) : Prop :=
  ∃ new : Multiset HttpFilter, (∀ f ∈ new, f ∈ cfgs.flatMap makeECDSFilterStubs) ∧
    (after : Multiset HttpFilter) = before + new

variable {cfgs} {name : String} {clusters : List Cluster} {add : Option Cluster}

lemma GainsStubs.refl (filters : List HttpFilter) : GainsStubs cfgs filters filters :=
  ⟨0, fun f hf => absurd hf (Multiset.notMem_zero f), (add_zero _).symm⟩

lemma GainsStubs.append {before₁ after₁ before₂ after₂ : List HttpFilter}
    (h₁ : GainsStubs cfgs before₁ after₁) (h₂ : GainsStubs cfgs before₂ after₂) :
    GainsStubs cfgs (before₁ ++ before₂) (after₁ ++ after₂) := by
  obtain ⟨new₁, hnew₁, heq₁⟩ := h₁
  obtain ⟨new₂, hnew₂, heq₂⟩ := h₂
  refine ⟨new₁ + new₂, fun f hf => ?_, ?_⟩
  · rcases Multiset.mem_add.mp hf with hf | hf
    · exact hnew₁ f hf
    · exact hnew₂ f hf
  · rw [← Multiset.coe_add, ← Multiset.coe_add, heq₁, heq₂, add_add_add_comm]

lemma gainsStubs_chain (fc : List NetworkFilter) :
    GainsStubs cfgs (chainFilters fc) (chainFilters (injectIntoFilterChain fc cfgs)) := by
  induction fc with
  | nil => exact .refl _
  | cons f fc ih =>
    rw [injectIntoFilterChain]
    cases hmgr : f.manager with
    | none => simpa [chainFilters, hmgr] using ih
    | some mgr =>
      -- only the first manager of a chain is rewritten
      have hmanager : GainsStubs cfgs mgr.httpFilters (injectIntoManager mgr cfgs).httpFilters :=
        ⟨_, fun f hf => toInsert_subset _ _ f (Multiset.mem_coe.mp hf), injectStubs_filters _ _ _⟩
      simpa [chainFilters, hmgr] using hmanager.append (.refl (chainFilters fc))

lemma gainsStubs_chains (chains : List (List NetworkFilter)) :
    GainsStubs cfgs (chains.flatMap chainFilters)
      ((chains.map fun fc => injectIntoFilterChain fc cfgs).flatMap chainFilters) := by
  induction chains with
  | nil => exact .refl _
  | cons fc chains ih =>
    simp only [map_cons, flatMap_cons]
    exact (gainsStubs_chain fc).append ih

lemma gainsStubs_injectFilters (l : Listener) :
    GainsStubs cfgs l.filters (injectFilters l cfgs).filters := by
  have hdefault : GainsStubs cfgs (l.defaultFilterChain.toList.flatMap chainFilters)
      ((l.defaultFilterChain.map fun fc => injectIntoFilterChain fc cfgs).toList.flatMap
        chainFilters) := by
    cases l.defaultFilterChain with
    | none => exact .refl _
    | some fc => simpa using gainsStubs_chain fc
  exact hdefault.append (gainsStubs_chains l.filterChains)

lemma cluster_of_injected {before after : List HttpFilter} (h : GainsStubs cfgs before after)
    {f : HttpFilter} (hf : f ∈ after.diff before) :
    ∃ p ∈ cfgs, f.config = .discovery p.ecdsCluster := by
  obtain ⟨new, hnew, heq⟩ := h
  obtain ⟨p, hp, hstub⟩ := mem_flatMap.mp (hnew f ((mem_diff_iff heq).mp hf))
  refine ⟨p, hp, ?_⟩
  rw [makeECDSFilterStubs] at hstub
  split_ifs at hstub
  · rw [mem_singleton.mp hstub]
    rfl
  · obtain ⟨f', _, rfl⟩ := mem_map.mp hstub
    rfl

/-! ## WAFs that match a listener -/

/-- The WAF has a target by which it matches some listener: a gateway, or a route next to which
its namespace can stand in the name of a listener. -/
def Attachable (p : PortableConfig) : Prop :=
  ∃ t ∈ p.policyTargets.all,
    (t.kind = "Gateway" ∧ t.name ≠ "" ∧ '/' ∉ t.name.toList) ∨
    (t.kind = "HTTPRoute" ∧ '/' ∉ p.ns.toList)

instance (p : PortableConfig) : Decidable (Attachable p) := by
  unfold Attachable
  infer_instance

lemma slash_notMem_takeWhile (s : List Char) : '/' ∉ s.takeWhile (· ≠ '/') := by
  intro h
  simpa using mem_takeWhile_imp h

lemma slash_notMem_parseListenerGateway (name : String) :
    '/' ∉ (parseListenerGateway name).1.toList ∧ '/' ∉ (parseListenerGateway name).2.toList := by
  rw [parseListenerGateway]
  split
  · exact ⟨by decide, by decide⟩
  · simp only [String.toList_ofList]
    exact ⟨slash_notMem_takeWhile _, slash_notMem_takeWhile _⟩

lemma parseListenerGateway_eq {ns : String} (hns : '/' ∉ ns.toList) (hname : '/' ∉ name.toList) :
    parseListenerGateway (ns ++ "/" ++ name) = (ns, name) := by
  have hplain : ∀ s : String, '/' ∉ s.toList → ∀ c ∈ s.toList, decide (c ≠ '/') = true :=
    fun s hs c hc => decide_eq_true fun heq => hs (heq ▸ hc)
  have hlist : (ns ++ "/" ++ name).toList = ns.toList ++ '/' :: name.toList := by simp
  have hdrop : (ns ++ "/" ++ name).toList.dropWhile (· ≠ '/') = '/' :: name.toList := by
    rw [hlist, dropWhile_append_of_pos (hplain ns hns)]
    rfl
  have htake : (ns ++ "/" ++ name).toList.takeWhile (· ≠ '/') = ns.toList := by
    rw [hlist, takeWhile_append_of_pos (hplain ns hns)]
    simp
  rw [parseListenerGateway, hdrop, htake]
  simp only [String.ofList_toList, takeWhile_eq_self_iff.mpr (hplain name hname)]

lemma attachable_of_matches {gwNS gwName : String} (hns : '/' ∉ gwNS.toList)
    (hname : '/' ∉ gwName.toList) (hne : gwName ≠ "") (h : matchesGateway p gwNS gwName = true) :
    Attachable p := by
  rw [matchesGateway] at h
  cases hfind : p.policyTargets.all.findSome? fun t => t.decides p.ns gwNS gwName with
  | none => simp [hfind] at h
  | some b =>
    obtain ⟨t, ht, hdecides⟩ := exists_of_findSome?_eq_some hfind
    refine ⟨t, ht, ?_⟩
    rw [PolicyTarget.decides] at hdecides
    split_ifs at hdecides with hgateway hroute
    · exact .inl ⟨hgateway.1, hgateway.2 ▸ hne, hgateway.2 ▸ hname⟩
    · exact .inr ⟨hroute.1, hroute.2 ▸ hns⟩

lemma matchesGateway_of_decides {gwNS gwName : String} (hns : p.ns = gwNS ∨ gwNS = "")
    {t : PolicyTarget} (ht : t ∈ p.policyTargets.all)
    (hdecides : t.decides p.ns gwNS gwName ≠ none) : matchesGateway p gwNS gwName = true := by
  have htrue : ∀ t' : PolicyTarget, ∀ b, t'.decides p.ns gwNS gwName = some b → b = true := by
    intro t' b hb
    rw [PolicyTarget.decides] at hb
    split_ifs at hb
    · cases hb
      exact decide_eq_true hns
    · exact (Option.some.inj hb).symm
  rw [matchesGateway]
  cases hfind : p.policyTargets.all.findSome? fun t => t.decides p.ns gwNS gwName with
  | none => exact absurd (findSome?_eq_none_iff.mp hfind t ht) hdecides
  | some b =>
    obtain ⟨t', _, hb⟩ := exists_of_findSome?_eq_some hfind
    exact htrue t' b hb

lemma exists_matches (h : Attachable p) :
    ∃ name, (parseListenerGateway name).2 ≠ "" ∧
      matchesGateway p (parseListenerGateway name).1 (parseListenerGateway name).2 = true := by
  obtain ⟨t, ht, ⟨hkind, hne, hname⟩ | ⟨hkind, hns⟩⟩ := h
  · refine ⟨"" ++ "/" ++ t.name, ?_⟩
    rw [parseListenerGateway_eq (by decide) hname]
    refine ⟨hne, matchesGateway_of_decides (.inr rfl) ht ?_⟩
    rw [PolicyTarget.decides, if_pos ⟨hkind, rfl⟩]
    exact Option.some_ne_none _
  · refine ⟨p.ns ++ "/" ++ "gateway", ?_⟩
    rw [parseListenerGateway_eq hns (by decide)]
    have hne : "gateway" ≠ "" := by decide
    refine ⟨hne, matchesGateway_of_decides (.inl rfl) ht ?_⟩
    have hgateway : ¬(t.kind = "Gateway" ∧ t.name = "gateway") := by
      rw [hkind]
      exact fun hc => absurd hc.1 (by decide)
    rw [PolicyTarget.decides, if_neg hgateway, if_pos ⟨hkind, rfl⟩]
    exact Option.some_ne_none _

/-! ## Clusters of the translation -/

/-- A configuration of the index. -/
def ExtensionServer.Indexes (s : ExtensionServer) (p : PortableConfig) : Prop :=
  ∃ key, s.configs.lookup key = some p

lemma mem_ensureCluster (clusters : List Cluster) (add : Option Cluster) (name : String) :
    name ∈ (ensureCluster clusters add).map (·.name) ↔
      name ∈ clusters.map (·.name) ∨ ∃ c ∈ add, c.name = name := by
  cases add with
  | none => simp [ensureCluster]
  | some c =>
    rw [ensureCluster]
    by_cases hany : (clusters.any fun c' => c'.name = c.name) = true
    · simp only [hany, if_true, Option.mem_def, Option.some.injEq, exists_eq_left']
      constructor
      · exact .inl
      · rintro (h | rfl)
        · exact h
        · obtain ⟨c', hc', hname⟩ := any_eq_true.mp hany
          exact mem_map.mpr ⟨c', hc', of_decide_eq_true hname⟩
    · rw [if_neg hany]
      simp [@eq_comm _ name]

lemma ensureCluster_of_mem (h : ∀ c ∈ add, c.name ∈ clusters.map (·.name)) :
    ensureCluster clusters add = clusters := by
  cases add with
  | none => rfl
  | some c =>
    obtain ⟨c', hc', hname⟩ := mem_map.mp (h c rfl)
    exact if_pos (any_eq_true.mpr ⟨c', hc', decide_eq_true hname⟩)

lemma exists_name_iff {n : String} (h : ∀ c ∈ add, c.name = n) :
    (∃ c ∈ add, c.name = name) ↔ name = n ∧ add.isSome := by
  cases add with
  | none => simp
  | some c => simp [h c rfl, eq_comm]

/-- The ECDS cluster that a WAF asks for. -/
def ecdsClusterOf (opts : BuildOptions) (p : PortableConfig) : Option Cluster :=
  let host := if p.ecdsHost = "" then opts.defaultECDSHost else p.ecdsHost
  if host = "" then none
  else some ⟨ecdsClusterName p, host, ecdsPortOr opts p.ecdsPort, true, none⟩

lemma buildECDSCluster_eq (opts : BuildOptions) (cfgs : List PortableConfig) :
    buildECDSCluster opts cfgs =
      (cfgs.findSome? (ecdsClusterOf opts)).or (buildECDSCluster opts []) := by
  induction cfgs with
  | nil => rfl
  | cons p cfgs ih =>
    have hstep : buildECDSCluster opts (p :: cfgs) =
        (ecdsClusterOf opts p).or (buildECDSCluster opts cfgs) := by
      simp only [buildECDSCluster, ecdsClusterOf, makeECDSCluster]
      split_ifs <;> rfl
    rw [hstep, ih, findSome?_cons]
    cases ecdsClusterOf opts p <;> rfl

/-- The OpenTelemetry cluster that a WAF asks for. -/
def otelClusterOf (p : PortableConfig) : Option Cluster := makeOTelCluster p.otelHost p.otelPort

lemma buildOTelCluster_eq (opts : BuildOptions) (cfgs : List PortableConfig) :
    buildOTelCluster opts cfgs = (cfgs.findSome? otelClusterOf).or
      (makeOTelCluster opts.defaultOTelHost opts.defaultOTelPort) := by
  rw [buildOTelCluster]
  induction cfgs with
  | nil => rfl
  | cons p cfgs ih =>
    by_cases hhost : p.otelHost = ""
    · simpa [hhost, otelClusterOf, makeOTelCluster] using ih
    · simp [hhost, otelClusterOf, makeOTelCluster]

section Translate

variable (wasmCodeClusterHostPort : String → Option (String × ℕ))

/-- The Wasm cluster that a WAF asks for: the one of its first URL with a host and a port. -/
def wasmClusterOf (p : PortableConfig) : Option Cluster :=
  ((wasmURLs p).filter (· ≠ "")).findSome? (makeWasmCodeCluster wasmCodeClusterHostPort)

/-- An OpenTelemetry host is known for the cluster of that name. -/
def ExtensionServer.HasOTelHost (s : ExtensionServer) : Prop :=
  s.opts.defaultOTelHost ≠ "" ∨ ∃ p, s.Indexes p ∧ p.otelHost ≠ ""

/-- Some Wasm URL of the index has a host and a port. -/
def ExtensionServer.HasWasmHost (s : ExtensionServer) : Prop :=
  ∃ p, s.Indexes p ∧ ∃ u ∈ wasmURLs p, u ≠ "" ∧ (wasmCodeClusterHostPort u).isSome

variable {wasmCodeClusterHostPort} {s : ExtensionServer} {c : Cluster}

lemma name_makeWasmCodeCluster {u : String}
    (hc : makeWasmCodeCluster wasmCodeClusterHostPort u = some c) : c.name = wasmCodeCluster := by
  obtain ⟨hp, _, rfl⟩ := Option.map_eq_some_iff.mp hc
  rfl

lemma name_findSome_wasm {urls : List String}
    (hc : urls.findSome? (makeWasmCodeCluster wasmCodeClusterHostPort) = some c) :
    c.name = wasmCodeCluster := by
  obtain ⟨u, _, hu⟩ := exists_of_findSome?_eq_some hc
  exact name_makeWasmCodeCluster hu

lemma ensureWasmClusters_of_mem (h : wasmCodeCluster ∈ clusters.map (·.name))
    (seen urls : List String) :
    ensureWasmClusters wasmCodeClusterHostPort seen clusters urls = clusters := by
  induction urls generalizing seen with
  | nil => rfl
  | cons u urls ih =>
    rw [ensureWasmClusters, ensureCluster_of_mem fun c hc => name_makeWasmCodeCluster hc ▸ h]
    split_ifs
    · exact ih _
    · exact ih _

lemma ensureWasmClusters_eq (clusters : List Cluster) (urls : List String) {seen : List String}
    (hseen : ∀ u ∈ seen, makeWasmCodeCluster wasmCodeClusterHostPort u = none) :
    ensureWasmClusters wasmCodeClusterHostPort seen clusters urls = ensureCluster clusters
      ((urls.filter (· ≠ "")).findSome? (makeWasmCodeCluster wasmCodeClusterHostPort)) := by
  induction urls generalizing seen with
  | nil => rfl
  | cons u urls ih =>
    rw [ensureWasmClusters]
    by_cases hempty : u = ""
    · rw [if_pos (.inl hempty), ih hseen]
      simp [hempty]
    · rw [filter_cons_of_pos (by simpa using hempty), findSome?_cons]
      cases hmake : makeWasmCodeCluster wasmCodeClusterHostPort u with
      | none =>
        have hseen' : ∀ u' ∈ u :: seen, makeWasmCodeCluster wasmCodeClusterHostPort u' = none := by
          intro u' hu'
          rcases mem_cons.mp hu' with rfl | hu'
          · exact hmake
          · exact hseen u' hu'
        split_ifs
        · exact ih hseen
        · exact ih hseen'
      | some c =>
        have hnew : ¬(u = "" ∨ u ∈ seen) := by
          rintro (h | h)
          · exact hempty h
          · rw [hseen u h] at hmake
            cases hmake
        rw [if_neg hnew]
        apply ensureWasmClusters_of_mem
        exact (mem_ensureCluster _ _ _).mpr (.inr ⟨c, rfl, name_makeWasmCodeCluster hmake⟩)

lemma postTranslateModify_eq (s : ExtensionServer) (cfgs : List PortableConfig)
    (clusters : List Cluster) :
    postTranslateModify wasmCodeClusterHostPort s cfgs clusters =
      ensureCluster (ensureCluster (ensureCluster clusters (buildECDSCluster s.opts cfgs))
        (buildOTelCluster s.opts cfgs)) (cfgs.findSome? (wasmClusterOf wasmCodeClusterHostPort)) := by
  have hurls : ((cfgs.flatMap wasmURLs).filter (· ≠ "")).findSome?
      (makeWasmCodeCluster wasmCodeClusterHostPort) =
        cfgs.findSome? (wasmClusterOf wasmCodeClusterHostPort) := by
    induction cfgs with
    | nil => rfl
    | cons p cfgs ih =>
      rw [flatMap_cons, filter_append, findSome?_append, ih, findSome?_cons]
      cases h : wasmClusterOf wasmCodeClusterHostPort p with
      | none => rw [wasmClusterOf] at h; rw [h, Option.none_or]
      | some c => rw [wasmClusterOf] at h; rw [h, Option.some_or]
  rw [postTranslateModify, ← hurls]
  exact ensureWasmClusters_eq _ _ fun u hu => absurd hu not_mem_nil

lemma name_makeOTelCluster {host : String} {port : ℕ} (hc : makeOTelCluster host port = some c) :
    c.name = defaultOTelCluster := by
  rw [makeOTelCluster] at hc
  split_ifs at hc <;> exact Option.some.inj hc ▸ rfl

lemma name_buildOTelCluster {cfgs : List PortableConfig}
    (hc : buildOTelCluster s.opts cfgs = some c) : c.name = defaultOTelCluster := by
  rw [buildOTelCluster] at hc
  split at hc <;> exact name_makeOTelCluster hc

lemma isSome_buildOTelCluster {cfgs : List PortableConfig} (hcfgs : s.configs.Visits cfgs) :
    (buildOTelCluster s.opts cfgs).isSome ↔ s.HasOTelHost := by
  have hmake : ∀ host port, (makeOTelCluster host port).isSome ↔ host ≠ "" := by
    intro host port
    rw [makeOTelCluster]
    split_ifs with h <;> simp [h]
  rw [buildOTelCluster_eq, Option.isSome_or, Bool.or_eq_true, hmake, isSome_findSome?,
    any_eq_true, or_comm, ExtensionServer.HasOTelHost]
  exact or_congr_right (exists_congr fun p => and_congr (GoMap.mem_of_visits hcfgs) (hmake _ _))

lemma mem_postTranslateModify {cfgs : List PortableConfig}
    (hcfgs : s.configs.Visits (p :: cfgs)) (hhost : p.ecdsHost ≠ "") (clusters : List Cluster)
    (name : String) :
    name ∈ (postTranslateModify wasmCodeClusterHostPort s (p :: cfgs) clusters).map (·.name) ↔
      name ∈ clusters.map (·.name) ∨ ecdsClusterName p = name ∨
        (name = defaultOTelCluster ∧ s.HasOTelHost) ∨
        (name = wasmCodeCluster ∧ s.HasWasmHost wasmCodeClusterHostPort) := by
  have hecds : (∃ c ∈ buildECDSCluster s.opts (p :: cfgs), c.name = name) ↔
      ecdsClusterName p = name := by
    simp [buildECDSCluster, hhost, makeECDSCluster]
  have hwasm : ((p :: cfgs).findSome? (wasmClusterOf wasmCodeClusterHostPort)).isSome ↔
      s.HasWasmHost wasmCodeClusterHostPort := by
    rw [isSome_findSome?, any_eq_true]
    refine exists_congr fun q => and_congr (GoMap.mem_of_visits hcfgs) ?_
    rw [wasmClusterOf, isSome_findSome?, any_eq_true]
    refine exists_congr fun u => ?_
    rw [mem_filter, and_assoc, decide_eq_true_eq, makeWasmCodeCluster, Option.isSome_map]
  have hname : ∀ c ∈ (p :: cfgs).findSome? (wasmClusterOf wasmCodeClusterHostPort),
      c.name = wasmCodeCluster := by
    intro c hc
    obtain ⟨q, _, hq⟩ := exists_of_findSome?_eq_some hc
    exact name_findSome_wasm hq
  rw [postTranslateModify_eq, mem_ensureCluster, mem_ensureCluster, mem_ensureCluster, hecds,
    exists_name_iff hname, exists_name_iff (fun _ => name_buildOTelCluster),
    isSome_buildOTelCluster hcfgs, hwasm, or_assoc, or_assoc]

end Translate

/-! ## Clusters of the injected filters -/

section Exist

variable (gzip : Gzip) (wasmCodeClusterHostPort : String → Option (String × ℕ))

/-- The request brings no policy of its own, so that the WAFs are those of the index. -/
def FromIndex (s : ExtensionServer) (req : ListenerRequest) : Prop :=
  ∀ er ∈ req.extensionResources, portableFromUnstructured gzip s.opts er = none

/-- Whatever the listener, the orders in which the index is visited and the clusters that are
there before, a filter that is injected refers to a cluster that is there behind the
translation. -/
def ClustersExist (s : ExtensionServer) : Prop :=
  ∀ (req : ListenerRequest) (cfgs cfgs' : List PortableConfig) (clusters : List Cluster),
    FromIndex gzip s req → s.configs.Visits cfgs → s.configs.Visits cfgs' →
    ∀ f ∈ req.listener.injected (postHTTPListenerModify gzip s cfgs req),
    ∀ c, f.config = .discovery c →
      c ∈ (postTranslateModify wasmCodeClusterHostPort s cfgs' clusters).map (·.name)

/-- The cluster of a WAF is there whichever WAF of the index is visited first. -/
def Covered (s : ExtensionServer) (p : PortableConfig) : Prop :=
  (∀ q, s.Indexes q → ecdsClusterName q = p.ecdsCluster) ∨
    (p.ecdsCluster = defaultOTelCluster ∧ s.HasOTelHost) ∨
    (p.ecdsCluster = wasmCodeCluster ∧ s.HasWasmHost wasmCodeClusterHostPort)

variable {gzip} {wasmCodeClusterHostPort} {s : ExtensionServer} {req : ListenerRequest}

lemma matchingConfigs_of_fromIndex (h : FromIndex gzip s req) (cfgs : List PortableConfig) :
    matchingConfigs gzip s cfgs req =
      if (parseListenerGateway req.listener.name).2 = "" then []
      else cfgs.filter fun p => matchesGateway p (parseListenerGateway req.listener.name).1
        (parseListenerGateway req.listener.name).2 := by
  have hpolicy : req.extensionResources.filterMap (portableFromUnstructured gzip s.opts) = [] :=
    filterMap_eq_nil_iff.mpr h
  rw [matchingConfigs, hpolicy]
  simp

lemma attachable_of_mem_matchingConfigs (h : FromIndex gzip s req) {cfgs : List PortableConfig}
    (hp : p ∈ matchingConfigs gzip s cfgs req) : p ∈ cfgs ∧ Attachable p := by
  rw [matchingConfigs_of_fromIndex h] at hp
  split_ifs at hp with hname
  · cases hp
  · obtain ⟨hmem, hmatch⟩ := mem_filter.mp hp
    have hplain := slash_notMem_parseListenerGateway req.listener.name
    exact ⟨hmem, attachable_of_matches hplain.1 hplain.2 hname hmatch⟩

lemma gainsStubs_postHTTPListenerModify (s : ExtensionServer) (cfgs : List PortableConfig)
    (req : ListenerRequest) :
    GainsStubs (matchingConfigs gzip s cfgs req) req.listener.filters
      (postHTTPListenerModify gzip s cfgs req).filters := by
  rw [postHTTPListenerModify]
  split_ifs
  · exact .refl _
  · exact gainsStubs_injectFilters _

/-- A listener with one connection manager that has no filters. -/
def emptyListener (name : String) : Listener where
  name := name
  filterChains := [[{ name := "http_connection_manager", manager := some ⟨[], []⟩ }]]

lemma makeECDSFilterStubs_head (p : PortableConfig) :
    ∃ f stubs, makeECDSFilterStubs p = f :: stubs ∧ f.config = .discovery p.ecdsCluster := by
  rw [makeECDSFilterStubs]
  cases p.filters with
  | nil => exact ⟨_, _, rfl, rfl⟩
  | cons f fs => exact ⟨_, _, rfl, rfl⟩

lemma filters_emptyListener (name : String) (cfgs : List PortableConfig) :
    (injectFilters (emptyListener name) cfgs).filters =
      toInsert [] (cfgs.flatMap makeECDSFilterStubs) := by
  have hfilters : (injectFilters (emptyListener name) cfgs).filters =
      (injectIntoManager ⟨[], []⟩ cfgs).httpFilters := by
    simp [Listener.filters, injectFilters, emptyListener, injectIntoFilterChain, chainFilters]
  rw [hfilters, injectIntoManager, injectStubs_httpFilters]
  split_ifs with hnone
  · exact hnone.symm
  · rfl

lemma exists_injected (p : PortableConfig) (cfgs : List PortableConfig) (name : String) :
    ∃ f ∈ (emptyListener name).injected (injectFilters (emptyListener name) (p :: cfgs)),
      f.config = .discovery p.ecdsCluster := by
  obtain ⟨f, stubs, hstubs, hconfig⟩ := makeECDSFilterStubs_head p
  refine ⟨f, ?_, hconfig⟩
  have hbefore : (emptyListener name).filters = [] := rfl
  rw [Listener.injected, filters_emptyListener, hbefore, diff_nil, flatMap_cons, hstubs]
  simp [toInsert]

/-- The WAF matches a listener of that name. -/
def MatchesListener (p : PortableConfig) (name : String) : Prop :=
  (parseListenerGateway name).2 ≠ "" ∧
    matchesGateway p (parseListenerGateway name).1 (parseListenerGateway name).2 = true

lemma postHTTPListenerModify_emptyListener (hmatch : MatchesListener p name)
    (cfgs : List PortableConfig) :
    ∃ rest, postHTTPListenerModify gzip s (p :: cfgs) ⟨emptyListener name, []⟩ =
      injectFilters (emptyListener name) (p :: rest) := by
  have hreq : FromIndex gzip s ⟨emptyListener name, []⟩ :=
    fun er her => absurd her not_mem_nil
  have hmatching : ∃ rest, matchingConfigs gzip s (p :: cfgs) ⟨emptyListener name, []⟩
      = p :: rest := by
    rw [matchingConfigs_of_fromIndex hreq]
    exact ⟨_, (if_neg hmatch.1).trans (filter_cons_of_pos hmatch.2)⟩
  obtain ⟨rest, hrest⟩ := hmatching
  refine ⟨rest, ?_⟩
  rw [postHTTPListenerModify, hrest]
  exact if_neg (cons_ne_nil _ _)

/-- Every cluster that an injected filter refers to is there exactly when each WAF that can match
a listener has the cluster of whichever WAF is visited first, or one that is there anyway. -/
theorem clusters_exist_iff (hhosts : ∀ p, s.Indexes p → p.ecdsHost ≠ "") :
    ClustersExist gzip wasmCodeClusterHostPort s ↔
      ∀ p, s.Indexes p → Attachable p → Covered wasmCodeClusterHostPort s p := by
  constructor
  · intro hexist p hp hattach
    obtain ⟨name, hmatch⟩ := exists_matches hattach
    obtain ⟨cfgs, hcfgs⟩ := GoMap.exists_visits_cons hp.choose_spec
    have hreq : FromIndex gzip s ⟨emptyListener name, []⟩ :=
      fun er her => absurd her not_mem_nil
    -- the listener is visited from `p` on, so that the stub of `p` goes in
    obtain ⟨rest, hmodify⟩ : ∃ rest, postHTTPListenerModify gzip s (p :: cfgs) _ = _ :=
      postHTTPListenerModify_emptyListener hmatch cfgs
    obtain ⟨f, hf, hconfig⟩ := exists_injected p rest name
    -- the translation may start at any other WAF of the index
    have hcovers : ∀ q, s.Indexes q → ecdsClusterName q = p.ecdsCluster ∨
        (p.ecdsCluster = defaultOTelCluster ∧ s.HasOTelHost) ∨
        (p.ecdsCluster = wasmCodeCluster ∧ s.HasWasmHost wasmCodeClusterHostPort) := by
      intro q hq
      obtain ⟨cfgs', hcfgs'⟩ := GoMap.exists_visits_cons hq.choose_spec
      have hmem := hexist _ _ _ [] hreq hcfgs hcfgs' f (by rw [hmodify]; exact hf) _ hconfig
      rw [mem_postTranslateModify hcfgs' (hhosts q hq)] at hmem
      exact hmem.resolve_left not_mem_nil
    by_cases hother : (p.ecdsCluster = defaultOTelCluster ∧ s.HasOTelHost) ∨
        (p.ecdsCluster = wasmCodeCluster ∧ s.HasWasmHost wasmCodeClusterHostPort)
    · exact .inr hother
    · exact .inl fun q hq => (hcovers q hq).resolve_right hother
  · intro hcovered req cfgs cfgs' clusters hreq hcfgs hcfgs' f hf c hc
    obtain ⟨p, hp, hconfig⟩ :=
      cluster_of_injected (gainsStubs_postHTTPListenerModify s cfgs req) hf
    obtain rfl : p.ecdsCluster = c := HttpFilterConfig.discovery.inj (hconfig.symm.trans hc)
    obtain ⟨hmem, hattach⟩ := attachable_of_mem_matchingConfigs hreq hp
    have hindexed : s.Indexes p := (GoMap.mem_of_visits hcfgs).mp hmem
    have hcov := hcovered p hindexed hattach
    -- the index is not empty, so its translation starts at some WAF
    cases cfgs' with
    | nil => exact absurd ((GoMap.mem_of_visits hcfgs').mpr hindexed) not_mem_nil
    | cons q cfgs' =>
      have hq : s.Indexes q := (GoMap.mem_of_visits hcfgs').mp mem_cons_self
      rw [mem_postTranslateModify hcfgs' (hhosts q hq)]
      exact .inr (hcov.imp_left fun hall => hall q hq)

end Exist

/-- A WAF of the namespace `shop` for the gateway `public`, with an ECDS cluster of its own. -/
def gatewayWAF (name cluster : String) : PortableConfig where
  extensionName := extensionName "shop" name
  ns := "shop"
  name := name
  ecdsCluster := cluster
  ecdsHost := "kubewaf-ecds"
  policyTargets := { targetRef := some ⟨"Gateway", "public"⟩ }

/-- An index of two such WAFs. -/
def gatewayIndex (cluster cluster' : String) : ExtensionServer :=
  (({} : ExtensionServer).upsert (gatewayWAF "a" cluster)).upsert (gatewayWAF "b" cluster')

lemma gatewayIndex_visits (cluster cluster' : String) :
    (gatewayIndex cluster cluster').configs.Visits
      [gatewayWAF "b" cluster', gatewayWAF "a" cluster] :=
  List.Perm.refl _

/-- Two WAFs that share the cluster: it is there. -/
theorem clusters_exist_shared :
    (∀ p, (gatewayIndex "kubewaf_ecds" "kubewaf_ecds").Indexes p → p.ecdsHost ≠ "") ∧
      ClustersExist ⟨some, some⟩ (fun _ => none)
        (gatewayIndex "kubewaf_ecds" "kubewaf_ecds") := by
  have hindexes : ∀ p, (gatewayIndex "kubewaf_ecds" "kubewaf_ecds").Indexes p →
      p.ecdsHost ≠ "" ∧ ecdsClusterName p = "kubewaf_ecds" ∧ p.ecdsCluster = "kubewaf_ecds" := by
    intro p hp
    have hmem := (GoMap.mem_of_visits (gatewayIndex_visits _ _)).mpr hp
    rcases mem_pair.mp hmem with rfl | rfl
    · decide
    · decide
  refine ⟨fun p hp => (hindexes p hp).1, (clusters_exist_iff fun p hp => (hindexes p hp).1).mpr ?_⟩
  exact fun p hp _ => .inl fun q hq => (hindexes q hq).2.1.trans (hindexes p hp).2.2.symm

/-- Two WAFs with a cluster each: both are injected, and the translation adds one of them. -/
theorem clusters_missing :
    ∃ (req : ListenerRequest) (cfgs : List PortableConfig),
      (∀ p ∈ cfgs, p.ecdsHost ≠ "") ∧ FromIndex ⟨some, some⟩ (gatewayIndex "ecds_a" "ecds_b") req ∧
      (gatewayIndex "ecds_a" "ecds_b").configs.Visits cfgs ∧
      ∃ f ∈ req.listener.injected
          (postHTTPListenerModify ⟨some, some⟩ (gatewayIndex "ecds_a" "ecds_b") cfgs req),
        f.config = .discovery "ecds_a" ∧
        "ecds_a" ∉ (postTranslateModify (fun _ => none) (gatewayIndex "ecds_a" "ecds_b") cfgs
          []).map (·.name) := by
  refine ⟨⟨emptyListener "shop/public/http", []⟩, _, ?_, ?_, gatewayIndex_visits _ _,
    makeECDSFilterStub (extensionName "shop" "a") "ecds_a", ?_⟩
  · decide
  · exact fun er her => absurd her not_mem_nil
  · decide +kernel

end KubeWaf.Dataplane
