import KubeWaf.Dataplane.Attachment

/-!
# The order of the filters on the three data planes

The order that a `PortableConfig` asks for is the order of its filters, with the router last.
Each attachment is put in terms of the extension names: Envoy Gateway keeps the order of names
that are pairwise distinct and not the router's, Cilium that of names that are not empty, and
Istio turns the order around, because the patches are laid down from the last filter to the first
and each one lands behind those before it.
-/

namespace KubeWaf.Dataplane

open Lib List

variable {p : PortableConfig}

/-- The extension names of the filters of a config, in the order of the config. -/
def extensionNames (p : PortableConfig) : List String := p.filters.map (·.extensionName)

/-- The names of a filter chain that runs the filters of `p` in their order, then the router. -/
def InOrder (p : PortableConfig) (chain : List HttpFilter) : Prop :=
  chain.map (·.name) = extensionNames p ++ [routerName]

/-! ## Istio -/

section Istio

variable (wasmCodeClusterHostPort : String → Option (String × ℕ))

lemma foldl_apply_insertBefore (context : String) (values filters : List HttpFilter) :
    (values.map (ConfigPatch.insertBefore context routerName)).foldl
        (ConfigPatch.apply context) filters
      = values.foldl (Lib.insertBefore fun f => f.name = routerName) filters := by
  induction values generalizing filters with
  | nil => rfl
  | cons value values ih =>
    have hstep : ConfigPatch.apply context filters (.insertBefore context routerName value)
        = Lib.insertBefore (fun f => f.name = routerName) filters value :=
      if_pos (Or.inl rfl)
    rw [map_cons, foldl_cons, foldl_cons, hstep]
    exact ih _

lemma buildSpec_apply (p : PortableConfig) (filters : List HttpFilter) :
    (buildSpec wasmCodeClusterHostPort p).apply (patchContext p) filters
      = ((filterNames p).reverse.map (ecdsFilterValueNamed p)).foldl
          (Lib.insertBefore fun f => f.name = routerName) filters := by
  have hclusters : ∀ (o : Option ClusterValue) (fs : List HttpFilter),
      (o.map (ConfigPatch.addCluster (patchContext p))).toList.foldl
        (ConfigPatch.apply (patchContext p)) fs = fs := by
    intro o fs
    cases o <;> rfl
  have hotel : ∀ fs : List HttpFilter,
      (if p.otelHost ≠ "" then
          [ConfigPatch.addCluster (patchContext p) (otelClusterMap p.otelHost p.otelPort)]
        else []).foldl (ConfigPatch.apply (patchContext p)) fs = fs := by
    intro fs
    by_cases h : p.otelHost ≠ ""
    · rw [if_pos h]; rfl
    · rw [if_neg h]; rfl
  have hmap : ((filterNames p).reverse.map fun name =>
        ConfigPatch.insertBefore (patchContext p) routerName (ecdsFilterValueNamed p name))
      = ((filterNames p).reverse.map (ecdsFilterValueNamed p)).map
          (ConfigPatch.insertBefore (patchContext p) routerName) := by
    rw [map_map]
    rfl
  rw [EnvoyFilterSpec.apply, buildSpec]
  simp only [foldl_append, hclusters, hotel, hmap, foldl_apply_insertBefore]
  rfl

lemma buildSpec_apply_router (hp : p.filters ≠ []) (hrouter : routerName ∉ extensionNames p) :
    ((buildSpec wasmCodeClusterHostPort p).apply (patchContext p) [router]).map (·.name)
      = (extensionNames p).reverse ++ [routerName] := by
  have hnames : filterNames p = extensionNames p := if_neg hp
  have hvalues : ∀ f ∈ (extensionNames p).reverse.map (ecdsFilterValueNamed p),
      decide (f.name = routerName) = false := by
    intro f hf
    obtain ⟨name, hname, rfl⟩ := mem_map.mp hf
    refine decide_eq_false fun h => hrouter ?_
    rw [← h]
    exact mem_reverse.mp hname
  have hmark : (decide (router.name = routerName)) = true := rfl
  have hreplay := foldl_insertBefore (p := fun f : HttpFilter => f.name = routerName) hmark [] _ []
    (fun _ h => absurd h not_mem_nil) hvalues
  rw [nil_append] at hreplay
  rw [buildSpec_apply, hnames, hreplay]
  simp only [nil_append, map_append, map_map, map_cons, map_nil]
  congr 1
  exact (map_congr_left fun _ _ => rfl).trans (map_id _)

end Istio

/-! ## Cilium -/

lemma map_stubName_of_ne_empty {fs : List PortableFilter} (h : ∀ f ∈ fs, f.extensionName ≠ "") :
    fs.filterMap stubName = fs.map (·.extensionName) := by
  induction fs with
  | nil => rfl
  | cons f fs ih =>
    have hf : f.extensionName ≠ "" := h f mem_cons_self
    have hname : stubName f = some f.extensionName := by
      simp [stubName, if_neg hf]
    rw [filterMap_cons_some hname, ih fun g hg => h g (mem_cons_of_mem _ hg),
      map_cons]

lemma stubName_ne_empty {f : PortableFilter} {name : String} (h : stubName f = some name) :
    name ≠ "" := by
  intro hname
  subst hname
  simp only [stubName] at h
  split_ifs at h with h₁ h₂ <;> simp_all

lemma httpFilters_names (hp : p.filters ≠ []) :
    (httpFilters p).map (·.name) = p.filters.filterMap stubName ++ [routerName] := by
  have hfilters : portableFilters p = p.filters := if_pos hp
  rw [httpFilters, hfilters, map_append, map_filterMap]
  congr 1
  refine filterMap_congr fun f _ => ?_
  rw [Option.map_map]
  exact Option.map_id'

lemma inOrder_httpFilters_iff (hp : p.filters ≠ []) :
    InOrder p (httpFilters p) ↔ "" ∉ extensionNames p := by
  rw [InOrder, httpFilters_names hp, append_cancel_right_eq]
  constructor
  · intro h hempty
    rw [← h] at hempty
    obtain ⟨f, _, hf⟩ := mem_filterMap.mp hempty
    exact stubName_ne_empty hf rfl
  · intro h
    exact map_stubName_of_ne_empty fun f hf hname =>
      h (hname ▸ mem_map_of_mem (f := (·.extensionName)) hf)

/-! ## Envoy Gateway -/

lemma toInsert_names (stubs : List HttpFilter) (existing : List String) :
    ((toInsert existing stubs).map (·.name)).Nodup
      ∧ ∀ name ∈ (toInsert existing stubs).map (·.name), name ∉ existing := by
  induction stubs generalizing existing with
  | nil => exact ⟨nodup_nil, fun _ h => absurd h not_mem_nil⟩
  | cons stub stubs ih =>
    by_cases h : stub.name ∈ existing
    · rw [toInsert, if_pos h]
      exact ih existing
    · rw [toInsert, if_neg h, map_cons]
      obtain ⟨hnodup, hfresh⟩ := ih (stub.name :: existing)
      refine ⟨nodup_cons.mpr ⟨fun hmem => hfresh _ hmem mem_cons_self, hnodup⟩, ?_⟩
      intro name hname
      rcases mem_cons.mp hname with rfl | hname
      · exact h
      · exact fun hmem => hfresh name hname (mem_cons_of_mem _ hmem)

lemma toInsert_subset (existing : List String) (stubs : List HttpFilter) :
    ∀ f ∈ toInsert existing stubs, f ∈ stubs := by
  induction stubs generalizing existing with
  | nil => exact fun f hf => hf
  | cons stub stubs ih =>
    intro f hf
    rw [toInsert] at hf
    split_ifs at hf
    · exact mem_cons_of_mem _ (ih existing f hf)
    · rcases mem_cons.mp hf with rfl | hf
      · exact mem_cons_self
      · exact mem_cons_of_mem _ (ih _ f hf)

lemma toInsert_eq_self {stubs : List HttpFilter} {existing : List String}
    (hnodup : (stubs.map (·.name)).Nodup)
    (hfresh : ∀ name ∈ stubs.map (·.name), name ∉ existing) :
    toInsert existing stubs = stubs := by
  induction stubs generalizing existing with
  | nil => rfl
  | cons stub stubs ih =>
    obtain ⟨hhead, htail⟩ := nodup_cons.mp hnodup
    have h : stub.name ∉ existing := hfresh _ mem_cons_self
    rw [toInsert, if_neg h, ih htail]
    intro name hname hmem
    rcases mem_cons.mp hmem with rfl | hmem
    · exact hhead hname
    · exact hfresh name (mem_cons_of_mem _ hname) hmem

lemma appendOTelAccessLog_httpFilters (mgr : HttpConnectionManager) (cluster : String) :
    (appendOTelAccessLog mgr cluster).httpFilters = mgr.httpFilters := by
  rw [appendOTelAccessLog]
  by_cases h : hasOTelAccessLog mgr
  · rw [if_pos h]
  · rw [if_neg h]

lemma injectStubs_httpFilters (mgr : HttpConnectionManager) (stubs : List HttpFilter)
    (needAccessLog : Bool) :
    (injectStubs mgr stubs needAccessLog).httpFilters =
      if stubs = [] then mgr.httpFilters
      else (spliceBefore isRouter stubs mgr.httpFilters).getD (mgr.httpFilters ++ stubs) := by
  rw [injectStubs]
  by_cases hnone : stubs = []
  · simp only [hnone, true_and, if_true]
    split_ifs <;> simp [appendOTelAccessLog_httpFilters]
  · simp only [hnone, false_and, if_false]
    split_ifs <;> simp [appendOTelAccessLog_httpFilters]

lemma injectStubs_router (accessLog : List AccessLog) (stubs : List HttpFilter)
    (needAccessLog : Bool) :
    (injectStubs ⟨[router], accessLog⟩ stubs needAccessLog).httpFilters = stubs ++ [router] := by
  rw [injectStubs_httpFilters]
  split_ifs with hnone
  · rw [hnone, nil_append]
  · rfl

lemma makeECDSFilterStubs_names (hp : p.filters ≠ []) :
    (makeECDSFilterStubs p).map (·.name) = extensionNames p := by
  rw [makeECDSFilterStubs, if_neg hp, map_map]
  rfl

lemma inOrder_injectIntoManager_iff (hp : p.filters ≠ []) (accessLog : List AccessLog) :
    InOrder p (injectIntoManager ⟨[router], accessLog⟩ [p]).httpFilters
      ↔ (extensionNames p).Nodup ∧ routerName ∉ extensionNames p := by
  have hstubs : [p].flatMap makeECDSFilterStubs = makeECDSFilterStubs p := flatMap_singleton ..
  rw [InOrder, injectIntoManager, injectStubs_router, hstubs, map_append, map_singleton]
  change (toInsert [routerName] _).map _ ++ [routerName] = _ ↔ _
  rw [append_cancel_right_eq, ← makeECDSFilterStubs_names hp]
  constructor
  · intro h
    have hnames := toInsert_names (makeECDSFilterStubs p) [routerName]
    rw [h] at hnames
    exact ⟨hnames.1, fun hmem => hnames.2 _ hmem (mem_singleton.mpr rfl)⟩
  · intro h
    rw [toInsert_eq_self h.1]
    intro name hname hmem
    rw [mem_singleton.mp hmem] at hname
    exact h.2 hname

/-! ## All three -/

/-- The chains that the three attachments make of a listener with a router only. -/
def istioChain (wasmCodeClusterHostPort : String → Option (String × ℕ)) (p : PortableConfig) :
    List HttpFilter :=
  (buildSpec wasmCodeClusterHostPort p).apply (patchContext p) [router]

def gatewayChain (name : String) (accessLog : List AccessLog) (p : PortableConfig) :
    List HttpFilter :=
  (injectIntoFilterChain [⟨name, some ⟨[router], accessLog⟩⟩] [p]).flatMap fun f =>
    (f.manager.map (·.httpFilters)).getD []

lemma length_le_one_of_reverse_eq {α : Type*} {l : List α} (hnodup : l.Nodup)
    (h : l.reverse = l) : l.length ≤ 1 := by
  match l, hnodup, h with
  | [], _, _ => exact Nat.zero_le _
  | [_], _, _ => exact le_rfl
  | a :: b :: l, hnodup, h =>
    -- the first element is also the last one of the rest
    have hlast : (a :: b :: l).getLast? = some a := by
      rw [← h, getLast?_reverse, head?_cons]
    rw [getLast?_cons_cons] at hlast
    exact absurd (mem_of_getLast? hlast) (nodup_cons.mp hnodup).1

/-- The three data planes run the filters of a config in the order of the config if and only if
there is a single filter, with a name that is neither empty nor the router's. -/
theorem filters_inOrder_iff (wasmCodeClusterHostPort : String → Option (String × ℕ))
    (name : String) (accessLog : List AccessLog) (p : PortableConfig) (hp : p.filters ≠ []) :
    (InOrder p (istioChain wasmCodeClusterHostPort p) ∧ InOrder p (httpFilters p)
        ∧ InOrder p (gatewayChain name accessLog p))
      ↔ ∃ f, p.filters = [f] ∧ f.extensionName ≠ "" ∧ f.extensionName ≠ routerName := by
  have hgateway : gatewayChain name accessLog p
      = (injectIntoManager ⟨[router], accessLog⟩ [p]).httpFilters := append_nil _
  rw [hgateway, inOrder_httpFilters_iff hp, inOrder_injectIntoManager_iff hp]
  constructor
  · rintro ⟨histio, hempty, hnodup, hrouter⟩
    have hreverse : (extensionNames p).reverse = extensionNames p := by
      have h := (buildSpec_apply_router wasmCodeClusterHostPort hp hrouter).symm.trans histio
      exact append_cancel_right h
    have hlength : p.filters.length ≤ 1 := by
      have h := length_le_one_of_reverse_eq hnodup hreverse
      rwa [extensionNames, length_map] at h
    have hone : p.filters.length = 1 :=
      le_antisymm hlength (length_pos_iff.mpr hp)
    obtain ⟨f, hf⟩ := length_eq_one_iff.mp hone
    have hnames : extensionNames p = [f.extensionName] := by rw [extensionNames, hf]; rfl
    rw [hnames] at hempty hrouter
    exact ⟨f, hf, fun h => hempty (mem_singleton.mpr h.symm),
      fun h => hrouter (mem_singleton.mpr h.symm)⟩
  · rintro ⟨f, hf, hempty, hrouter⟩
    have hnames : extensionNames p = [f.extensionName] := by rw [extensionNames, hf]; rfl
    have hrouter' : routerName ∉ extensionNames p := by
      rw [hnames]
      exact fun h => hrouter (mem_singleton.mp h).symm
    refine ⟨?_, ?_, ?_, hrouter'⟩
    · rw [InOrder, istioChain, buildSpec_apply_router _ hp hrouter', hnames]
      rfl
    · rw [hnames]
      exact fun h => hempty (mem_singleton.mp h).symm
    · rw [hnames]
      exact nodup_cons.mpr ⟨not_mem_nil, nodup_nil⟩

/-- A WAF alone is attached in the same way everywhere. -/
theorem filters_inOrder_wafOnly :
    let p : PortableConfig := { filters := [{ extensionName := "waf" }] }
    p.filters ≠ [] ∧ InOrder p (istioChain (fun _ => none) p) ∧ InOrder p (httpFilters p)
      ∧ InOrder p (gatewayChain "hcm" [] p) :=
  ⟨by decide, (filters_inOrder_iff (fun _ => none) "hcm" [] _ (by decide)).mpr
    ⟨{ extensionName := "waf" }, rfl, by decide, by decide⟩⟩

/-- With a challenge ahead of the WAF, Istio runs the WAF first, the other two the challenge. -/
theorem filters_challenge_reversed :
    let p : PortableConfig :=
      { filters := [{ extensionName := "challenge", role := .challenge },
          { extensionName := "waf" }] }
    (istioChain (fun _ => none) p).map (·.name) = ["waf", "challenge", routerName]
      ∧ (httpFilters p).map (·.name) = ["challenge", "waf", routerName]
      ∧ (gatewayChain "hcm" [] p).map (·.name) = ["challenge", "waf", routerName] := by
  decide

end KubeWaf.Dataplane
