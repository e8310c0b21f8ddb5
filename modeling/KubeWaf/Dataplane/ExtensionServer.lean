import KubeWaf.Dataplane.Build
import KubeWaf.Lib.GoMap

/-!
# The Envoy Gateway extension server

`internal/dataplane/extensionserver/server.go` with the cluster builders of
`internal/dataplane/xdsutil/clusters.go`: an index of the configurations for Envoy Gateway, and
the two hooks that read it. A hook that loops over the index takes the order in which it visits
the entries.
-/

namespace KubeWaf.Dataplane

open Lib

/-- `extensionserver.Server` -/
structure ExtensionServer where
  opts : BuildOptions := {}
  configs : GoMap String PortableConfig := ∅

/-- The key of a WAF in the index. -/
def indexKey (ns name : String) : String := ns ++ "/" ++ name

def ExtensionServer.upsert (s : ExtensionServer) (p : PortableConfig) : ExtensionServer :=
  if p.provider ≠ .known .envoyGateway then s
  else { s with configs := s.configs.insert (indexKey p.ns p.name) p }

def ExtensionServer.delete (s : ExtensionServer) (ns name : String) : ExtensionServer :=
  { s with configs := s.configs.erase (indexKey ns name) }

/-- A namespace and a name without a slash, as the API server has them. -/
structure PlainNames (ns name : String) : Prop where
  ns_slash : '/' ∉ ns.toList
  name_slash : '/' ∉ name.toList

instance (ns name : String) : Decidable (PlainNames ns name) :=
  decidable_of_iff ('/' ∉ ns.toList ∧ '/' ∉ name.toList)
    ⟨fun h => ⟨h.1, h.2⟩, fun h => ⟨h.ns_slash, h.name_slash⟩⟩

lemma indexKey_inj {ns name ns' name' : String} (h : PlainNames ns name) :
    indexKey ns name = indexKey ns' name' ↔ ns' = ns ∧ name' = name := by
  have hlist : (indexKey ns name).toList = (indexKey ns' name').toList ↔
      ns.toList ++ '/' :: name.toList = ns'.toList ++ '/' :: name'.toList := by
    simp [indexKey]
  rw [← String.toList_inj, hlist, List.append_cons_inj_of_notMem h.ns_slash h.name_slash,
    String.toList_inj, String.toList_inj, eq_comm, @eq_comm _ name]
  simp

/-- The configuration of a WAF in the index. -/
def ExtensionServer.indexed (s : ExtensionServer) (ns name : String) : Option PortableConfig :=
  s.configs.lookup (indexKey ns name)

lemma indexed_upsert (s : ExtensionServer) (p : PortableConfig) {ns name : String}
    (h : PlainNames ns name) :
    (s.upsert p).indexed ns name =
      if p.provider = .known .envoyGateway ∧ p.ns = ns ∧ p.name = name then some p
      else s.indexed ns name := by
  rw [ExtensionServer.upsert]
  by_cases hprov : p.provider = .known .envoyGateway
  · simp [hprov, ExtensionServer.indexed, GoMap.lookup_insert_eq, indexKey_inj h]
  · rw [if_pos hprov, if_neg fun hc => hprov hc.1]

lemma indexed_delete (s : ExtensionServer) (ns' name' : String) {ns name : String}
    (h : PlainNames ns name) :
    (s.delete ns' name').indexed ns name =
      if ns' = ns ∧ name' = name then none else s.indexed ns name := by
  simp [ExtensionServer.delete, ExtensionServer.indexed, GoMap.lookup_erase_eq, indexKey_inj h]

/-! ## Clusters -/

/-- A `STRICT_DNS` cluster with one endpoint. -/
structure Cluster where
  name : String
  host : String
  port : ℕ
  http2 : Bool
  tlsSNI : Option String := none
  deriving DecidableEq

/-- `ecds.WasmCodeCluster` -/
def wasmCodeCluster : String := "kubewaf_wasm_code"

def makeECDSCluster (p : PortableConfig) : Cluster :=
  ⟨p.ecdsCluster, p.ecdsHost, p.ecdsPort, true, none⟩

def makeOTelCluster (host : String) (port : ℕ) : Option Cluster :=
  if host = "" then none
  else some ⟨defaultOTelCluster, host, if port = 0 then defaultOTelPort else port, true, none⟩

def ensureCluster (clusters : List Cluster) (add : Option Cluster) : List Cluster :=
  match add with
  | none => clusters
  | some c => if clusters.any (·.name = c.name) then clusters else clusters ++ [c]

/-- A port, or the default of the options, or the one of the chart. -/
def ecdsPortOr (opts : BuildOptions) (port : ℕ) : ℕ :=
  if port ≠ 0 then port else if opts.defaultECDSPort ≠ 0 then opts.defaultECDSPort else 18001

/-- `buildECDSCluster(cfgs)`: the first configuration with a host decides, else the options. -/
def buildECDSCluster (opts : BuildOptions) : List PortableConfig → Option Cluster
  | [] =>
    if opts.defaultECDSHost = "" then none
    else some (makeECDSCluster
      { ecdsCluster := defaultECDSCluster, ecdsHost := opts.defaultECDSHost,
        ecdsPort := ecdsPortOr opts 0 })
  | p :: cfgs =>
    let host := if p.ecdsHost = "" then opts.defaultECDSHost else p.ecdsHost
    if host = "" then buildECDSCluster opts cfgs
    else some (makeECDSCluster
      { ecdsCluster := ecdsClusterName p, ecdsHost := host, ecdsPort := ecdsPortOr opts p.ecdsPort })

def buildOTelCluster (opts : BuildOptions) (cfgs : List PortableConfig) : Option Cluster :=
  match cfgs.find? (·.otelHost ≠ "") with
  | some p => makeOTelCluster p.otelHost p.otelPort
  | none => makeOTelCluster opts.defaultOTelHost opts.defaultOTelPort

section Translate

-- `ecds.WasmCodeClusterHostPort`: host and port of a URL, where `net/url` finds them
variable (wasmCodeClusterHostPort : String → Option (String × ℕ))

/-- `MakeWasmCodeCluster(httpURL)`; `none` is the error. -/
def makeWasmCodeCluster (httpURL : String) : Option Cluster :=
  (wasmCodeClusterHostPort httpURL).map fun hp =>
    ⟨wasmCodeCluster, hp.1, hp.2, false,
      if "https://".toList.isPrefixOf httpURL.toList then some hp.1 else none⟩

/-- The `urls` of a configuration in the loop of `PostTranslateModify`. -/
def wasmURLs (p : PortableConfig) : List String :=
  p.httpURL :: (p.filters.map (·.httpURL)).filter (· ≠ "")

/-- The loop over the URLs, with those that it has seen. -/
def ensureWasmClusters (seen : List String) (clusters : List Cluster) :
    List String → List Cluster
  | [] => clusters
  | u :: urls =>
    if u = "" ∨ u ∈ seen then ensureWasmClusters seen clusters urls
    else
      ensureWasmClusters (u :: seen)
        (ensureCluster clusters (makeWasmCodeCluster wasmCodeClusterHostPort u)) urls

/-- `PostTranslateModify(req)`, on the clusters of the request; `cfgs` is the index in the order
in which it is copied. -/
def postTranslateModify (s : ExtensionServer) (cfgs : List PortableConfig)
    (clusters : List Cluster) : List Cluster :=
  let clusters := ensureCluster clusters (buildECDSCluster s.opts cfgs)
  let clusters := ensureCluster clusters (buildOTelCluster s.opts cfgs)
  ensureWasmClusters wasmCodeClusterHostPort [] clusters (cfgs.flatMap wasmURLs)

end Translate

/-! ## Listeners -/

/-- `listener.Listener`, each filter chain by its filters. -/
structure Listener where
  name : String
  defaultFilterChain : Option (List NetworkFilter) := none
  filterChains : List (List NetworkFilter) := []
  deriving DecidableEq

/-- `PostHTTPListenerModifyRequest`; an extension resource is the WAF that its bytes decode to,
if they do. -/
structure ListenerRequest where
  listener : Listener
  extensionResources : List (Option WAF) := []

/-- `parseListenerGateway(listenerName)`: the first two parts of the name between slashes. -/
def parseListenerGateway (listenerName : String) : String × String :=
  match listenerName.toList.dropWhile (· ≠ '/') with
  | [] => ("", "")
  | _ :: rest =>
    (String.ofList (listenerName.toList.takeWhile (· ≠ '/')),
      String.ofList (rest.takeWhile (· ≠ '/')))

/-- What a target says about a gateway, where it decides. -/
def PolicyTarget.decides (t : PolicyTarget) (ns gwNS gwName : String) : Option Bool :=
  if t.kind = "Gateway" ∧ t.name = gwName then some (ns = gwNS ∨ gwNS = "")
  else if t.kind = "HTTPRoute" ∧ ns = gwNS then some true
  else none

/-- The targets in the order in which they are looked at. -/
def PolicyTargets.all (refs : PolicyTargets) : List PolicyTarget :=
  refs.targetRef.toList ++ refs.targetRefs

/-- `matchesGateway(p, gwNS, gwName)`: the first target that decides. -/
def matchesGateway (p : PortableConfig) (gwNS gwName : String) : Bool :=
  (p.policyTargets.all.findSome? fun t => t.decides p.ns gwNS gwName).getD false

section Listeners

variable (gzip : Gzip)

/-- `portableFromUnstructured(raw, opts)`, on the WAF that the bytes decode to. -/
def portableFromUnstructured (opts : BuildOptions) (waf : Option WAF) : Option PortableConfig :=
  waf.bind fun waf => (buildFromWAF gzip waf [] opts).toOption.map fun p =>
    { p with provider := .known .envoyGateway }

/-- `matchingConfigs(req)`; `cfgs` is the index in the order in which it is visited. -/
def matchingConfigs (s : ExtensionServer) (cfgs : List PortableConfig) (req : ListenerRequest) :
    List PortableConfig :=
  let fromPolicy := req.extensionResources.filterMap (portableFromUnstructured gzip s.opts)
  if fromPolicy ≠ [] then fromPolicy
  else
    let gw := parseListenerGateway req.listener.name
    if gw.2 = "" then [] else cfgs.filter fun p => matchesGateway p gw.1 gw.2

def injectFilters (l : Listener) (cfgs : List PortableConfig) : Listener :=
  { l with
    defaultFilterChain := l.defaultFilterChain.map fun fc => injectIntoFilterChain fc cfgs
    filterChains := l.filterChains.map fun fc => injectIntoFilterChain fc cfgs }

def postHTTPListenerModify (s : ExtensionServer) (cfgs : List PortableConfig)
    (req : ListenerRequest) : Listener :=
  let matching := matchingConfigs gzip s cfgs req
  if matching = [] then req.listener else injectFilters req.listener matching

end Listeners

end KubeWaf.Dataplane
