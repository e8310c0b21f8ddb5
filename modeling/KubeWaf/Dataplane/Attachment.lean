import KubeWaf.Lib.GoStrings
import KubeWaf.Lib.SpliceBefore
import KubeWaf.Seclang.Types

/-!
# Attaching the filters of a WAF to a listener

A `PortableConfig` is attached to a data plane in one of three ways.

* Istio (`buildSpec`): an `EnvoyFilter`, a program of patches that Istio replays on the listener.
* Cilium (`httpFilters`): the whole filter list of the listener.
* Envoy Gateway (`injectIntoFilterChain`): a splice into the connection manager's filters.

Of a `PortableConfig` the fields are here that attaching it or publishing it reads.
-/

namespace KubeWaf.Dataplane

open Lib

/-- `config.FilterRole`. -/
inductive FilterRole where
  | challenge
  | waf
  deriving DecidableEq

/-- The constants of `wafv1beta1.ProviderType`. -/
inductive Provider where
  | auto
  | envoyGateway
  | istio
  | cilium
  deriving DecidableEq

abbrev ProviderType := Seclang.ApiEnum Provider

/-- `directives_map.default` of a plugin: the directives, or their encoded text. -/
inductive DirectivesPayload where
  | plain (directives : List (List UInt8))
  | encoded (text : List UInt8)
  deriving DecidableEq

/-- `PluginJSON`, as far as it holds rules or the secret of a challenge. An encoding that is not
set is empty. -/
structure PluginJSON where
  directives : DirectivesPayload := .plain []
  directivesEncoding : String := ""
  dataFiles : List (String × List UInt8) := []
  dataFilesEncoding : String := ""
  secret : String := ""
  deriving DecidableEq

/-- A target of a policy, by kind and name. -/
structure PolicyTarget where
  kind : String
  name : String
  deriving DecidableEq

/-- `PolicyTargetReferences`. -/
structure PolicyTargets where
  targetRef : Option PolicyTarget := none
  targetRefs : List PolicyTarget := []
  deriving DecidableEq

/-- `engine.ModuleID`. -/
inductive ModuleID where
  | modSecurity
  | challenge
  deriving DecidableEq

/-- `config.PortableFilter`. -/
structure PortableFilter where
  extensionName : String
  role : FilterRole := .waf
  wasmName : String := ""
  rootID : String := ""
  httpURL : String := ""
  sha256 : String := ""
  moduleID : Option ModuleID := none
  pluginJSON : PluginJSON := {}
  deriving DecidableEq

/-- `config.PortableConfig`. -/
structure PortableConfig where
  extensionName : String := ""
  ns : String := ""
  name : String := ""
  provider : ProviderType := .known .envoyGateway
  filters : List PortableFilter := []
  wasmName : String := ""
  rootID : String := ""
  httpURL : String := ""
  sha256 : String := ""
  ecdsCluster : String := ""
  ecdsHost : String := ""
  ecdsPort : ℕ := 0
  otelHost : String := ""
  otelPort : ℕ := 0
  telemetryManaged : Bool := false
  istioWorkloadSelector : List (String × String) := []
  istioContext : String := ""
  policyTargets : PolicyTargets := {}
  pluginJSON : PluginJSON := {}
  directives : List String := []
  deriving DecidableEq

def defaultECDSCluster : String := "kubewaf_ecds"
def defaultOTelCluster : String := "kubewaf_otel"
def defaultOTelPort : ℕ := 4317
def otelAccessLogStatPrefix : String := "kubewaf"

/-- What an HTTP filter of a connection manager is configured with. -/
inductive HttpFilterConfig where
  /-- `config_discovery`, with the gRPC cluster the configuration is fetched from. -/
  | discovery (cluster : String)
  /-- Any other `typed_config`, by its type. -/
  | typed (type : String)
  deriving DecidableEq

structure HttpFilter where
  name : String
  config : HttpFilterConfig
  deriving DecidableEq

def routerName : String := "envoy.filters.http.router"

def router : HttpFilter :=
  ⟨routerName, .typed "type.googleapis.com/envoy.extensions.filters.http.router.v3.Router"⟩

/-! ## Istio -/

/-- The clusters that an `EnvoyFilter` adds. -/
inductive ClusterValue where
  | ecds (name host : String) (port : ℕ)
  | otel (host : String) (port : ℕ)
  | wasmCode (host : String) (port : ℕ) (tls : Bool)
  deriving DecidableEq

/-- An entry of `configPatches`: a `CLUSTER`/`ADD`, or an `HTTP_FILTER`/`INSERT_BEFORE` with the
name of the filter that it matches. -/
inductive ConfigPatch where
  | addCluster (context : String) (value : ClusterValue)
  | insertBefore (context subFilter : String) (value : HttpFilter)
  deriving DecidableEq

/-- The spec of an `EnvoyFilter`. -/
structure EnvoyFilterSpec where
  workloadSelector : List (String × String)
  configPatches : List ConfigPatch
  priority : ℤ
  deriving DecidableEq

def ecdsFilterValueNamed (p : PortableConfig) (extensionName : String) : HttpFilter :=
  ⟨extensionName, .discovery p.ecdsCluster⟩

def ecdsClusterValue (p : PortableConfig) : ClusterValue :=
  .ecds p.ecdsCluster p.ecdsHost p.ecdsPort

/-- `xdsutil.OTelClusterMap(host, port)`. -/
def otelClusterMap (host : String) (port : ℕ) : ClusterValue :=
  .otel host (if port = 0 then defaultOTelPort else port)

section Istio

-- `ecds.WasmCodeClusterHostPort`: host and port of a URL, where `net/url` finds them
variable (wasmCodeClusterHostPort : String → Option (String × ℕ))

/-- `wasmCodeClusterValueURL(httpURL)`; `none` is the error. -/
def wasmCodeClusterValueURL (httpURL : String) : Option ClusterValue :=
  (wasmCodeClusterHostPort httpURL).map fun hp =>
    .wasmCode hp.1 hp.2 ("https://".toList.isPrefixOf httpURL.toList)

/-- The context of the patches, `GATEWAY` by default. -/
def patchContext (p : PortableConfig) : String :=
  if p.istioContext = "" then "GATEWAY" else p.istioContext

/-- The `filterNames` of `buildSpec`. -/
def filterNames (p : PortableConfig) : List String :=
  if p.filters = [] then [p.extensionName] else p.filters.map (·.extensionName)

/-- The URL that the Wasm cluster is built from: the first one of a filter, else the config's. -/
def wasmURL (p : PortableConfig) : String :=
  ((p.filters.find? fun f => f.httpURL ≠ "").map (·.httpURL)).getD p.httpURL

def buildSpec (p : PortableConfig) : EnvoyFilterSpec :=
  let selector :=
    if p.istioWorkloadSelector = [] then [("istio", "ingressgateway")]
    else p.istioWorkloadSelector
  let ctxName := patchContext p
  let patches := [.addCluster ctxName (ecdsClusterValue p)]
    ++ (if p.otelHost ≠ "" then [.addCluster ctxName (otelClusterMap p.otelHost p.otelPort)]
        else [])
    -- the loop over the names runs from the last one down to the first
    ++ (filterNames p).reverse.map fun name =>
        .insertBefore ctxName routerName (ecdsFilterValueNamed p name)
  let httpURL := wasmURL p
  let wasmCluster :=
    if httpURL ≠ "" then wasmCodeClusterValueURL wasmCodeClusterHostPort httpURL else none
  { workloadSelector := selector
    configPatches := (wasmCluster.map (.addCluster ctxName)).toList ++ patches
    priority := 10 }

end Istio

/-- What Istio does to the filters of a listener in `context` when it applies a patch: a filter
patch whose context selects the listener inserts its value immediately before the filter that it
matches. -/
def ConfigPatch.apply (context : String) (filters : List HttpFilter) :
    ConfigPatch → List HttpFilter
  | .addCluster _ _ => filters
  | .insertBefore ctx subFilter value =>
    if ctx = context ∨ ctx = "ANY" then
      Lib.insertBefore (fun f => f.name = subFilter) filters value
    else filters

/-- Istio applies the patches of one `EnvoyFilter` in the order of the list. -/
def EnvoyFilterSpec.apply (spec : EnvoyFilterSpec) (context : String)
    (filters : List HttpFilter) : List HttpFilter :=
  spec.configPatches.foldl (ConfigPatch.apply context) filters

/-! ## Cilium -/

def portableFilters (p : PortableConfig) : List PortableFilter :=
  if p.filters ≠ [] then p.filters
  else if p.httpURL = "" ∧ p.extensionName = "" then []
  else
    [{ extensionName := p.extensionName, role := .waf, wasmName := p.wasmName,
       rootID := p.rootID, httpURL := p.httpURL, sha256 := p.sha256 }]

def ecdsClusterName (p : PortableConfig) : String :=
  if p.ecdsCluster ≠ "" then p.ecdsCluster else defaultECDSCluster

def ecdsHTTPFilter (extensionName ecdsCluster : String) : HttpFilter :=
  ⟨extensionName, .discovery (if ecdsCluster = "" then defaultECDSCluster else ecdsCluster)⟩

/-- The name that `httpFilters` gives a filter: its extension name, else its Wasm name. -/
def stubName (f : PortableFilter) : Option String :=
  let name := if f.extensionName = "" then f.wasmName else f.extensionName
  if name = "" then none else some name

def httpFilters (p : PortableConfig) : List HttpFilter :=
  (portableFilters p).filterMap
      (fun f => (stubName f).map fun name => ecdsHTTPFilter name (ecdsClusterName p))
    ++ [router]

/-! ## Envoy Gateway -/

/-- An access logger of a connection manager: an OpenTelemetry one, or one of another type. -/
inductive AccessLog where
  | openTelemetry (statPrefix cluster : String)
  | other (name : String)
  deriving DecidableEq

/-- `hcm.HttpConnectionManager`, with the fields that the extension server works on. -/
structure HttpConnectionManager where
  httpFilters : List HttpFilter
  accessLog : List AccessLog := []
  deriving DecidableEq

/-- `listener.Filter`; `manager` is its typed config where that unpacks as a connection
manager. -/
structure NetworkFilter where
  name : String
  manager : Option HttpConnectionManager
  deriving DecidableEq

/-- `xdsutil.MakeECDSFilterStub`. -/
def makeECDSFilterStub (extensionName ecdsCluster : String) : HttpFilter :=
  ⟨extensionName, .discovery ecdsCluster⟩

/-- `xdsutil.MakeECDSFilterStubs(p)`. -/
def makeECDSFilterStubs (p : PortableConfig) : List HttpFilter :=
  if p.filters = [] then [makeECDSFilterStub p.extensionName p.ecdsCluster]
  else p.filters.map fun f => makeECDSFilterStub f.extensionName p.ecdsCluster

/-- `xdsutil.HasOTelAccessLog(mgr)`. -/
def hasOTelAccessLog (mgr : HttpConnectionManager) : Bool :=
  mgr.accessLog.any fun
    | .openTelemetry statPrefix _ => statPrefix = otelAccessLogStatPrefix
    | .other _ => false

/-- `xdsutil.AppendOTelAccessLog(mgr, cluster)`. -/
def appendOTelAccessLog (mgr : HttpConnectionManager) (cluster : String) :
    HttpConnectionManager :=
  if hasOTelAccessLog mgr then mgr
  else
    let cluster := if cluster = "" then defaultOTelCluster else cluster
    { mgr with accessLog := mgr.accessLog ++ [.openTelemetry otelAccessLogStatPrefix cluster] }

/-- The `toInsert` loop: the stubs whose name is not among `existing`, which grows with each one
that is taken. -/
def toInsert (existing : List String) : List HttpFilter → List HttpFilter
  | [] => []
  | stub :: stubs =>
    if stub.name ∈ existing then toInsert existing stubs
    else stub :: toInsert (stub.name :: existing) stubs

/-- The filters in front of which the stubs go. -/
def isRouter (hf : HttpFilter) : Bool :=
  hf.name = routerName || Go.hasSuffix hf.name.toList "router".toList

/-- The rest of the loop's body, once the stubs to insert are known. -/
def injectStubs (mgr : HttpConnectionManager) (stubs : List HttpFilter) (needAccessLog : Bool) :
    HttpConnectionManager :=
  if stubs = [] ∧ (needAccessLog = false ∨ hasOTelAccessLog mgr) then mgr
  else
    let mgr' :=
      if stubs = [] then mgr
      else
        { mgr with
          httpFilters :=
            (spliceBefore isRouter stubs mgr.httpFilters).getD (mgr.httpFilters ++ stubs) }
    if needAccessLog then appendOTelAccessLog mgr' defaultOTelCluster else mgr'

/-- The body of the loop of `injectIntoFilterChain`, on the manager that it has unpacked. -/
def injectIntoManager (mgr : HttpConnectionManager) (cfgs : List PortableConfig) :
    HttpConnectionManager :=
  injectStubs mgr (toInsert (mgr.httpFilters.map (·.name)) (cfgs.flatMap makeECDSFilterStubs))
    (cfgs.any (·.telemetryManaged))

/-- `injectIntoFilterChain(fc, cfgs)`, on the filters of the chain: the first one that holds a
connection manager is rewritten. -/
def injectIntoFilterChain (fc : List NetworkFilter) (cfgs : List PortableConfig) :
    List NetworkFilter :=
  match fc with
  | [] => []
  | f :: fs =>
    match f.manager with
    | none => f :: injectIntoFilterChain fs cfgs
    | some mgr => { f with manager := some (injectIntoManager mgr cfgs) } :: fs

end KubeWaf.Dataplane
