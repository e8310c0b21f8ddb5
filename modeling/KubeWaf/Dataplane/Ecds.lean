import KubeWaf.Dataplane.ExtensionServer

/-!
# The ECDS server

`internal/dataplane/ecds`: the extension configurations of a WAF (`wasm.go`) and the store that
serves them (`server.go`). Setting a snapshot succeeds: its resources are all of one type that the
snapshot cache knows, and the context of the call never ends.
-/

namespace KubeWaf.Dataplane

open Lib

/-! ## Extension configurations -/

/-- A `TypedExtensionConfig` with a Wasm filter: the plugin and the code that it runs. -/
structure TypedExtensionConfig where
  name : String
  pluginName : String
  rootID : String
  configuration : PluginJSON
  vmID : String
  codeURL : String
  codeCluster : String
  codeSHA256 : String
  deriving DecidableEq

/-- The text of a module ID. -/
def moduleText : Option ModuleID → String
  | none => ""
  | some .modSecurity => "modsecurity"
  | some .challenge => "challenge"

def ciliumPrefixedCluster (ns wafName loc : String) : String :=
  ns ++ "/" ++ ("kubewaf-" ++ wafName) ++ "/" ++ loc

def wasmFetchCluster (p : PortableConfig) : String :=
  if p.provider = .known .cilium ∧ p.ns ≠ "" ∧ p.name ≠ "" then
    ciliumPrefixedCluster p.ns p.name wasmCodeCluster
  else wasmCodeCluster

section Build

-- the scheme of a URL, or the error of `url.Parse`
variable (urlScheme : String → Except String String)

/-- The check of the URL in `buildVMConfig`. -/
def checkWasmURL (httpURL : String) : Except String Unit :=
  match urlScheme httpURL with
  | .error e => .error ("parse wasm HTTP URL: " ++ e)
  | .ok scheme =>
    if scheme ≠ "http" ∧ scheme ≠ "https" then
      .error ("wasm HTTP URL must be http(s), got " ++ Go.quoted scheme)
    else .ok ()

def buildOne (wasmCluster : String) (f : PortableFilter) : Except String TypedExtensionConfig :=
  if f.httpURL = "" then
    .error ("wasm HTTP URL is required for ECDS (module " ++ moduleText f.moduleID ++ ")")
  else if Go.trimSpace f.sha256 = "" then
    .error ("wasm SHA-256 is required for remote ECDS code (module " ++ moduleText f.moduleID
      ++ ", url " ++ f.httpURL ++ "); load the .wasm into the operator image or /wasm mount")
  else
    (checkWasmURL urlScheme f.httpURL).map fun _ =>
      { name := f.extensionName
        pluginName := f.wasmName
        rootID := f.rootID
        configuration := f.pluginJSON
        vmID := f.extensionName
        codeURL := f.httpURL
        codeCluster := wasmCluster
        codeSHA256 := Go.trimSpace f.sha256 }

/-- The filters of a configuration, the top-level fields where it has no list of them. -/
def ecdsFilters (p : PortableConfig) : List PortableFilter :=
  if p.filters = [] then
    [{ extensionName := p.extensionName, role := .waf, wasmName := p.wasmName, rootID := p.rootID,
       httpURL := p.httpURL, sha256 := p.sha256, pluginJSON := p.pluginJSON }]
  else p.filters

/-- A filter with the error that names it. -/
def buildFilter (wasmCluster : String) (f : PortableFilter) :
    Except String TypedExtensionConfig :=
  (buildOne urlScheme wasmCluster f).mapError fun e => "filter " ++ f.extensionName ++ ": " ++ e

def buildTypedExtensionConfigs (p : PortableConfig) : Except String (List TypedExtensionConfig) :=
  (ecdsFilters p).mapM (buildFilter urlScheme (wasmFetchCluster p))

end Build

/-! ## The store -/

/-- A snapshot of the cache; its version is the text of the number. -/
structure Snapshot where
  version : UInt64
  resources : GoMap String TypedExtensionConfig

/-- `ecds.Server` -/
structure EcdsServer where
  version : UInt64 := 0
  resources : GoMap String TypedExtensionConfig := ∅
  snapshot : Option Snapshot := none

def EcdsServer.publishLocked (s : EcdsServer) : EcdsServer :=
  let ver := s.version + 1
  { s with version := ver, snapshot := some { version := ver, resources := s.resources } }

def EcdsServer.new : EcdsServer := EcdsServer.publishLocked {}

/-- The names that belong to an extension: its own, and those behind it and a slash. -/
def belongsTo (extensionName name : String) : Bool :=
  name = extensionName || (extensionName ++ "/").toList.isPrefixOf name.toList

/-- The resources of a list of configurations, put into the map one after the other. -/
def putAll (resources : GoMap String TypedExtensionConfig) (tecs : List TypedExtensionConfig) :
    GoMap String TypedExtensionConfig :=
  tecs.foldl (fun m tec => m.insert tec.name tec) resources

/-- The part of `Upsert` that holds the lock. -/
def EcdsServer.replace (s : EcdsServer) (extensionName : String)
    (tecs : List TypedExtensionConfig) : EcdsServer :=
  EcdsServer.publishLocked
    { s with resources := putAll (s.resources.deleteWhere (belongsTo extensionName)) tecs }

/-- `Upsert(p)`, with the error. -/
def EcdsServer.upsert (urlScheme : String → Except String String) (s : EcdsServer)
    (p : PortableConfig) : EcdsServer × Option String :=
  match buildTypedExtensionConfigs urlScheme p with
  | .error e => (s, some e)
  | .ok tecs => (s.replace p.extensionName tecs, none)

def EcdsServer.delete (s : EcdsServer) (extensionName : String) : EcdsServer :=
  if s.resources.keys.any (belongsTo extensionName) then
    EcdsServer.publishLocked
      { s with resources := s.resources.deleteWhere (belongsTo extensionName) }
  else s

end KubeWaf.Dataplane
